import Distsys.Tinyweb.SigChld

/-! The process of a connection waiting for its script: `wait` in `handle_client` and the loop of
    `sig_handler` in the same process (`src/tinyweb.c`), both ready to reap the one child. -/

namespace Distsys.Tinyweb

/-- Where `handle_client` is, behind the fork of the script. -/
inductive CgiPosition where
  /-- Before or in `wait`. -/
  | waiting
  /-- Before the test of the status, which `wait` has set unless it failed. -/
  | tested (status : Option WaitStatus)
  /-- `exit(EXIT_SUCCESS)` -/
  | exited
  /-- `return -1` -/
  | failed
  deriving DecidableEq, Repr

def CgiPosition.isTested : CgiPosition → Bool
  | .tested _ => true
  | .waiting | .exited | .failed => false

/-- The process with its child, which needs no number. -/
structure CgiParent where
  process : Process Unit
  /-- How the child has ended. -/
  ended : Option WaitStatus
  position : CgiPosition

/-- What the child, the signal and the process that waits can do. -/
inductive CgiAction where
  | child (e : ChildEvent Unit)
  /-- `wait` returns: with the child, or without one when there is none left. A handler that comes
      in between only restarts it (`SA_RESTART`). -/
  | wait (child : Option (Zombie Unit))
  /-- The test of the status. A status that was never set may count as either. -/
  | test (unset : Bool)

/-- From the fork on. The program goes on only while no handler runs. -/
def cgiSystem : System CgiParent CgiAction where
  init := ⟨⟨{()}, ∅, false, .idle⟩, none, .waiting⟩
  enabled
    | s, .child e => s.process.Enabled e
    | s, .wait (some z) => s.position = .waiting ∧ s.process.handler = .idle ∧ z ∈ s.process.zombies
    | s, .wait none =>
      s.position = .waiting ∧ s.process.handler = .idle ∧ s.process.running = ∅ ∧ s.process.zombies = ∅
    | s, .test _ => s.process.handler = .idle ∧ s.position.isTested = true
  next
    | s, .child e => { s with
        process := s.process.next e
        ended := match e with
          | .exit _ status => some status
          | _ => s.ended }
    | s, .wait (some z) => { s with
        process := { s.process with zombies := s.process.zombies.erase z }
        position := .tested (some z.status) }
    | s, .wait none => { s with position := .tested none }
    | s, .test unset => { s with position := match s.position with
        | .tested (some status) => if status.wifexited then .exited else .failed
        | .tested none => if unset then .exited else .failed
        | p => p }

instance (s : CgiParent) : ∀ a, Decidable (cgiSystem.enabled s a)
  | .child e => inferInstanceAs (Decidable (s.process.Enabled e))
  | .wait (some z) => inferInstanceAs (Decidable (_ ∧ _ ∧ z ∈ s.process.zombies))
  | .wait none => inferInstanceAs (Decidable (_ ∧ _ ∧ s.process.running = ∅ ∧ s.process.zombies = ∅))
  | .test _ => inferInstanceAs (Decidable (_ ∧ _))

/-- Once the child has exited, its status is the one tested, and the test takes the way of success. -/
def CgiParent.SeesExit (s : CgiParent) : Prop := ∀ code, s.ended = some (.exited code) →
  (∀ status, s.position = .tested status → status = some (.exited code)) ∧ s.position ≠ .failed

/-- SIGCHLD is delivered. -/
def CgiAction.isDelivery : CgiAction → Bool
  | .child .deliver => true
  | _ => false

/-- SIGCHLD is not delivered while a child that has exited is still to be reaped: `wait` comes first. -/
def WaitFirst (s : CgiParent) (a : CgiAction) : Prop :=
  a.isDelivery = true → ∀ z ∈ s.process.zombies, z.status.wifexited = false

instance (s : CgiParent) (a : CgiAction) : Decidable (WaitFirst s a) :=
  inferInstanceAs (Decidable (_ → ∀ z ∈ s.process.zombies, z.status.wifexited = false))

/-! ### Runs in which the wait comes first -/

/-- The child runs, has exited, has been reaped by `wait`, or was killed. -/
inductive CgiParent.Phase : CgiParent → Prop
  | running : Phase ⟨⟨{()}, ∅, false, .idle⟩, none, .waiting⟩
  | zombie (code : UInt8) (pending : Bool) :
    Phase ⟨⟨∅, {⟨(), .exited code⟩}, pending, .idle⟩, some (.exited code), .waiting⟩
  | reaped (code : UInt8) (pending : Bool) (handler : Handler) (position : CgiPosition)
      (h : position = .tested (some (.exited code)) ∨ position = .exited) :
    Phase ⟨⟨∅, ∅, pending, handler⟩, some (.exited code), position⟩
  | killed (s : CgiParent) (sig : Nat) (hrunning : s.process.running = ∅)
  (hended : s.ended = some (.signaled sig)) : Phase s

section Phase
variable {s : CgiParent} {a : CgiAction} {code : UInt8} {pending : Bool} {handler : Handler} {position : CgiPosition}

theorem phase_running_next (hs : s = ⟨⟨{()}, ∅, false, .idle⟩, none, .waiting⟩) (he : cgiSystem.enabled s a) :
    (cgiSystem.next s a).Phase := by
  subst hs
  match a with
  | .child (.exit () (.exited code)) => exact .zombie code true
  | .child (.exit () (.signaled sig)) => exact .killed _ sig rfl rfl
  | .child .deliver => cases he.1
  | .child (.reap _) | .child .noMore => cases he.1
  | .child .leave => cases he
  | .wait (some _) => cases he.2.2
  | .wait none => exact absurd he.2.2.1 (Finset.singleton_ne_empty ())
  | .test _ => cases he.2

theorem phase_zombie_next (hs : s = ⟨⟨∅, {⟨(), .exited code⟩}, pending, .idle⟩, some (.exited code), .waiting⟩)
    (he : cgiSystem.enabled s a) (ho : WaitFirst s a) : (cgiSystem.next s a).Phase := by
  subst hs
  match a with
  | .child (.exit () _) => cases he
  | .child .deliver => cases ho rfl _ (Finset.mem_singleton_self _)
  | .child (.reap _) | .child .noMore => cases he.1
  | .child .leave => cases he
  | .wait (some z) =>
    obtain rfl : z = ⟨(), .exited code⟩ := Finset.mem_singleton.mp he.2.2
    have hempty : ({⟨(), .exited code⟩} : Finset (Zombie Unit)).erase ⟨(), .exited code⟩ = ∅ := Finset.erase_singleton _
    have h := CgiParent.Phase.reaped code pending .idle (.tested (some (.exited code))) (Or.inl rfl)
    rwa [← hempty] at h
  | .wait none => exact absurd he.2.2.2 (Finset.singleton_ne_empty _)
  | .test _ => cases he.2

theorem phase_reaped_next (h : position = .tested (some (.exited code)) ∨ position = .exited)
    (hs : s = ⟨⟨∅, ∅, pending, handler⟩, some (.exited code), position⟩) (he : cgiSystem.enabled s a) :
    (cgiSystem.next s a).Phase := by
  subst hs
  have hwaiting : position ≠ .waiting := by
    rcases h with rfl | rfl
    · exact nofun
    · exact nofun
  match a with
  | .child (.exit () _) => cases he
  | .child .deliver => exact .reaped code false .loop position h
  | .child (.reap _) => cases he.2
  | .child .noMore => exact .reaped code pending .leaving position h
  | .child .leave => exact .reaped code pending .idle position h
  | .wait (some _) => exact absurd he.1 hwaiting
  | .wait none => exact absurd he.1 hwaiting
  | .test _ =>
    rcases h with rfl | rfl
    · exact .reaped code pending handler .exited (Or.inr rfl)
    · cases he.2

theorem phase_killed_next {sig : Nat} (hrunning : s.process.running = ∅) (hended : s.ended = some (.signaled sig))
    (he : cgiSystem.enabled s a) : (cgiSystem.next s a).Phase := by
  match a with
  | .child (.exit () _) =>
    have hmem : () ∈ s.process.running := he
    rw [hrunning] at hmem
    cases hmem
  | .child .deliver | .child (.reap _) | .child .noMore | .child .leave => exact .killed _ sig hrunning hended
  | .wait (some _) | .wait none | .test _ => exact .killed _ sig hrunning hended

theorem CgiParent.Phase.next (h : s.Phase) (he : cgiSystem.enabled s a) (ho : WaitFirst s a) :
    (cgiSystem.next s a).Phase := by
  cases h with
  | running => exact phase_running_next rfl he
  | zombie code pending => exact phase_zombie_next rfl he ho
  | reaped code pending handler position h => exact phase_reaped_next h rfl he
  | killed _ sig hrunning hended => exact phase_killed_next hrunning hended he

theorem CgiParent.Phase.seesExit (h : s.Phase) : s.SeesExit := by
  intro code hended
  cases h with
  | running => cases hended
  | zombie code pending => exact ⟨nofun, nofun⟩
  | reaped code pending handler position h =>
    cases hended
    rcases h with rfl | rfl
    · exact ⟨fun status hs => (CgiPosition.tested.inj hs).symm, nofun⟩
    · exact ⟨nofun, nofun⟩
  | killed _ sig hrunning hkilled => cases hkilled.symm.trans hended

end Phase

/-- Whatever the order of its steps otherwise: as long as every delivery finds an exited child reaped by `wait`,
    the process sees the exit of its child. -/
theorem seesExit_of_waitFirst {s : CgiParent} (h : cgiSystem.ReachesBy WaitFirst s) : s.SeesExit :=
  (h.invariant .running fun _ _ hp he ho => CgiParent.Phase.next hp he ho).seesExit

theorem seesExit_of_waitFirst_example :
    (cgiSystem.after [.child (.exit () (.exited 0)), .wait (some ⟨(), .exited 0⟩), .child .deliver]).SeesExit :=
  seesExit_of_waitFirst (System.reachesBy_after (by decide))

/-- The script ends before the signal is delivered, and the signal is delivered before `wait`. -/
def handlerFirst : List CgiAction :=
  [.child (.exit () (.exited 0)), .child .deliver, .child (.reap ⟨(), .exited 0⟩), .child .noMore, .child .leave,
    .wait none, .test false]

/-- The status was never set, and the process takes the way of failure although its child exited with 0. -/
theorem handlerFirst_fails : ¬∀ s, cgiSystem.Reaches s → s.SeesExit := by
  intro h
  have hrun : cgiSystem.Reaches (cgiSystem.after handlerFirst) := System.reachesBy_after (by decide)
  exact (h _ hrun 0 rfl).2 rfl

end Distsys.Tinyweb
