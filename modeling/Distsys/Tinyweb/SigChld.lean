import Mathlib.Data.Finset.Basic
import Distsys.Lib.System

/-! The children of a process that handles SIGCHLD with `sig_handler` (`src/tinyweb.c`), and the server as
    such a process. Exits that come before a delivery share one pending signal. -/

namespace Distsys.Tinyweb

/-- The status that `wait` stores. -/
inductive WaitStatus where
  | exited (code : UInt8)
  | signaled (sig : Nat)
  deriving DecidableEq, Repr

/-- `WIFEXITED` -/
def WaitStatus.wifexited : WaitStatus → Bool
  | .exited _ => true
  | .signaled _ => false

/-- A child that has ended and has not been waited for. -/
structure Zombie (π : Type) where
  pid : π
  status : WaitStatus
  deriving DecidableEq

/-- Where the process is in the SIGCHLD case of `sig_handler`. The signal is blocked outside `idle`. -/
inductive Handler where
  | idle
  /-- At a `waitpid` of the loop. -/
  | loop
  /-- Behind the loop. -/
  | leaving
  deriving DecidableEq, Repr

/-- The parent of children, with the signal that their end sends to it. -/
structure Process (π : Type) where
  running : Finset π
  zombies : Finset (Zombie π)
  pending : Bool
  handler : Handler

/-! ### Children and their signal -/

/-- The ends of the children, and the steps of the handler. -/
inductive ChildEvent (π : Type) where
  | exit (pid : π) (status : WaitStatus)
  | deliver
  /-- `waitpid` returns a child. -/
  | reap (z : Zombie π)
  /-- `waitpid` finds no child that has ended. -/
  | noMore
  | leave

section Process
variable {π : Type} [DecidableEq π]

/-- When a step can happen. -/
def Process.Enabled (p : Process π) : ChildEvent π → Prop
  | .exit pid _ => pid ∈ p.running
  | .deliver => p.pending = true ∧ p.handler = .idle
  | .reap z => p.handler = .loop ∧ z ∈ p.zombies
  | .noMore => p.handler = .loop ∧ p.zombies = ∅
  | .leave => p.handler = .leaving

instance (p : Process π) : ∀ e, Decidable (p.Enabled e)
  | .exit pid _ => inferInstanceAs (Decidable (pid ∈ p.running))
  | .deliver => inferInstanceAs (Decidable (_ ∧ _))
  | .reap z => inferInstanceAs (Decidable (_ ∧ z ∈ p.zombies))
  | .noMore => inferInstanceAs (Decidable (_ ∧ p.zombies = ∅))
  | .leave => inferInstanceAs (Decidable (_ = _))

/-- What a step does. The kernel keeps one pending signal, however many children have ended. -/
def Process.next (p : Process π) : ChildEvent π → Process π
  | .exit pid status =>
    { p with running := p.running.erase pid, zombies := insert ⟨pid, status⟩ p.zombies, pending := true }
  | .deliver => { p with pending := false, handler := .loop }
  | .reap z => { p with zombies := p.zombies.erase z }
  | .noMore => { p with handler := .leaving }
  | .leave => { p with handler := .idle }

/-- A child that has ended has a signal on the way, or the loop will come to it. -/
def Process.Watched (p : Process π) : Prop := p.zombies.Nonempty → p.pending = true ∨ p.handler = .loop

theorem Process.Watched.next {p : Process π} (h : p.Watched) : ∀ {e : ChildEvent π}, p.Enabled e → (p.next e).Watched
  | .exit _ _, _ => fun _ => Or.inl rfl
  | .deliver, _ => fun _ => Or.inr rfl
  | .reap _, he => fun _ => Or.inr he.1
  | .noMore, he => fun hz => absurd he.2 hz.ne_empty
  | .leave, he => fun hz => by
    rcases h hz with hp | hl
    · exact Or.inl hp
    · cases hl.symm.trans he

end Process

/-! ### The server -/

/-- A fork of `accept_client`, or what happens to the children. -/
inductive ServerAction (π : Type) where
  | fork (pid : π)
  | child (e : ChildEvent π)

section Server
variable {π : Type} [DecidableEq π]

/-- The server from the first `signal(SIGCHLD, sig_handler)` on. A new child gets a process id that no other
    child has, and there may be any number of them; a fork is even allowed while the handler runs. -/
def serverSystem (π : Type) [DecidableEq π] : System (Process π) (ServerAction π) where
  init := ⟨∅, ∅, false, .idle⟩
  enabled
    | p, .fork pid => pid ∉ p.running ∧ ∀ z ∈ p.zombies, z.pid ≠ pid
    | p, .child e => p.Enabled e
  next
    | p, .fork pid => { p with running := insert pid p.running }
    | p, .child e => p.next e

instance (p : Process π) : ∀ a, Decidable ((serverSystem π).enabled p a)
  | .fork pid => inferInstanceAs (Decidable (pid ∉ p.running ∧ ∀ z ∈ p.zombies, z.pid ≠ pid))
  | .child e => inferInstanceAs (Decidable (p.Enabled e))

theorem watched_of_reaches {p : Process π} (h : (serverSystem π).Reaches p) : p.Watched := by
  refine h.invariant ?_ ?_
  · intro hz
    cases hz.ne_empty rfl
  · intro p a hp he
    cases a with
    | fork pid => exact hp
    | child e => exact hp.next he

end Server

/-- A zombie is always watched, and none is left once no signal is pending and the handler is idle. -/
theorem zombies_watched {π : Type} [DecidableEq π] {p : Process π} (h : (serverSystem π).Reaches p) :
    (p.zombies.Nonempty → p.pending = true ∨ p.handler = .loop) ∧
      (p.pending = false → p.handler = .idle → p.zombies = ∅) := by
  have hw := watched_of_reaches h
  refine ⟨hw, fun hp hi => ?_⟩
  by_contra hz
  rcases hw (Finset.nonempty_iff_ne_empty.mpr hz) with h | h
  · cases h.symm.trans hp
  · cases h.symm.trans hi

/-- Two exits share one signal, and a third child ends behind the last `waitpid` of the handler. -/
def lateExit : List (ServerAction Nat) :=
  [.fork 1, .fork 2, .fork 3, .child (.exit 1 (.exited 0)), .child (.exit 2 (.signaled 9)), .child .deliver,
    .child (.reap ⟨2, .signaled 9⟩), .child (.reap ⟨1, .exited 0⟩), .child .noMore, .child (.exit 3 (.exited 0)),
    .child .leave]

theorem zombies_watched_example : ((serverSystem Nat).after lateExit).zombies = {⟨3, .exited 0⟩} ∧
    (((serverSystem Nat).after lateExit).zombies.Nonempty →
      ((serverSystem Nat).after lateExit).pending = true ∨ ((serverSystem Nat).after lateExit).handler = .loop) ∧
    (((serverSystem Nat).after lateExit).pending = false → ((serverSystem Nat).after lateExit).handler = .idle →
      ((serverSystem Nat).after lateExit).zombies = ∅) :=
  ⟨by decide, zombies_watched (System.reachesBy_after (by decide))⟩

end Distsys.Tinyweb
