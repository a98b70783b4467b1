import Distsys.Echod.Acceptor

/-! Slots that nobody gives back (`echod.c`): an `accept` that is interrupted and a thread that cannot be
    created leave the counter raised. -/

namespace Distsys.Echod

/-- The step leaves a counted connection without a thread, and the loop goes on. -/
def Action.losesSlot {ι : Type} : Action ι → Bool
  | .accept .eintr | .pthreadCreate none => true
  | _ => false

section Slots
variable {ι : Type} [DecidableEq ι] {s : Server ι} {a : Action ι} {i : ι} {p q : AcceptorPosition}
  {as : List (Action ι)}

/-- The counter is the number of threads, and one more while the acceptor has a slot for the next. -/
def Server.Balanced (s : Server ι) : Prop := s.numActive = s.threads.card + s.slot

/-- What the counter has too much. -/
def Server.surplus (s : Server ι) : Int := s.numActive - s.threads.card - s.slot

omit [DecidableEq ι] in
theorem balanced_iff_surplus : s.Balanced ↔ s.surplus = 0 := by
  unfold Server.Balanced Server.surplus
  omega

omit [DecidableEq ι] in
theorem surplus_move {t : Server ι} (hp : s.position = p) (hq : t.position = q) (hactive : t.numActive = s.numActive)
    (hthreads : t.threads = s.threads) :
    t.surplus = s.surplus + ((if p.hasSlot then 1 else 0) - (if q.hasSlot then 1 else 0)) := by
  unfold Server.surplus
  rw [slot_eq hp, slot_eq hq, hactive, hthreads]
  omega

theorem surplus_count (hp : s.position = .testing) : (s.next .count).surplus = s.surplus := by
  have hslot : s.slot = 0 := slot_eq hp
  unfold Server.next Server.surplus
  rw [hslot]
  dsimp only
  split
  · rfl
  · show s.numActive + 1 - s.threads.card - 1 = s.numActive - s.threads.card - 0
    omega

theorem surplus_create (hp : s.position = .allocated) (hi : i ∉ s.threads) :
    (s.next (.pthreadCreate (some i))).surplus = s.surplus := by
  have hslot : s.slot = 1 := slot_eq hp
  have hnext : (s.next (.pthreadCreate (some i))).slot = 0 := rfl
  unfold Server.surplus
  rw [card_create hi, hslot, hnext]
  show s.numActive - _ - 0 = _
  omega

theorem surplus_leave (hi : i ∈ s.threads) : (s.next (.leave i)).surplus = s.surplus := by
  unfold Server.surplus
  rw [card_leave hi, slot_leave]
  show s.numActive - 1 - _ - _ = _
  omega

/-- While the server runs, the surplus goes up by the slots that are lost, and never goes down. -/
theorem surplus_next (he : s.Enabled a) (hrun : (s.next a).serverRunning = true) :
    (s.next a).surplus = s.surplus + if a.losesSlot then 1 else 0 := by
  match a with
  | .loop =>
    have hs : s.serverRunning = true := hrun
    exact surplus_move (q := .testing) he (by simp [Server.next, hs]) rfl rfl
  | .count => exact (surplus_count he).trans (Int.add_zero _).symm
  | .wake =>
    rcases he with he | he
    · exact surplus_move (q := .testing) he rfl rfl rfl
    · exact surplus_move (q := .testing) he rfl rfl rfl
  | .accept .connection => exact surplus_move (q := .accepted) he rfl rfl rfl
  | .accept .eintr => exact surplus_move (q := .loopHead) he rfl rfl rfl
  | .accept .error | .malloc false => cases hrun
  | .malloc true => exact surplus_move (q := .allocated) he rfl rfl rfl
  | .pthreadCreate none => exact surplus_move (q := .loopHead) he rfl rfl rfl
  | .pthreadCreate (some _) => exact (surplus_create he.1 he.2).trans (Int.add_zero _).symm
  | .leave _ => exact (surplus_leave he).trans (Int.add_zero _).symm
  | .exit _ | .ret => exact (Int.add_zero _).symm

theorem running_of_next (hrun : (s.next a).serverRunning = true) : s.serverRunning = true := by
  match a with
  | .accept .error | .malloc false => cases hrun
  | .loop | .wake | .accept .connection | .accept .eintr | .malloc true | .pthreadCreate none | .pthreadCreate (some _)
  | .leave _ | .exit _ | .ret => exact hrun
  | .count =>
    unfold Server.next at hrun
    dsimp only at hrun
    split at hrun <;> exact hrun

theorem surplus_after (h : (echodSystem ι).Allows (fun _ _ => True) (echodSystem ι).init as)
    (hrun : ((echodSystem ι).after as).serverRunning = true) :
    ((echodSystem ι).after as).surplus = (as.countP Action.losesSlot : Nat) := by
  refine System.after_invariant (Q := fun (s : Server ι) taken => s.serverRunning = true →
    s.surplus = (taken.countP Action.losesSlot : Nat))
    (fun _ => rfl) (fun s taken a hs he _ hrun => ?_) h hrun
  have hnext := surplus_next he.2 hrun
  rw [hs (running_of_next hrun)] at hnext
  rw [List.countP_append, List.countP_singleton, Int.natCast_add]
  refine hnext.trans ?_
  split <;> rfl

end Slots

/-- For every run and as long as the server runs: the counter is balanced exactly when no `accept` was
    interrupted and every thread could be created. -/
theorem balanced_iff {ι : Type} [DecidableEq ι] {as : List (Action ι)}
    (h : (echodSystem ι).Allows (fun _ _ => True) (echodSystem ι).init as)
    (hrun : ((echodSystem ι).after as).serverRunning = true) :
    ((echodSystem ι).after as).Balanced ↔ ∀ a ∈ as, a.losesSlot = false := by
  rw [balanced_iff_surplus, surplus_after h hrun]
  norm_cast
  rw [List.countP_eq_zero]
  simp

theorem balanced_iff_example : ((echodSystem Nat).after threeClients).Balanced ↔
    ∀ a ∈ threeClients, a.losesSlot = false :=
  balanced_iff (by decide) (by decide)

/-- An `accept` that a signal interrupts. -/
def interruptedAccept : List (Action Nat) := [.loop, .count, .accept .eintr]

/-- The slot is never given back; after three of them the acceptor waits for a thread, and there is none. -/
theorem interruptedAccept_keeps_slot : ¬(∀ s, (echodSystem Nat).Reaches s → s.serverRunning = true → s.Balanced) ∧
    (echodSystem Nat).after ((List.replicate 3 interruptedAccept).flatten ++ [.loop, .count]) =
      ⟨true, 3, .waiting false, ∅, true⟩ := by
  refine ⟨fun h => ?_, rfl⟩
  have hrun : (echodSystem Nat).Reaches ((echodSystem Nat).after interruptedAccept) :=
    System.reachesBy_after (by decide)
  have hbalanced := h _ hrun rfl
  cases hbalanced

end Distsys.Echod
