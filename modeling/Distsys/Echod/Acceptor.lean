import Mathlib.Data.Finset.Card
import Distsys.Lib.System

/-! The slots of the echo server (`echod.c`): `accept_clients` counts a connection before it accepts it, and
    the thread that serves the connection takes it back. The two critical sections are atomic. -/

namespace Distsys.Echod

/-- The number of threads that serve clients at the same time. -/
def MAX_NUM_THREADS : Int := 3

/-! ### The acceptor and its threads -/

/-- Where `accept_clients` is in its loop. -/
inductive AcceptorPosition where
  /-- Before the test of `server_running`. -/
  | loopHead
  /-- Before the test of `num_active`: new in the critical section, or awake again. -/
  | testing
  /-- In `pthread_cond_wait`, with a wake-up due or not. -/
  | waiting (due : Bool)
  /-- Behind the increment, before or in `accept`. -/
  | counted
  /-- Before `malloc`. -/
  | accepted
  /-- Before `pthread_create`. -/
  | allocated
  /-- Behind the loop. -/
  | left
  deriving DecidableEq, Repr

/-- Between the increment and the hand-over of the connection to a thread. -/
def AcceptorPosition.hasSlot : AcceptorPosition → Bool
  | .counted | .accepted | .allocated => true
  | .loopHead | .testing | .waiting _ | .left => false

/-- The server: what `accept_clients` and its threads share, and which threads there are. -/
structure Server (ι : Type) where
  serverRunning : Bool
  numActive : Int
  position : AcceptorPosition
  /-- The slave threads that were created and have not yet done their decrement. -/
  threads : Finset ι
  /-- The process is still there: neither `main` has returned nor a thread has called `exit`. -/
  alive : Bool

/-- What `accept` returns: a new descriptor, or -1, for a signal or another reason. -/
inductive AcceptOutcome where
  | connection
  | eintr
  | error
  deriving DecidableEq, Repr

/-- The steps of the acceptor and of the threads that matter to the counter. -/
inductive Action (ι : Type) where
  /-- The test of `server_running`. -/
  | loop
  /-- The test of `num_active`, and the increment unless it waits. -/
  | count
  /-- `pthread_cond_wait` returns, for a signal or without one. -/
  | wake
  | accept (r : AcceptOutcome)
  | malloc (ok : Bool)
  | pthreadCreate (thread : Option ι)
  /-- The decrement of a slave thread, and its signal. -/
  | leave (i : ι)
  /-- The `malloc` of a slave thread fails, and it calls `exit`. -/
  | exit (i : ι)
  /-- `main` returns. -/
  | ret

section Acceptor
variable {ι : Type} [DecidableEq ι]

/-- `pthread_cond_signal`: wakes the acceptor if it waits, and is lost otherwise. -/
def AcceptorPosition.signal : AcceptorPosition → AcceptorPosition
  | .waiting _ => .waiting true
  | position => position

/-- Where the acceptor and the threads must be for a step. -/
def Server.Enabled (s : Server ι) : Action ι → Prop
  | .loop => s.position = .loopHead
  | .count => s.position = .testing
  | .wake => s.position = .waiting true ∨ s.position = .waiting false
  | .accept _ => s.position = .counted
  | .malloc _ => s.position = .accepted
  | .pthreadCreate none => s.position = .allocated
  | .pthreadCreate (some i) => s.position = .allocated ∧ i ∉ s.threads
  | .leave i | .exit i => i ∈ s.threads
  | .ret => s.position = .left

instance (s : Server ι) : ∀ a, Decidable (s.Enabled a)
  | .loop | .count | .accept _ | .malloc _ | .pthreadCreate none | .ret => inferInstanceAs (Decidable (_ = _))
  | .wake => inferInstanceAs (Decidable (_ ∨ _))
  | .pthreadCreate (some i) => inferInstanceAs (Decidable (_ ∧ i ∉ s.threads))
  | .leave i | .exit i => inferInstanceAs (Decidable (i ∈ s.threads))

/-- What a step does. A failure of `accept` or `malloc` ends the loop, and it keeps the slot that was counted. -/
def Server.next (s : Server ι) : Action ι → Server ι
  | .loop => { s with position := if s.serverRunning then .testing else .left }
  | .count =>
    if s.numActive = MAX_NUM_THREADS then { s with position := .waiting false }
    else { s with numActive := s.numActive + 1, position := .counted }
  | .wake => { s with position := .testing }
  | .accept .connection => { s with position := .accepted }
  | .accept .eintr => { s with position := .loopHead }
  | .accept .error => { s with serverRunning := false, position := .loopHead }
  | .malloc true => { s with position := .allocated }
  | .malloc false => { s with serverRunning := false, position := .loopHead }
  -- The result of `pthread_create` is not looked at.
  | .pthreadCreate none => { s with position := .loopHead }
  | .pthreadCreate (some i) => { s with threads := insert i s.threads, position := .loopHead }
  | .leave i => { s with
      numActive := s.numActive - 1
      threads := s.threads.erase i
      position := if s.numActive - 1 = MAX_NUM_THREADS - 1 then s.position.signal else s.position }
  | .exit _ | .ret => { s with alive := false }

/-- From the start of the loop on. `slave_thread_info` is a global variable, and so all zero. -/
def echodSystem (ι : Type) [DecidableEq ι] : System (Server ι) (Action ι) where
  init := ⟨true, 0, .loopHead, ∅, true⟩
  enabled s a := s.alive = true ∧ s.Enabled a
  next := Server.next

instance (s : Server ι) (a : Action ι) : Decidable ((echodSystem ι).enabled s a) :=
  inferInstanceAs (Decidable (_ ∧ s.Enabled a))

/-- What the acceptor holds of the counter. -/
def Server.slot (s : Server ι) : Int := if s.position.hasSlot then 1 else 0

/-! ### No lost wake-up -/

/-- The counter is within its limit and covers the threads and the slot of the acceptor; the acceptor waits
    without a wake-up due only while the counter is at its limit. -/
structure Server.Covered (s : Server ι) : Prop where
  active : s.numActive ≤ MAX_NUM_THREADS
  covers : s.threads.card + s.slot ≤ s.numActive
  waits : s.position = .waiting false → s.numActive = MAX_NUM_THREADS

variable {s : Server ι} {a : Action ι} {i : ι} {p q : AcceptorPosition}

omit [DecidableEq ι] in
theorem slot_eq (h : s.position = p) : s.slot = if p.hasSlot then 1 else 0 := by
  rw [← h]
  rfl

theorem hasSlot_signal : p.signal.hasSlot = p.hasSlot := by
  cases p <;> rfl

theorem signal_ne_waiting : p.signal ≠ .waiting false := by
  cases p <;> simp [AcceptorPosition.signal]

theorem slot_leave : (s.next (.leave i)).slot = s.slot := by
  unfold Server.slot Server.next
  dsimp only
  split
  · rw [hasSlot_signal]
  · rfl

theorem card_leave (h : i ∈ s.threads) : ((s.next (.leave i)).threads.card : Int) = s.threads.card - 1 := by
  show ((s.threads.erase i).card : Int) = _
  have hpos := Finset.card_pos.mpr ⟨i, h⟩
  rw [Finset.card_erase_of_mem h]
  omega

theorem card_create (h : i ∉ s.threads) :
    ((s.next (.pthreadCreate (some i))).threads.card : Int) = s.threads.card + 1 := by
  show ((insert i s.threads).card : Int) = _
  rw [Finset.card_insert_of_notMem h]
  rfl

theorem Server.Covered.leave (h : s.Covered) (hi : i ∈ s.threads) : (s.next (.leave i)).Covered where
  active := by
    show s.numActive - 1 ≤ _
    have := h.active
    omega
  covers := by
    rw [slot_leave, card_leave hi]
    show _ ≤ s.numActive - 1
    have := h.covers
    omega
  waits hw := by
    -- The counter was at its limit, so the decrement has sent the signal.
    change (if s.numActive - 1 = MAX_NUM_THREADS - 1 then s.position.signal else s.position) = _ at hw
    split at hw
    · exact absurd hw signal_ne_waiting
    · next hne =>
      have := h.waits hw
      omega

theorem Server.Covered.count (h : s.Covered) (hp : s.position = .testing) : (s.next .count).Covered := by
  have hslot : s.slot = 0 := slot_eq hp
  have hactive := h.active
  have hcovers := h.covers
  unfold Server.next
  dsimp only
  split
  · next hmax => exact ⟨hactive, by rw [hslot] at hcovers; exact hcovers, fun _ => hmax⟩
  · next hlt =>
    refine ⟨?_, ?_, nofun⟩
    · show s.numActive + 1 ≤ MAX_NUM_THREADS
      omega
    · show (s.threads.card : Int) + 1 ≤ s.numActive + 1
      omega

omit [DecidableEq ι] in
/-- A step of the acceptor that leaves the counter and the threads alone, and takes no slot. -/
theorem Server.Covered.move {t : Server ι} (h : s.Covered) (hp : s.position = p) (hq : t.position = q)
    (hactive : t.numActive = s.numActive) (hthreads : t.threads = s.threads)
    (hslot : q.hasSlot = true → p.hasSlot = true) (hwaits : q ≠ .waiting false) : t.Covered where
  active := hactive ▸ h.active
  covers := by
    have hle : t.slot ≤ s.slot := by
      rw [slot_eq hp, slot_eq hq]
      split
      · next hslot' => rw [if_pos (hslot hslot')]
      · split <;> decide
    have := h.covers
    rw [hactive, hthreads]
    omega
  waits hw := absurd (hq.symm.trans hw) hwaits

theorem Server.Covered.create (h : s.Covered) (hp : s.position = .allocated) (hi : i ∉ s.threads) :
    (s.next (.pthreadCreate (some i))).Covered where
  active := h.active
  covers := by
    have := h.covers
    rw [slot_eq hp] at this
    rw [card_create hi]
    exact this
  waits := nofun

theorem Server.Covered.next (h : s.Covered) (he : s.Enabled a) : (s.next a).Covered := by
  match a with
  | .loop =>
    cases hrun : s.serverRunning with
    | true => exact h.move (q := .testing) he (by simp [Server.next, hrun]) rfl rfl nofun nofun
    | false => exact h.move (q := .left) he (by simp [Server.next, hrun]) rfl rfl nofun nofun
  | .count => exact h.count he
  | .wake =>
    rcases he with he | he
    · exact h.move (q := .testing) he rfl rfl rfl nofun nofun
    · exact h.move (q := .testing) he rfl rfl rfl nofun nofun
  | .accept .connection => exact h.move (q := .accepted) he rfl rfl rfl id nofun
  | .accept .eintr | .accept .error => exact h.move (q := .loopHead) he rfl rfl rfl nofun nofun
  | .malloc true => exact h.move (q := .allocated) he rfl rfl rfl id nofun
  | .malloc false => exact h.move (q := .loopHead) he rfl rfl rfl nofun nofun
  | .pthreadCreate none => exact h.move (q := .loopHead) he rfl rfl rfl nofun nofun
  | .pthreadCreate (some _) => exact h.create he.1 he.2
  | .leave _ => exact h.leave he
  | .exit _ | .ret => exact ⟨h.active, h.covers, h.waits⟩

theorem covered_of_reaches (h : (echodSystem ι).Reaches s) : s.Covered := by
  have start : (echodSystem ι).init.Covered := ⟨show (0 : Int) ≤ 3 by decide, Int.le_refl _, nofun⟩
  exact h.invariant start fun s a hs he => hs.next he.2

end Acceptor

/-- In every order of the steps: neither the counter nor the threads exceed the limit, and an acceptor that
    waits without a wake-up due waits at the limit. -/
theorem no_lost_wakeup {ι : Type} [DecidableEq ι] {s : Server ι} (h : (echodSystem ι).Reaches s) :
    s.numActive ≤ MAX_NUM_THREADS ∧ (s.threads.card : Int) ≤ MAX_NUM_THREADS ∧
      (s.position = .waiting false → s.numActive = MAX_NUM_THREADS) := by
  obtain ⟨hactive, hcovers, hwaits⟩ := covered_of_reaches h
  have hslot : 0 ≤ s.slot := by
    unfold Server.slot
    split <;> decide
  exact ⟨hactive, by omega, hwaits⟩

/-- Three clients, and the acceptor waits; then a thread leaves. -/
def threeClients : List (Action Nat) :=
  ([1, 2, 3].flatMap fun i => [.loop, .count, .accept .connection, .malloc true, .pthreadCreate (some i)]) ++
    [.loop, .count, .leave 2]

theorem no_lost_wakeup_example : ((echodSystem Nat).after threeClients).position = .waiting true ∧
    ((echodSystem Nat).after threeClients).numActive ≤ MAX_NUM_THREADS ∧
    (((echodSystem Nat).after threeClients).threads.card : Int) ≤ MAX_NUM_THREADS ∧
    (((echodSystem Nat).after threeClients).position = .waiting false →
      ((echodSystem Nat).after threeClients).numActive = MAX_NUM_THREADS) :=
  ⟨by decide, no_lost_wakeup (System.reachesBy_after (by decide))⟩

end Distsys.Echod
