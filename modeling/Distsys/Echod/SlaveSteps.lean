import Distsys.Echod.SlaveThread

/-! A slave thread call by call (`slave_thread` in `echod.c` with `read_from_socket` and `write_to_socket`): where it is
    between two calls, which call it waits for, and what it makes of the outcome. The steps add up to `slaveThread`. -/

namespace Distsys.Echod

/-- Where a slave thread is. -/
inductive Phase where
  /-- Before the `malloc` of its buffer. -/
  | starting
  /-- In `read_from_socket`, before `select` or behind it. -/
  | reading (ready : Bool)
  /-- In `write_to_socket`, before `select` or behind it, with what is left of the chunk. -/
  | writing (ready : Bool) (left : Bytes)
  /-- Before `close`. -/
  | closing
  /-- Before the decrement. -/
  | closed
  deriving DecidableEq

/-- Where a thread is, and the bytes that it has read and written so far. -/
structure Slave where
  phase : Phase
  received : Bytes
  echoed : Bytes
  deriving DecidableEq

/-- The thread has called this function. -/
def Phase.awaits : Phase → SysCall → Bool
  | .reading false, .select _ | .reading true, .recv _ | .writing false _, .select _ | .writing true _, .write _ => true
  | _, _ => false

/-- The outcome of the call that the thread waits for. -/
def Slave.call (s : Slave) (c : SysCall) : Slave :=
  match s.phase, c with
  | .reading false, .select .eintr => s
  | .reading false, .select (.ret (_ + 1)) => { s with phase := .reading true }
  | .reading false, .select _ => { s with phase := .closing }
  | .reading true, .recv .eintr => { s with phase := .reading false }
  | .reading true, .recv .error => { s with phase := .closing }
  | .reading true, .recv (.data bytes) =>
    if bytes.take BUFFER_SIZE = [] then { s with phase := .closing }
    else { s with phase := .writing false (bytes.take BUFFER_SIZE), received := s.received ++ bytes.take BUFFER_SIZE }
  | .writing false _, .select .eintr => s
  | .writing false left, .select (.ret (_ + 1)) => { s with phase := .writing true left }
  -- Whatever `write_to_socket` returns, the thread goes on to read.
  | .writing false _, .select _ => { s with phase := .reading false }
  | .writing true left, .write .eintr => { s with phase := .writing false left }
  | .writing true _, .write .error => { s with phase := .reading false }
  | .writing true left, .write (.ret n) =>
    if left.take n = [] then { s with phase := .reading false }
    else if left.drop n = [] then { s with phase := .reading false, echoed := s.echoed ++ left }
    else { s with phase := .writing false (left.drop n), echoed := s.echoed ++ left.take n }
  | _, _ => s

/-- The thread waits for each of the calls in turn. -/
def Slave.Fits : Slave → Schedule → Prop
  | _, [] => True
  | s, c :: sched => s.phase.awaits c = true ∧ (s.call c).Fits sched

def Slave.after (s : Slave) (sched : Schedule) : Slave := sched.foldl Slave.call s

section Steps
variable {s : Slave} {sched taken rest : Schedule} {left : Bytes} {ready : Bool} {res : Int}

theorem fits_append : ∀ {taken : Schedule} {s : Slave}, s.Fits (taken ++ rest) ↔
    s.Fits taken ∧ (s.after taken).Fits rest
  | [], _ => ⟨fun h => ⟨trivial, h⟩, fun h => h.2⟩
  | c :: taken, s => by
    show _ ∧ (s.call c).Fits (taken ++ rest) ↔ (_ ∧ (s.call c).Fits taken) ∧ _
    rw [fits_append, and_assoc]
    rfl

theorem after_append : s.after (taken ++ rest) = (s.after taken).after rest := List.foldl_append

theorem call_ne_closed {c : SysCall} (h : s.phase ≠ .closed) : (s.call c).phase ≠ .closed := by
  unfold Slave.call
  split <;> first | exact h | exact Phase.noConfusion | (split <;>
    first | exact Phase.noConfusion | (split <;> exact Phase.noConfusion))

/-- The first calls lead to the thread `t`, and it waits for the others. -/
structure ComesTo (s : Slave) (sched : Schedule) (t : Slave) (rest : Schedule) : Prop where
  after : s.after sched = t.after rest
  fits : t.Fits rest

theorem ComesTo.cons {t u : Slave} {c : SysCall} (hf : s.Fits (c :: sched)) (hcall : s.call c = u)
    (h : u.Fits sched → ComesTo u sched t rest) : ComesTo s (c :: sched) t rest := by
  subst hcall
  obtain ⟨hafter, hfits⟩ := h hf.2
  exact ⟨hafter, hfits⟩

theorem ComesTo.call {t : Slave} {c : SysCall} (hf : s.Fits (c :: sched)) (hcall : s.call c = t) :
    ComesTo s (c :: sched) t sched :=
  .cons hf hcall fun hfits => ⟨rfl, hfits⟩

/-- The thread behind `read_from_socket`. -/
def Slave.afterRead (s : Slave) (run : ReadRun) : Slave where
  phase := if 0 < run.res.getD 0 then .writing false run.stored else .closing
  received := s.received ++ run.stored
  echoed := s.echoed

/-- The thread behind `write_to_socket`. -/
def Slave.afterWrite (s : Slave) (run : WriteRun) : Slave where
  phase := .reading false
  received := s.received
  echoed := s.echoed ++ run.sent

theorem read_returned (hp : s.phase = .reading ready) (hf : s.Fits sched)
    (h : (readLoop BUFFER_SIZE 100 ready sched).res = some res) :
    ComesTo s sched (s.afterRead (readLoop BUFFER_SIZE 100 ready sched))
    (readLoop BUFFER_SIZE 100 ready sched).rest := by
  fun_induction readLoop BUFFER_SIZE 100 ready sched generalizing s with
  | case1 sched ih => exact .cons hf (by simp [Slave.call, hp]) fun hfits => ih hp hfits h
  | case2 sched | case3 sched => exact .call hf (by simp [Slave.call, hp, Slave.afterRead, SOCKET_TIMEOUT])
  | case4 sched n ih =>
    exact .cons (u := { s with phase := .reading true }) hf (by simp [Slave.call, hp]) fun hfits => ih rfl hfits h
  | case5 sched ih =>
    exact .cons (u := { s with phase := .reading false }) hf (by simp [Slave.call, hp]) fun hfits => ih rfl hfits h
  | case6 sched => exact .call hf (by simp [Slave.call, hp, Slave.afterRead])
  | case7 sched bytes =>
    refine .call hf ?_
    by_cases hnil : bytes.take BUFFER_SIZE = []
    · simp [Slave.call, hp, Slave.afterRead, hnil]
    · have hpos := List.length_pos_iff.mpr hnil
      simp only [Slave.call, hp, Slave.afterRead, if_neg hnil, Option.getD_some, Int.natCast_pos, if_pos hpos]
  | case8 => cases h

/-- A thread that is still in `read_from_socket` has nothing new. -/
theorem read_pending (hp : s.phase = .reading ready) (hf : s.Fits sched)
    (h : (readLoop BUFFER_SIZE 100 ready sched).res = none) :
    ∃ p, ComesTo s sched { s with phase := p } [] := by
  fun_induction readLoop BUFFER_SIZE 100 ready sched generalizing s with
  | case1 sched ih =>
    have hcall : s.call (.select .eintr) = s := by simp [Slave.call, hp]
    obtain ⟨p, hnext⟩ := ih hp (hcall ▸ hf.2) h
    exact ⟨p, .cons hf hcall fun _ => hnext⟩
  | case4 sched n ih =>
    have hcall : s.call (.select (.ret (n + 1))) = { s with phase := .reading true } := by simp [Slave.call, hp]
    obtain ⟨p, hnext⟩ := ih rfl (hcall ▸ hf.2) h
    exact ⟨p, .cons hf hcall fun _ => hnext⟩
  | case5 sched ih =>
    have hcall : s.call (.recv .eintr) = { s with phase := .reading false } := by simp [Slave.call, hp]
    obtain ⟨p, hnext⟩ := ih rfl (hcall ▸ hf.2) h
    exact ⟨p, .cons hf hcall fun _ => hnext⟩
  | case2 | case3 | case6 | case7 => cases h
  | case8 ready sched hselect hrecv =>
    cases sched with
    | nil => exact ⟨s.phase, rfl, trivial⟩
    | cons c sched =>
      -- No other call fits.
      have hawaits := hf.1
      rw [hp] at hawaits
      cases ready <;> cases c <;> simp [Phase.awaits] at hawaits
      · exact absurd rfl (hselect _ _ rfl)
      · exact absurd rfl (hrecv _ _ rfl)

theorem write_returned (hp : s.phase = .writing ready left) (hf : s.Fits sched)
    (h : (writeLoop 100 ready left sched).res = some res) :
    ComesTo s sched (s.afterWrite (writeLoop 100 ready left sched)) (writeLoop 100 ready left sched).rest := by
  fun_induction writeLoop 100 ready left sched generalizing s with
  | case1 left sched ih => exact .cons hf (by simp [Slave.call, hp]) fun hfits => ih hp hfits h
  | case2 left sched | case3 left sched => exact .call hf (by simp [Slave.call, hp, Slave.afterWrite])
  | case4 left sched n ih =>
    exact .cons (u := { s with phase := .writing true left }) hf (by simp [Slave.call, hp]) fun hfits => ih rfl hfits h
  | case5 left sched ih =>
    exact .cons (u := { s with phase := .writing false left }) hf (by simp [Slave.call, hp]) fun hfits => ih rfl hfits h
  | case6 left sched => exact .call hf (by simp [Slave.call, hp, Slave.afterWrite])
  | case7 left sched n htake => exact .call hf (by simp [Slave.call, hp, Slave.afterWrite, htake])
  | case8 left sched n htake hdrop => exact .call hf (by simp [Slave.call, hp, Slave.afterWrite, htake, hdrop])
  | case9 left sched n htake hdrop run =>
    rename_i ih
    have hcall : s.call (.write (.ret n)) = ⟨.writing false (left.drop n), s.received, s.echoed ++ left.take n⟩ := by
      simp only [Slave.call, hp, if_neg htake, if_neg hdrop]
    refine .cons hf hcall fun hfits => ?_
    have hnext := ih rfl hfits h
    simpa only [Slave.afterWrite, List.append_assoc] using hnext
  | case10 => cases h

theorem write_pending (hp : s.phase = .writing ready left) (hf : s.Fits sched)
    (h : (writeLoop 100 ready left sched).res = none) :
    ∃ p, ComesTo s sched ⟨p, s.received, s.echoed ++ (writeLoop 100 ready left sched).sent⟩ [] := by
  fun_induction writeLoop 100 ready left sched generalizing s with
  | case1 left sched ih =>
    have hcall : s.call (.select .eintr) = s := by simp [Slave.call, hp]
    obtain ⟨p, hnext⟩ := ih hp (hcall ▸ hf.2) h
    exact ⟨p, .cons hf hcall fun _ => hnext⟩
  | case4 left sched n ih =>
    have hcall : s.call (.select (.ret (n + 1))) = { s with phase := .writing true left } := by simp [Slave.call, hp]
    obtain ⟨p, hnext⟩ := ih rfl (hcall ▸ hf.2) h
    exact ⟨p, .cons hf hcall fun _ => hnext⟩
  | case5 left sched ih =>
    have hcall : s.call (.write .eintr) = { s with phase := .writing false left } := by simp [Slave.call, hp]
    obtain ⟨p, hnext⟩ := ih rfl (hcall ▸ hf.2) h
    exact ⟨p, .cons hf hcall fun _ => hnext⟩
  | case9 left sched n htake hdrop run =>
    rename_i ih
    have hcall : s.call (.write (.ret n)) = ⟨.writing false (left.drop n), s.received, s.echoed ++ left.take n⟩ := by
      simp only [Slave.call, hp, if_neg htake, if_neg hdrop]
    obtain ⟨p, hnext⟩ := ih rfl (hcall ▸ hf.2) h
    refine ⟨p, .cons hf hcall fun _ => ?_⟩
    simpa only [List.append_assoc] using hnext
  | case2 | case3 | case6 | case7 | case8 => cases h
  | case10 ready left sched hselect hwrite =>
    cases sched with
    | nil => exact ⟨s.phase, by simp [Slave.after], trivial⟩
    | cons c sched =>
      have hawaits := hf.1
      rw [hp] at hawaits
      cases ready <;> cases c <;> simp [Phase.awaits] at hawaits
      · exact absurd rfl (hselect _ _ rfl)
      · exact absurd rfl (hwrite _ _ rfl)

/-! ### The steps and the thread -/

/-- One turn of the loop, and those after it. -/
theorem slaveThread_eq (sched : Schedule) : slaveThread sched =
    let r := readFromSocket BUFFER_SIZE 100 sched
    if 0 < r.res.getD 0 then
      let w := writeToSocket 100 r.stored r.rest
      ⟨r.stored, w.sent⟩ :: match w.res with
        | none => []
        | some _ => slaveThread w.rest
    else [] := by
  unfold slaveThread
  cases hlen : sched.length with
  | zero =>
    obtain rfl := List.length_eq_zero_iff.mp hlen
    rfl
  | succ n =>
    simp only [slaveLoop]
    cases hread : (readFromSocket BUFFER_SIZE 100 sched).res with
    | none => rfl
    | some res =>
      have hlt := hlen ▸ length_turn_lt (readFromSocket BUFFER_SIZE 100 sched).stored hread
      have hstable : ∀ {rest : Schedule}, rest.length < n + 1 → slaveLoop n rest = slaveLoop rest.length rest :=
        fun h => slaveLoop_stable (Nat.le_of_lt_succ h) (Nat.le_refl _)
      rw [hstable hlt]
      rfl

/-- A thread that leaves the loop waits for no call. -/
theorem eq_nil_of_fits (hp : s.phase = .closing) (hf : s.Fits sched) : sched = [] := by
  cases sched with
  | nil => rfl
  | cons c sched =>
    have hawaits := hf.1
    rw [hp] at hawaits
    cases c <;> cases hawaits

theorem read_pos_iff (h : (readLoop BUFFER_SIZE 100 ready sched).res = some res) :
    0 < res ↔ (readLoop BUFFER_SIZE 100 ready sched).stored ≠ [] := by
  fun_induction readLoop BUFFER_SIZE 100 ready sched with
  | case1 _ ih | case4 _ _ ih | case5 _ ih => exact ih h
  | case2 | case3 =>
    obtain rfl : SOCKET_TIMEOUT = res := Option.some.inj h
    exact iff_of_false (by decide) (by simp)
  | case6 =>
    obtain rfl : -1 = res := Option.some.inj h
    exact iff_of_false (by decide) (by simp)
  | case7 _ bytes =>
    obtain rfl : ((bytes.take BUFFER_SIZE).length : Int) = res := Option.some.inj h
    rw [Int.natCast_pos, List.length_pos_iff]
  | case8 => cases h

/-- What a thread has read and echoed after its calls is what `slaveThread` says of them. -/
theorem after_eq (hp : s.phase = .reading false) (hf : s.Fits sched) :
    (s.after sched).received = s.received ++ bytesRead (slaveThread sched) ∧
      (s.after sched).echoed = s.echoed ++ bytesEchoed (slaveThread sched) := by
  induction hn : sched.length using Nat.strongRecOn generalizing s sched with
  | ind n ih =>
    subst hn
    have hthread := slaveThread_eq sched
    have hready : readFromSocket BUFFER_SIZE 100 sched = readLoop BUFFER_SIZE 100 false sched := rfl
    simp only [hready] at hthread
    cases hres : (readLoop BUFFER_SIZE 100 false sched).res with
    | none =>
      obtain ⟨p, hcomes⟩ := read_pending hp hf hres
      rw [if_neg (by simp [hres])] at hthread
      rw [hthread, hcomes.after]
      simp [Slave.after, bytesRead, bytesEchoed]
    | some res =>
      have hread := read_returned hp hf hres
      have hpos := read_pos_iff hres
      by_cases hstored : (readLoop BUFFER_SIZE 100 false sched).stored = []
      · have hend : ¬0 < (readLoop BUFFER_SIZE 100 false sched).res.getD 0 := by simpa [hres, hstored] using hpos
        have hclosing : (s.afterRead (readLoop BUFFER_SIZE 100 false sched)).phase = .closing := if_neg hend
        rw [if_neg hend] at hthread
        rw [hthread, hread.after, eq_nil_of_fits hclosing hread.fits]
        simp [Slave.after, Slave.afterRead, hstored, bytesRead, bytesEchoed]
      · have hmore : 0 < (readLoop BUFFER_SIZE 100 false sched).res.getD 0 := by simpa [hres, hstored] using hpos
        have hwriting : (s.afterRead (readLoop BUFFER_SIZE 100 false sched)).phase =
            .writing false (readLoop BUFFER_SIZE 100 false sched).stored := if_pos hmore
        have hwrite : writeToSocket 100 (readLoop BUFFER_SIZE 100 false sched).stored
              (readLoop BUFFER_SIZE 100 false sched).rest =
            writeLoop 100 false (readLoop BUFFER_SIZE 100 false sched).stored
              (readLoop BUFFER_SIZE 100 false sched).rest :=
          if_neg hstored
        have hlt := length_turn_lt (readLoop BUFFER_SIZE 100 false sched).stored (hready ▸ hres)
        rw [if_pos hmore, hwrite] at hthread
        rw [hready, hwrite] at hlt
        rw [hread.after, hthread]
        generalize readLoop BUFFER_SIZE 100 false sched = run at *
        cases hsent : (writeLoop 100 false run.stored run.rest).res with
        | none =>
          obtain ⟨p, hcomes⟩ := write_pending hwriting hread.fits hsent
          rw [hcomes.after]
          simp [Slave.after, Slave.afterRead, bytesRead, bytesEchoed]
        | some _ =>
          have hcomes := write_returned hwriting hread.fits hsent
          obtain ⟨hreceived, hechoed⟩ := ih _ hlt (s := (s.afterRead run).afterWrite _) rfl hcomes.fits rfl
          rw [hcomes.after, hreceived, hechoed]
          simp [Slave.afterRead, Slave.afterWrite, bytesRead, bytesEchoed]

end Steps

end Distsys.Echod
