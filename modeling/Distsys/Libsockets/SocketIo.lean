import Distsys.Lib.Bytes

/-! Socket input and output with a timeout (`libsockets/socket_io.c`).

    The system calls are outside the program: a schedule lists their outcomes in the order in which
    they return. A function takes the outcomes it waits for from the front. When the next outcome
    belongs to another call or none is left, the function has not returned yet. -/

namespace Distsys

/-- The outcome of a call that counts ready descriptors or bytes. A write of `n` has room for that
    many bytes and accepts no more than it is offered; a read likewise. -/
inductive Result where
  | ret (n : Nat)
  | eintr
  | error
  deriving DecidableEq, Repr

/-- The outcome of a `read` on a socket. No data stands for the end of the stream. -/
inductive RecvResult where
  | data (bytes : Bytes)
  | eintr
  | error
  deriving DecidableEq, Repr

/-- A system call that returns, with its outcome. -/
inductive SysCall where
  /-- `select` on the socket. -/
  | select (r : Result)
  /-- `read` from the socket. -/
  | recv (r : RecvResult)
  /-- `write` to the socket. -/
  | write (r : Result)
  /-- `read` from the file that is served. -/
  | read (r : Result)
  deriving DecidableEq, Repr

/-- The calls in their order. A run goes as far as they last. -/
abbrev Schedule := List SysCall

/-- What the two functions return when `select` ends without the socket being ready. -/
def SOCKET_TIMEOUT : Int := -2

/-! ### Reading -/

/-- How far `read_from_socket` gets: its result, when it returns, and the bytes it stored. -/
structure ReadRun where
  res : Option Int
  stored : Bytes
  rest : Schedule

/-- The loop of `read_from_socket`; `ready` says that `select` is done with or not asked for. -/
def readLoop (len timeout : Nat) : Bool → Schedule → ReadRun
  | false, .select r :: sched => match r with
    | .eintr => readLoop len timeout false sched
    | .error | .ret 0 => ⟨some SOCKET_TIMEOUT, [], sched⟩
    | .ret (_ + 1) => readLoop len timeout true sched
  | true, .recv r :: sched => match r with
    | .eintr => readLoop len timeout (timeout == 0) sched
    | .error => ⟨some (-1), [], sched⟩
    | .data bytes => ⟨some (bytes.take len).length, bytes.take len, sched⟩
  | _, sched => ⟨none, [], sched⟩

/-- `read_from_socket`: without a timeout it goes to `read` at once. -/
def readFromSocket (len timeout : Nat) (sched : Schedule) : ReadRun := readLoop len timeout (timeout == 0) sched

theorem readLoop_length_le {len timeout : Nat} : ∀ {ready : Bool} {sched : Schedule},
    (readLoop len timeout ready sched).stored.length ≤ len
  | ready, [] => by cases ready <;> simp [readLoop]
  | false, c :: sched => by
    cases c with
    | select r =>
      cases r with
      | eintr =>
        simp only [readLoop]
        exact readLoop_length_le
      | error => exact Nat.zero_le _
      | ret n =>
        cases n with
        | zero => exact Nat.zero_le _
        | succ n =>
          simp only [readLoop]
          exact readLoop_length_le
    | recv | write | read => simp [readLoop]
  | true, c :: sched => by
    cases c with
    | recv r =>
      cases r with
      | eintr =>
        simp only [readLoop]
        exact readLoop_length_le
      | error => exact Nat.zero_le _
      | data bytes => exact List.length_take_le _ _
    | select | write | read => simp [readLoop]

/-! ### Writing -/

/-- How far `write_to_socket` gets: its result, when it returns, and the bytes the socket accepted. -/
structure WriteRun where
  res : Option Int
  sent : Bytes
  rest : Schedule

/-- The loops of `write_to_socket` on what is left of the buffer. -/
@[grind =] def writeLoop (timeout : Nat) : Bool → Bytes → Schedule → WriteRun
  | false, buf, .select r :: sched => match r with
    | .eintr => writeLoop timeout false buf sched
    | .error | .ret 0 => ⟨some (-1), [], sched⟩
    | .ret (_ + 1) => writeLoop timeout true buf sched
  | true, buf, .write r :: sched => match r with
    | .eintr => writeLoop timeout (timeout == 0) buf sched
    | .error => ⟨some (-1), [], sched⟩
    | .ret n =>
      if buf.take n = [] then ⟨some 0, [], sched⟩
      else if buf.drop n = [] then ⟨some buf.length, buf, sched⟩
      else
        let run := writeLoop timeout (timeout == 0) (buf.drop n) sched
        { run with sent := buf.take n ++ run.sent }
  | _, _, sched => ⟨none, [], sched⟩

/-- `write_to_socket`: of nothing it writes nothing. -/
def writeToSocket (timeout : Nat) (buf : Bytes) (sched : Schedule) : WriteRun :=
  if buf = [] then ⟨some 0, [], sched⟩ else writeLoop timeout (timeout == 0) buf sched

/-! ### Calls that transfer everything -/

/-- The call transfers as much as it is asked for, up to `room` bytes. -/
def SysCall.Full (room : Nat) : SysCall → Prop
  | .select r | .write r | .read r => ∃ n, r = .ret n ∧ 0 < n ∧ room ≤ n
  | .recv _ => True

/-- The outcomes of one write of a buffer that fits: `select` is ready, and everything is accepted. -/
def delivery (timeout room : Nat) : Schedule :=
  (if timeout = 0 then [] else [.select (.ret room)]) ++ [.write (.ret room)]

section Write
variable {timeout room : Nat} {buf : Bytes} {sched : Schedule}

theorem writeLoop_prefix : ∀ {ready : Bool} {buf : Bytes} {sched : Schedule},
    (writeLoop timeout ready buf sched).sent <+: buf
  | ready, buf, [] => by cases ready <;> simp [writeLoop]
  | false, buf, c :: sched => by
    cases c with
    | select r =>
      cases r with
      | eintr =>
        simp only [writeLoop]
        exact writeLoop_prefix
      | error => exact List.nil_prefix
      | ret n =>
        cases n with
        | zero => exact List.nil_prefix
        | succ n =>
          simp only [writeLoop]
          exact writeLoop_prefix
    | recv | write | read => simp [writeLoop]
  | true, buf, c :: sched => by
    cases c with
    | write r =>
      cases r with
      | eintr =>
        simp only [writeLoop]
        exact writeLoop_prefix
      | error => exact List.nil_prefix
      | ret n =>
        simp only [writeLoop]
        split
        · exact List.nil_prefix
        · split
          · exact List.prefix_refl _
          · conv_rhs => rw [← List.take_append_drop n buf]
            exact (List.prefix_append_right_inj _).mpr writeLoop_prefix
    | select | recv | read => simp [writeLoop]

theorem writeToSocket_prefix : (writeToSocket timeout buf sched).sent <+: buf := by
  unfold writeToSocket
  split
  · exact List.nil_prefix
  · exact writeLoop_prefix

theorem delivery_full (hroom : 0 < room) : ∀ c ∈ delivery timeout room, c.Full room := by
  intro c hc
  unfold delivery at hc
  split at hc <;> simp only [List.nil_append, List.singleton_append, List.mem_cons, List.not_mem_nil, or_false] at hc
  · subst hc
    exact ⟨room, rfl, hroom, Nat.le_refl _⟩
  · rcases hc with rfl | rfl <;> exact ⟨room, rfl, hroom, Nat.le_refl _⟩

theorem writeToSocket_delivery (hroom : 0 < room) (hne : buf ≠ []) (hlen : buf.length ≤ room) :
    writeToSocket timeout buf (delivery timeout room ++ sched) = ⟨some buf.length, buf, sched⟩ := by
  obtain ⟨n, rfl⟩ : ∃ n, room = n + 1 := ⟨room - 1, by omega⟩
  have hdrop : buf.drop (n + 1) = [] := List.drop_eq_nil_of_le hlen
  have htake : buf.take (n + 1) = buf := List.take_of_length_le hlen
  by_cases ht : timeout = 0
  · simp [writeToSocket, hne, delivery, ht, writeLoop, htake, hdrop]
  · have hb : (timeout == 0) = false := by simp [ht]
    simp [writeToSocket, hne, delivery, ht, hb, writeLoop, htake, hdrop]

/-- Under full outcomes a buffer that fits is accepted whole, if the function returns at all. -/
theorem writeLoop_full {ready : Bool} (hne : buf ≠ []) (hlen : buf.length ≤ room) {res : Int} :
    ∀ {sched : Schedule}, (∀ c ∈ sched, c.Full room) → (writeLoop timeout ready buf sched).res = some res →
      (writeLoop timeout ready buf sched).sent = buf ∧
        ∀ c ∈ (writeLoop timeout ready buf sched).rest, c.Full room
  | [], _, h => by cases ready <;> simp [writeLoop] at h
  | c :: sched, hfull, h => by
    have hc := hfull c List.mem_cons_self
    have hrest : ∀ c ∈ sched, c.Full room := fun x hx => hfull x (List.mem_cons_of_mem _ hx)
    cases ready with
    | false =>
      cases c with
      | select r =>
        obtain ⟨n, rfl, hpos, -⟩ := hc
        obtain ⟨m, rfl⟩ : ∃ m, n = m + 1 := ⟨n - 1, by omega⟩
        simp only [writeLoop] at h ⊢
        exact writeLoop_full hne hlen hrest h
      | recv | write | read => simp [writeLoop] at h
    | true =>
      cases c with
      | write r =>
        obtain ⟨n, rfl, hpos, hn⟩ := hc
        have hdrop : buf.drop n = [] := List.drop_eq_nil_of_le (by omega)
        have htake : buf.take n = buf := List.take_of_length_le (by omega)
        simp only [writeLoop, htake, hne, hdrop, ↓reduceIte]
        exact ⟨trivial, hrest⟩
      | select | recv | read => simp [writeLoop] at h

theorem writeToSocket_full (hlen : buf.length ≤ room) (hfull : ∀ c ∈ sched, c.Full room) {res : Int}
    (h : (writeToSocket timeout buf sched).res = some res) :
    (writeToSocket timeout buf sched).sent = buf ∧ ∀ c ∈ (writeToSocket timeout buf sched).rest, c.Full room := by
  unfold writeToSocket at h ⊢
  split at h
  · next he =>
    rw [if_pos he]
    exact ⟨he.symm, hfull⟩
  · next hne =>
    rw [if_neg hne]
    exact writeLoop_full hne hlen hfull h

end Write

/-! ### The result of a write -/

section Whole
variable {sched : Schedule} {res : Int}

/-- The result is positive exactly when the last write takes what is left. -/
theorem writeLoop_pos_iff {timeout : Nat} {ready : Bool} {buf : Bytes} (hne : buf ≠ [])
    (h : (writeLoop timeout ready buf sched).res = some res) :
    0 < res ↔ (writeLoop timeout ready buf sched).sent = buf := by
  fun_induction writeLoop timeout ready buf sched with
  | case1 _ _ ih | case4 _ _ _ ih | case5 _ _ ih => exact ih hne h
  | case2 | case3 | case6 =>
    obtain rfl : -1 = res := Option.some.inj h
    exact iff_of_false (by decide) hne.symm
  | case7 =>
    obtain rfl : 0 = res := Option.some.inj h
    exact iff_of_false (by decide) hne.symm
  | case8 buf =>
    obtain rfl : (buf.length : Int) = res := Option.some.inj h
    exact iff_of_true (Int.natCast_pos.mpr (List.length_pos_iff.mpr hne)) rfl
  | case9 buf sched n _ hdrop run ih =>
    -- What this write took is sent; the rest decides.
    have hrest : 0 < res ↔ run.sent = buf.drop n := ih hdrop h
    show 0 < res ↔ buf.take n ++ run.sent = buf
    conv_rhs => rhs; rw [← List.take_append_drop n buf]
    rw [hrest, List.append_cancel_left_eq]
  | case10 => cases h

/-- Whatever the calls come to: the socket has accepted a prefix of the buffer, and the result is positive exactly
    when it is the whole buffer. Of the timeout only counts whether it is zero. -/
theorem writeToSocket_whole {timeout : Int} {buf : Bytes} (hne : buf ≠ [])
    (h : (writeToSocket timeout.natAbs buf sched).res = some res) :
    (writeToSocket timeout.natAbs buf sched).sent <+: buf ∧
      (0 < res ↔ (writeToSocket timeout.natAbs buf sched).sent = buf) := by
  constructor
  · exact writeToSocket_prefix
  · unfold writeToSocket at h ⊢
    rw [if_neg hne] at h ⊢
    exact writeLoop_pos_iff hne h

/-- Two bytes, an interruption, two more, and then no room until the timeout. -/
theorem writeToSocket_whole_example :
    (writeToSocket (Int.natAbs 5) (str "echo!") [.select (.ret 1), .write (.ret 2), .select .eintr, .select (.ret 1),
      .write (.ret 2), .select (.ret 0)]).sent <+: str "echo!" ∧
    ((0 : Int) < -1 ↔ (writeToSocket (Int.natAbs 5) (str "echo!") [.select (.ret 1), .write (.ret 2), .select .eintr,
      .select (.ret 1), .write (.ret 2), .select (.ret 0)]).sent = str "echo!") :=
  writeToSocket_whole (by decide) (by decide +kernel)

end Whole

/-! ### Calls that succeed -/

/-- The calls on the socket succeed, in the end: the descriptor becomes ready, and a write accepts something. -/
def SysCall.Succeeds : SysCall → Prop
  | .select r | .write r => r = .eintr ∨ ∃ n, r = .ret n ∧ 0 < n
  | .recv _ | .read _ => True

section Succeeds
variable {timeout : Nat} {buf : Bytes} {sched : Schedule} {res : Int}

/-- However many pieces the writes accept it in: a buffer gets through whole, if the function returns at all. -/
theorem writeLoop_succeeds : ∀ {ready : Bool} {buf : Bytes} {sched : Schedule}, buf ≠ [] → (∀ c ∈ sched, c.Succeeds) →
    (writeLoop timeout ready buf sched).res = some res → (writeLoop timeout ready buf sched).sent = buf
  | ready, buf, [], _, _, h => by cases ready <;> simp [writeLoop] at h
  | ready, buf, c :: sched, hne, hall, h => by
    have hc := hall c List.mem_cons_self
    have hrest : ∀ c ∈ sched, c.Succeeds := fun x hx => hall x (List.mem_cons_of_mem _ hx)
    cases ready with
    | false =>
      cases c with
      | select r =>
        rcases hc with rfl | ⟨n, rfl, hpos⟩
        · simp only [writeLoop] at h ⊢
          exact writeLoop_succeeds hne hrest h
        · obtain ⟨m, rfl⟩ : ∃ m, n = m + 1 := ⟨n - 1, by omega⟩
          simp only [writeLoop] at h ⊢
          exact writeLoop_succeeds hne hrest h
      | recv | write | read => simp [writeLoop] at h
    | true =>
      cases c with
      | write r =>
        rcases hc with rfl | ⟨n, rfl, hpos⟩
        · simp only [writeLoop] at h ⊢
          exact writeLoop_succeeds hne hrest h
        · have htake : buf.take n ≠ [] := by
            rw [ne_eq, List.take_eq_nil_iff]
            exact not_or.mpr ⟨by omega, hne⟩
          simp only [writeLoop, if_neg htake] at h ⊢
          split at h
          · next hdrop => rw [if_pos hdrop]
          · next hdrop =>
            rw [if_neg hdrop]
            show buf.take n ++ (writeLoop timeout (timeout == 0) (buf.drop n) sched).sent = buf
            rw [writeLoop_succeeds hdrop hrest h, List.take_append_drop]
      | select | recv | read => simp [writeLoop] at h

theorem writeToSocket_succeeds (hall : ∀ c ∈ sched, c.Succeeds) (h : (writeToSocket timeout buf sched).res = some res) :
    (writeToSocket timeout buf sched).sent = buf := by
  unfold writeToSocket at h ⊢
  split at h
  · next he => rw [if_pos he, he]
  · next hne =>
    rw [if_neg hne]
    exact writeLoop_succeeds hne hall h

/-- No call on the socket fails: the descriptor becomes ready, and every write accepts something. -/
def SysCall.Sends : SysCall → Prop
  | .select r => r = .eintr ∨ ∃ n, r = .ret n ∧ 0 < n
  | .write r => ∃ n, r = .ret n ∧ 0 < n
  | .recv _ | .read _ => True

theorem SysCall.Sends.succeeds {c : SysCall} (h : c.Sends) : c.Succeeds := by
  cases c with
  | select r => exact h
  | write r => exact Or.inr h
  | recv _ | read _ => trivial

end Succeeds

/-! ### The outcomes that are left -/

/-- The socket accepts bytes. -/
def SysCall.Accepts : SysCall → Prop
  | .write r => ∃ n, r = .ret n ∧ 0 < n
  | .select _ | .recv _ | .read _ => False

section Left
variable {len timeout : Nat} {buf : Bytes} {sched : Schedule} {res : Int}

theorem readLoop_taken {ready : Bool} (h : (readLoop len timeout ready sched).res = some res) :
    ∃ c taken, sched = c :: taken ++ (readLoop len timeout ready sched).rest := by
  fun_induction readLoop len timeout ready sched with
  | case1 _ ih | case4 _ _ ih | case5 _ ih =>
    obtain ⟨c, taken, hrest⟩ := ih h
    exact ⟨_, c :: taken, congrArg _ hrest⟩
  | case2 | case3 | case6 | case7 => exact ⟨_, [], rfl⟩
  | case8 => cases h

theorem writeLoop_taken (timeout : Nat) (ready : Bool) (buf : Bytes) (sched : Schedule) :
    ∃ taken, sched = taken ++ (writeLoop timeout ready buf sched).rest := by
  fun_induction writeLoop timeout ready buf sched with
  | case1 _ _ ih | case4 _ _ _ ih | case5 _ _ ih | case9 _ _ _ _ _ _ ih =>
    obtain ⟨taken, hrest⟩ := ih
    exact ⟨_ :: taken, congrArg _ hrest⟩
  | case2 | case3 | case6 | case7 | case8 => exact ⟨[_], rfl⟩
  | case10 => exact ⟨[], rfl⟩

theorem writeToSocket_taken (timeout : Nat) (buf : Bytes) (sched : Schedule) :
    ∃ taken, sched = taken ++ (writeToSocket timeout buf sched).rest := by
  unfold writeToSocket
  split
  · exact ⟨[], rfl⟩
  · exact writeLoop_taken timeout _ buf sched

/-- A write that returns short of the whole buffer ends with a call that failed. -/
theorem writeLoop_short {ready : Bool} (hne : buf ≠ []) (h : (writeLoop timeout ready buf sched).res = some res)
    (hshort : (writeLoop timeout ready buf sched).sent ≠ buf) :
    ∃ taken c, sched = taken ++ c :: (writeLoop timeout ready buf sched).rest ∧ ¬c.Succeeds := by
  fun_induction writeLoop timeout ready buf sched with
  | case1 _ _ ih | case4 _ _ _ ih | case5 _ _ ih =>
    obtain ⟨taken, c, hrest, hc⟩ := ih hne h hshort
    exact ⟨_ :: taken, c, congrArg _ hrest, hc⟩
  | case2 | case3 | case6 => exact ⟨[], _, rfl, by simp [SysCall.Succeeds]⟩
  | case7 buf _ n htake =>
    have hn : n = 0 := (List.take_eq_nil_iff.mp htake).resolve_right hne
    exact ⟨[], _, rfl, by simp [SysCall.Succeeds, hn]⟩
  | case8 => exact absurd rfl hshort
  | case9 buf sched n _ hdrop run ih =>
    have hrun : run.sent ≠ buf.drop n := by
      intro hrun
      refine hshort ?_
      show buf.take n ++ run.sent = buf
      rw [hrun, List.take_append_drop]
    obtain ⟨taken, c, hrest, hc⟩ := ih hdrop h hrun
    exact ⟨_ :: taken, c, congrArg _ hrest, hc⟩
  | case10 => cases h

theorem writeToSocket_short (h : (writeToSocket timeout buf sched).res = some res)
    (hshort : (writeToSocket timeout buf sched).sent ≠ buf) :
    ∃ taken c, sched = taken ++ c :: (writeToSocket timeout buf sched).rest ∧ ¬c.Succeeds := by
  unfold writeToSocket at h hshort ⊢
  split at h
  · next he =>
    rw [if_pos he] at hshort
    exact absurd he.symm hshort
  · next hne =>
    rw [if_neg hne] at hshort ⊢
    exact writeLoop_short hne h hshort

theorem writeLoop_silent {ready : Bool} (hne : buf ≠ []) (hall : ∀ c ∈ sched, ¬c.Accepts) :
    (writeLoop timeout ready buf sched).sent = [] := by
  fun_induction writeLoop timeout ready buf sched with
  | case1 _ _ ih | case4 _ _ _ ih | case5 _ _ ih => exact ih hne fun c hc => hall c (List.mem_cons_of_mem _ hc)
  | case2 | case3 | case6 | case7 | case10 => rfl
  | case8 buf sched n htake | case9 buf sched n htake =>
    have hn : n ≠ 0 := by
      rintro rfl
      exact htake rfl
    exact absurd ⟨n, rfl, Nat.pos_of_ne_zero hn⟩ (hall _ List.mem_cons_self)

theorem writeToSocket_silent (hall : ∀ c ∈ sched, ¬c.Accepts) : (writeToSocket timeout buf sched).sent = [] := by
  unfold writeToSocket
  split
  · rfl
  · next hne => exact writeLoop_silent hne hall

end Left

end Distsys
