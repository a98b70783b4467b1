import Distsys.Libsockets.SocketIo

/-! The echo of a slave thread (`slave_thread` in `echod.c`): it reads a chunk and writes it back, until a read
    brings nothing. What `write_to_socket` returns is stored in `bytes_written`, and not looked at. -/

namespace Distsys.Echod

/-- The size of the buffer of a thread. -/
def BUFFER_SIZE : Nat := 8192

/-- One turn of the loop: the chunk that was read, and the bytes of it that the socket accepted. -/
structure Echo where
  chunk : Bytes
  sent : Bytes
  deriving DecidableEq

/-- At most `n` turns of the loop of `slave_thread`. -/
def slaveLoop : Nat → Schedule → List Echo
  | 0, _ => []
  | n + 1, sched =>
    let r := readFromSocket BUFFER_SIZE 100 sched
    match r.res with
    | none => []
    | some bytesRead =>
      if bytesRead > 0 then
        let w := writeToSocket 100 r.stored r.rest
        ⟨r.stored, w.sent⟩ :: match w.res with
          | none => []
          | some _ => slaveLoop n w.rest
      else []

/-- `slave_thread` as far as the outcomes go: each turn takes at least one. -/
def slaveThread (sched : Schedule) : List Echo := slaveLoop sched.length sched

/-- The bytes that the thread has read from the socket. -/
def bytesRead (echoes : List Echo) : Bytes := echoes.flatMap Echo.chunk

/-- The bytes of them that the socket has accepted. -/
def bytesEchoed (echoes : List Echo) : Bytes := echoes.flatMap Echo.sent

section Turns
variable {sched : Schedule}

theorem length_turn_lt {res : Int} (chunk : Bytes) (h : (readFromSocket BUFFER_SIZE 100 sched).res = some res) :
    (writeToSocket 100 chunk (readFromSocket BUFFER_SIZE 100 sched).rest).rest.length < sched.length := by
  obtain ⟨c, taken, hread⟩ : ∃ c taken, sched = c :: taken ++ (readFromSocket BUFFER_SIZE 100 sched).rest :=
    readLoop_taken h
  obtain ⟨taken', hwrite⟩ := writeToSocket_taken 100 chunk (readFromSocket BUFFER_SIZE 100 sched).rest
  have h₁ := congrArg List.length hread
  have h₂ := congrArg List.length hwrite
  simp only [List.length_append, List.length_cons] at h₁ h₂
  omega

theorem slaveLoop_stable : ∀ {n m : Nat} {sched : Schedule}, sched.length ≤ n → sched.length ≤ m →
    slaveLoop n sched = slaveLoop m sched := by
  -- Without an outcome no turn comes to an end.
  have nil : ∀ m, slaveLoop m [] = [] := fun m => by cases m <;> rfl
  intro n
  induction n with
  | zero =>
    intro m sched hn _
    obtain rfl := List.length_eq_zero_iff.mp (Nat.le_zero.mp hn)
    rw [nil, nil]
  | succ n ih =>
    intro m sched hn hm
    cases m with
    | zero =>
      obtain rfl := List.length_eq_zero_iff.mp (Nat.le_zero.mp hm)
      rw [nil, nil]
    | succ m =>
      cases hread : (readFromSocket BUFFER_SIZE 100 sched).res with
      | none => simp only [slaveLoop, hread]
      | some res =>
        have hlt := length_turn_lt (readFromSocket BUFFER_SIZE 100 sched).stored hread
        simp only [slaveLoop, hread, ih (m := m) (Nat.le_of_lt_succ (Nat.lt_of_lt_of_le hlt hn))
          (Nat.le_of_lt_succ (Nat.lt_of_lt_of_le hlt hm))]

/-- The thread waits or leaves the loop, or it takes a turn and goes on, unless the write of the turn has not
    returned. -/
theorem slaveThread_cases (sched : Schedule) : slaveThread sched = [] ∨
    ∃ chunk taken rest, sched = taken ++ rest ∧
      ((writeToSocket 100 chunk rest).res = none ∧ slaveThread sched = [⟨chunk, (writeToSocket 100 chunk rest).sent⟩] ∨
        (∃ res, (writeToSocket 100 chunk rest).res = some res) ∧
        (writeToSocket 100 chunk rest).rest.length < sched.length ∧
        slaveThread sched =
          ⟨chunk, (writeToSocket 100 chunk rest).sent⟩ :: slaveThread (writeToSocket 100 chunk rest).rest) := by
  unfold slaveThread
  cases hlen : sched.length with
  | zero => exact Or.inl rfl
  | succ n =>
    simp only [slaveLoop]
    cases hread : (readFromSocket BUFFER_SIZE 100 sched).res with
    | none => exact Or.inl rfl
    | some res =>
      simp only
      split
      · obtain ⟨c, taken, hrest⟩ : ∃ c taken, sched = c :: taken ++ (readFromSocket BUFFER_SIZE 100 sched).rest :=
          readLoop_taken hread
        have hlt := hlen ▸ length_turn_lt (readFromSocket BUFFER_SIZE 100 sched).stored hread
        refine Or.inr ⟨(readFromSocket BUFFER_SIZE 100 sched).stored, _, _, hrest, ?_⟩
        split
        · next hwrite => exact Or.inl ⟨hwrite, rfl⟩
        · next hwrite =>
          rw [slaveLoop_stable (Nat.le_of_lt_succ hlt) (Nat.le_refl _)]
          exact Or.inr ⟨⟨_, hwrite⟩, hlt, rfl⟩
      · exact Or.inl rfl

theorem bytesEchoed_silent (hall : ∀ c ∈ sched, ¬c.Accepts) : bytesEchoed (slaveThread sched) = [] := by
  induction hn : sched.length using Nat.strongRecOn generalizing sched with
  | ind n ih =>
    subst hn
    rcases slaveThread_cases sched with hnil | ⟨chunk, taken, rest, hsched, hturn⟩
    · rw [hnil]
      rfl
    · have hrest : ∀ c ∈ rest, ¬c.Accepts := fun c hc => hall c (hsched ▸ List.mem_append_right _ hc)
      have hsent : (writeToSocket 100 chunk rest).sent = [] := writeToSocket_silent hrest
      obtain ⟨taken', hleft⟩ := writeToSocket_taken 100 chunk rest
      rcases hturn with ⟨-, hlast⟩ | ⟨-, hlt, hnext⟩
      · rw [hlast, hsent]
        rfl
      · have hgo := ih _ hlt (fun c hc => hrest c (hleft ▸ List.mem_append_right _ hc)) rfl
        rw [hnext, bytesEchoed, List.flatMap_cons, hsent]
        exact hgo

/-- As long as nothing is accepted after a call that failed, the echo is at every moment a prefix of what was read. -/
theorem echo_prefix (h : sched.Pairwise fun c d => c.Succeeds ∨ ¬d.Accepts) :
    bytesEchoed (slaveThread sched) <+: bytesRead (slaveThread sched) := by
  induction hn : sched.length using Nat.strongRecOn generalizing sched with
  | ind n ih =>
    subst hn
    rcases slaveThread_cases sched with hnil | ⟨chunk, taken, rest, hsched, hturn⟩
    · rw [hnil]
      exact List.prefix_refl _
    · have hrest : rest.Pairwise fun c d => c.Succeeds ∨ ¬d.Accepts := by
        rw [hsched] at h
        exact (List.pairwise_append.mp h).2.1
      have hsent : (writeToSocket 100 chunk rest).sent <+: chunk := writeToSocket_prefix
      rcases hturn with ⟨-, hlast⟩ | ⟨⟨res, hres⟩, hlt, hnext⟩
      · rw [hlast]
        simpa [bytesEchoed, bytesRead] using hsent
      · rw [hnext]
        simp only [bytesEchoed, bytesRead, List.flatMap_cons]
        by_cases hwhole : (writeToSocket 100 chunk rest).sent = chunk
        · obtain ⟨taken', hleft⟩ := writeToSocket_taken 100 chunk rest
          rw [hleft] at hrest
          rw [hwhole]
          exact (List.prefix_append_right_inj _).mpr (ih _ hlt (List.pairwise_append.mp hrest).2.1 rfl)
        · -- The chunk fell short at a call that failed: the turns from there on echo nothing.
          obtain ⟨taken', c, hleft, hc⟩ := writeToSocket_short hres hwhole
          rw [hleft] at hrest
          have hsilent := (List.pairwise_cons.mp (List.pairwise_append.mp hrest).2.1).1
          have hnone : (slaveThread (writeToSocket 100 chunk rest).rest).flatMap Echo.sent = [] :=
            bytesEchoed_silent fun d hd => (hsilent d hd).resolve_left hc
          rw [hnone, List.append_nil]
          exact hsent.trans (List.prefix_append _ _)

end Turns

/-- A chunk that the socket takes in two pieces, and one that it takes only the start of. -/
theorem echo_prefix_example :
    let sched : Schedule := [.select (.ret 1), .recv (.data (str "hello")), .select (.ret 1), .write (.ret 2),
      .select (.ret 1), .write (.ret 3), .select (.ret 1), .recv (.data (str "you")), .select (.ret 1), .write (.ret 1),
      .select (.ret 0)]
    bytesEchoed (slaveThread sched) <+: bytesRead (slaveThread sched) :=
  echo_prefix (by simp [SysCall.Succeeds, SysCall.Accepts])

/-- The select before the second write times out; the thread reads on, and echoes the next chunk. -/
theorem echo_skips : ¬∀ sched, bytesEchoed (slaveThread sched) <+: bytesRead (slaveThread sched) := by
  intro h
  have hskip := h [.select (.ret 1), .recv (.data (str "abc")), .select (.ret 1), .write (.ret 1), .select (.ret 0),
    .select (.ret 1), .recv (.data (str "d")), .select (.ret 1), .write (.ret 1)]
  revert hskip
  decide +kernel

end Distsys.Echod
