import Distsys.Tinyweb.BodyStart

/-! The loop of `write_response_body` when every call transfers in full: it copies chunks of the file until
    it has counted up to its bound, so it goes past a bound that no chunk ends at, and never gets to a
    bound behind the end of the file. -/

namespace Distsys.Tinyweb

/-- The number of bytes in the chunks from one offset to the first chunk end that reaches the bound, as far as
    the file has them. -/
def loopTotal (size pos stop : Nat) : Nat :=
  if pos < stop then min (size - pos) (CHUNK_SIZE * ((stop - pos + (CHUNK_SIZE - 1)) / CHUNK_SIZE)) else 0

/-- The chunk of a file at an offset. -/
def chunkAt (file : Inode) (pos : Nat) : Bytes := (file.data.drop pos).take CHUNK_SIZE

/-- The outcomes of `n` turns of the loop in which both calls have room for what they are asked. -/
def turns (room n : Nat) : Schedule := (List.replicate n [.read (.ret room), .write (.ret room)]).flatten

theorem chunkSize_pos : 0 < CHUNK_SIZE := by decide

section Total
variable {size pos stop : Nat}

theorem loopTotal_of_le (h : stop ≤ pos) : loopTotal size pos stop = 0 := by
  simp [loopTotal, Nat.not_lt.mpr h]

theorem loopTotal_le (size pos stop : Nat) : loopTotal size pos stop ≤ size - pos := by
  unfold loopTotal
  split
  · exact Nat.min_le_left _ _
  · exact Nat.zero_le _

theorem loopTotal_step (hpos : pos ≤ size) (hlt : pos < stop) : loopTotal size pos stop =
    min CHUNK_SIZE (size - pos) + loopTotal size (pos + min CHUNK_SIZE (size - pos)) stop := by
  unfold loopTotal CHUNK_SIZE
  rw [if_pos hlt]
  split
  · omega
  · omega

theorem loopTotal_size : loopTotal size pos size = size - pos := by
  unfold loopTotal CHUNK_SIZE
  split <;> omega

/-- A bound that leaves out at most one byte takes the rest of the file unless a chunk ends at it. -/
theorem loopTotal_eq_rest_iff (hpos : pos < size) (hlt : pos < stop) (hstop : size ≤ stop + 1) :
    loopTotal size pos stop = size - pos ↔ size ≤ stop ∨ stop = size - 1 ∧ ¬CHUNK_SIZE ∣ stop - pos := by
  unfold loopTotal CHUNK_SIZE
  rw [if_pos hlt]
  omega

end Total

section Loop
variable {file : Inode} {stop pos n m room : Nat} {retcode : Int} {mem : Bytes} {sched : Schedule}

theorem length_chunkAt (pos : Nat) (hk : file.kind = .regular) :
    (chunkAt file pos).length = min CHUNK_SIZE (file.size - pos) := by
  rw [chunkAt, List.length_take, List.length_drop, file.size_eq hk]

theorem take_length_chunkAt : chunkAt file pos = (file.data.drop pos).take (chunkAt file pos).length :=
  List.prefix_iff_eq_take.mp (List.take_prefix _ _)

theorem bodyLoop_turn (hk : file.kind = .regular) (hpos : pos ≤ file.size) (hlt : pos < stop) (hn : CHUNK_SIZE ≤ n)
    (hm : CHUNK_SIZE ≤ m) :
    bodyLoop file stop retcode pos pos mem (.read (.ret n) :: .write (.ret m) :: sched) =
      let run := bodyLoop file stop retcode (pos + (chunkAt file pos).length) (pos + (chunkAt file pos).length)
        (chunkAt file pos ++ mem.drop (chunkAt file pos).length) sched
      { run with writes := ((chunkAt file pos).length, chunkAt file pos) :: run.writes } := by
  have hchunk : (file.data.drop pos).take (min n CHUNK_SIZE) = chunkAt file pos := by
    rw [Nat.min_eq_right hn]
    rfl
  have hlen := length_chunkAt pos hk
  have htake : (chunkAt file pos ++ mem.drop (chunkAt file pos).length).take (min m (chunkAt file pos).length) =
      chunkAt file pos := by
    rw [Nat.min_eq_right (by omega), List.take_left]
  have hmod : (pos + (chunkAt file pos).length) % 2 ^ 64 = pos + (chunkAt file pos).length := by
    have := file.size_lt
    exact Nat.mod_eq_of_lt (by omega)
  rw [bodyLoop]
  simp only [if_pos hlt, readChunk, hk, reduceCtorEq, ↓reduceIte, hchunk, htake, hmod]

/-- The loop sends a part of the file from its offset on, and every write accepts what it is given. When it
    returns it has sent all that it counts up to, and its bound lies in the file. -/
theorem bodyLoop_full (stop : Nat) (retcode : Int) (hk : file.kind = .regular) (hroom : CHUNK_SIZE ≤ room) :
    ∀ {sched : Schedule} {pos : Nat} (mem : Bytes), pos ≤ file.size → (∀ c ∈ sched, c.Full room) →
      ∃ sent, (bodyLoop file stop retcode pos pos mem sched).writes.flatMap (·.2) = (file.data.drop pos).take sent ∧
        sent ≤ loopTotal file.size pos stop ∧
        (∀ w ∈ (bodyLoop file stop retcode pos pos mem sched).writes, w.2.length = w.1) ∧
        ∀ r, (bodyLoop file stop retcode pos pos mem sched).res = some r →
          r = retcode ∧ sent = loopTotal file.size pos stop ∧ (pos < stop → stop ≤ file.size) := by
  intro sched
  induction hl : sched.length using Nat.strongRecOn generalizing sched with
  | ind l ih =>
    intro pos mem hpos hfull
    by_cases hlt : pos < stop
    · -- Without a read and a write in front the loop waits for one of them.
      have waits (h : ∀ r w rest, sched ≠ .read r :: .write w :: rest) :
          bodyLoop file stop retcode pos pos mem sched = ⟨none, []⟩ := by
        unfold bodyLoop
        split
        · exact absurd rfl (h _ _ _)
        · rw [if_pos hlt]
      by_cases hshape : ∃ r w rest, sched = .read r :: .write w :: rest
      · obtain ⟨r, w, rest, rfl⟩ := hshape
        obtain ⟨n, rfl, -, hn⟩ := hfull (.read r) (by simp)
        obtain ⟨m, rfl, -, hm⟩ := hfull (.write w) (by simp)
        have hlen := length_chunkAt pos hk
        have hstep := loopTotal_step hpos hlt
        obtain ⟨sent, hsent, hle, hwrites, hret⟩ := ih rest.length (by rw [← hl]; simp) rfl
          (chunkAt file pos ++ mem.drop (chunkAt file pos).length)
          (show pos + (chunkAt file pos).length ≤ file.size by omega) fun c hc => hfull c (by simp [hc])
        rw [hlen] at hle hret
        rw [bodyLoop_turn hk hpos hlt (hroom.trans hn) (hroom.trans hm)]
        refine ⟨(chunkAt file pos).length + sent, ?_, by omega, fun w hw => ?_, fun r hr => ?_⟩
        · rw [List.flatMap_cons, hsent, List.take_add, List.drop_drop, ← take_length_chunkAt]
        · rcases List.mem_cons.mp hw with rfl | hw
          · rfl
          · exact hwrites w hw
        · obtain ⟨h₁, h₂, h₃⟩ := hret r (by simpa [hlen] using hr)
          refine ⟨h₁, by omega, fun _ => ?_⟩
          by_cases hmore : pos + min CHUNK_SIZE (file.size - pos) < stop
          · exact h₃ hmore
          · omega
      · have hwait := waits fun r w rest h => hshape ⟨r, w, rest, h⟩
        rw [hwait]
        exact ⟨0, by simp, Nat.zero_le _, by simp, fun r hr => by simp at hr⟩
    · rw [bodyLoop_of_le (Nat.not_lt.mp hlt), loopTotal_of_le (Nat.not_lt.mp hlt)]
      exact ⟨0, by simp, Nat.le_refl _, by simp, fun r hr => ⟨by simpa [eq_comm] using hr, rfl, fun h => absurd h hlt⟩⟩

theorem turns_succ : turns room (n + 1) = .read (.ret room) :: .write (.ret room) :: turns room n := rfl

/-- As many turns as there are bytes to send are enough to send them. -/
theorem bodyLoop_turns (hk : file.kind = .regular) (hroom : CHUNK_SIZE ≤ room) :
    ∀ {n pos : Nat} {mem : Bytes}, pos ≤ file.size → loopTotal file.size pos stop ≤ n →
      (bodyLoop file stop retcode pos pos mem (turns room n)).writes.flatMap (·.2) =
        (file.data.drop pos).take (loopTotal file.size pos stop)
  | 0, pos, mem, hpos, hn => by
    obtain ⟨sent, hsent, hle, -, -⟩ := bodyLoop_full stop retcode hk hroom mem hpos
      (show ∀ c ∈ turns room 0, c.Full room by simp [turns])
    rw [hsent, Nat.le_antisymm hle (by omega)]
  | n + 1, pos, mem, hpos, hn => by
    have hlen := length_chunkAt pos hk
    by_cases hlt : pos < stop
    · have hstep := loopTotal_step hpos hlt
      have hchunk := chunkSize_pos
      have hrest := loopTotal_le file.size (pos + min CHUNK_SIZE (file.size - pos)) stop
      rw [turns_succ, bodyLoop_turn hk hpos hlt hroom hroom]
      dsimp only
      rw [List.flatMap_cons, bodyLoop_turns hk hroom (by omega) (by rw [hlen]; omega), hstep, List.take_add,
        List.drop_drop, ← hlen, ← take_length_chunkAt]
    · rw [bodyLoop_of_le (Nat.not_lt.mp hlt), loopTotal_of_le (Nat.not_lt.mp hlt)]
      simp

theorem bodyLoop_returns (hk : file.kind = .regular) (hstop : stop ≤ file.size) (hroom : CHUNK_SIZE ≤ room) :
    ∀ {n pos : Nat} {mem : Bytes}, pos ≤ file.size → stop ≤ pos + n →
      (bodyLoop file stop retcode pos pos mem (turns room n)).res = some retcode
  | 0, pos, mem, hpos, hn => by rw [bodyLoop_of_le (by omega)]
  | n + 1, pos, mem, hpos, hn => by
    by_cases hlt : pos < stop
    · have hlen := length_chunkAt pos hk
      have hchunk := chunkSize_pos
      rw [turns_succ, bodyLoop_turn hk hpos hlt hroom hroom]
      exact bodyLoop_returns hk hstop hroom (by omega) (by omega)
    · rw [bodyLoop_of_le (Nat.not_lt.mp hlt)]

theorem turns_full (hroom : 0 < room) : ∀ c ∈ turns room n, c.Full room := by
  intro c hc
  simp only [turns, List.mem_flatten, List.mem_replicate] at hc
  obtain ⟨l, ⟨-, rfl⟩, hc⟩ := hc
  simp only [List.mem_cons, List.not_mem_nil, or_false] at hc
  rcases hc with rfl | rfl <;> exact ⟨room, rfl, hroom, Nat.le_refl _⟩

theorem bodyLoop_returns_iff (hk : file.kind = .regular) (hpos : pos ≤ file.size) (hlt : pos < stop)
    (hroom : CHUNK_SIZE ≤ room) : (∃ sched, (∀ c ∈ sched, SysCall.Full room c) ∧
      ∃ r, (bodyLoop file stop retcode pos pos mem sched).res = some r) ↔ stop ≤ file.size := by
  constructor
  · rintro ⟨sched, hfull, r, hr⟩
    obtain ⟨sent, -, -, -, hret⟩ := bodyLoop_full stop retcode hk hroom mem hpos hfull
    exact (hret r hr).2.2 hlt
  · intro hstop
    have hchunk := chunkSize_pos
    exact ⟨turns room stop, turns_full (by omega), retcode, bodyLoop_returns hk hstop hroom hpos (by omega)⟩

/-- No read of a directory succeeds, and no write accepts the count that is then given to it: where every
    write does, none has been made. -/
theorem bodyLoop_directory (hk : file.kind = .directory) (hmem : mem.length < SIZE_MAX) (hlt : pos < stop)
    (hfull : ∀ c ∈ sched, c.Full room)
    (hwrites : ∀ w ∈ (bodyLoop file stop retcode pos pos mem sched).writes, w.2.length = w.1) :
    bodyLoop file stop retcode pos pos mem sched = ⟨none, []⟩ := by
  unfold bodyLoop at hwrites ⊢
  split
  · next r w rest =>
    obtain ⟨m, rfl, -, -⟩ := hfull (.write w) (by simp)
    have hread : readChunk file pos mem r = (SIZE_MAX, pos, mem) := by
      cases r <;> simp [readChunk, hk]
    simp only [if_pos hlt, hread] at hwrites
    have hfirst := hwrites _ List.mem_cons_self
    simp only [List.length_take] at hfirst
    omega
  · rw [if_pos hlt]

end Loop

end Distsys.Tinyweb
