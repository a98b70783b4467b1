import Distsys.Lib.System
import Distsys.Tinyweb.BodyStart

/-! The loop of `write_response_body` from one loop head to the next. Two positions advance: the offset of the
    file by the bytes that a read places in the chunk, the counter by the bytes that the socket accepts. -/

namespace Distsys.Tinyweb

/-- One turn of the loop: the outcomes of its two calls. -/
structure Turn where
  read : Result
  write : Result
  deriving DecidableEq, Repr

def Turn.calls (t : Turn) : Schedule := [.read t.read, .write t.write]

/-- The calls of the turns, one turn after the other. -/
def turnCalls (ts : List Turn) : Schedule := ts.flatMap Turn.calls

/-- The loop at its head: the counter, the offset of the file, the memory from the chunk on, and the bytes that
    the socket has accepted so far. -/
structure LoopHead where
  bytesWritten : Nat
  offset : Nat
  mem : Bytes
  accepted : Bytes

/-- What the socket accepts of the count that the write is given. -/
def LoopHead.sent (file : Inode) (h : LoopHead) (t : Turn) : Bytes :=
  let c := readChunk file h.offset h.mem t.read
  match t.write with
  | .ret n => c.2.2.take (min n c.1)
  | .eintr | .error => []

/-- The head of the loop behind a turn. -/
def LoopHead.next (file : Inode) (h : LoopHead) (t : Turn) : LoopHead :=
  let c := readChunk file h.offset h.mem t.read
  ⟨(h.bytesWritten + (h.sent file t).length) % 2 ^ 64, c.2.1, c.2.2, h.accepted ++ h.sent file t⟩

/-- The loop: a turn whose write fails leaves it and does not come back to the head. -/
def bodySystem (file : Inode) (pos stop : Nat) (mem : Bytes) : System LoopHead Turn where
  init := ⟨pos, pos, mem, []⟩
  enabled h t := h.bytesWritten < stop ∧ ∃ n, t.write = .ret n
  next := LoopHead.next file

/-- The loop from its head on. -/
def LoopHead.run (file : Inode) (stop : Nat) (retcode : Int) (h : LoopHead) (sched : Schedule) : BodyRun :=
  bodyLoop file stop retcode h.bytesWritten h.offset h.mem sched

/-- A run with writes before it. -/
def BodyRun.behind (run : BodyRun) (writes : List (Nat × Bytes)) : BodyRun :=
  { run with writes := writes ++ run.writes }

section Heads
variable {file : Inode} {pos stop : Nat} {retcode : Int} {mem : Bytes} {h : LoopHead} {t : Turn} {ts : List Turn}
  {sched : Schedule} {ok : LoopHead → Turn → Prop}

theorem behind_behind (run : BodyRun) (writes more : List (Nat × Bytes)) :
    (run.behind more).behind writes = run.behind (writes ++ more) := by
  simp only [BodyRun.behind, List.append_assoc]

theorem run_of_le (hle : stop ≤ h.bytesWritten) : h.run file stop retcode sched = ⟨some retcode, []⟩ :=
  bodyLoop_of_le hle

theorem run_nil (hlt : h.bytesWritten < stop) : h.run file stop retcode [] = ⟨none, []⟩ := by
  simp [LoopHead.run, bodyLoop, hlt]

theorem run_calls (hlt : h.bytesWritten < stop) (hw : ∃ n, t.write = .ret n) :
    h.run file stop retcode (t.calls ++ sched) =
      ((h.next file t).run file stop retcode sched).behind
        [((readChunk file h.offset h.mem t.read).1, h.sent file t)] := by
  obtain ⟨n, hn⟩ := hw
  simp only [LoopHead.run, Turn.calls, List.cons_append, List.nil_append, bodyLoop, if_pos hlt, hn, LoopHead.next,
    LoopHead.sent, BodyRun.behind]

/-- Whatever the write comes to, it is given the count of the read. -/
theorem run_calls_writes (file : Inode) (retcode : Int) (t : Turn) (sched : Schedule) (hlt : h.bytesWritten < stop) :
    ∃ writes, (h.run file stop retcode (t.calls ++ sched)).writes =
    ((readChunk file h.offset h.mem t.read).1, h.sent file t) :: writes := by
  cases hw : t.write with
  | ret n =>
    rw [run_calls hlt ⟨n, hw⟩]
    exact ⟨_, rfl⟩
  | eintr | error =>
    refine ⟨[], ?_⟩
    simp only [LoopHead.run, Turn.calls, List.cons_append, List.nil_append, bodyLoop, if_pos hlt, hw, LoopHead.sent]

theorem turnCalls_cons : turnCalls (t :: ts) ++ sched = t.calls ++ (turnCalls ts ++ sched) := by
  simp [turnCalls]

/-- The loop of the source takes the turns of the system: one write in each, and then it goes on from the head
    that they lead to. -/
theorem run_turnCalls (retcode : Int) : ∀ {ts : List Turn} {h : LoopHead},
    (bodySystem file pos stop mem).Allows ok h ts →
    ∃ writes, writes.length = ts.length ∧
      (ts.foldl (LoopHead.next file) h).accepted = h.accepted ++ writes.flatMap (·.2) ∧
      ∀ sched, h.run file stop retcode (turnCalls ts ++ sched) =
        ((ts.foldl (LoopHead.next file) h).run file stop retcode sched).behind writes
  | [], h, _ => ⟨[], rfl, by simp, fun _ => rfl⟩
  | t :: ts, h, ha => by
    obtain ⟨writes, hlen, hacc, hrun⟩ := run_turnCalls retcode ha.2.2
    refine ⟨((readChunk file h.offset h.mem t.read).1, h.sent file t) :: writes,
      by rw [List.length_cons, List.length_cons, hlen], ?_, fun sched => ?_⟩
    · rw [List.foldl_cons]
      refine hacc.trans ?_
      rw [List.flatMap_cons, ← List.append_assoc]
      rfl
    · have hrest : (h.next file t).run file stop retcode (turnCalls ts ++ sched) = _ := hrun sched
      rw [turnCalls_cons, run_calls ha.1.1 ha.1.2, hrest, behind_behind]
      rfl

theorem run_after (retcode : Int)
    (ha : (bodySystem file pos stop mem).Allows ok (bodySystem file pos stop mem).init ts) :
    ∃ writes, writes.length = ts.length ∧ ((bodySystem file pos stop mem).after ts).accepted = writes.flatMap (·.2) ∧
      ∀ sched, (bodySystem file pos stop mem).init.run file stop retcode (turnCalls ts ++ sched) =
        (((bodySystem file pos stop mem).after ts).run file stop retcode sched).behind writes :=
  run_turnCalls retcode ha

/-- The loop waits for a read exactly where the turns lead to a head that is below the bound. -/
theorem run_res_eq_none_iff (pos : Nat) (mem : Bytes) :
    ∀ (ts : List Turn) (h : LoopHead), (h.run file stop retcode (turnCalls ts)).res = none ↔
    (bodySystem file pos stop mem).Allows (fun _ _ => True) h ts ∧ (ts.foldl (LoopHead.next file) h).bytesWritten < stop
  | [], h => by
    by_cases hlt : h.bytesWritten < stop
    · have hnil : h.run file stop retcode (turnCalls []) = ⟨none, []⟩ := run_nil hlt
      simp [hnil, hlt, System.Allows]
    · simp [run_of_le (Nat.not_lt.mp hlt), hlt]
  | t :: ts, h => by
    have hcalls : turnCalls (t :: ts) = t.calls ++ turnCalls ts := rfl
    rw [hcalls]
    by_cases hlt : h.bytesWritten < stop
    · by_cases hw : ∃ n, t.write = .ret n
      · rw [run_calls hlt hw]
        refine (run_res_eq_none_iff pos mem ts (h.next file t)).trans ⟨?_, ?_⟩
        · rintro ⟨ha, hend⟩
          exact ⟨⟨⟨hlt, hw⟩, trivial, ha⟩, hend⟩
        · rintro ⟨ha, hend⟩
          exact ⟨ha.2.2, hend⟩
      · -- The failed write returns.
        have hne : (h.run file stop retcode (t.calls ++ turnCalls ts)).res ≠ none := by
          cases hw' : t.write with
          | ret n => exact absurd ⟨n, hw'⟩ hw
          | eintr | error => simp [LoopHead.run, Turn.calls, bodyLoop, hlt, hw']
        exact iff_of_false hne fun ⟨ha, _⟩ => hw ha.1.2
    · rw [run_of_le (Nat.not_lt.mp hlt)]
      exact iff_of_false (by simp) fun ⟨ha, _⟩ => hlt ha.1.1

end Heads

/-! ### The count that a write is given -/

/-- The bytes that a read places in the chunk, when it succeeds. -/
def placed (file : Inode) (offset : Nat) : Result → Option Bytes
  | .ret n => if file.kind = .directory then none else some ((file.data.drop offset).take (min n CHUNK_SIZE))
  | .eintr | .error => none

/-- The offset after the reads of the turns: each moves it by what it placed. -/
def offsetAfter (file : Inode) (pos : Nat) (ts : List Turn) : Nat :=
  ts.foldl (fun offset t => offset + ((placed file offset t.read).getD []).length) pos

/-- The outcomes are those of a run: each turn is taken while the function is in its loop. -/
def IsRun (body : Schedule → BodyRun) (ts : List Turn) : Prop :=
  ∀ n < ts.length, (body (turnCalls (ts.take n))).res = none

/-- After a read that succeeds the write is given as many bytes as it placed, and a read that fails ends the
    function with -1 and no further write. -/
def HandlesReads (body : Schedule → BodyRun) (file : Inode) (pos : Nat) (ts : List Turn) : Prop :=
  ∀ before t later, ts = before ++ t :: later →
    match placed file (offsetAfter file pos before) t.read with
    | some bytes => bytes.length ≤ CHUNK_SIZE ∧
      ∀ sched, (body (turnCalls before ++ t.calls ++ sched)).writes[before.length]?.map (·.1) = some bytes.length
    | none => ∀ sched, body (turnCalls before ++ .read t.read :: sched) = ⟨some (-1), (body (turnCalls before)).writes⟩

/-- The read of the turn succeeds: it is no read of a directory. -/
def ReadSucceeds (file : Inode) (t : Turn) : Prop := file.kind ≠ .directory ∧ ∃ n, t.read = .ret n

section Reads
variable {fs : FileSystem} {filepath mem : Bytes} {start end_ : Int} {file : Inode} {pos stop offset : Nat} {r : Result}
  {ts : List Turn} {t : Turn} {h : LoopHead}

theorem placed_eq_none_iff : placed file offset t.read = none ↔ ¬ReadSucceeds file t := by
  unfold ReadSucceeds
  cases hr : t.read with
  | ret n => simp [placed]
  | eintr | error => simp [placed]

theorem readChunk_of_placed {bytes : Bytes} (hp : placed file offset r = some bytes) :
    readChunk file offset mem r = (bytes.length, offset + bytes.length, bytes ++ mem.drop bytes.length) := by
  cases r with
  | ret n =>
    simp only [placed] at hp
    split at hp
    · cases hp
    · next hk =>
      cases hp
      simp only [readChunk, if_neg hk]
  | eintr | error => cases hp

theorem readChunk_of_none (hp : placed file offset r = none) :
    readChunk file offset mem r = (SIZE_MAX, offset, mem) := by
  cases r with
  | ret n =>
    simp only [placed] at hp
    split at hp
    · next hk => simp only [readChunk, if_pos hk]
    · cases hp
  | eintr | error => rfl

theorem length_placed_le {bytes : Bytes} (hp : placed file offset r = some bytes) : bytes.length ≤ CHUNK_SIZE := by
  cases r with
  | ret n =>
    simp only [placed] at hp
    split at hp
    · cases hp
    · cases hp
      exact (List.length_take_le _ _).trans (Nat.min_le_right _ _)
  | eintr | error => cases hp

theorem next_offset : (h.next file t).offset = h.offset + ((placed file h.offset t.read).getD []).length := by
  unfold LoopHead.next
  cases hp : placed file h.offset t.read with
  | none => simp [readChunk_of_none hp]
  | some bytes => simp [readChunk_of_placed hp]

theorem foldl_next_offset : ∀ {ts : List Turn} {h : LoopHead},
    (ts.foldl (LoopHead.next file) h).offset = offsetAfter file h.offset ts
  | [], _ => rfl
  | t :: ts, h => by
    rw [List.foldl_cons, foldl_next_offset, next_offset]
    rfl

theorem IsRun.before {body : Schedule → BodyRun} {before later : List Turn} (h : IsRun body ts)
    (hts : ts = before ++ t :: later) : (body (turnCalls before)).res = none := by
  have hbefore := h before.length (by rw [hts, List.length_append, List.length_cons]; omega)
  rwa [hts, List.take_left] at hbefore

theorem writeResponseBody_run (hint : -2 ^ 31 ≤ start ∧ start < 2 ^ 31)
    (hb : bodyBounds fs filepath start end_ = some (file, pos, stop)) :
    writeResponseBody fs filepath mem start end_ = (bodySystem file pos stop mem).init.run file stop 0 := by
  funext sched
  rw [writeResponseBody_eq hint, hb]
  rfl

/-- Where a run begins a turn, and the first write behind it: its count is that of the read. -/
theorem IsRun.turn {before later : List Turn} (hint : -2 ^ 31 ≤ start ∧ start < 2 ^ 31)
    (hb : bodyBounds fs filepath start end_ = some (file, pos, stop))
    (hrun : IsRun (writeResponseBody fs filepath mem start end_) ts) (hts : ts = before ++ t :: later) :
    ∃ writes mem', writes.length = before.length ∧
      writeResponseBody fs filepath mem start end_ (turnCalls before) = ⟨none, writes⟩ ∧
      ∀ sched, ∃ sent more, (writeResponseBody fs filepath mem start end_
        (turnCalls before ++ t.calls ++ sched)).writes =
        writes ++ ((readChunk file (offsetAfter file pos before) mem' t.read).1, sent) :: more := by
  have hres := hrun.before hts
  rw [writeResponseBody_run hint hb] at hres ⊢
  obtain ⟨ha, hlt⟩ := (run_res_eq_none_iff pos mem before _).mp hres
  obtain ⟨writes, hlen, -, hgoes⟩ := run_after 0 ha
  have hoffset : ((bodySystem file pos stop mem).after before).offset = offsetAfter file pos before := foldl_next_offset
  have hhere : ((bodySystem file pos stop mem).after before).run file stop 0 [] = ⟨none, []⟩ := run_nil hlt
  refine ⟨writes, ((bodySystem file pos stop mem).after before).mem, hlen, ?_, fun sched => ?_⟩
  · have hbefore := hgoes []
    rw [List.append_nil, hhere] at hbefore
    rw [hbefore, BodyRun.behind, List.append_nil]
  · obtain ⟨more, hmore⟩ := run_calls_writes file 0 t sched hlt
    refine ⟨((bodySystem file pos stop mem).after before).sent file t, more, ?_⟩
    rw [List.append_assoc, hgoes, ← hoffset]
    exact congrArg (writes ++ ·) hmore

/-- In every run of the loop, the reads are taken care of exactly where they all succeed: after one that fails,
    memory from the chunk on is handed to the socket, up to the largest `size_t`. -/
theorem handlesReads_iff (hint : -2 ^ 31 ≤ start ∧ start < 2 ^ 31)
    (hb : bodyBounds fs filepath start end_ = some (file, pos, stop))
    (hrun : IsRun (writeResponseBody fs filepath mem start end_) ts) :
    HandlesReads (writeResponseBody fs filepath mem start end_) file pos ts ↔ ∀ t ∈ ts, ReadSucceeds file t := by
  constructor
  · intro hall t ht
    by_contra hfails
    obtain ⟨before, later, hts⟩ := List.append_of_mem ht
    obtain ⟨writes, mem', -, hbefore, hwrites⟩ := hrun.turn hint hb hts
    have hturn := hall before t later hts
    rw [placed_eq_none_iff.mpr hfails] at hturn
    -- The write after the failed read is one write too many.
    have hstop : writeResponseBody fs filepath mem start end_ (turnCalls before ++ t.calls ++ []) =
        ⟨some (-1), writes⟩ := by
      rw [List.append_nil]
      exact (hturn [.write t.write]).trans (by rw [hbefore])
    obtain ⟨sent, more, hmore⟩ := hwrites []
    rw [hstop, List.self_eq_append_right] at hmore
    cases hmore
  · intro hall before t later hts
    obtain ⟨writes, mem', hlen, -, hwrites⟩ := hrun.turn hint hb hts
    cases hp : placed file (offsetAfter file pos before) t.read with
    | none => exact absurd (hall t (hts ▸ List.mem_append_right _ List.mem_cons_self)) (placed_eq_none_iff.mp hp)
    | some bytes =>
      refine ⟨length_placed_le hp, fun sched => ?_⟩
      obtain ⟨sent, more, hmore⟩ := hwrites sched
      rw [hmore, readChunk_of_placed hp, ← hlen, List.getElem?_append_right (Nat.le_refl _), Nat.sub_self]
      rfl

end Reads

/-- What `write_response_body` does with a file that it finds under every path. -/
def bodyOf (file : Inode) (start end_ : Int) : Schedule → BodyRun :=
  writeResponseBody (fun _ => some file) (str "/srv/a") (List.replicate CHUNK_SIZE NUL) start end_

theorem handlesReads_iff_example :
    HandlesReads (bodyOf smallFile (-2) (-2)) smallFile 0 [⟨.ret 256, .ret 3⟩, ⟨.error, .ret 1⟩] ↔
    ∀ t ∈ [⟨.ret 256, .ret 3⟩, ⟨.error, .ret 1⟩], ReadSucceeds smallFile t :=
  handlesReads_iff (by decide) (show _ = some (smallFile, 0, 5) from rfl) (by unfold IsRun; decide +kernel)

/-- A request for a range of a directory: the file is opened, and every read of it fails. -/
def directoryRange : Buffer := Buffer.store (.filled NUL) (str "GET /d HTTP/1.1\r\nRange: bytes=0-\r\n\r\n")

def Event.isWrite (count : Nat) : Event → Bool
  | .body c _ => c == count
  | _ => false

/-- The failed read is followed by a write of the largest count there is. -/
theorem directoryRange_not_handled :
    (serve (.undisturbed (str "/srv") fun _ => some plainDirectory) directoryRange
      [.write (.ret 1000), .read .error, .write .error]).events.any (Event.isWrite SIZE_MAX) = true ∧
    IsRun (bodyOf plainDirectory 0 (-1)) [⟨.error, .error⟩] ∧
    ¬HandlesReads (bodyOf plainDirectory 0 (-1)) plainDirectory 0 [⟨.error, .error⟩] := by
  refine ⟨by decide +kernel, by unfold IsRun; decide +kernel, fun h => ?_⟩
  have hstop : bodyOf plainDirectory 0 (-1) [.read .error, .write .error] = ⟨some (-1), []⟩ :=
    h [] _ [] rfl [.write .error]
  have hwrites : (bodyOf plainDirectory 0 (-1) [.read .error, .write .error]).writes.length = 1 := by decide +kernel
  rw [hstop] at hwrites
  cases hwrites

/-! ### The two positions -/

/-- Both calls of the turn succeed: the read asks for some bytes, and the write has room for some. -/
structure Turn.Succeeds (t : Turn) : Prop where
  read : ∃ n, t.read = .ret n ∧ 0 < n
  write : ∃ n, t.write = .ret n ∧ 0 < n

/-- The socket has accepted the file from the start up to the counter, where the file is read next. -/
structure InStep (file : Inode) (pos : Nat) (h : LoopHead) : Prop where
  offset : h.offset = h.bytesWritten
  accepted : h.accepted = (file.data.drop pos).take (h.bytesWritten - pos)

/-- The write has room for all that the read placed in the chunk. -/
def TakesAll (file : Inode) (h : LoopHead) (t : Turn) : Prop :=
  ∀ n, t.write = .ret n → (readChunk file h.offset h.mem t.read).1 ≤ n

/-- The counter is never ahead of the file, which is read no further than to its end. -/
structure Between (file : Inode) (pos : Nat) (h : LoopHead) : Prop where
  start_le : pos ≤ h.bytesWritten
  le_offset : h.bytesWritten ≤ h.offset
  offset_le : h.offset ≤ max pos file.size

/-- The number of bytes that a read places. -/
def readLength (file : Inode) (offset n : Nat) : Nat := min (min n CHUNK_SIZE) (file.size - offset)

section Regular
variable {file : Inode} {pos stop offset n m : Nat} {mem : Bytes} {h : LoopHead} {t : Turn} {ts : List Turn}

theorem length_take_readLength (hk : file.kind = .regular) {k : Nat} (hle : k ≤ readLength file offset n) :
    ((file.data.drop offset).take k).length = k := by
  rw [List.length_take, List.length_drop, ← file.size_eq hk]
  exact Nat.min_eq_left (hle.trans (Nat.min_le_right _ _))

theorem readChunk_regular (hk : file.kind = .regular) : readChunk file offset mem (.ret n) =
    (readLength file offset n, offset + readLength file offset n,
      (file.data.drop offset).take (readLength file offset n) ++ mem.drop (readLength file offset n)) := by
  have hgot : (file.data.drop offset).take (min n CHUNK_SIZE) =
      (file.data.drop offset).take (readLength file offset n) := by
    rw [List.take_eq_take_min, List.length_drop, ← file.size_eq hk]
    rfl
  have hlen := length_take_readLength hk (Nat.le_refl (readLength file offset n))
  have hne : file.kind ≠ .directory := by
    rw [hk]
    decide
  simp only [readChunk, if_neg hne, hgot, hlen]

theorem next_regular (hk : file.kind = .regular) (hpos : pos < 2 ^ 63) (hb : Between file pos h) (hr : t.read = .ret n)
    (hw : t.write = .ret m) : (h.next file t).offset = h.offset + readLength file h.offset n ∧
      (h.next file t).bytesWritten = h.bytesWritten + min m (readLength file h.offset n) ∧
      (h.next file t).accepted = h.accepted ++ (file.data.drop h.offset).take (min m (readLength file h.offset n)) := by
  have hlen := length_take_readLength hk (Nat.le_refl (readLength file h.offset n))
  have hsent : h.sent file t = (file.data.drop h.offset).take (min m (readLength file h.offset n)) := by
    simp only [LoopHead.sent, hr, hw, readChunk_regular hk]
    rw [List.take_append_of_le_length (by rw [hlen]; exact Nat.min_le_right _ _), List.take_take, Nat.min_assoc,
      Nat.min_self]
  have hcount : (h.sent file t).length = min m (readLength file h.offset n) := by
    rw [hsent, length_take_readLength hk (Nat.min_le_right _ _)]
  refine ⟨by simp only [LoopHead.next, hr, readChunk_regular hk], ?_, by rw [← hsent]; rfl⟩
  -- The counter stays below the size of the largest file.
  show (h.bytesWritten + (h.sent file t).length) % 2 ^ 64 = _
  have hsize := file.size_lt
  have hle := hb.le_offset
  have hoffset := hb.offset_le
  have hgot : readLength file h.offset n ≤ file.size - h.offset := Nat.min_le_right _ _
  rw [hcount, Nat.mod_eq_of_lt (by omega)]

theorem between_init (file : Inode) (pos stop : Nat) (mem : Bytes) :
    Between file pos (bodySystem file pos stop mem).init :=
  ⟨Nat.le_refl _, Nat.le_refl _, Nat.le_max_left _ _⟩

theorem Between.next (hk : file.kind = .regular) (hpos : pos < 2 ^ 63) (hb : Between file pos h) (ht : t.Succeeds) :
    Between file pos (h.next file t) := by
  obtain ⟨⟨n, hr, -⟩, m, hw, -⟩ := ht
  obtain ⟨hoffset, hcount, -⟩ := next_regular hk hpos hb hr hw
  have hgot : readLength file h.offset n ≤ file.size - h.offset := Nat.min_le_right _ _
  refine ⟨?_, ?_, ?_⟩
  · rw [hcount]
    exact hb.start_le.trans (Nat.le_add_right _ _)
  · rw [hcount, hoffset]
    exact Nat.add_le_add hb.le_offset (Nat.min_le_right _ _)
  · rw [hoffset]
    have hle := hb.offset_le
    omega

/-- One turn: the positions are together after it exactly where they were before it and the write takes all. -/
theorem inStep_next (hk : file.kind = .regular) (hpos : pos < 2 ^ 63) (hb : Between file pos h) (ht : t.Succeeds) :
    InStep file pos (h.next file t) ↔ InStep file pos h ∧ TakesAll file h t := by
  obtain ⟨⟨n, hr, -⟩, m, hw, -⟩ := ht
  obtain ⟨hoffset, hcount, haccepted⟩ := next_regular hk hpos hb hr hw
  have htakes : TakesAll file h t ↔ readLength file h.offset n ≤ m := by
    unfold TakesAll
    rw [hr, hw, readChunk_regular hk]
    exact ⟨fun hall => hall m rfl, fun hle k hk => Result.ret.inj hk ▸ hle⟩
  have hstart := hb.start_le
  have hle := hb.le_offset
  -- The file from the start, cut where this turn begins.
  have hcut {k : Nat} (he : h.offset = h.bytesWritten) : (file.data.drop pos).take (h.bytesWritten + k - pos) =
      (file.data.drop pos).take (h.bytesWritten - pos) ++ (file.data.drop h.offset).take k := by
    rw [Nat.sub_add_comm hstart, List.take_add, List.drop_drop, Nat.add_sub_cancel' hstart, he]
  rw [htakes]
  constructor
  · rintro ⟨he, hacc⟩
    rw [hoffset, hcount] at he
    have htogether : h.offset = h.bytesWritten := by omega
    refine ⟨⟨htogether, ?_⟩, by omega⟩
    rw [haccepted, hcount, hcut htogether] at hacc
    exact List.append_cancel_right hacc
  · rintro ⟨⟨he, hacc⟩, hroom⟩
    refine ⟨by rw [hoffset, hcount, Nat.min_eq_right hroom, he], ?_⟩
    rw [haccepted, hcount, hcut he, hacc]

theorem between_after (hk : file.kind = .regular) (hpos : pos < 2 ^ 63)
    (hrun : (bodySystem file pos stop mem).Allows (fun _ t => t.Succeeds) (bodySystem file pos stop mem).init ts) :
    Between file pos ((bodySystem file pos stop mem).after ts) :=
  System.ReachesBy.invariant (between_init file pos stop mem) (fun _ _ hb _ ht => hb.next hk hpos ht)
  (System.reachesBy_after hrun)

/-- At every loop head of every run: the socket has the file up to the counter, where the next read begins, exactly
    where every write before accepted all that it was offered. -/
theorem inStep_iff (hk : file.kind = .regular) (hpos : pos < 2 ^ 63)
    (hrun : (bodySystem file pos stop mem).Allows (fun _ t => t.Succeeds) (bodySystem file pos stop mem).init ts) :
    InStep file pos ((bodySystem file pos stop mem).after ts) ↔
      (bodySystem file pos stop mem).Allows (TakesAll file) (bodySystem file pos stop mem).init ts := by
  induction ts using List.reverseRecOn with
  | nil => exact iff_of_true ⟨rfl, by simp [System.after, bodySystem]⟩ trivial
  | append_singleton ts t ih =>
    obtain ⟨hbefore, henabled, hsucceeds, -⟩ := System.allows_append.mp hrun
    rw [System.after_concat, System.allows_append]
    refine (inStep_next hk hpos (between_after hk hpos hbefore) hsucceeds).trans ?_
    rw [ih hbefore]
    exact and_congr_right fun _ => ⟨fun htakes => ⟨henabled, htakes, trivial⟩, fun hone => hone.2.1⟩

end Regular

theorem inStep_iff_example : InStep smallFile 1 ((bodySystem smallFile 1 5 []).after [⟨.ret 2, .ret 2⟩]) ↔
    (bodySystem smallFile 1 5 []).Allows (TakesAll smallFile) (bodySystem smallFile 1 5 []).init [⟨.ret 2, .ret 2⟩] :=
  inStep_iff rfl (by decide) ⟨⟨by decide, 2, rfl⟩, ⟨⟨2, rfl, by decide⟩, 2, rfl, by decide⟩, trivial⟩

/-- The socket accepts one of the two bytes that are read first: the second is skipped. -/
theorem shortWrite_skips :
    (bodyOf smallFile (-2) (-2) (turnCalls [⟨.ret 2, .ret 1⟩, ⟨.ret 256, .ret 256⟩])).writes.flatMap (·.2) =
      str "hllo" ∧
    (bodySystem smallFile 0 5 []).Allows (fun _ t => t.Succeeds) (bodySystem smallFile 0 5 []).init
      [⟨.ret 2, .ret 1⟩, ⟨.ret 256, .ret 256⟩] ∧
    ¬InStep smallFile 0 ((bodySystem smallFile 0 5 []).after [⟨.ret 2, .ret 1⟩, ⟨.ret 256, .ret 256⟩]) := by
  have hread : ((bodySystem smallFile 0 5 []).after [⟨.ret 2, .ret 1⟩, ⟨.ret 256, .ret 256⟩]).offset = 5 := by
    decide +kernel
  have hcount : ((bodySystem smallFile 0 5 []).after [⟨.ret 2, .ret 1⟩, ⟨.ret 256, .ret 256⟩]).bytesWritten = 4 := by
    decide +kernel
  refine ⟨by decide +kernel, ?_, fun h => ?_⟩
  · exact ⟨⟨by decide, 1, rfl⟩, ⟨⟨2, rfl, by decide⟩, 1, rfl, by decide⟩, ⟨by decide +kernel, 256, rfl⟩,
      ⟨⟨256, rfl, by decide⟩, 256, rfl, by decide⟩, trivial⟩
  · have htogether := h.offset
    rw [hread, hcount] at htogether
    cases htogether

end Distsys.Tinyweb
