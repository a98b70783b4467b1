import Distsys.Tinyweb.BodyHeads

/-! The end of the loop of `write_response_body`. It counts up to a bound by what the socket accepts: the loop ends
    in every run where one byte of each chunk is enough to get there, and it sends the rest of an unchanged file
    where every write takes all. -/

namespace Distsys.Tinyweb

/-- The loop ends in every run of calls that succeed: no endless sequence of turns keeps it going. -/
def LoopEnds (now : Inode) (pos stop : Nat) (mem : Bytes) : Prop := ∀ f : ℕ → Turn, (∀ n, (f n).Succeeds) →
  ∃ n, (bodyLoop now stop 0 pos pos mem (turnCalls ((List.range n).map f))).res ≠ none

/-- The number of chunks that a file has from an offset on. -/
def chunksLeft (file : Inode) (offset : Nat) : Nat := (file.size - offset + (CHUNK_SIZE - 1)) / CHUNK_SIZE

section Ends
variable {now : Inode} {pos stop offset n m : Nat} {mem : Bytes} {h : LoopHead} {t : Turn}

theorem loopEnds_iff_terminates : LoopEnds now pos stop mem ↔
    (bodySystem now pos stop mem).Terminates (fun _ t => t.Succeeds) := by
  constructor
  · intro hends f
    by_contra hno
    have hgoes : ∀ n, (bodySystem now pos stop mem).enabled ((bodySystem now pos stop mem).stateAt f n) (f n) ∧
        (f n).Succeeds :=
      fun n => not_not.mp fun hn => hno ⟨n, hn⟩
    obtain ⟨n, hn⟩ := hends f fun n => (hgoes n).2
    have hrun : (bodySystem now pos stop mem).Allows (fun _ _ => True) (bodySystem now pos stop mem).init
        ((List.range n).map f) := System.allows_range fun m _ => ⟨(hgoes m).1, trivial⟩
    refine hn ((run_res_eq_none_iff pos mem _ (bodySystem now pos stop mem).init).mpr ⟨hrun, ?_⟩)
    have hbelow := (hgoes n).1.1
    rwa [← System.after_range] at hbelow
  · intro hends f hf
    obtain ⟨n, -, hn⟩ := hends.exists_end f
    refine ⟨n, fun hres => hn ⟨⟨?_, ?_⟩, hf n⟩⟩
    · rw [← System.after_range]
      exact ((run_res_eq_none_iff pos mem _ (bodySystem now pos stop mem).init).mp hres).2
    · obtain ⟨m, hm, -⟩ := (hf n).write
      exact ⟨m, hm⟩

theorem readLength_pos (hn : 0 < n) (hlt : offset < now.size) : 0 < readLength now offset n := by
  unfold readLength CHUNK_SIZE
  omega

theorem chunksLeft_le : chunksLeft now offset ≤ chunksLeft now (offset + readLength now offset n) + min 1
    (readLength now offset n) := by
  unfold chunksLeft readLength CHUNK_SIZE
  omega

theorem chunksLeft_full : chunksLeft now (offset + readLength now offset CHUNK_SIZE) +
    min 1 (readLength now offset CHUNK_SIZE) = chunksLeft now offset := by
  unfold chunksLeft readLength CHUNK_SIZE
  omega

theorem lt_size_of_chunksLeft (h : 0 < chunksLeft now offset) : offset < now.size := by
  unfold chunksLeft CHUNK_SIZE at h
  omega

/-- One byte of each chunk is accepted at least, so the loop gets as far as there are chunks. -/
theorem loop_terminates (hk : now.kind = .regular) (hpos : pos < 2 ^ 63) (hstop : stop ≤ pos + chunksLeft now pos) :
    (bodySystem now pos stop mem).Terminates (fun _ t => t.Succeeds) := by
  let inv (h : LoopHead) : Prop :=
    Between now pos h ∧ pos + chunksLeft now pos ≤ h.bytesWritten + chunksLeft now h.offset
  refine System.terminates_of_measure (P := inv) (fun h => stop - h.bytesWritten)
    ⟨between_init now pos stop mem, Nat.le_refl _⟩ ?_
  rintro h t ⟨hb, hchunks⟩ ⟨hlt, -⟩ ht
  obtain ⟨⟨n, hr, hn⟩, m, hw, hm⟩ := ht
  obtain ⟨hoffset, hcount, -⟩ := next_regular hk hpos hb hr hw
  have hgot : 0 < readLength now h.offset n := readLength_pos hn (lt_size_of_chunksLeft (by omega))
  have hle : chunksLeft now h.offset ≤ chunksLeft now (h.offset + readLength now h.offset n) +
      min 1 (readLength now h.offset n) :=
    chunksLeft_le
  refine ⟨⟨hb.next hk hpos ⟨⟨n, hr, hn⟩, m, hw, hm⟩, ?_⟩, ?_⟩
  · show _ ≤ (h.next now t).bytesWritten + chunksLeft now (h.next now t).offset
    rw [hoffset, hcount]
    omega
  · show stop - (h.next now t).bytesWritten < stop - h.bytesWritten
    rw [hcount]
    omega

/-- A socket that accepts one byte of each chunk keeps the loop going for ever: at the end of the file it has not
    counted up to the bound, and nothing is read any more. -/
theorem loop_not_terminates (hk : now.kind = .regular) (hpos : pos < 2 ^ 63) (hstop : pos + chunksLeft now pos < stop) :
    ¬(bodySystem now pos stop mem).Terminates (fun _ t => t.Succeeds) := by
  let inv (h : LoopHead) : Prop :=
    Between now pos h ∧ h.bytesWritten + chunksLeft now h.offset = pos + chunksLeft now pos
  refine System.not_terminates (P := inv) ⟨.ret CHUNK_SIZE, .ret 1⟩ ⟨between_init now pos stop mem, rfl⟩ ?_
  rintro h ⟨hb, hchunks⟩
  have ht : Turn.Succeeds ⟨.ret CHUNK_SIZE, .ret 1⟩ := ⟨⟨_, rfl, by decide⟩, 1, rfl, Nat.one_pos⟩
  obtain ⟨hoffset, hcount, -⟩ := next_regular (t := ⟨.ret CHUNK_SIZE, .ret 1⟩) hk hpos hb rfl rfl
  have hfull : chunksLeft now (h.offset + readLength now h.offset CHUNK_SIZE) +
    min 1 (readLength now h.offset CHUNK_SIZE) =
      chunksLeft now h.offset := chunksLeft_full
  refine ⟨⟨?_, 1, rfl⟩, ht, hb.next hk hpos ht, ?_⟩
  · show h.bytesWritten < stop
    omega
  · show (h.next now _).bytesWritten + chunksLeft now (h.next now _).offset = _
    rw [hoffset, hcount]
    omega

end Ends

/-! ### Every answer -/

section Answer
variable {env : Env} {buffer : Buffer} {q : ParsedHeader} {status : HttpStatus} {filepath : Bytes} {st file now : Inode}
  {start end_ : Int} {pos stop : Nat}

theorem start_lt_of_bodyBounds (hint : start < 2 ^ 31)
    (hb : bodyBounds env.fsBody filepath start end_ = some (file, pos, stop)) : pos < 2 ^ 63 := by
  unfold bodyBounds at hb
  split at hb
  · cases hb
  · split at hb
    · cases hb
    · split at hb
      · split at hb
        · cases hb
          omega
        · cases hb
      · cases hb
        exact Nat.two_pow_pos 63

/-- An answer with a file is sent by a loop that ends in every run, exactly where the number that it counts up to is
    at most as far behind the start as the file has chunks left when it is read. -/
theorem loopEnds_iff (hq : parseHttpHeader env.libc buffer.bytes = .ok q)
    (hd : dispatch env q = .file status filepath st)
    (hb : bodyBounds env.fsBody filepath q.byteStart q.byteEnd = some (file, pos, stop)) (hk : now.kind = .regular) :
    LoopEnds now pos stop env.memory ↔ stop ≤ pos + chunksLeft now pos := by
  obtain ⟨l, rest, f, hacc⟩ := acceptedAs hq (accepted_of_dispatch hd (by simp))
  have hpos : pos < 2 ^ 63 := start_lt_of_bodyBounds hacc.fields.start_int.2 hb
  rw [loopEnds_iff_terminates]
  constructor
  · intro hends
    by_contra hfar
    exact loop_not_terminates hk hpos (Nat.not_le.mp hfar) hends
  · exact loop_terminates hk hpos

/-- The array with a request for a range of a file, and what the parser makes of it. -/
def rangeGet (range : Bytes) : Buffer :=
  Buffer.store (.filled NUL) (str "GET /a HTTP/1.1\r\nRange: bytes=" ++ range ++ str "\r\n\r\n")

def rangeParsed (start end_ : Int) : ParsedHeader where
  method := .text (str "GET")
  filename := .text (str "/a")
  protocol := .text (str "HTTP/1.1")
  httpState := .partialContent
  byteStart := start
  byteEnd := end_

theorem parse_rangeGet : parseHttpHeader .working (rangeGet (str "2-")).bytes = .ok (rangeParsed 2 (-1)) ∧
    parseHttpHeader .working (rangeGet (str "0-9")).bytes = .ok (rangeParsed 0 9) := by
  constructor <;> decide +kernel

theorem loopEnds_iff_example : LoopEnds smallFile 2 5 smallEnv.memory ↔ 5 ≤ 2 + chunksLeft smallFile 2 :=
  loopEnds_iff parse_rangeGet.1 (show dispatch smallEnv _ = .file .partialContent (str "/srv/a") smallFile from rfl)
    (show _ = some (smallFile, 2, 5) from rfl) rfl

/-- The range ends behind the file: the file is sent, and then nothing is read and written for ever. -/
theorem endBeyond_never_ends : dispatch smallEnv (rangeParsed 0 9) = .file .partialContent (str "/srv/a") smallFile ∧
    bodyBounds smallEnv.fsBody (str "/srv/a") 0 9 = some (smallFile, 0, 9) ∧ ¬LoopEnds smallFile 0 9 smallEnv.memory ∧
    parseHttpHeader .working (rangeGet (str "0-9")).bytes = .ok (rangeParsed 0 9) := by
  refine ⟨rfl, rfl, fun hends => ?_, parse_rangeGet.2⟩
  have hfar : 0 + chunksLeft smallFile 0 < 9 := by decide
  exact loop_not_terminates rfl (Nat.two_pow_pos 63) hfar (loopEnds_iff_terminates.mp hends)

end Answer

/-! ### An unchanged file -/

/-- The request asks for a file of `n` bytes from a start on: it has no range, or one without an end that begins
    in the file. -/
inductive AsksFrom (q : ParsedHeader) (n : Nat) : Nat → Prop
  | whole : q.httpState = .ok → AsksFrom q n 0
  | rest {start : Nat} : q.httpState = .partialContent → q.byteStart = start → q.byteEnd = -1 → start < n →
    AsksFrom q n start

/-- The loop in a run whose writes take all. -/
structure Together (file : Inode) (start : Nat) (h : LoopHead) : Prop where
  between : Between file start h
  inStep : InStep file start h

section Unchanged
variable {env : Env} {buffer : Buffer} {q : ParsedHeader} {filepath : Bytes} {file : Inode} {start : Nat} {f : ℕ → Turn}
  {h : LoopHead} {t : Turn}

theorem AsksFrom.accepted (h : AsksFrom q file.size start) : Accepted q.httpState := by
  cases h with
  | whole hs => exact hs ▸ accepted_ok
  | rest hs => exact hs ▸ accepted_partialContent

theorem AsksFrom.bodyBounds (h : AsksFrom q file.size start) (hf : RangeFields q)
    (hst : env.fsBody filepath = some file) (hr : file.readable = true) :
      bodyBounds env.fsBody filepath q.byteStart q.byteEnd = some (file, start, file.size) := by
  cases h with
  | whole hs =>
    obtain ⟨hstart, -⟩ := hf.ok hs
    exact bodyBounds_whole hst hr fun hp => hp.1 hstart
  | rest hs hstart hend hlt =>
    have hp : IsPartial q.byteStart q.byteEnd := by
      rw [hstart, hend]
      exact ⟨by omega, by decide⟩
    rw [bodyBounds_of_isPartial hst hr hp, hstart, hend, if_pos (Int.natCast_nonneg start), if_pos rfl]
    rfl

theorem together_init (file : Inode) (start : Nat) (mem : Bytes) :
    Together file start (bodySystem file start file.size mem).init :=
  ⟨between_init file start file.size mem, rfl, by simp [bodySystem]⟩

theorem Together.next (hk : file.kind = .regular) (hpos : start < 2 ^ 63) (h' : Together file start h) (ht : t.Succeeds)
    (htakes : TakesAll file h t) : Together file start (h.next file t) :=
  ⟨h'.between.next hk hpos ht, (inStep_next hk hpos h'.between ht).mpr ⟨h'.inStep, htakes⟩⟩

theorem rest_terminates (mem : Bytes) (hk : file.kind = .regular) (hpos : start < 2 ^ 63) :
    (bodySystem file start file.size mem).Terminates (fun h t => t.Succeeds ∧ TakesAll file h t) := by
  refine System.terminates_of_measure (fun h => file.size - h.bytesWritten) (together_init file start mem) ?_
  rintro h t htogether ⟨hlt, -⟩ ⟨ht, htakes⟩
  refine ⟨htogether.next hk hpos ht htakes, ?_⟩
  have hlt : h.bytesWritten < file.size := hlt
  obtain ⟨⟨n, hr, hn⟩, m, hw, hm⟩ := ht
  obtain ⟨-, hcount, -⟩ := next_regular hk hpos htogether.between hr hw
  have hgot : 0 < readLength file h.offset n := readLength_pos hn (htogether.inStep.offset ▸ hlt)
  show file.size - (h.next file t).bytesWritten < file.size - h.bytesWritten
  rw [hcount]
  omega

theorem together_after {mem : Bytes} {ts : List Turn} (hk : file.kind = .regular) (hpos : start < 2 ^ 63)
    (hrun : (bodySystem file start file.size mem).Allows (fun h t => t.Succeeds ∧ TakesAll file h t)
      (bodySystem file start file.size mem).init ts) : Together file start
        ((bodySystem file start file.size mem).after ts) :=
  System.ReachesBy.invariant (together_init file start mem) (fun _ _ h' _ ht => h'.next hk hpos ht.1 ht.2)
    (System.reachesBy_after hrun)

/-- Whatever the reads and the writes are cut into, as long as the writes take all: the function returns 0, and
    has sent the file from the start to its last byte. -/
theorem sendsRest (hq : parseHttpHeader env.libc buffer.bytes = .ok q) (hasks : AsksFrom q file.size start)
    (hst : env.fsBody filepath = some file) (hk : file.kind = .regular) (hr : file.readable = true)
    (hf : ∀ n, (f n).Succeeds ∧ TakesAll file ((bodySystem file start file.size env.memory).stateAt f n) (f n)) :
    ∃ n writes, (∀ sched, writeResponseBody env.fsBody filepath env.memory q.byteStart q.byteEnd
        (turnCalls ((List.range n).map f) ++ sched) = ⟨some 0, writes⟩) ∧
      writes.flatMap (·.2) = file.data.drop start := by
  obtain ⟨l, rest, name, hacc⟩ := acceptedAs hq hasks.accepted
  have hb := hasks.bodyBounds hacc.fields hst hr
  have hpos : start < 2 ^ 63 := start_lt_of_bodyBounds hacc.fields.start_int.2 hb
  obtain ⟨n, hrun, hend⟩ := (rest_terminates env.memory hk hpos).exists_end f
  obtain ⟨m, hm, -⟩ := (hf n).1.write
  have hdone : file.size ≤ ((bodySystem file start file.size env.memory).after
      ((List.range n).map f)).bytesWritten := by
    rw [System.after_range]
    exact Nat.not_lt.mp fun hlt => hend ⟨⟨hlt, m, hm⟩, hf n⟩
  have htogether := together_after hk hpos hrun
  obtain ⟨writes, -, haccepted, hgoes⟩ := run_after 0 hrun
  refine ⟨n, writes, fun sched => ?_, ?_⟩
  · rw [writeResponseBody_run hacc.fields.start_int hb, hgoes, run_of_le hdone, BodyRun.behind, List.append_nil]
  · rw [← haccepted, htogether.inStep.accepted]
    refine List.take_of_length_le ?_
    rw [List.length_drop, ← file.size_eq hk]
    omega

end Unchanged

theorem sendsRest_example :
    ∃ n writes, (∀ sched, writeResponseBody smallEnv.fsBody (str "/srv/a") smallEnv.memory 2 (-1)
      (turnCalls ((List.range n).map fun _ => ⟨.ret 2, .ret 256⟩) ++ sched) = ⟨some 0, writes⟩) ∧
    writes.flatMap (·.2) = smallFile.data.drop 2 := by
  have hasks : AsksFrom (rangeParsed 2 (-1)) smallFile.size 2 := .rest rfl rfl rfl (by decide)
  have hst : smallEnv.fsBody (str "/srv/a") = some smallFile := rfl
  refine sendsRest parse_rangeGet.1 hasks hst rfl rfl fun n => ⟨⟨⟨2, rfl, by decide⟩, 256, rfl, by decide⟩, ?_⟩
  rintro m hm
  cases hm
  rw [readChunk_regular rfl]
  exact (Nat.min_le_left _ _).trans (by decide)

end Distsys.Tinyweb
