import Distsys.Tinyweb.BodyLoop

/-! Answers whose calls all transfer in full: what the connection gets of a file. The runs of a server can
    stop anywhere, so a text that it sends is one that every run sends a prefix of and some run sends whole. -/

namespace Distsys.Tinyweb

/-! ### The bytes of the file -/

/-- The part of a file that `write_response_body` sends when everything is transferred in full. -/
def sentPart (st : Inode) (start end_ : Int) : Bytes :=
  if st.readable = false then []
  else if IsPartial start end_ then
    if start < 0 ∨ st.kind ≠ .regular then []
    else (st.data.drop start.toNat).take (loopTotal st.size start.toNat (if end_ = -1 then st.size else end_.toNat))
  else st.data

/-- The request asks for a part of the file that begins in it, or for the whole of a regular file. -/
def Asks (st : Inode) (start end_ : Int) : Prop :=
  IsPartial start end_ ∧ start < st.size ∧ (start = -1 ∨ 0 ≤ start ∧ (end_ = -1 ∨ start < end_)) ∧ end_ < 2 ^ 31 ∨
    ¬IsPartial start end_ ∧ st.kind = .regular

theorem chunkSize_le : CHUNK_SIZE ≤ BUFSIZE := by decide

section Part
variable {fs : FileSystem} {filepath mem : Bytes} {st : Inode} {start end_ r : Int} {sched : Schedule}

theorem kind_of_lt (h : 0 ≤ start) (hlt : start < st.size) : st.kind = .regular ∨ st.kind = .directory := by
  cases hk : st.kind with
  | regular => exact Or.inl rfl
  | directory => exact Or.inr rfl
  | other =>
    have := st.other_size hk
    omega

theorem bodyBounds_suffix (hst : fs filepath = some st) (hp : IsPartial start end_) (h : start < 0) :
    bodyBounds fs filepath start end_ = none := by
  cases hr : st.readable with
  | false => exact bodyBounds_unreadable hst hr
  | true => rw [bodyBounds_of_isPartial hst hr hp, if_neg (by omega)]

theorem sentPart_cases (hst : fs filepath = some st) (hask : Asks st start end_) :
    bodyBounds fs filepath start end_ = none ∧ sentPart st start end_ = [] ∨
    ∃ pos stop, bodyBounds fs filepath start end_ = some (st, pos, stop) ∧
      (st.kind = .regular ∧ pos ≤ st.size ∧ sentPart st start end_ =
        (st.data.drop pos).take (loopTotal st.size pos stop) ∨
        st.kind = .directory ∧ pos < stop ∧ sentPart st start end_ = []) := by
  unfold sentPart
  cases hread : st.readable with
  | false => exact Or.inl ⟨bodyBounds_unreadable hst hread, rfl⟩
  | true =>
    simp only [Bool.true_eq_false, ↓reduceIte]
    rcases hask with ⟨hp, hlt, hshape, hend⟩ | ⟨hp, hk⟩
    · rw [if_pos hp]
      by_cases hneg : start < 0
      · exact Or.inl ⟨bodyBounds_suffix hst hp hneg, by simp [hneg]⟩
      · have hstop : (if end_ = -1 then st.size else toSizeT end_) = if end_ = -1 then st.size else end_.toNat := by
          split
          · rfl
          · exact toSizeT_of_nonneg (by omega) hend
        refine Or.inr ⟨_, _, (bodyBounds_of_isPartial hst hread hp).trans (if_pos (Int.not_lt.mp hneg)), ?_⟩
        rw [hstop]
        rcases kind_of_lt (Int.not_lt.mp hneg) hlt with hk | hk
        · exact Or.inl ⟨hk, by omega, by simp [hneg, hk]⟩
        · refine Or.inr ⟨hk, ?_, by simp [hk]⟩
          split <;> omega
    · rw [if_neg hp]
      refine Or.inr ⟨_, _, bodyBounds_whole hst hread hp, Or.inl ⟨hk, Nat.zero_le _, ?_⟩⟩
      rw [loopTotal_size, List.drop_zero, Nat.sub_zero, st.size_eq hk, List.take_length]

/-- What is sent when everything is transferred in full: a prefix of that part, and all of it when the
    function returns. -/
theorem writeResponseBody_full (hst : fs filepath = some st) (hask : Asks st start end_)
    (hint : -2 ^ 31 ≤ start ∧ start < 2 ^ 31) (hmem : mem.length < SIZE_MAX) (hcalls : ∀ c ∈ sched, c.Full BUFSIZE)
    (hwrites : ∀ w ∈ (writeResponseBody fs filepath mem start end_ sched).writes, w.2.length = w.1) :
    (writeResponseBody fs filepath mem start end_ sched).writes.flatMap (·.2) <+: sentPart st start end_ ∧
      ∀ r, (writeResponseBody fs filepath mem start end_ sched).res = some r →
        (writeResponseBody fs filepath mem start end_ sched).writes.flatMap (·.2) = sentPart st start end_ := by
  rw [writeResponseBody_eq hint] at hwrites ⊢
  rcases sentPart_cases hst hask with ⟨hb, hsent⟩ | ⟨pos, stop, hb, ⟨hk, hpos, hsent⟩ | ⟨hk, hlt, hsent⟩⟩ <;>
    rw [hb] at hwrites ⊢ <;> rw [hsent] <;> dsimp only at hwrites ⊢
  · simp
  · obtain ⟨sent, heq, hle, -, hret⟩ := bodyLoop_full stop 0 hk chunkSize_le
      mem hpos hcalls
    rw [heq]
    exact ⟨List.take_prefix_take_left hle, fun r hr => by rw [(hret r hr).2.1]⟩
  · rw [bodyLoop_directory hk hmem hlt hcalls hwrites]
    simp

theorem exists_full (mem : Bytes) (hst : fs filepath = some st) (hask : Asks st start end_)
    (hint : -2 ^ 31 ≤ start ∧ start < 2 ^ 31) : ∃ sched, (∀ c ∈ sched, SysCall.Full BUFSIZE c) ∧
      (∀ w ∈ (writeResponseBody fs filepath mem start end_ sched).writes, w.2.length = w.1) ∧
      (writeResponseBody fs filepath mem start end_ sched).writes.flatMap (·.2) = sentPart st start end_ := by
  simp only [writeResponseBody_eq hint]
  rcases sentPart_cases hst hask with ⟨hb, hsent⟩ | ⟨pos, stop, hb, ⟨hk, hpos, hsent⟩ | ⟨hk, hlt, hsent⟩⟩
    <;> rw [hb, hsent]
  · exact ⟨[], by simp, by simp, rfl⟩
  · have hcalls : ∀ c ∈ turns BUFSIZE (loopTotal st.size pos stop), c.Full BUFSIZE := turns_full (by decide)
    obtain ⟨-, -, -, hwrites, -⟩ := bodyLoop_full stop 0 hk chunkSize_le mem hpos hcalls
    exact ⟨_, hcalls, hwrites, bodyLoop_turns hk chunkSize_le hpos (Nat.le_refl _)⟩
  · refine ⟨[], by simp, ?_, ?_⟩ <;> simp [bodyLoop, hlt]

end Part

/-! ### Runs in which everything is transferred in full -/

/-- Every call transfers in full, and every `write` of the body accepts the count that it is given. -/
structure InFull (sched : Schedule) (run : Run) : Prop where
  calls : ∀ c ∈ sched, c.Full BUFSIZE
  writes : ∀ count accepted, .body count accepted ∈ run.events → accepted.length = count

/-- The write has sent all that it was given, and the header is sent whole. -/
def Event.inFull : Event → Bool
  | .body count accepted => accepted.length == count
  | _ => true

theorem inFull_of_all {sched : Schedule} {run : Run} (hcalls : ∀ c ∈ sched, c.Full BUFSIZE)
    (h : run.events.all Event.inFull = true) : InFull sched run :=
  ⟨hcalls, fun count accepted hm => by simpa [Event.inFull] using List.all_eq_true.mp h _ hm⟩

/-- The bytes that a server puts on the connection in the end, or those of them that `f` picks: no run gets
    further, a run that returns has sent them all, and some run sends them all. -/
structure Yields (serve : Schedule → Run) (f : Run → Bytes) (w : Bytes) : Prop where
  isPrefix : ∀ sched, InFull sched (serve sched) → f (serve sched) <+: w
  returned : ∀ sched r, InFull sched (serve sched) → (serve sched).ending = .returned r → f (serve sched) = w
  reached : ∃ sched, InFull sched (serve sched) ∧ f (serve sched) = w

theorem Yields.unique {serve : Schedule → Run} {f : Run → Bytes} {w w' : Bytes} (h : Yields serve f w)
    (h' : Yields serve f w') : w = w' := by
  obtain ⟨sched, hfull, rfl⟩ := h.reached
  obtain ⟨sched', hfull', rfl⟩ := h'.reached
  exact (h'.isPrefix sched hfull).eq_of_length_le (h.isPrefix sched' hfull').length_le

section SendFile
variable {env : Env} {q : ParsedHeader} {status : HttpStatus} {filepath : Bytes} {st st' : Inode}
  {sched rest : Schedule}

/-- The run of a branch that sends a file, from the sent header on. -/
def afterSent (env : Env) (q : ParsedHeader) (status : HttpStatus) (filepath : Bytes) (st : Inode)
    (rest : Schedule) : Run :=
  ((sendBody env q filepath rest).after (.log (writeLog status q (some filepath) (some st)
    (fileText env q status filepath st)))).after (.header status (fileText env q status filepath st)
      (fileText env q status filepath st))

theorem sendFile_cases (halloc : HeaderCreated env.libc st q.byteStart q.byteEnd) (hm : q.method.isSet = true)
    (hp : q.protocol.isSet = true) (hcalls : ∀ c ∈ sched, c.Full BUFSIZE) :
    (∃ sent, sent <+: fileText env q status filepath st ∧
      sendFile env q status filepath st sched = ⟨[.header status (fileText env q status filepath st) sent], .blocked⟩) ∨
    ∃ rest, (∀ c ∈ rest, SysCall.Full BUFSIZE c) ∧
      sendFile env q status filepath st sched = afterSent env q status filepath st rest := by
  have hread : (writeLog status q (some filepath) (some st) (fileText env q status filepath st)).isReadable = true :=
    isReadable_writeLog hm hp rfl _ _ _
  rw [sendFile_eq, if_pos halloc]
  unfold afterHeader
  cases hres : (writeToSocket env.timeout (fileText env q status filepath st) sched).res with
  | none => exact Or.inl ⟨_, writeToSocket_prefix, rfl⟩
  | some r =>
    obtain ⟨hsent, hrest⟩ := writeToSocket_full length_fileText_le hcalls hres
    refine Or.inr ⟨_, hrest, ?_⟩
    simp only [hsent, logThen, hread, Bool.true_or, ↓reduceIte, afterSent]

theorem sendFile_delivery (status : HttpStatus) (filepath : Bytes) (st : Inode) (rest : Schedule)
    (halloc : HeaderCreated env.libc st q.byteStart q.byteEnd) (hm : q.method.isSet = true)
    (hp : q.protocol.isSet = true) :
    sendFile env q status filepath st (delivery env.timeout BUFSIZE ++ rest) =
      afterSent env q status filepath st rest := by
  have hread : (writeLog status q (some filepath) (some st) (fileText env q status filepath st)).isReadable = true :=
    isReadable_writeLog hm hp rfl _ _ _
  have hne : fileText env q status filepath st ≠ [] := HttpHeader.text_ne_nil _ _
  rw [sendFile_eq, if_pos halloc, writeToSocket_delivery (by decide) hne length_fileText_le]
  simp only [afterHeader, logThen, hread, Bool.true_or, ↓reduceIte, afterSent]

theorem body_afterSent : (afterSent env q status filepath st rest).body =
    (writeResponseBody env.fsBody filepath env.memory q.byteStart q.byteEnd rest).writes.flatMap (·.2) := by
  unfold afterSent
  rw [body_after, body_after, body_sendBody]
  rfl

theorem wire_afterSent : (afterSent env q status filepath st rest).wire =
    fileText env q status filepath st ++ (afterSent env q status filepath st rest).body := by
  rw [body_afterSent]
  simp [Run.wire, afterSent, Run.after, sendBody, Event.wire?, List.flatMap_map]

theorem inFull_afterSent (h : InFull sched (afterSent env q status filepath st rest)) :
    ∀ w ∈ (writeResponseBody env.fsBody filepath env.memory q.byteStart q.byteEnd rest).writes, w.2.length = w.1 :=
  fun w hw => h.writes w.1 w.2 (by simpa [afterSent, Run.after, sendBody] using hw)

theorem exists_sendFile_inFull (status : HttpStatus) (st : Inode)
    (halloc : HeaderCreated env.libc st q.byteStart q.byteEnd) (hm : q.method.isSet = true)
    (hp : q.protocol.isSet = true) (hint : -2 ^ 31 ≤ q.byteStart ∧ q.byteStart < 2 ^ 31)
    (hst : env.fsBody filepath = some st') (hask : Asks st' q.byteStart q.byteEnd) :
    ∃ rest, InFull (delivery env.timeout BUFSIZE ++ rest)
        (sendFile env q status filepath st (delivery env.timeout BUFSIZE ++ rest)) ∧
      sendFile env q status filepath st (delivery env.timeout BUFSIZE ++ rest) =
        afterSent env q status filepath st rest ∧
      (afterSent env q status filepath st rest).body = sentPart st' q.byteStart q.byteEnd := by
  obtain ⟨rest, hcalls, hwrites, hsent⟩ := exists_full env.memory hst hask hint
  have hrun := sendFile_delivery status filepath st rest halloc hm hp
  refine ⟨rest, ⟨fun c hc => ?_, ?_⟩, hrun, by rw [body_afterSent, hsent]⟩
  · rcases List.mem_append.mp hc with hc | hc
    · exact delivery_full (by decide) c hc
    · exact hcalls c hc
  · rw [hrun]
    intro count accepted h
    exact hwrites (count, accepted) (by simpa [afterSent, Run.after, sendBody] using h)

theorem sendFile_yields_body (status : HttpStatus) (st : Inode)
    (halloc : HeaderCreated env.libc st q.byteStart q.byteEnd) (hm : q.method.isSet = true)
    (hp : q.protocol.isSet = true) (hint : -2 ^ 31 ≤ q.byteStart ∧ q.byteStart < 2 ^ 31)
    (hst : env.fsBody filepath = some st') (hask : Asks st' q.byteStart q.byteEnd) :
    Yields (sendFile env q status filepath st) Run.body (sentPart st' q.byteStart q.byteEnd) where
  isPrefix sched hfull := by
    rcases sendFile_cases halloc hm hp hfull.calls with ⟨sent, -, hrun⟩ | ⟨rest, hrest, hrun⟩
    · rw [hrun]
      exact List.nil_prefix
    · rw [hrun] at hfull ⊢
      rw [body_afterSent]
      exact (writeResponseBody_full hst hask hint env.memory_lt hrest (inFull_afterSent hfull)).1
  returned sched r hfull hret := by
    rcases sendFile_cases halloc hm hp hfull.calls with ⟨sent, -, hrun⟩ | ⟨rest, hrest, hrun⟩
    · rw [hrun] at hret
      cases hret
    · rw [hrun] at hfull hret ⊢
      rw [body_afterSent]
      refine (writeResponseBody_full hst hask hint env.memory_lt hrest (inFull_afterSent hfull)).2 r ?_
      simp only [afterSent, Run.after, sendBody] at hret
      split at hret
      · cases hret
      · next heq => rw [heq, Ending.returned.inj hret]
  reached := by
    obtain ⟨rest, hfull, hrun, hbody⟩ := exists_sendFile_inFull status st halloc hm hp hint hst hask
    exact ⟨_, hfull, by rw [hrun, hbody]⟩

theorem sendFile_yields_wire (status : HttpStatus) (st : Inode)
    (halloc : HeaderCreated env.libc st q.byteStart q.byteEnd) (hm : q.method.isSet = true)
    (hp : q.protocol.isSet = true) (hint : -2 ^ 31 ≤ q.byteStart ∧ q.byteStart < 2 ^ 31)
    (hst : env.fsBody filepath = some st') (hask : Asks st' q.byteStart q.byteEnd) :
    Yields (sendFile env q status filepath st) Run.wire
      (fileText env q status filepath st ++ sentPart st' q.byteStart q.byteEnd) := by
  have hbody := sendFile_yields_body status st halloc hm hp hint hst hask
  refine ⟨fun sched hfull => ?_, fun sched r hfull hret => ?_, ?_⟩
  · have hprefix := hbody.isPrefix sched hfull
    rcases sendFile_cases halloc hm hp hfull.calls with ⟨sent, hsent, hrun⟩ | ⟨rest, hrest, hrun⟩
    · rw [hrun]
      simpa [Run.wire, Event.wire?] using hsent.trans (List.prefix_append _ _)
    · rw [hrun] at hprefix ⊢
      rw [wire_afterSent]
      exact (List.prefix_append_right_inj _).mpr hprefix
  · have heq := hbody.returned sched r hfull hret
    rcases sendFile_cases halloc hm hp hfull.calls with ⟨sent, -, hrun⟩ | ⟨rest, hrest, hrun⟩
    · rw [hrun] at hret
      cases hret
    · rw [hrun] at heq ⊢
      rw [wire_afterSent, heq]
  · obtain ⟨rest, hfull, hrun, hsent⟩ := exists_sendFile_inFull status st halloc hm hp hint hst hask
    exact ⟨_, hfull, by rw [hrun, wire_afterSent, hsent]⟩

end SendFile

end Distsys.Tinyweb
