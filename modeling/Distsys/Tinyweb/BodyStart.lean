import Distsys.Tinyweb.Dispatch

/-! When a body begins: the answers that reach the loop of `write_response_body`, whether the header was
    sent or not. -/

namespace Distsys.Tinyweb

/-- The file that `write_response_body` sends, with the offset it starts from and the number that its
    loop counts up to, when the loop is reached. -/
def bodyBounds (fs : FileSystem) (filepath : Bytes) (start end_ : Int) : Option (Inode × Nat × Nat) :=
  match fs filepath with
  | none => none
  | some file =>
    if file.readable = false then none
    else if IsPartial start end_ then
      if 0 ≤ start then some (file, start.toNat, if end_ = -1 then file.size else toSizeT end_) else none
    else some (file, 0, file.size)

section Loop
variable {fs : FileSystem} {filepath mem : Bytes} {start end_ : Int} {sched : Schedule} {file : Inode} {stop : Nat}

theorem toSizeT_lt_iff (h : -2 ^ 31 ≤ start ∧ start < 2 ^ 31) : toSizeT start < 2 ^ 63 ↔ 0 ≤ start := by
  unfold toSizeT
  omega

theorem toSizeT_of_nonneg (h₁ : 0 ≤ start) (h₂ : start < 2 ^ 31) : toSizeT start = start.toNat := by
  unfold toSizeT
  rw [Int.emod_eq_of_lt h₁ (by omega)]

theorem writeResponseBody_eq (h : -2 ^ 31 ≤ start ∧ start < 2 ^ 31) :
    writeResponseBody fs filepath mem start end_ sched =
    match bodyBounds fs filepath start end_ with
    | none => ⟨some (-1), []⟩
    | some (file, pos, stop) => bodyLoop file stop 0 pos pos mem sched := by
  unfold writeResponseBody bodyBounds
  cases fs filepath with
  | none => rfl
  | some file =>
    by_cases hr : file.readable = false
    · simp [hr]
    · by_cases hp : IsPartial start end_
      · simp only [if_neg hr, if_pos hp, toSizeT_lt_iff h]
        by_cases hs : 0 ≤ start
        · simp only [if_pos hs, toSizeT_of_nonneg hs h.2]
        · simp only [if_neg hs]
      · simp [hr, hp]

theorem bodyBounds_whole (hst : fs filepath = some file) (hr : file.readable = true) (hp : ¬IsPartial start end_) :
    bodyBounds fs filepath start end_ = some (file, 0, file.size) := by
  simp [bodyBounds, hst, hr, hp]

theorem bodyBounds_of_isPartial (hst : fs filepath = some file) (hr : file.readable = true)
    (hp : IsPartial start end_) :
    bodyBounds fs filepath start end_ =
      if 0 ≤ start then some (file, start.toNat, if end_ = -1 then file.size else toSizeT end_) else none := by
  simp [bodyBounds, hst, hr, hp]

theorem bodyBounds_unreadable (hst : fs filepath = some file) (hr : file.readable = false) :
    bodyBounds fs filepath start end_ = none := by
  simp [bodyBounds, hst, hr]

theorem bodyLoop_of_le {retcode : Int} {pos offset : Nat} (h : stop ≤ pos) :
    bodyLoop file stop retcode pos offset mem sched = ⟨some retcode, []⟩ := by
  unfold bodyLoop
  split <;> rw [if_neg (by omega)]

end Loop

/-! ### Answers without a body -/

section NoBody
variable {env : Env} {buffer : Buffer} {q : ParsedHeader} {filepath text : Bytes} {st : Inode} {sched : Schedule}
  {status : HttpStatus} {line : LogLine} {next : Run}

theorem body_after {e : Event} : (next.after e).body = e.body? ++ next.body := by
  simp [Run.body, Run.after]

theorem body_sendBody : (sendBody env q filepath sched).body =
    (writeResponseBody env.fsBody filepath env.memory q.byteStart q.byteEnd sched).writes.flatMap (·.2) := by
  simp [Run.body, sendBody, Event.body?, List.flatMap_map]

theorem statusText_ne_nil (status : HttpStatus) : statusText status ≠ [] := by
  cases status <;> decide +kernel

theorem HttpHeader.text_ne_nil (data : HttpHeader) (now : ClockTime) : data.text now ≠ [] := by
  simp [HttpHeader.text, statusText_ne_nil]

end NoBody

/-! ### A body after an incomplete header -/

/-- A regular file of five bytes. -/
def smallFile : Inode where
  kind := .regular
  mode := 0o644
  mtime := .epoch
  readable := true
  data := str "hello"
  size := 5
  size_lt := Nat.le_of_ble_eq_true rfl
  size_eq := fun _ => rfl
  other_size := nofun

/-- A server that finds the small file under every path. -/
def smallEnv : Env := .undisturbed (str "/srv") fun _ => some smallFile

end Distsys.Tinyweb
