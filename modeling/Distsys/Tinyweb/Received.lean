import Distsys.Tinyweb.HandleClient
import Distsys.Tinyweb.RequestLine

/-! What the parser sees of the data that arrives. The server reads once, and writes no NUL behind what
    it read: the parse depends on the array from before unless the data holds a NUL, and it does not
    see what a second read would have brought. -/

namespace Distsys.Tinyweb

/-- The parse of a client header array whose first bytes are the data. -/
def parseReceived (lib : Libc) (old : Buffer) (data : Bytes) : Except Fault ParsedHeader :=
  parseHttpHeader lib (old.store data).bytes

/-- The parse is the same over any two earlier contents of the array, and stays inside it. -/
def DependsOnReceived (lib : Libc) (data : Bytes) : Prop := ∀ old₁ old₂ : Buffer,
  parseReceived lib old₁ data = parseReceived lib old₂ data ∧ parseReceived lib old₁ data ≠ .error .overrun

/-! ### The rest of the array -/

section Rest
variable {lib : Libc} {data : Bytes} {old : Buffer}

theorem cstring_store_error (hd : NUL ∉ data) (ho : NUL ∉ old.bytes.drop data.length) :
    cstring (old.store data).bytes = .error .overrun := by
  refine cstring_eq_error ?_
  simp only [Buffer.store, List.mem_append, not_or]
  exact ⟨fun h => hd (List.mem_of_mem_take h), ho⟩

theorem NUL_not_mem_drop_filled (n : Nat) : NUL ∉ (Buffer.filled 0x41).bytes.drop n := fun h => by
  have := List.eq_of_mem_replicate (List.mem_of_mem_drop h)
  exact absurd this (by decide)

theorem parseReceived_overrun (hr : lib.regcomp .statusLine = true) (hd : NUL ∉ data)
    (ho : NUL ∉ old.bytes.drop data.length) : parseReceived lib old data = .error .overrun := by
  unfold parseReceived parseHttpHeader
  rw [if_neg (by simp [hr]), cstring_store_error hd ho]

/-- The parse depends on the received bytes alone exactly when they hold a NUL, or when the pattern of the
    request line does not even compile. -/
theorem dependsOnReceived_iff (hlen : data.length ≤ BUFSIZE) :
    DependsOnReceived lib data ↔ lib.regcomp .statusLine = false ∨ NUL ∈ data := by
  constructor
  · intro h
    by_contra hcon
    obtain ⟨hr, hd⟩ := not_or.mp hcon
    exact (h (.filled 0x41) (.filled 0x41)).2
      (parseReceived_overrun (by simpa using hr) hd (NUL_not_mem_drop_filled _))
  · rintro (hr | hd) old₁ old₂
    · simp [parseReceived, parseHttpHeader, hr]
    · have hstring (old : Buffer) : cstring (old.store data).bytes = cstring data := by
        simp only [Buffer.store, List.take_of_length_le hlen]
        exact cstring_append hd
      unfold parseReceived parseHttpHeader
      simp only [hstring, true_and]
      split
      · simp
      · obtain ⟨s, hs⟩ := cstring_isOk hd
        rw [hs]
        exact fun h => absurd (parseHeader_error h) (by decide)

end Rest

theorem dependsOnReceived_example : DependsOnReceived .working (str "GET / HTTP/1.1\r\n\r\n" ++ [NUL]) ↔
    Libc.working.regcomp .statusLine = false ∨ NUL ∈ str "GET / HTTP/1.1\r\n\r\n" ++ [NUL] :=
  dependsOnReceived_iff (by decide)

/-- The array as an earlier request may have left it: a range line stands where a short request ends. -/
def leftover : Buffer where
  bytes := (str "GET /long.html HTTP/1.1\r\nRange: bytes=0-4\r\n\r\n" ++ List.replicate BUFSIZE NUL).take BUFSIZE
  size_eq := by decide +kernel

/-- Over zeros the request has no range; over the leftover it is answered with one. -/
theorem leftover_range : parseReceived .working (.filled NUL) (str "GET /a.js HTTP/1.1\r\n\r\n") = .ok {
      method := .text (str "GET")
      filename := .text (str "/a.js")
      protocol := .text (str "HTTP/1.1")
      httpState := .ok } ∧
    parseReceived .working leftover (str "GET /a.js HTTP/1.1\r\n\r\n") = .ok {
      method := .text (str "GET")
      filename := .text (str "/a.js")
      protocol := .text (str "HTTP/1.1")
      httpState := .partialContent
      byteStart := 0
      byteEnd := 4 } ∧
    ¬DependsOnReceived .working (str "GET /a.js HTTP/1.1\r\n\r\n") := by
  refine ⟨by decide +kernel, by decide +kernel, fun h => ?_⟩
  have hne : parseReceived .working (.filled NUL) (str "GET /a.js HTTP/1.1\r\n\r\n") ≠
      parseReceived .working leftover (str "GET /a.js HTTP/1.1\r\n\r\n") := by decide +kernel
  exact hne (h _ _).1

/-! ### The whole client -/

section Client
variable {env : Env} {buffer : Buffer} {sched : Schedule}

/-- Unless it still waits, `handle_client` serves the array with what its only read stored there. -/
theorem handleClient_cases (env : Env) (buffer : Buffer) (sched : Schedule) :
    handleClient env buffer sched = ⟨[], .blocked⟩ ∨
    ∃ data rest, data.length ≤ BUFSIZE ∧ handleClient env buffer sched = serve env (buffer.store data) rest := by
  unfold handleClient
  dsimp only
  split
  · exact Or.inl rfl
  · exact Or.inr ⟨_, _, readLoop_length_le, rfl⟩

theorem Buffer.store_nil : buffer.store [] = buffer := rfl

/-- The outcomes of a read that brings nothing: it times out, or it fails. -/
def silence (timeout : Nat) : Schedule := if timeout = 0 then [.recv .error] else [.select (.ret 0)]

theorem handleClient_silence : handleClient env buffer (silence env.timeout ++ sched) = serve env buffer sched := by
  by_cases ht : env.timeout = 0
  · simp [handleClient, silence, readFromSocket, ht, readLoop, Buffer.store_nil]
  · have hb : (env.timeout == 0) = false := by simp [ht]
    simp [handleClient, silence, readFromSocket, ht, hb, readLoop, Buffer.store_nil]

/-- What holds of every array that is served holds of every client, and the other way round. -/
theorem forall_handleClient {P : Run → Prop} (hblocked : P ⟨[], .blocked⟩) :
    (∀ buffer sched, P (handleClient env buffer sched)) ↔ ∀ buffer sched, P (serve env buffer sched) := by
  constructor
  · intro h buffer sched
    rw [← handleClient_silence]
    exact h _ _
  · intro h buffer sched
    rcases handleClient_cases env buffer sched with heq | ⟨data, rest, -, heq⟩
    · rw [heq]
      exact hblocked
    · rw [heq]
      exact h _ _

end Client

/-! ### Data in several reads -/

/-- A request line, header lines and an empty line. -/
def IsComplete (request : Bytes) : Prop := ∃ ls : List Bytes, ls ≠ [] ∧
  (∀ l ∈ ls, l ≠ [] ∧ ∀ c ∈ l, c ≠ CR ∧ c ≠ LF ∧ c ≠ NUL) ∧ request = ls.flatMap (· ++ CRLF) ++ CRLF

/-- The outcomes of the calls that would read the segments one after the other. -/
def arrivals (timeout : Nat) (segs : List Bytes) : Schedule :=
  segs.flatMap fun seg => (if timeout = 0 then [] else [.select (.ret 1)]) ++ [.recv (.data seg)]

/-- The parsed header of a client whose request arrives by these outcomes. -/
def parseArrived (lib : Libc) (timeout : Nat) (old : Buffer) (sched : Schedule) : Except Fault ParsedHeader :=
  parseReceived lib old (readFromSocket BUFSIZE timeout sched).stored

/-- The segments lead to the parsed header of the whole request, and so to its answer. -/
def SameAsWhole (lib : Libc) (timeout : Nat) (request : Bytes) (segs : List Bytes) : Prop := ∀ old : Buffer,
  parseArrived lib timeout old (arrivals timeout segs) = parseArrived lib timeout old (arrivals timeout [request]) ∧
  ∀ env : Env, env.libc = lib → ∀ sched,
    serve env (old.store (readFromSocket BUFSIZE timeout (arrivals timeout segs)).stored) sched =
      serve env (old.store (readFromSocket BUFSIZE timeout (arrivals timeout [request])).stored) sched

section Segments
variable {lib : Libc} {timeout : Nat} {request seg : Bytes} {segs : List Bytes} {sched : Schedule}

theorem readFromSocket_arrivals : (readFromSocket BUFSIZE timeout (arrivals timeout (seg :: segs))).stored =
    seg.take BUFSIZE := by
  by_cases ht : timeout = 0
  · simp [readFromSocket, arrivals, ht, readLoop]
  · have hb : (timeout == 0) = false := by simp [ht]
    simp [readFromSocket, arrivals, ht, hb, readLoop]

theorem IsComplete.no_NUL (h : IsComplete request) : NUL ∉ request := by
  obtain ⟨ls, -, hls, rfl⟩ := h
  have hcrlf : NUL ∉ CRLF := by decide
  simp only [List.mem_append, List.mem_flatMap, not_or, not_exists, not_and]
  exact ⟨fun l hl => ⟨fun hm => ((hls l hl).2 NUL hm).2.2 rfl, hcrlf⟩, hcrlf⟩

theorem IsComplete.ne_nil (h : IsComplete request) : request ≠ [] := by
  obtain ⟨ls, -, -, rfl⟩ := h
  simp [CRLF]

/-- An array of bytes other than NUL, up to one NUL at the given place. -/
def Buffer.endingAt (n : Nat) : Buffer :=
  ⟨(List.replicate n 0x41 ++ NUL :: List.replicate BUFSIZE 0x41).take BUFSIZE, by simp; omega⟩

/-- Over that array the segment is a string of its own, and the whole request has no end. -/
theorem parse_endingAt (hr : lib.regcomp .statusLine = true) (hn : NUL ∉ request) (hlen : request.length < BUFSIZE)
    {u : Bytes} (hne : u ≠ []) (heq : request = seg ++ u) :
    parseReceived lib (.endingAt seg.length) seg ≠ .error .overrun ∧
      parseReceived lib (.endingAt seg.length) request = .error .overrun := by
  have hu := List.length_pos_iff.mpr hne
  have hlen' : request.length = seg.length + u.length := by rw [heq, List.length_append]
  constructor
  · obtain ⟨k, hk⟩ : ∃ k, BUFSIZE - seg.length = k + 1 := ⟨BUFSIZE - seg.length - 1, by omega⟩
    have hstring : cstring ((Buffer.endingAt seg.length).store seg).bytes = .ok seg := by
      have hseg : NUL ∉ seg := fun h => hn (by simp [heq, h])
      simp only [Buffer.store, Buffer.endingAt, List.take_of_length_le (show seg.length ≤ BUFSIZE by omega),
        List.drop_take, hk]
      rw [List.drop_append_of_le_length (by simp)]
      simpa using cstring_append_nul hseg
    unfold parseReceived parseHttpHeader
    rw [if_neg (by simp [hr]), hstring]
    exact fun h => absurd (parseHeader_error h) (by decide)
  · refine parseReceived_overrun hr hn fun h => ?_
    obtain ⟨k, hk⟩ : ∃ k, u.length = k + 1 := ⟨u.length - 1, by omega⟩
    have h := List.mem_of_mem_take (List.drop_take ▸ h)
    rw [hlen', hk, List.drop_append, List.drop_eq_nil_of_le (by simp), List.nil_append, List.length_replicate,
      Nat.add_sub_cancel_left, List.drop_succ_cons] at h
    exact absurd (List.eq_of_mem_replicate (List.mem_of_mem_drop h)) (by decide)

/-- A request that arrives in segments is parsed as the whole one is exactly when it is one segment, or when
    the pattern of the request line does not even compile. -/
theorem sameAsWhole_iff (hreq : IsComplete request) (hlen : request.length < BUFSIZE) (hsegs : segs.flatten = request)
    (hne : ∀ seg ∈ segs, seg ≠ []) :
    SameAsWhole lib timeout request segs ↔ lib.regcomp .statusLine = false ∨ segs = [request] := by
  constructor
  · intro h
    cases segs with
    | nil => exact absurd hsegs.symm hreq.ne_nil
    | cons seg segs =>
      rw [List.flatten_cons] at hsegs
      by_cases hrest : segs = []
      · subst hrest
        exact Or.inr (by simpa using hsegs)
      · left
        by_contra hr
        have hflat : segs.flatten ≠ [] := by
          obtain ⟨t, ts, rfl⟩ := List.exists_cons_of_ne_nil hrest
          simp [hne t (by simp)]
        have hseg : seg.length ≤ BUFSIZE := by
          have := congrArg List.length hsegs
          simp only [List.length_append] at this
          omega
        obtain ⟨h₁, h₂⟩ := parse_endingAt (by simpa using hr) hreq.no_NUL hlen hflat hsegs.symm
        have heq := (h (.endingAt seg.length)).1
        simp only [parseArrived, readFromSocket_arrivals, List.take_of_length_le hseg, List.take_of_length_le hlen.le]
          at heq
        exact h₁ (heq.trans h₂)
  · rintro (hr | rfl) old
    · have hparse (data : Bytes) : parseHttpHeader lib (old.store data).bytes = .ok {} := by
        simp [parseHttpHeader, hr]
      refine ⟨by simp only [parseArrived, parseReceived, hparse], fun env henv sched => ?_⟩
      simp only [serve, henv, hparse]
    · exact ⟨rfl, fun _ _ _ => rfl⟩

end Segments

/-- A request for the first bytes of a file. -/
def rangeRequest : Bytes := str "GET /a.js HTTP/1.1\r\n" ++ str "Range: bytes=0-4\r\n" ++ CRLF

theorem rangeRequest_isComplete : IsComplete rangeRequest :=
  ⟨[str "GET /a.js HTTP/1.1", str "Range: bytes=0-4"], by decide, by decide +kernel, by decide⟩

theorem sameAsWhole_example : SameAsWhole .working 0 rangeRequest [rangeRequest] ↔
    Libc.working.regcomp .statusLine = false ∨ [rangeRequest] = [rangeRequest] :=
  sameAsWhole_iff rangeRequest_isComplete (by decide) (by simp) (by decide)

/-- Split behind the request line, the request loses its range, even over an array of zeros. -/
theorem rangeRequest_split : parseArrived .working 0 (.filled NUL) (arrivals 0 [rangeRequest]) = .ok {
      method := .text (str "GET")
      filename := .text (str "/a.js")
      protocol := .text (str "HTTP/1.1")
      httpState := .partialContent
      byteStart := 0
      byteEnd := 4 } ∧
    parseArrived .working 0 (.filled NUL) (arrivals 0 [rangeRequest.take 20, rangeRequest.drop 20]) = .ok {
      method := .text (str "GET")
      filename := .text (str "/a.js")
      protocol := .text (str "HTTP/1.1")
      httpState := .ok } ∧
    ¬SameAsWhole .working 0 rangeRequest [rangeRequest.take 20, rangeRequest.drop 20] := by
  refine ⟨by decide +kernel, by decide +kernel, fun h => ?_⟩
  have hne : parseArrived .working 0 (.filled NUL) (arrivals 0 [rangeRequest.take 20, rangeRequest.drop 20]) ≠
      parseArrived .working 0 (.filled NUL) (arrivals 0 [rangeRequest]) := by decide +kernel
  exact hne (h _).1

end Distsys.Tinyweb
