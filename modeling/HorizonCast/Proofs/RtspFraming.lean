import HorizonCast.Proofs.RequestFraming
import Mathlib.Data.List.Forall2

/-! Framing on the control connection does not depend on how TCP cuts the stream.
`frame` says what one call takes off the whole stream; the read loop refines it
because no result of the parser changes when more bytes arrive. -/

namespace HorizonCast

open Text

/-- A parse that is not waiting for bytes gives the same result on any longer buffer. -/
theorem parse_append (build : Build) {b : Bytes} (h : RtspResponse.parse build b ≠ .ok none)
    (t : Bytes) : RtspResponse.parse build (b ++ t) = RtspResponse.parse build b := by
  cases hfind : findSubsequence b CRLFCRLF with
  | none => exact absurd (parse_no_head build hfind) h
  | some headEnd =>
    have hfind' := findSubsequence_append (by decide) hfind t
    have hle := headEnd_le hfind
    have htake : (b ++ t).take headEnd = b.take headEnd :=
      List.take_append_of_le_length (by omega)
    cases hhead : parseHead (b.take headEnd) with
    | error e =>
      rw [parse_bad_head build hfind hhead, parse_bad_head build hfind' (by rw [htake, hhead])]
    | ok head =>
      obtain ⟨status, reason, headers⟩ := head
      have hhead' : parseHead ((b ++ t).take headEnd) = .ok (status, reason, headers) := by
        rw [htake, hhead]
      rcases Nat.lt_or_ge USIZE_MAX (headEnd + 4 + contentLen headers) with hover | hfit
      · rw [parse_overflow build hfind hhead hover, parse_overflow build hfind' hhead' hover]
      · rw [parse_fits build hfind hhead hfit] at h ⊢
        rw [parse_fits build hfind' hhead' hfit]
        have hlen : ¬ b.length < headEnd + 4 + contentLen headers := fun hlt => h (if_pos hlt)
        rw [if_neg hlen, if_neg (by rw [List.length_append]; omega),
          List.take_append_of_le_length (by omega)]

/-- What one call takes off the stream `s`: its result, and what is left. -/
def frame (build : Build) (s : Bytes) : Outcome RtspResponse × Bytes :=
  match RtspResponse.parse build s with
  | .panic => (.panic, s)
  | .err e => (.err e, s)
  | .ok none => (.err .connectionClosed, s)
  | .ok (some (resp, consumed)) => (.ok resp, s.drop consumed)

theorem consumed_le (build : Build) {b : Bytes} {resp : RtspResponse} {consumed : ℕ}
    (h : RtspResponse.parse build b = .ok (some (resp, consumed))) : consumed ≤ b.length := by
  by_cases hmuch : DeclaresTooMuch b
  · obtain ⟨headEnd, status, reason, headers, hfind, hhead, hover⟩ := hmuch
    rw [parse_overflow build hfind hhead hover] at h
    cases h
  · obtain ⟨headEnd, -, -, hle⟩ := (parseSafe_of_fits build hmuch).2 resp consumed h
    exact hle

/-- With a result in the buffer the loop returns without reading. -/
theorem readResponse_settled (build : Build) {buf : Bytes} (reads : List Bytes)
    (h : RtspResponse.parse build buf ≠ .ok none) :
    let after := readResponse build buf reads
    (after.1, after.2.1 ++ after.2.2.flatten) = frame build (buf ++ reads.flatten) ∧
      after.2.2 = reads := by
  have happend := parse_append build h reads.flatten
  unfold readResponse frame
  rw [happend]
  cases hp : RtspResponse.parse build buf with
  | panic => exact ⟨rfl, rfl⟩
  | err e => exact ⟨rfl, rfl⟩
  | ok found =>
    cases found with
    | none => exact absurd hp h
    | some found =>
      obtain ⟨resp, consumed⟩ := found
      exact ⟨congrArg _ (List.drop_append_of_le_length (consumed_le build hp)).symm, rfl⟩

/-- The read loop takes off what `frame` takes off, and reads stay non-empty. -/
theorem readResponse_frame (build : Build) (reads : List Bytes) :
    ∀ buf : Bytes, (∀ chunk ∈ reads, chunk ≠ []) →
      let after := readResponse build buf reads
      (after.1, after.2.1 ++ after.2.2.flatten) = frame build (buf ++ reads.flatten) ∧
        ∀ chunk ∈ after.2.2, chunk ≠ [] := by
  induction reads with
  | nil =>
    intro buf hreads
    by_cases hp : RtspResponse.parse build buf = .ok none
    · simp [readResponse, frame, hp]
    · obtain ⟨hframe, hleft⟩ := readResponse_settled build [] hp
      exact ⟨hframe, by rw [hleft]; exact hreads⟩
  | cons chunk reads ih =>
    intro buf hreads
    by_cases hp : RtspResponse.parse build buf = .ok none
    · have hrest := ih (buf ++ chunk) fun c hc => hreads c (by simp [hc])
      rw [List.append_assoc, ← List.flatten_cons] at hrest
      have hread : readResponse build buf (chunk :: reads) =
          readResponse build (buf ++ chunk) reads := by
        rw [readResponse, hp]
        exact if_neg (hreads chunk (by simp))
      rw [hread]
      exact hrest
    · obtain ⟨hframe, hleft⟩ := readResponse_settled build (chunk :: reads) hp
      exact ⟨hframe, by rw [hleft]; exact hreads⟩

/-! ### Two cuts of one stream -/

/-- Two connections that differ only in how the stream is cut. -/
structure SameStream (a b : RtspConnection) : Prop where
  cseq : a.cseq = b.cseq
  sent : a.sent = b.sent
  stream : a.unconsumed = b.unconsumed
  left : ∀ chunk ∈ a.reads, chunk ≠ []
  right : ∀ chunk ∈ b.reads, chunk ≠ []

/-- One call gives the same result on both, and keeps them alike. -/
theorem request_sameStream (build : Build) {a b : RtspConnection} (h : SameStream a b)
    (req : RtspRequest) (io : WriteResult) :
    (a.request build req io).1 = (b.request build req io).1 ∧
      SameStream (a.request build req io).2 (b.request build req io).2 := by
  obtain ⟨hcseq, hsent, hstream, hleft, hright⟩ := h
  cases io with
  | writeFailed e =>
    exact ⟨rfl, by simp [RtspConnection.request, RtspConnection.nextCseq, hcseq], hsent, hstream,
      hleft, hright⟩
  | flushFailed e =>
    exact ⟨rfl, by simp [RtspConnection.request, RtspConnection.nextCseq, hcseq],
      by simp [RtspConnection.request, RtspConnection.nextCseq, hcseq, hsent], hstream, hleft,
      hright⟩
  | ok =>
    obtain ⟨ha, hleft'⟩ := readResponse_frame build a.reads a.buf hleft
    obtain ⟨hb, hright'⟩ := readResponse_frame build b.reads b.buf hright
    have hframe : a.buf ++ a.reads.flatten = b.buf ++ b.reads.flatten := hstream
    rw [hframe, ← hb] at ha
    obtain ⟨hresult, hrest⟩ := Prod.mk.inj ha
    exact ⟨hresult, by simp [RtspConnection.request, RtspConnection.nextCseq, hcseq],
      by simp [RtspConnection.request, RtspConnection.nextCseq, hcseq, hsent], hrest, hleft',
      hright'⟩

theorem run_sameStream (build : Build) (calls : List (RtspRequest × WriteResult)) :
    ∀ {a b : RtspConnection}, SameStream a b →
      (a.run build calls).1 = (b.run build calls).1 ∧
        SameStream (a.run build calls).2 (b.run build calls).2 := by
  induction calls with
  | nil => intro a b h; exact ⟨rfl, h⟩
  | cons call calls ih =>
    intro a b h
    obtain ⟨req, io⟩ := call
    obtain ⟨hresult, hsame⟩ := request_sameStream build h req io
    obtain ⟨hresults, hsame'⟩ := ih hsame
    simp only [RtspConnection.run, hresult]
    split_ifs
    · exact ⟨rfl, hsame⟩
    · exact ⟨by rw [hresults], hsame'⟩

/-! ### Streams of responses -/

/-- `m` is one complete response and nothing more. -/
def IsResponse (build : Build) (m : Bytes) (resp : RtspResponse) : Prop :=
  RtspResponse.parse build m = .ok (some (resp, m.length))

theorem frame_response (build : Build) {m : Bytes} {resp : RtspResponse}
    (h : IsResponse build m resp) (rest : Bytes) :
    frame build (m ++ rest) = (.ok resp, rest) := by
  rw [frame, parse_append build (by rw [h]; nofun), h]
  simp

/-- A stream that starts with responses gives them to the calls, one each. -/
theorem run_responses (build : Build) {ms : List Bytes} {resps : List RtspResponse}
    (h : List.Forall₂ (IsResponse build) ms resps) :
    ∀ (conn : RtspConnection) (reqs : List RtspRequest) (rest : Bytes),
      reqs.length = ms.length → (∀ chunk ∈ conn.reads, chunk ≠ []) →
      conn.unconsumed = ms.flatten ++ rest →
      let after := conn.run build (reqs.map fun req => (req, .ok))
      after.1 = resps.map .ok ∧ after.2.unconsumed = rest := by
  induction h with
  | nil =>
    intro conn reqs rest hlen _ hstream
    obtain rfl := List.length_eq_zero_iff.mp hlen
    exact ⟨rfl, hstream⟩
  | @cons m resp ms resps hm _ ih =>
    intro conn reqs rest hlen hreads hstream
    cases reqs with
    | nil => cases hlen
    | cons req reqs =>
      obtain ⟨hframe, hreads'⟩ := readResponse_frame build conn.reads conn.buf hreads
      rw [show conn.buf ++ conn.reads.flatten = m ++ (ms.flatten ++ rest) by
        rw [← List.append_assoc]; exact hstream, frame_response build hm] at hframe
      obtain ⟨hresult, hrest⟩ := Prod.mk.inj hframe
      have hok : (conn.request build req .ok).1 = .ok resp := hresult
      obtain ⟨hresults, hleft⟩ := ih (conn.request build req .ok).2 reqs rest
        (by simpa using hlen) hreads' hrest
      simp only [List.map_cons, RtspConnection.run, hok]
      exact ⟨by rw [hresults]; rfl, hleft⟩

/-! ### Responses as they are written -/

namespace RtspResponse

def statusLine (resp : RtspResponse) : Str :=
  "RTSP/1.0 ".toList ++ decimal resp.status ++ " ".toList ++ resp.reason

def serialize (resp : RtspResponse) : Bytes :=
  asBytes (joinLines '\r' '\n' resp.statusLine (resp.headers.map headerLine)) ++
    (CRLFCRLF ++ resp.body)

/-- A response whose parts stay on their lines, and that declares the length of its body. -/
structure WellFormed (resp : RtspResponse) : Prop where
  status : resp.status < 2 ^ 16
  reason : '\r' ∉ resp.reason
  name : ∀ f ∈ resp.headers, IsToken f.1
  value : ∀ f ∈ resp.headers, OneLine f.2 ∧ trim f.2 = f.2
  length : contentLen resp.headers = resp.body.length

end RtspResponse

theorem RtspResponse.WellFormed.line {resp : RtspResponse} (h : resp.WellFormed) :
    '\r' ∉ resp.statusLine :=
  List.not_mem_append (List.not_mem_append
    (List.not_mem_append (by decide) (oneLine_decimal resp.status).1) (by decide)) h.reason

theorem RtspResponse.WellFormed.lines {resp : RtspResponse} (h : resp.WellFormed) :
    ∀ line ∈ resp.headers.map headerLine, line ≠ [] ∧ '\r' ∉ line := by
  intro line hmem
  obtain ⟨f, hf, rfl⟩ := List.mem_map.mp hmem
  exact headerLine_oneLine (h.name f hf) (h.value f hf).1

theorem splitn_statusLine (resp : RtspResponse) :
    splitn 3 ' ' resp.statusLine = ["RTSP/1.0".toList, decimal resp.status, resp.reason] := by
  have hspace : ' ' ∉ decimal resp.status :=
    notMem_toDigits (by decide) (by decide) (by decide) resp.status
  have hline : resp.statusLine =
      "RTSP/1.0".toList ++ ' ' :: (decimal resp.status ++ ' ' :: resp.reason) := by
    unfold RtspResponse.statusLine
    simp
  have hversion : splitOnce ' ' resp.statusLine =
      some ("RTSP/1.0".toList, decimal resp.status ++ ' ' :: resp.reason) :=
    splitOnce_eq_some.mpr ⟨hline, by decide⟩
  have hstatus : splitOnce ' ' (decimal resp.status ++ ' ' :: resp.reason) =
      some (decimal resp.status, resp.reason) := splitOnce_eq_some.mpr ⟨rfl, hspace⟩
  simp only [splitn, hversion, hstatus]

theorem parseUnsigned_decimal {n max : ℕ} (h : n ≤ max) :
    parseUnsigned max (decimal n) = some n := by
  obtain ⟨hdigits, hvalue⟩ := decimal_digits n
  rw [parseUnsigned_digits hdigits, hvalue, if_pos h]

/-- The head that is written is the head that is read. -/
theorem parseHead_serialize {resp : RtspResponse} (h : resp.WellFormed) :
    parseHead (asBytes (joinLines '\r' '\n' resp.statusLine (resp.headers.map headerLine))) =
      .ok (resp.status, resp.reason, resp.headers) := by
  have hlines : ∀ line ∈ resp.headers.map headerLine, '\r' ∉ line :=
    fun line hmem => (h.lines line hmem).2
  have hfields : resp.headers.map readField = resp.headers := by
    conv_rhs => rw [← List.map_id resp.headers]
    exact List.map_congr_left fun f hf => Prod.ext rfl (h.value f hf).2
  have hstatus : (some (decimal resp.status)).bind (parseUnsigned (2 ^ 16 - 1)) =
      some resp.status := parseUnsigned_decimal (by have := h.status; omega)
  have hversion : startsWith "RTSP/1.0".toList "RTSP/".toList = true := by decide
  simp only [parseHead, fromUtf8_asBytes, splitPair_joinLines h.line hlines, splitn_statusLine,
    List.getD_cons_zero, List.getD_cons_succ, List.getElem?_cons_succ, List.getElem?_cons_zero,
    hversion, hstatus, parseHeaders_lines h.name, hfields]
  rfl

/-- A response that is written is one complete response to the parser. -/
theorem isResponse_serialize (build : Build) {resp : RtspResponse} (h : resp.WellFormed)
    (hfits : resp.serialize.length ≤ USIZE_MAX) : IsResponse build resp.serialize resp := by
  set head := asBytes (joinLines '\r' '\n' resp.statusLine (resp.headers.map headerLine)) with hhead
  have hserial : resp.serialize = head ++ (CRLFCRLF ++ resp.body) := rfl
  have hlen : resp.serialize.length = head.length + 4 + contentLen resp.headers := by
    rw [hserial, List.length_append, List.length_append, h.length, Nat.add_assoc]
    rfl
  have hfind : findSubsequence resp.serialize CRLFCRLF = some head.length :=
    findSubsequence_joinLines h.line h.lines resp.body
  have hparse : parseHead (resp.serialize.take head.length) =
      .ok (resp.status, resp.reason, resp.headers) := by
    rw [hserial, List.take_left' rfl]
    exact parseHead_serialize h
  have hbody : (resp.serialize.take resp.serialize.length).drop (head.length + 4) = resp.body := by
    have hskip : (head ++ CRLFCRLF).length = head.length + 4 := by
      rw [List.length_append]
      rfl
    rw [List.take_length, hserial, ← List.append_assoc, List.drop_left' hskip]
  rw [IsResponse, parse_fits build hfind hparse (hlen ▸ hfits), ← hlen, if_neg (lt_irrefl _), hbody]

end HorizonCast
