import HorizonCast.Proofs.RtspParse

/-! The body of a parsed response against the lengths its headers declare. The first
`Content-Length` decides, and one that is no number counts as 0, so the two agree
exactly when all the declared lengths are one number. -/

namespace HorizonCast

open Text

/-! ### Declared lengths -/

/-- The values of the headers named `Content-Length`, in any case. -/
def contentLengths (headers : List (Str × Str)) : List Str :=
  headers.filterMap fun (k, v) =>
    if eqIgnoreAsciiCase k "content-length".toList then some v else none

/-- The header lines of a head: the lines after the first that are not blank, each
cut at its first colon. -/
def headerLines (head : Str) : List (Str × Str) :=
  ((splitPair '\r' '\n' head).drop 1).filterMap fun line =>
    (splitOnce ':' line).map fun (k, v) => (trim k, trim v)

/-- The lengths that the bytes of a head declare. -/
def declaredLengths (head : Bytes) : List Str :=
  ((fromUtf8 head).map fun head => contentLengths (headerLines head)).getD []

/-- All of them are digits that stand for one number, and it fits a `usize`. -/
def OneLength (values : List Str) : Prop :=
  ∀ v ∈ values, IsDigits v ∧ numeral v ≤ USIZE_MAX ∧ ∀ w ∈ values, numeral w = numeral v

/-- The headers that are read are the header lines. -/
theorem parseHeaders_eq {lines : List Str} {headers : List (Str × Str)}
    (h : parseHeaders lines = .ok headers) :
    lines.filterMap (fun line => (splitOnce ':' line).map fun (k, v) => (trim k, trim v)) =
      headers := by
  induction lines generalizing headers with
  | nil =>
    cases h
    rfl
  | cons line lines ih =>
    rw [parseHeaders] at h
    by_cases hblank : line = []
    · rw [if_pos hblank] at h
      rw [hblank]
      exact ih h
    · rw [if_neg hblank] at h
      cases hsplit : splitOnce ':' line with
      | none =>
        rw [hsplit] at h
        cases h
      | some kv =>
        obtain ⟨k, v⟩ := kv
        rw [hsplit] at h
        dsimp only at h
        cases hrest : parseHeaders lines with
        | error e =>
          rw [hrest] at h
          cases h
        | ok rest =>
          rw [hrest] at h
          cases h
          simp [hsplit, ih hrest]

theorem parseHead_declared {head : Bytes} {status : ℕ} {reason : Str} {headers : List (Str × Str)}
    (h : parseHead head = .ok (status, reason, headers)) :
    declaredLengths head = contentLengths headers := by
  unfold parseHead at h
  unfold declaredLengths headerLines
  cases htext : fromUtf8 head with
  | none =>
    rw [htext] at h
    cases h
  | some text =>
    rw [htext] at h
    dsimp only at h
    cases hlines : splitPair '\r' '\n' text with
    | nil =>
      rw [hlines] at h
      cases h
    | cons statusLine lines =>
      rw [hlines] at h
      dsimp only at h
      split_ifs at h
      split at h
      · cases h
      · cases hread : parseHeaders lines with
        | error e =>
          rw [hread] at h
          cases h
        | ok headers =>
          rw [hread] at h
          cases h
          simp [hlines, parseHeaders_eq hread]

/-! ### The length that counts -/

theorem find?_name_eq (p : Str → Bool) (headers : List (Str × Str)) :
    (headers.find? fun (k, _) => p k).map Prod.snd =
      (headers.filterMap fun (k, v) => if p k then some v else none).head? := by
  induction headers with
  | nil => rfl
  | cons f headers ih =>
    obtain ⟨k, v⟩ := f
    cases hk : p k with
    | true => simp [hk]
    | false => simpa [hk] using ih

theorem findHeader_eq (headers : List (Str × Str)) :
    findHeader headers "content-length".toList = (contentLengths headers).head? :=
  find?_name_eq (fun k => eqIgnoreAsciiCase k "content-length".toList) headers

/-- When the declared lengths are one number, that is the length of the body. -/
theorem OneLength.contentLen {headers : List (Str × Str)} (h : OneLength (contentLengths headers)) :
    ∀ v ∈ contentLengths headers, numeral v = contentLen headers := by
  intro v hv
  obtain ⟨first, rest, hvalues⟩ := List.exists_cons_of_ne_nil (List.ne_nil_of_mem hv)
  have hfirst : first ∈ contentLengths headers := hvalues ▸ List.mem_cons_self
  obtain ⟨hdigits, hmax, hsame⟩ := h first hfirst
  rw [HorizonCast.contentLen, findHeader_eq, hvalues, List.head?_cons, Option.bind_some,
    parseUnsigned_digits hdigits, if_pos hmax]
  exact hsame v hv

/-! ### Agreement -/

/-- What the declared lengths of a message are worth: those of a parsed response are
the length of its body, and a head that is otherwise accepted is an error when its
lengths are not one number. -/
def LengthsAgree (build : Build) (buf : Bytes) : Prop :=
  (∀ r consumed, RtspResponse.parse build buf = .ok (some (r, consumed)) →
      ∀ v ∈ contentLengths r.headers, IsDigits v ∧ numeral v = r.body.length) ∧
    ∀ headEnd head, findSubsequence buf CRLFCRLF = some headEnd →
      parseHead (buf.take headEnd) = .ok head →
      ¬ OneLength (declaredLengths (buf.take headEnd)) →
      ∃ e, RtspResponse.parse build buf = .err e

section Parsed

variable {build : Build} {buf : Bytes}

/-- A parsed response has an accepted head, and a body of the length that counts. -/
theorem parse_some {r : RtspResponse} {consumed : ℕ}
    (h : RtspResponse.parse build buf = .ok (some (r, consumed))) :
    ∃ headEnd, findSubsequence buf CRLFCRLF = some headEnd ∧
      parseHead (buf.take headEnd) = .ok (r.status, r.reason, r.headers) ∧
      r.body.length = contentLen r.headers ∧
      r.body = (buf.take consumed).drop (headEnd + 4) := by
  cases hfind : findSubsequence buf CRLFCRLF with
  | none => cases (parse_no_head build hfind).symm.trans h
  | some headEnd =>
    cases hhead : parseHead (buf.take headEnd) with
    | error e => cases (parse_bad_head build hfind hhead).symm.trans h
    | ok head =>
      obtain ⟨status, reason, headers⟩ := head
      rcases Nat.lt_or_ge USIZE_MAX (headEnd + 4 + contentLen headers) with hover | hfit
      · cases (parse_overflow build hfind hhead hover).symm.trans h
      · rw [parse_fits build hfind hhead hfit] at h
        split_ifs at h with hlen
        · cases h
        · cases h
          refine ⟨headEnd, rfl, hhead, ?_, rfl⟩
          simp only [List.length_drop, List.length_take]
          omega

/-- An accepted head is never an error. -/
theorem parse_ne_err {headEnd : ℕ} {head : ℕ × Str × List (Str × Str)} {e : RtspError}
    (hfind : findSubsequence buf CRLFCRLF = some headEnd)
    (hhead : parseHead (buf.take headEnd) = .ok head) : RtspResponse.parse build buf ≠ .err e := by
  obtain ⟨status, reason, headers⟩ := head
  rcases Nat.lt_or_ge USIZE_MAX (headEnd + 4 + contentLen headers) with hover | hfit
  · rw [parse_overflow build hfind hhead hover]
    nofun
  · rw [parse_fits build hfind hhead hfit]
    split_ifs <;> nofun

end Parsed

/-- The lengths of a message agree exactly when its head is incomplete or rejected, or
the lengths it declares are digits that stand for one number, which fits a `usize`. -/
theorem lengths_agree_iff (build : Build) (buf : Bytes) :
    LengthsAgree build buf ↔
      ∀ headEnd head, findSubsequence buf CRLFCRLF = some headEnd →
        parseHead (buf.take headEnd) = .ok head →
        OneLength (declaredLengths (buf.take headEnd)) := by
  constructor
  · intro h headEnd head hfind hhead
    by_contra hbad
    obtain ⟨e, he⟩ := h.2 headEnd head hfind hhead hbad
    exact parse_ne_err hfind hhead he
  · intro h
    refine ⟨fun r consumed hr v hv => ?_, fun headEnd head hfind hhead hbad =>
      absurd (h headEnd head hfind hhead) hbad⟩
    obtain ⟨headEnd, hfind, hhead, hbody, -⟩ := parse_some hr
    have hone := h headEnd _ hfind hhead
    rw [parseHead_declared hhead] at hone
    exact ⟨(hone v hv).1, (hone.contentLen v hv).trans hbody.symm⟩

/-- A response whose `Content-Length` has a unit. -/
def lengthWithUnit : Bytes :=
  asBytes "RTSP/1.0 200 OK\r\nContent-Length: 5 bytes\r\n\r\nhello".toList

/-- It is accepted with no body, and the five bytes stay in the buffer. -/
theorem lengthWithUnit_accepted :
    ¬ LengthsAgree .debug lengthWithUnit ∧ ¬ LengthsAgree .release lengthWithUnit := by
  have hparse : ∀ build, RtspResponse.parse build lengthWithUnit =
      .ok (some (⟨200, "OK".toList, [("Content-Length".toList, "5 bytes".toList)], []⟩, 44)) := by
    intro build
    cases build <;> decide +kernel
  have hbad : ∀ build, ¬ LengthsAgree build lengthWithUnit := by
    intro build h
    obtain ⟨hdigits, -⟩ := h.1 _ _ (hparse build) "5 bytes".toList (by decide +kernel)
    exact absurd hdigits (by decide)
  exact ⟨hbad .debug, hbad .release⟩

end HorizonCast
