import HorizonCast.Spec.Rtsp
import Mathlib.Tactic.SplitIfs
import Mathlib.Order.Basic

/-! The response parser on any bytes: where the head ends, what more bytes change,
and when the addition of the declared length overflows. -/

namespace HorizonCast

open Text

/-! ### The first window -/

theorem findSubsequence_eq_some {haystack needle : Bytes} {i : ℕ} (hn : needle ≠ []) :
    findSubsequence haystack needle = some i ↔
      i + needle.length ≤ haystack.length ∧ (haystack.drop i).take needle.length = needle ∧
        ∀ j < i, (haystack.drop j).take needle.length ≠ needle := by
  have hpos : 0 < needle.length := List.length_pos_of_ne_nil hn
  unfold findSubsequence
  split_ifs with h
  · simp only [hn, false_or] at h
    simp only [false_iff]
    rintro ⟨hle, -, -⟩
    omega
  · simp only [hn, false_or, not_lt] at h
    rw [List.find?_range_eq_some]
    simp only [decide_eq_true_eq, List.mem_range, Bool.not_eq_true', decide_eq_false_iff_not]
    constructor
    · rintro ⟨heq, hlt, hfirst⟩
      exact ⟨by omega, heq, hfirst⟩
    · rintro ⟨hle, heq, hfirst⟩
      exact ⟨heq, by omega, hfirst⟩

/-- Windows that lie in the front of a longer buffer are the same there. -/
theorem window_append (b t : Bytes) {i k : ℕ} (h : i + k ≤ b.length) :
    ((b ++ t).drop i).take k = (b.drop i).take k := by
  rw [List.drop_append_of_le_length (by omega), List.take_append_of_le_length]
  rw [List.length_drop]
  omega

/-- More bytes do not move the end of the head. -/
theorem findSubsequence_append {b needle : Bytes} {i : ℕ} (hn : needle ≠ [])
    (h : findSubsequence b needle = some i) (t : Bytes) :
    findSubsequence (b ++ t) needle = some i := by
  rw [findSubsequence_eq_some hn] at h ⊢
  obtain ⟨hle, heq, hfirst⟩ := h
  refine ⟨by rw [List.length_append]; omega, by rw [window_append b t hle, heq], ?_⟩
  intro j hj
  rw [window_append b t (by omega)]
  exact hfirst j hj

/-- Nor were they needed, where it lies before them. -/
theorem findSubsequence_of_append {b t needle : Bytes} {i : ℕ} (hn : needle ≠ [])
    (h : findSubsequence (b ++ t) needle = some i) (hle : i + needle.length ≤ b.length) :
    findSubsequence b needle = some i := by
  rw [findSubsequence_eq_some hn] at h ⊢
  obtain ⟨-, heq, hfirst⟩ := h
  refine ⟨hle, by rw [← window_append b t hle, heq], ?_⟩
  intro j hj
  rw [← window_append b t (by omega)]
  exact hfirst j hj

theorem headEnd_le {buf : Bytes} {headEnd : ℕ} (h : findSubsequence buf CRLFCRLF = some headEnd) :
    headEnd + 4 ≤ buf.length :=
  ((findSubsequence_eq_some (by decide)).mp h).1

/-! ### The declared length -/

/-- A complete and accepted head that declares more body than `usize` has room for. -/
def DeclaresTooMuch (buf : Bytes) : Prop :=
  ∃ headEnd status reason headers, findSubsequence buf CRLFCRLF = some headEnd ∧
    parseHead (buf.take headEnd) = .ok (status, reason, headers) ∧
    USIZE_MAX < headEnd + 4 + contentLen headers

theorem contentLen_le (headers : List (Str × Str)) : contentLen headers ≤ USIZE_MAX := by
  unfold contentLen
  cases hv : (findHeader headers "content-length".toList).bind (parseUnsigned USIZE_MAX) with
  | none => exact Nat.zero_le _
  | some n =>
    obtain ⟨v, -, hn⟩ := Option.bind_eq_some_iff.mp hv
    exact parseUnsigned_le hn

/-- A release build wraps an addition that does not fit to below its first summand. -/
theorem wrapped_lt {a b : ℕ} (hb : b ≤ USIZE_MAX) (h : USIZE_MAX < a + b) :
    (a + b) % (USIZE_MAX + 1) < a := by
  rcases Nat.lt_or_ge USIZE_MAX a with ha | ha
  · exact lt_of_lt_of_le (Nat.mod_lt _ (Nat.succ_pos _)) ha
  · rw [Nat.mod_eq_sub_mod (by omega), Nat.mod_eq_of_lt (by omega)]
    omega

/-! ### `parse` case by case -/

section Cases

variable {buf : Bytes} {headEnd status : ℕ} {reason : Str} {headers : List (Str × Str)}

theorem parse_no_head (build : Build) (h : findSubsequence buf CRLFCRLF = none) :
    RtspResponse.parse build buf = .ok none := by
  simp [RtspResponse.parse, h]

theorem parse_bad_head (build : Build) {e : RtspError}
    (h : findSubsequence buf CRLFCRLF = some headEnd)
    (he : parseHead (buf.take headEnd) = .error e) : RtspResponse.parse build buf = .err e := by
  simp [RtspResponse.parse, h, he]

theorem parse_fits (build : Build) (h : findSubsequence buf CRLFCRLF = some headEnd)
    (hh : parseHead (buf.take headEnd) = .ok (status, reason, headers))
    (hfit : headEnd + 4 + contentLen headers ≤ USIZE_MAX) :
    RtspResponse.parse build buf =
      if buf.length < headEnd + 4 + contentLen headers then .ok none
      else .ok (some (⟨status, reason, headers,
        (buf.take (headEnd + 4 + contentLen headers)).drop (headEnd + 4)⟩,
        headEnd + 4 + contentLen headers)) := by
  have hadd : usizeAdd build (headEnd + 4) (contentLen headers) =
      some (headEnd + 4 + contentLen headers) := if_pos hfit
  simp only [RtspResponse.parse, h, hh, hadd]
  split_ifs with hlen
  · rfl
  · rw [slice, if_pos ⟨by omega, by omega⟩]

/-- The addition overflows: a debug build panics there, and a release build goes on
with an end that lies before the start. -/
theorem parse_overflow (build : Build) (h : findSubsequence buf CRLFCRLF = some headEnd)
    (hh : parseHead (buf.take headEnd) = .ok (status, reason, headers))
    (hover : USIZE_MAX < headEnd + 4 + contentLen headers) :
    RtspResponse.parse build buf = .panic := by
  have hwrap := wrapped_lt (contentLen_le headers) hover
  have hle := headEnd_le h
  cases build with
  | debug =>
    have hadd : usizeAdd .debug (headEnd + 4) (contentLen headers) = none := if_neg (by omega)
    simp only [RtspResponse.parse, h, hh, hadd]
  | release =>
    have hadd : usizeAdd .release (headEnd + 4) (contentLen headers) =
        some ((headEnd + 4 + contentLen headers) % (USIZE_MAX + 1)) := if_neg (by omega)
    simp only [RtspResponse.parse, h, hh, hadd]
    rw [if_neg (by omega), slice, if_neg (by omega)]

end Cases

/-! ### Safety -/

/-- `parse` returns, and what it consumes is inside the buffer and past the head. -/
def ParseSafe (build : Build) (buf : Bytes) : Prop :=
  RtspResponse.parse build buf ≠ .panic ∧
    ∀ r consumed, RtspResponse.parse build buf = .ok (some (r, consumed)) →
      ∃ headEnd, findSubsequence buf CRLFCRLF = some headEnd ∧
        headEnd + 4 ≤ consumed ∧ consumed ≤ buf.length

theorem parseSafe_of_fits (build : Build) {buf : Bytes} (h : ¬ DeclaresTooMuch buf) :
    ParseSafe build buf := by
  cases hfind : findSubsequence buf CRLFCRLF with
  | none =>
    have hp := parse_no_head build hfind
    exact ⟨by rw [hp]; nofun, by rw [hp]; nofun⟩
  | some headEnd =>
    cases hhead : parseHead (buf.take headEnd) with
    | error e =>
      have hp := parse_bad_head build hfind hhead
      exact ⟨by rw [hp]; nofun, by rw [hp]; nofun⟩
    | ok head =>
      obtain ⟨status, reason, headers⟩ := head
      have hfit : headEnd + 4 + contentLen headers ≤ USIZE_MAX := by
        by_contra hover
        exact h ⟨headEnd, status, reason, headers, hfind, hhead, by omega⟩
      have hp := parse_fits build hfind hhead hfit
      refine ⟨by rw [hp]; split_ifs <;> nofun, ?_⟩
      intro r consumed hr
      rw [hp] at hr
      split_ifs at hr with hlen
      · cases hr
      · cases hr
        exact ⟨headEnd, hfind, by omega, by omega⟩

/-- `parse` is safe on exactly the buffers whose head does not declare too much. -/
theorem parse_safe_iff (build : Build) (buf : Bytes) :
    ParseSafe build buf ↔ ¬ DeclaresTooMuch buf := by
  refine ⟨?_, parseSafe_of_fits build⟩
  rintro ⟨hreturns, -⟩ ⟨headEnd, status, reason, headers, hfind, hhead, hover⟩
  exact hreturns (parse_overflow build hfind hhead hover)

/-- A response that declares `usize::MAX` bytes of body. -/
def hugeLength : Bytes :=
  asBytes "RTSP/1.0 200 OK\r\nContent-Length: 18446744073709551615\r\n\r\n".toList

/-- A peer can make `parse` panic in either build. -/
theorem parse_unsafe_hugeLength :
    ¬ ParseSafe .debug hugeLength ∧ ¬ ParseSafe .release hugeLength := by
  have hdebug : RtspResponse.parse .debug hugeLength = .panic := by decide +kernel
  have hrelease : RtspResponse.parse .release hugeLength = .panic := by decide +kernel
  exact ⟨fun h => h.1 hdebug, fun h => h.1 hrelease⟩

end HorizonCast
