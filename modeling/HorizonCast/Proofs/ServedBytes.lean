import HorizonCast.Proofs.Ranges

/-! What the media server says of the bytes it sends is true: the lengths and
ranges of its headers are those of the body, and no arithmetic overflows. -/

namespace HorizonCast

open Text

/-! ### The requested range -/

/-- A range that is served lies inside the file. -/
theorem parseRange_bounds {value : Str} {total start stop : ℕ}
    (h : parseRange value total = some (start, stop)) : start ≤ stop ∧ stop < total := by
  have htotal : 0 < total := by
    rcases Nat.eq_zero_or_pos total with rfl | hpos
    · simp [parseRange] at h
    · exact hpos
  cases hparts : specParts value with
  | none => simp [parseRange_none hparts] at h
  | some parts =>
    obtain ⟨s, e⟩ := parts
    by_cases hs : s = []
    · subst hs
      rw [parseRange_suffix htotal hparts] at h
      obtain ⟨n, -, h⟩ := Option.bind_eq_some_iff.mp h
      obtain ⟨hn, heq⟩ := Option.ite_none_left_eq_some.mp h
      cases heq
      omega
    · rw [parseRange_parts htotal hparts hs] at h
      obtain ⟨a, -, h⟩ := Option.bind_eq_some_iff.mp h
      obtain ⟨b, hb, h⟩ := Option.bind_eq_some_iff.mp h
      obtain ⟨hclear, heq⟩ := Option.ite_none_left_eq_some.mp h
      cases heq
      have hlast : stop ≤ total - 1 := by
        by_cases he : e = []
        · rw [if_pos he] at hb
          exact (Option.some.inj hb).ge
        · rw [if_neg he] at hb
          obtain ⟨n, -, rfl⟩ := Option.map_eq_some_iff.mp hb
          exact min_le_right n _
      omega

/-! ### No arithmetic overflows -/

theorem u64SaturatingSub_eq (a b : ℕ) : u64SaturatingSub a b = a - b := by
  unfold u64SaturatingSub
  split_ifs <;> omega

theorem parseRangeChecked_eq (value : Str) (total : ℕ) :
    parseRangeChecked value total = some (parseRange value total) := by
  unfold parseRangeChecked parseRange
  by_cases htotal : total = 0
  · rw [if_pos htotal, if_pos htotal]
  · have hlast : u64Sub total 1 = some (total - 1) := if_pos (by omega)
    rw [if_neg htotal, if_neg htotal, hlast]
    simp only [u64SaturatingSub_eq]
    rfl

/-- No request makes the server's arithmetic overflow. -/
theorem serveChecked_eq (state : ServerState) (opened : Except Str OpenFile) (request : Request) :
    serveChecked state opened request = some (serve state opened request) := by
  unfold serveChecked serve
  cases opened with
  | error e => rfl
  | ok file =>
    dsimp only
    cases file.metadata with
    | error e => rfl
    | ok length =>
      have hrequested : (request.range.map fun v => parseRangeChecked v length.toNat).getD
          (some none) = some (request.range.bind fun v => parseRange v length.toNat) := by
        cases request.range with
        | none => rfl
        | some v => exact parseRangeChecked_eq v length.toNat
      dsimp only
      rw [hrequested, Option.bind_eq_bind, Option.bind_some]
      by_cases hunsat : (request.range.bind fun v => parseRange v length.toNat) = none ∧
          request.range.any fun r => rangeIsUnsatisfiable r length.toNat
      · rw [if_pos hunsat, if_pos hunsat]
      · rw [if_neg hunsat, if_neg hunsat]
        cases h : request.range.bind fun v => parseRange v length.toNat with
        | none => rfl
        | some r =>
          obtain ⟨start, stop⟩ := r
          obtain ⟨v, -, hv⟩ := Option.bind_eq_some_iff.mp h
          obtain ⟨hle, hlt⟩ := parseRange_bounds hv
          have hmax : length.toNat < 2 ^ 64 := length.toNat_lt
          have hsub : u64Sub stop start = some (stop - start) := if_pos hle
          have hadd : u64Add (stop - start) 1 = some (stop - start + 1) :=
            if_pos (by unfold u64Max; omega)
          simp only [Option.bind_eq_bind, Option.bind_some, hsub, hadd]

/-! ### The answer and its body -/

section Served

variable {state : ServerState} {file : OpenFile} {request : Request} {length : UInt64}

/-- The content of a file that does not change, read as a byte array. -/
structure Reads (file : OpenFile) (length : UInt64) : Prop where
  metadata : file.metadata = .ok length
  contents : file.contents.length = length.toNat
  seek : ∀ start ≤ length.toNat, file.seek start = .ok ()

/-- The length it declares is the length of its body. -/
def Response.DeclaresLength (resp : Response) : Prop :=
  resp.header "content-length".toList = some (decimal resp.body.length)

/-- The whole file, or the part of it that the answer names. -/
def Response.TellsTruth (resp : Response) (file : List UInt8) : Prop :=
  (resp.status = .ok → resp.body = file ∧ resp.DeclaresLength) ∧
    (resp.status = .partialContent → ∃ start stop, start ≤ stop ∧ stop < file.length ∧
      resp.body = (file.take (stop + 1)).drop start ∧
      resp.header "content-range".toList = some (contentRange start stop file.length) ∧
      resp.DeclaresLength)

/-- A `HEAD` request gets the head of the answer to the same request otherwise. -/
theorem serve_head (request : Request) (hmethod : request.method ≠ .head)
    (hmeta : file.metadata = .ok length) :
    serve state (.ok file) { request with method := .head } =
      { serve state (.ok file) request with body := [] } := by
  unfold serve
  simp only [hmeta, if_true, if_neg hmethod]
  split_ifs
  · rfl
  · cases request.range.bind fun v => parseRange v length.toNat with
    | none => rfl
    | some r => rfl

theorem lookup_insertLen (out : HeaderMap) (len : ℕ) :
    (insertLen out len).lookup "content-length".toList = some (decimal len) :=
  lookup_put_self _ out _

theorem serve_truth (hmethod : request.method ≠ .head) (hfile : Reads file length) :
    (serve state (.ok file) request).TellsTruth file.contents := by
  unfold serve
  simp only [hfile.metadata, if_neg hmethod]
  split_ifs
  · exact ⟨nofun, nofun⟩
  · cases h : request.range.bind fun v => parseRange v length.toNat with
    | none =>
      refine ⟨fun _ => ⟨rfl, ?_⟩, nofun⟩
      rw [Response.DeclaresLength, hfile.contents]
      exact lookup_insertLen _ _
    | some r =>
      obtain ⟨start, stop⟩ := r
      obtain ⟨v, -, hv⟩ := Option.bind_eq_some_iff.mp h
      obtain ⟨hle, hlt⟩ := parseRange_bounds hv
      refine ⟨nofun, fun _ => ?_⟩
      have hbody : rangedBody file start (stop - start + 1) =
          (file.contents.take (stop + 1)).drop start := by
        rw [rangedBody, hfile.seek start (by omega), List.drop_take,
          show stop + 1 - start = stop - start + 1 by omega]
      have hlen : ((file.contents.take (stop + 1)).drop start).length = stop - start + 1 := by
        rw [List.length_drop, List.length_take, hfile.contents]
        omega
      refine ⟨start, stop, hle, by rwa [hfile.contents], hbody, ?_, ?_⟩
      · rw [hfile.contents]
        exact lookup_put_self _ _ _
      · rw [Response.DeclaresLength]
        dsimp only
        rw [hbody, hlen]
        exact (lookup_put_ne (by decide) _ _).trans (lookup_insertLen _ _)

end Served

/-- For every file that does not change during the request and every `Range` header,
the answer to a `GET` tells the truth about the bytes it sends, and that to a `HEAD` is
the same without them. No arithmetic overflows on the way to either. -/
theorem served_bytes (state : ServerState) (file : OpenFile) (length : UInt64)
    (range : Option Str) (wantsContentFeatures : Bool) (hfile : Reads file length) :
    let get := serve state (.ok file) ⟨.get, range, wantsContentFeatures⟩
    let head := serve state (.ok file) ⟨.head, range, wantsContentFeatures⟩
    get.TellsTruth file.contents ∧
      head.status = get.status ∧ head.headers = get.headers ∧ head.body = [] ∧
      serveChecked state (.ok file) ⟨.get, range, wantsContentFeatures⟩ = some get ∧
      serveChecked state (.ok file) ⟨.head, range, wantsContentFeatures⟩ = some head := by
  intro get head
  have hhead : head = { get with body := [] } :=
    serve_head ⟨.get, range, wantsContentFeatures⟩ nofun hfile.metadata
  refine ⟨serve_truth nofun hfile, ?_, ?_, ?_, serveChecked_eq _ _ _, serveChecked_eq _ _ _⟩
  · rw [hhead]
  · rw [hhead]
  · rw [hhead]

/-- The last two bytes of three, asked for as the last five. -/
theorem served_bytes_suffix :
    (serve ⟨"video/mp4".toList⟩ (.ok ⟨.ok 3, [1, 2, 3], fun _ => .ok ()⟩)
      ⟨.get, some "bytes=-5".toList, false⟩).TellsTruth [1, 2, 3] :=
  (served_bytes ⟨"video/mp4".toList⟩ ⟨.ok 3, [1, 2, 3], fun _ => .ok ()⟩ 3
    (some "bytes=-5".toList) false ⟨rfl, rfl, fun _ _ => rfl⟩).1

end HorizonCast
