import HorizonCast.Lib.ByteRange
import HorizonCast.Spec.MediaServer
import Mathlib.Tactic.Tauto

/-! How `serve` classifies `Range` headers, against the grammar of byte-range
specifications. The two parsers of the server agree with it except on numbers that
overflow, on signs, and on what follows a first byte past the end. -/

namespace HorizonCast

open ByteRange Text

/-! ### The grammar of the header -/

/-- The value asks for `spec`: the first specification of a `bytes=` list, with the
white space around it ignored. -/
def HeaderSpells (value : Str) (spec : Spec) : Prop :=
  ∃ rest, value = "bytes=".toList ++ rest ∧ Spells (trim (rest.takeWhile (· ≠ ','))) spec

/-- What stands on either side of the first dash of the first specification. -/
def specParts (value : Str) : Option (Str × Str) :=
  (value.dropPrefix? "bytes=".toList).bind fun rest =>
    splitOnce '-' (trim (rest.takeWhile (· ≠ ',')))

theorem headerSpells_iff {value : Str} {spec : Spec} :
    HeaderSpells value spec ↔
      ∃ s e, specParts value = some (s, e) ∧ '-' ∉ s ∧ Spells (s ++ '-' :: e) spec := by
  unfold HeaderSpells specParts
  constructor
  · rintro ⟨rest, rfl, h⟩
    have hdrop : ("bytes=".toList ++ rest).dropPrefix? "bytes=".toList = some rest :=
      List.dropPrefix?_eq_some_iff.mpr ⟨_, rfl, BEq.rfl⟩
    obtain ⟨⟨s, e⟩, hsplit⟩ := Option.ne_none_iff_exists'.mp
      fun hnone => splitOnce_eq_none.mp hnone h.dash_mem
    obtain ⟨heq, hs⟩ := splitOnce_eq_some.mp hsplit
    exact ⟨s, e, by rw [hdrop]; exact hsplit, hs, heq ▸ h⟩
  · rintro ⟨s, e, hparts, hs, h⟩
    obtain ⟨rest, hdrop, hsplit⟩ := Option.bind_eq_some_iff.mp hparts
    obtain ⟨pre, rfl, hpre⟩ := List.dropPrefix?_eq_some_iff.mp hdrop
    exact ⟨rest, by rw [eq_of_beq hpre], (splitOnce_eq_some.mp hsplit).1 ▸ h⟩

theorem dash_notMem_of_specParts {value s e : Str} (h : specParts value = some (s, e)) :
    '-' ∉ s := by
  obtain ⟨rest, -, hsplit⟩ := Option.bind_eq_some_iff.mp h
  exact (splitOnce_eq_some.mp hsplit).2

/-- What a header with parts spells is what its parts spell. -/
theorem headerSpells_parts {value s e : Str} (h : specParts value = some (s, e)) {spec : Spec} :
    HeaderSpells value spec ↔ Spells (s ++ '-' :: e) spec := by
  constructor
  · intro hspec
    obtain ⟨s', e', hparts, -, hspells⟩ := headerSpells_iff.mp hspec
    obtain ⟨rfl, rfl⟩ := Prod.mk.inj (Option.some.inj (h.symm.trans hparts))
    exact hspells
  · exact fun hspells => headerSpells_iff.mpr ⟨s, e, h, dash_notMem_of_specParts h, hspells⟩

/-! ### The two parsers -/

section Parsers

variable {value s e : Str} {total : ℕ}

theorem parseRange_none (h : specParts value = none) : parseRange value total = none := by
  unfold specParts at h
  unfold parseRange
  simp only [head?_split, Option.bind_eq_bind, Option.bind_some]
  split_ifs
  · rfl
  · cases hdrop : value.dropPrefix? "bytes=".toList with
    | none => rfl
    | some rest =>
      rw [hdrop, Option.bind_some] at h
      rw [Option.bind_some, h, Option.bind_none]

theorem parseRange_suffix (htotal : 0 < total) (h : specParts value = some ([], e)) :
    parseRange value total = (parseUnsigned u64Max e).bind fun n =>
      if n = 0 then none else some (total - n, total - 1) := by
  obtain ⟨rest, hdrop, hsplit⟩ := Option.bind_eq_some_iff.mp h
  unfold parseRange
  simp only [head?_split, Option.bind_eq_bind, Option.bind_some, hdrop, hsplit,
    if_neg htotal.ne', if_true]
  cases parseUnsigned u64Max e with
  | none => rfl
  | some n =>
    by_cases hn : n = 0
    · simp [hn]
    · have hclear : ¬ (total - 1 < total - n ∨ total - 1 < total - n) := by omega
      simp only [Option.bind_some, if_neg hn, if_neg hclear]

theorem parseRange_parts (htotal : 0 < total) (h : specParts value = some (s, e)) (hs : s ≠ []) :
    parseRange value total = (parseUnsigned u64Max s).bind fun a =>
      (if e = [] then some (total - 1)
        else (parseUnsigned u64Max e).map fun n => min n (total - 1)).bind fun b =>
        if b < a ∨ total - 1 < a then none else some (a, b) := by
  obtain ⟨rest, hdrop, hsplit⟩ := Option.bind_eq_some_iff.mp h
  unfold parseRange
  simp only [head?_split, Option.bind_eq_bind, Option.bind_some, hdrop, hsplit,
    if_neg htotal.ne', if_neg hs]
  refine Option.bind_congr fun a _ => ?_
  by_cases he : e = []
  · rw [if_pos he, if_pos he, Option.bind_some]
  · rw [if_neg he, if_neg he]

theorem rangeIsUnsatisfiable_none (h : specParts value = none) :
    rangeIsUnsatisfiable value total = false := by
  unfold specParts at h
  unfold rangeIsUnsatisfiable
  cases hdrop : value.dropPrefix? "bytes=".toList with
  | none => rfl
  | some rest =>
    rw [hdrop, Option.bind_some] at h
    simp only [head?_split, Option.getD_some, h]

theorem rangeIsUnsatisfiable_parts (h : specParts value = some (s, e)) :
    rangeIsUnsatisfiable value total =
      if s = [] then decide (parseUnsigned u64Max e = some 0)
      else (parseUnsigned u64Max s).any fun a => total ≤ a := by
  obtain ⟨rest, hdrop, hsplit⟩ := Option.bind_eq_some_iff.mp h
  unfold rangeIsUnsatisfiable
  simp only [hdrop, head?_split, Option.getD_some, hsplit]

/-- What the two parsers make of a header value: `none` is a malformed one, and
`some none` one that cannot be satisfied. -/
def verdict (value : Str) (total : ℕ) : Option (Option (ℕ × ℕ)) :=
  match parseRange value total with
  | some r => some (some r)
  | none => if rangeIsUnsatisfiable value total then some none else none

theorem verdict_none (h : specParts value = none) : verdict value total = none := by
  unfold verdict
  rw [parseRange_none h, rangeIsUnsatisfiable_none h]
  rfl

theorem verdict_suffix (htotal : 0 < total) (h : specParts value = some ([], e)) :
    verdict value total = (parseUnsigned u64Max e).map fun n =>
      if n = 0 then none else some (total - n, total - 1) := by
  unfold verdict
  rw [parseRange_suffix htotal h, rangeIsUnsatisfiable_parts h, if_pos rfl]
  cases parseUnsigned u64Max e with
  | none => rfl
  | some n => by_cases hn : n = 0 <;> simp [hn]

theorem verdict_parts (htotal : 0 < total) (h : specParts value = some (s, e)) (hs : s ≠ []) :
    verdict value total = (parseUnsigned u64Max s).bind fun a =>
      if total ≤ a then some none
      else if e = [] then some (some (a, total - 1))
      else (parseUnsigned u64Max e).bind fun b =>
        if b < a then none else some (some (a, min b (total - 1))) := by
  unfold verdict
  rw [parseRange_parts htotal h hs, rangeIsUnsatisfiable_parts h, if_neg hs]
  cases parseUnsigned u64Max s with
  | none => rfl
  | some a =>
    simp only [Option.bind_some, Option.any_some]
    by_cases ha : total ≤ a
    · have hlast : total - 1 < a := by omega
      cases (if e = [] then some (total - 1)
        else (parseUnsigned u64Max e).map fun n => min n (total - 1)) <;> simp [ha, hlast]
    · have hlast : ¬ total - 1 < a := by omega
      by_cases he : e = []
      · simp [he, ha, hlast]
      · cases parseUnsigned u64Max e with
        | none => simp [he, ha]
        | some b =>
          by_cases hb : b < a <;> simp [he, ha, hb, hlast]

end Parsers

/-! ### Where they agree with the grammar -/

/-- The server classifies the header as the grammar does. -/
def Follows (value : Str) (total : ℕ) : Prop :=
  (∀ spec, HeaderSpells value spec → verdict value total = some (spec.resolve total)) ∧
    ((∀ spec, ¬ HeaderSpells value spec) → verdict value total = none)

/-- When the server agrees with the grammar on `s-e`. A well-formed suffix, first
byte, or last byte of a range inside the file must fit 64 bits. Of malformed parts
the server must either not read the first number, or read it inside the file, read no
last byte that is at or after it, and find the last position not empty. -/
def PartsAgree (s e : Str) (total : ℕ) : Prop :=
  if s = [] then
    if IsDigits e then numeral e ≤ u64Max else parseUnsigned u64Max e = none
  else if IsDigits s ∧ (e = [] ∨ IsDigits e ∧ numeral s ≤ numeral e) then
    numeral s ≤ u64Max ∧ (numeral s < total → e = [] ∨ numeral e ≤ u64Max)
  else ∀ a, parseUnsigned u64Max s = some a →
    a < total ∧ e ≠ [] ∧ ∀ b, parseUnsigned u64Max e = some b → b < a

section Agree

variable {value s e : Str} {total : ℕ}

theorem follows_of_spells {spec : Spec} (h : HeaderSpells value spec) :
    Follows value total ↔ verdict value total = some (spec.resolve total) := by
  constructor
  · exact fun hfollows => hfollows.1 spec h
  · refine fun hv => ⟨fun spec' h' => ?_, fun hnone => absurd h (hnone spec)⟩
    obtain ⟨s, e, hparts, -, hspells⟩ := headerSpells_iff.mp h
    rwa [← hspells.unique ((headerSpells_parts hparts).mp h')]

theorem follows_of_malformed (h : ∀ spec, ¬ HeaderSpells value spec) :
    Follows value total ↔ verdict value total = none :=
  ⟨fun hfollows => hfollows.2 h, fun hv => ⟨fun spec hspec => absurd hspec (h spec), fun _ => hv⟩⟩

theorem follows_suffix (htotal : 0 < total) (h : specParts value = some ([], e)) :
    Follows value total ↔ PartsAgree [] e total := by
  have hverdict := verdict_suffix htotal h
  unfold PartsAgree
  rw [if_pos rfl]
  by_cases he : IsDigits e
  · have hspells : HeaderSpells value (.suffix (numeral e)) :=
      (headerSpells_parts h).mpr (.suffix he)
    rw [follows_of_spells hspells, hverdict, parseUnsigned_digits he, if_pos he]
    by_cases hmax : numeral e ≤ u64Max <;> simp [hmax, Spec.resolve]
  · have hnone : ∀ spec, ¬ HeaderSpells value spec := by
      intro spec hspec
      obtain ⟨-, he', -⟩ | ⟨hd, -⟩ | ⟨hd, -⟩ :=
        (spells_iff List.not_mem_nil).mp ((headerSpells_parts h).mp hspec)
      · exact he he'
      · exact not_isDigits_nil hd
      · exact not_isDigits_nil hd
    rw [follows_of_malformed hnone, hverdict, if_neg he, Option.map_eq_none_iff]

theorem follows_digits (htotal : 0 < total) (h : specParts value = some (s, e)) (hs : IsDigits s)
    (he : e = [] ∨ IsDigits e ∧ numeral s ≤ numeral e) :
    Follows value total ↔ PartsAgree s e total := by
  have hverdict := verdict_parts htotal h hs.1
  unfold PartsAgree
  rw [if_neg hs.1, if_pos ⟨hs, he⟩]
  rw [parseUnsigned_digits hs] at hverdict
  rcases he with rfl | ⟨he, hle⟩
  · have hspells : HeaderSpells value (.openEnded (numeral s)) :=
      (headerSpells_parts h).mpr (.openEnded hs)
    rw [follows_of_spells hspells, hverdict]
    by_cases hmax : numeral s ≤ u64Max
    · by_cases hin : total ≤ numeral s <;> simp [hmax, hin, Spec.resolve]
    · simp [hmax]
  · have hspells : HeaderSpells value (.closed (numeral s) (numeral e)) :=
      (headerSpells_parts h).mpr (.closed hs he hle)
    rw [follows_of_spells hspells, hverdict, parseUnsigned_digits he]
    by_cases hmax : numeral s ≤ u64Max
    · by_cases hin : total ≤ numeral s
      · simp [hmax, hin, Spec.resolve]
      · have hin' : numeral s < total := by omega
        by_cases hmax' : numeral e ≤ u64Max
        · simp [hmax, hin, hmax', hin', he.1, hle, Spec.resolve]
        · simp [hmax, hin, hmax', hin', he.1]
    · simp [hmax]

theorem follows_malformed (htotal : 0 < total) (h : specParts value = some (s, e)) (hs : s ≠ [])
    (hmalformed : ¬ (IsDigits s ∧ (e = [] ∨ IsDigits e ∧ numeral s ≤ numeral e))) :
    Follows value total ↔ PartsAgree s e total := by
  have hnone : ∀ spec, ¬ HeaderSpells value spec := by
    intro spec hspec
    obtain ⟨rfl, -⟩ | ⟨hd, rfl, -⟩ | ⟨hd, he, hle, -⟩ :=
      (spells_iff (dash_notMem_of_specParts h)).mp ((headerSpells_parts h).mp hspec)
    · exact hs rfl
    · exact hmalformed ⟨hd, .inl rfl⟩
    · exact hmalformed ⟨hd, .inr ⟨he, hle⟩⟩
  unfold PartsAgree
  rw [if_neg hs, if_neg hmalformed, follows_of_malformed hnone, verdict_parts htotal h hs]
  cases parseUnsigned u64Max s with
  | none => simp
  | some a =>
    simp only [Option.bind_some, Option.some.injEq, forall_eq']
    by_cases hin : total ≤ a
    · simp [hin]
    · have hin' : a < total := by omega
      by_cases he : e = []
      · simp [hin, he]
      · cases parseUnsigned u64Max e with
        | none => simp [hin, hin', he]
        | some b => by_cases hb : b < a <;> simp [hin, hin', he, hb]

end Agree

/-- The server agrees with the grammar on the parts of the header, if it has any. -/
def Agrees (value : Str) (total : ℕ) : Prop :=
  ∀ s e, specParts value = some (s, e) → PartsAgree s e total

theorem follows_iff {total : ℕ} (htotal : 0 < total) (value : Str) :
    Follows value total ↔ Agrees value total := by
  unfold Agrees
  cases h : specParts value with
  | none =>
    have hnone : ∀ spec, ¬ HeaderSpells value spec := by
      intro spec hspec
      obtain ⟨s, e, hparts, -⟩ := headerSpells_iff.mp hspec
      cases h.symm.trans hparts
    rw [follows_of_malformed hnone]
    exact iff_of_true (verdict_none h) nofun
  | some parts =>
    obtain ⟨s, e⟩ := parts
    have hparts : Follows value total ↔ PartsAgree s e total := by
      by_cases hs : s = []
      · subst hs
        exact follows_suffix htotal h
      · by_cases hwell : IsDigits s ∧ (e = [] ∨ IsDigits e ∧ numeral s ≤ numeral e)
        · exact follows_digits htotal h hwell.1 hwell.2
        · exact follows_malformed htotal h hs hwell
    rw [hparts]
    constructor
    · intro hagree s' e' heq
      obtain ⟨rfl, rfl⟩ := Prod.mk.inj (Option.some.inj heq)
      exact hagree
    · exact fun hagree => hagree s e rfl

/-! ### Headers of the answer -/

theorem lookup_filter_ne {n m : Str} (h : n ≠ m) (out : HeaderMap) :
    (out.filter (·.1 ≠ m)).lookup n = out.lookup n := by
  induction out with
  | nil => rfl
  | cons f out ih =>
    obtain ⟨k, v⟩ := f
    by_cases hk : k = m
    · have hn : (n == k) = false := beq_eq_false_iff_ne.mpr (hk ▸ h)
      simpa [hk, List.lookup_cons, hn, hk ▸ hn] using ih
    · by_cases hn : n = k
      · simp [hn, hk]
      · have hn' : (n == k) = false := beq_eq_false_iff_ne.mpr hn
        simpa [hk, List.lookup_cons, hn'] using ih

theorem lookup_put_ne {n m : Str} (h : n ≠ m) (out : HeaderMap) (v : Str) :
    (out.put m v).lookup n = out.lookup n := by
  have hn : (n == m) = false := beq_eq_false_iff_ne.mpr h
  rw [HeaderMap.put, List.lookup_append, lookup_filter_ne h, List.lookup_cons, hn]
  exact Option.or_none

theorem lookup_put_self (n : Str) (out : HeaderMap) (v : Str) :
    (out.put n v).lookup n = some v := by
  have hnone : (out.filter (·.1 ≠ n)).lookup n = none := by
    rw [List.lookup_eq_none_iff]
    intro f hf
    exact bne_iff_ne.mpr (of_decide_eq_true (List.mem_filter.mp hf).2).symm
  rw [HeaderMap.put, List.lookup_append, hnone, Option.none_or, List.lookup_cons_self]

theorem contentRange_notMem_base (state : ServerState) (request : Request) :
    (baseHeaders state request).lookup "content-range".toList = none := by
  unfold baseHeaders
  dsimp only
  split_ifs
  · rw [lookup_put_ne (by decide), lookup_put_ne (by decide), lookup_put_ne (by decide),
      lookup_put_ne (by decide)]
    rfl
  · rw [lookup_put_ne (by decide), lookup_put_ne (by decide), lookup_put_ne (by decide)]
    rfl

theorem decimal_injective {m n : ℕ} (h : decimal m = decimal n) : m = n :=
  toDigits_injective (by decide) (by decide) h

theorem contentRange_injective {a b a' b' total : ℕ}
    (h : contentRange a b total = contentRange a' b' total) : (a, b) = (a', b') := by
  have hsep : ∀ {c : Char}, (∀ d < 16, d.digitChar ≠ c) → ∀ n, c ∉ decimal n :=
    fun hc n => notMem_toDigits (by decide) (by decide) hc n
  obtain ⟨hstart, hrest⟩ := append_sep_inj (hsep (by decide) a) (hsep (by decide) a')
    (List.append_cancel_left h)
  obtain ⟨hstop, -⟩ := append_sep_inj (hsep (by decide) b) (hsep (by decide) b') hrest
  rw [decimal_injective hstart, decimal_injective hstop]

/-! ### The answers -/

/-- The answer for a header value: the range of a satisfiable one, `some none` for an
unsatisfiable one, `none` for a malformed one. -/
def Answers (file : OpenFile) (request : Request) (total : ℕ) (resp : Response) :
    Option (Option (ℕ × ℕ)) → Prop
  | some (some (start, stop)) =>
    resp.status = .partialContent ∧
      resp.header "content-range".toList = some (contentRange start stop total) ∧
      (request.method ≠ .head → file.seek start = .ok () →
        resp.body = (file.contents.drop start).take (stop - start + 1))
  | some none => resp.status = .rangeNotSatisfiable
  | none =>
    resp.status = .ok ∧ resp.header "content-range".toList = none ∧
      (request.method ≠ .head → resp.body = file.contents)

theorem Answers.unique {file : OpenFile} {request : Request} {total : ℕ} {resp : Response}
    {v v' : Option (Option (ℕ × ℕ))} (h : Answers file request total resp v)
    (h' : Answers file request total resp v') : v = v' := by
  rcases v with - | - | ⟨a, b⟩ <;> rcases v' with - | - | ⟨a', b'⟩
  · rfl
  · cases h.1.symm.trans h'
  · cases h.1.symm.trans h'.1
  · cases h'.1.symm.trans h
  · rfl
  · cases h'.1.symm.trans h
  · cases h.1.symm.trans h'.1
  · cases h.1.symm.trans h'
  · rw [contentRange_injective (Option.some.inj (h.2.1.symm.trans h'.2.1))]

section Serve

variable (state : ServerState) {file : OpenFile} {request : Request} {value : Str} {length : UInt64}

/-- The server answers what its two parsers say. -/
theorem serve_answers (hmeta : file.metadata = .ok length) (hvalue : request.range = some value) :
    Answers file request length.toNat (serve state (.ok file) request)
      (verdict value length.toNat) := by
  unfold serve verdict
  simp only [hmeta, hvalue, Option.bind_some, Option.any_some]
  cases hparse : parseRange value length.toNat with
  | some r =>
    obtain ⟨a, b⟩ := r
    rw [if_neg (by simp)]
    refine ⟨rfl, lookup_put_self _ _ _, fun hget hseek => ?_⟩
    simp only [if_neg hget, rangedBody, hseek]
  | none =>
    by_cases hunsat : rangeIsUnsatisfiable value length.toNat = true
    · rw [if_pos ⟨rfl, hunsat⟩, if_pos hunsat]
      exact rfl
    · rw [if_neg fun h => hunsat h.2, if_neg hunsat]
      refine ⟨rfl, ?_, fun hget => if_neg hget⟩
      exact (lookup_put_ne (by decide) _ _).trans (contentRange_notMem_base state request)

end Serve

/-- The answer to a request with this `Range` header is that of the class of the
header: `206` with the clamped range, `416`, or `200` with the whole file. -/
def Classified (file : OpenFile) (request : Request) (value : Str) (total : ℕ)
    (resp : Response) : Prop :=
  (∀ spec, HeaderSpells value spec →
      Answers file request total resp (some (spec.resolve total))) ∧
    ((∀ spec, ¬ HeaderSpells value spec) → Answers file request total resp none)

/-- For every header and every file that is not empty, the answer is that of the
header's class exactly when the server's parsers agree with the grammar on its parts. -/
theorem range_classified_iff (state : ServerState) (file : OpenFile) (request : Request)
    (value : Str) (length : UInt64) (hmeta : file.metadata = .ok length)
    (hvalue : request.range = some value) (hlength : 0 < length.toNat) :
    Classified file request value length.toNat (serve state (.ok file) request) ↔
      Agrees value length.toNat := by
  have hserve := serve_answers state hmeta hvalue
  rw [← follows_iff hlength]
  constructor
  · intro h
    exact ⟨fun spec hspec => hserve.unique (h.1 spec hspec), fun hnone => hserve.unique (h.2 hnone)⟩
  · intro h
    refine ⟨fun spec hspec => ?_, fun hnone => ?_⟩
    · rwa [h.1 spec hspec] at hserve
    · rwa [h.2 hnone] at hserve

/-- A file of a thousand bytes. -/
def thousandBytes : OpenFile := ⟨.ok 1000, List.replicate 1000 0, fun _ => .ok ()⟩

/-- The first hundred bytes are served under the class of their header. -/
theorem range_classified_iff_first :
    Classified thousandBytes ⟨.get, some "bytes=0-99".toList, false⟩ "bytes=0-99".toList 1000
      (serve ⟨"video/mp4".toList⟩ (.ok thousandBytes)
        ⟨.get, some "bytes=0-99".toList, false⟩) := by
  refine (range_classified_iff _ thousandBytes _ _ 1000 rfl rfl (by decide)).mpr ?_
  intro s e hparts
  obtain ⟨rfl, rfl⟩ : "0".toList = s ∧ "99".toList = e :=
    Prod.mk.inj (Option.some.inj (by rw [← hparts]; decide))
  unfold PartsAgree
  decide

/-- A malformed last position after a first byte past the end. -/
theorem malformed_unsatisfiable :
    ¬ ∀ (state : ServerState) (file : OpenFile) (request : Request) (value : Str)
      (length : UInt64), file.metadata = .ok length → request.range = some value →
        0 < length.toNat →
        Classified file request value length.toNat (serve state (.ok file) request) := by
  intro h
  have hclass := h ⟨"video/mp4".toList⟩ thousandBytes ⟨.get, some "bytes=2000-x".toList, false⟩
    "bytes=2000-x".toList 1000 rfl rfl (by decide)
  have hnone : ∀ spec, ¬ HeaderSpells "bytes=2000-x".toList spec := by
    intro spec hspec
    obtain ⟨s, e, hparts, hs, hspells⟩ := headerSpells_iff.mp hspec
    obtain ⟨rfl, rfl⟩ : "2000".toList = s ∧ "x".toList = e :=
      Prod.mk.inj (Option.some.inj (by rw [← hparts]; decide))
    rcases (spells_iff hs).mp hspells with ⟨hnil, -⟩ | ⟨-, hnil, -⟩ | ⟨-, hx, -⟩
    · cases hnil
    · cases hnil
    · exact absurd hx (by decide)
  have hstatus := (hclass.2 hnone).1
  revert hstatus
  decide +kernel

end HorizonCast
