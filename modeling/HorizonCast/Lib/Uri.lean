import HorizonCast.Lib.Text

/-! URI references (RFC 3986): their parts, the removal of dot segments, and the
resolution of a reference against a base. -/

namespace Uri

open Text

/-! ### Parts -/

/-- The five parts of a URI reference. -/
structure Reference where
  scheme : Option Str
  authority : Option Str
  path : Str
  query : Option Str
  fragment : Option Str
  deriving DecidableEq, Repr

/-- What stands before the first of the characters `stop`. -/
def upTo (stop : List Char) (s : Str) : Str := s.takeWhile fun c => !stop.contains c

/-- What stands from the first of the characters `stop` on. -/
def since (stop : List Char) (s : Str) : Str := s.dropWhile fun c => !stop.contains c

/-- A scheme is not empty and ends at a colon. -/
def takeScheme (s : Str) : Option Str × Str :=
  match since [':', '/', '?', '#'] s with
  | ':' :: rest =>
    if upTo [':', '/', '?', '#'] s = [] then (none, s)
    else (some (upTo [':', '/', '?', '#'] s), rest)
  | _ => (none, s)

def takeAuthority (s : Str) : Option Str × Str :=
  match s with
  | '/' :: '/' :: rest => (some (upTo ['/', '?', '#'] rest), since ['/', '?', '#'] rest)
  | _ => (none, s)

/-- A part that starts with its mark. -/
def takeMarked (mark : Char) (stop : List Char) (s : Str) : Option Str × Str :=
  match s with
  | [] => (none, [])
  | c :: rest => if c = mark then (some (upTo stop rest), since stop rest) else (none, s)

/-- The parts of a text, as the regular expression of appendix B finds them. -/
def parse (s : Str) : Reference :=
  let (scheme, s) := takeScheme s
  let (authority, s) := takeAuthority s
  let (query, rest) := takeMarked '?' ['#'] (since ['?', '#'] s)
  let (fragment, _) := takeMarked '#' [] rest
  { scheme, authority, path := upTo ['?', '#'] s, query, fragment }

/-- A part behind its mark, if it is there. -/
def marked (mark : Str) : Option Str → Str
  | none => []
  | some part => mark ++ part

/-- Query and fragment. -/
def Reference.tail (r : Reference) : Str := marked ['?'] r.query ++ marked ['#'] r.fragment

/-- The text of the parts (section 5.3). -/
def recompose (r : Reference) : Str :=
  r.scheme.elim [] (· ++ [':']) ++ marked ['/', '/'] r.authority ++ r.path ++ r.tail

/-! ### Reading and writing -/

theorem upTo_append_since (stop : List Char) (s : Str) : upTo stop s ++ since stop s = s :=
  List.takeWhile_append_dropWhile

theorem notMem_upTo {stop : List Char} {c : Char} (h : c ∈ stop) (s : Str) : c ∉ upTo stop s := by
  intro hmem
  have hc := List.mem_takeWhile_imp hmem
  simp [h] at hc

theorem since_cases (stop : List Char) (s : Str) :
    since stop s = [] ∨ ∃ c ∈ stop, ∃ rest, since stop s = c :: rest := by
  cases h : since stop s with
  | nil => exact .inl rfl
  | cons c rest =>
    have hc := List.head?_dropWhile_not (fun c => !stop.contains c) s
    rw [← since, h] at hc
    exact .inr ⟨c, by simpa using hc, rest, rfl⟩

theorem takeScheme_eq {s rest : Str} {scheme : Option Str} (h : takeScheme s = (scheme, rest)) :
    s = scheme.elim [] (· ++ [':']) ++ rest ∧ ∀ a ∈ scheme, a ≠ [] ∧ ':' ∉ a ∧ '/' ∉ a := by
  have hs := upTo_append_since [':', '/', '?', '#'] s
  unfold takeScheme at h
  split at h
  · rename_i rest' hrest
    split_ifs at h with hnil
    · cases h
      exact ⟨rfl, nofun⟩
    · cases h
      refine ⟨by rw [Option.elim_some, List.append_assoc, List.singleton_append, ← hrest, hs], ?_⟩
      rintro a ⟨⟩
      exact ⟨hnil, notMem_upTo (by simp) s, notMem_upTo (by simp) s⟩
  · cases h
    exact ⟨rfl, nofun⟩

theorem takeAuthority_eq {s rest : Str} {authority : Option Str}
    (h : takeAuthority s = (authority, rest)) :
    s = marked ['/', '/'] authority ++ rest ∧ ∀ a ∈ authority,
      '/' ∉ a ∧ (rest = [] ∨ ∃ c ∈ ['/', '?', '#'], ∃ t, rest = c :: t) := by
  unfold takeAuthority at h
  split at h
  · rename_i t
    cases h
    refine ⟨by rw [marked, List.append_assoc, upTo_append_since]; rfl, ?_⟩
    rintro a ⟨⟩
    exact ⟨notMem_upTo (by simp) t, since_cases _ t⟩
  · cases h
    exact ⟨rfl, nofun⟩

theorem takeMarked_eq {mark : Char} {stop : List Char} {s rest : Str} {part : Option Str}
    (h : takeMarked mark stop s = (part, rest)) : s = marked [mark] part ++ rest := by
  unfold takeMarked at h
  split at h
  · cases h
    rfl
  · split_ifs at h with hc
    · cases h
      rw [hc, marked, List.append_assoc, upTo_append_since]
      rfl
    · cases h
      rfl

/-- What is left behind the path is a query and a fragment. -/
theorem marked_query_fragment {s rest left : Str} {query fragment : Option Str}
    (hs : s = [] ∨ ∃ c ∈ ['?', '#'], ∃ t, s = c :: t)
    (hquery : takeMarked '?' ['#'] s = (query, rest))
    (hfragment : takeMarked '#' [] rest = (fragment, left)) :
    s = marked ['?'] query ++ marked ['#'] fragment := by
  have hq := takeMarked_eq hquery
  have hf := takeMarked_eq hfragment
  have hsince : ∀ t : Str, since [] t = [] := fun t => by simp [since]
  have hhash : rest = [] ∨ ∃ t, rest = '#' :: t := by
    rcases hs with rfl | ⟨c, hc, t, rfl⟩
    · cases hquery
      exact .inl rfl
    · rcases List.mem_pair.mp hc with rfl | rfl
      · cases hquery
        rcases since_cases ['#'] t with hnil | ⟨c, hc, t', ht'⟩
        · exact .inl hnil
        · rw [List.mem_singleton.mp hc] at ht'
          exact .inr ⟨t', ht'⟩
      · cases hquery
        exact .inr ⟨t, rfl⟩
  have hleft : left = [] := by
    rcases hhash with rfl | ⟨t, rfl⟩
    · cases hfragment
      rfl
    · cases hfragment
      exact hsince t
  rw [hq, hf, hleft, List.append_nil]

/-- A path is empty or starts with a slash. -/
def Rooted (path : Str) : Prop := path = [] ∨ ∃ t, path = '/' :: t

/-- The parts of a text make up the text, and stop where the next one starts. -/
structure Parts (s : Str) (r : Reference) : Prop where
  text : recompose r = s
  scheme : ∀ a ∈ r.scheme, a ≠ [] ∧ ':' ∉ a ∧ '/' ∉ a
  authority : ∀ a ∈ r.authority, '/' ∉ a ∧ Rooted r.path

theorem parts_parse (s : Str) : Parts s (parse s) := by
  rcases hscheme : takeScheme s with ⟨scheme, s₁⟩
  rcases hauthority : takeAuthority s₁ with ⟨authority, s₂⟩
  rcases hquery : takeMarked '?' ['#'] (since ['?', '#'] s₂) with ⟨query, rest⟩
  rcases hfragment : takeMarked '#' [] rest with ⟨fragment, left⟩
  have hparse : parse s = ⟨scheme, authority, upTo ['?', '#'] s₂, query, fragment⟩ := by
    simp only [parse, hscheme, hauthority, hquery, hfragment]
  obtain ⟨hs, hschemes⟩ := takeScheme_eq hscheme
  obtain ⟨hs₁, hauthorities⟩ := takeAuthority_eq hauthority
  have htail := marked_query_fragment (since_cases _ s₂) hquery hfragment
  rw [hparse]
  refine ⟨?_, hschemes, fun a ha => ⟨(hauthorities a ha).1, ?_⟩⟩
  · rw [recompose, Reference.tail, ← htail, List.append_assoc, upTo_append_since,
      List.append_assoc, ← hs₁, ← hs]
  · rcases (hauthorities a ha).2 with hnil | ⟨c, hc, t, ht⟩
    · exact .inl (by rw [hnil]; rfl)
    · rw [ht]
      rcases List.mem_cons.mp hc with rfl | hc
      · exact .inr ⟨upTo ['?', '#'] t, rfl⟩
      · rcases List.mem_pair.mp hc with rfl | rfl
        · exact .inl rfl
        · exact .inl rfl

/-! ### Resolution -/

def dot : Str := ['.']

def dotDot : Str := ['.', '.']

/-- The output buffer without its last segment and the slash before it. -/
def cutSegment (out : Str) : Str := (out.rdropWhile (· ≠ '/')).dropLast

/-- Section 5.2.4 on an input that starts with a slash before each of the segments:
step E moves a segment to the output buffer, steps B and C leave at least a slash. -/
def removeDots : List Str → Str → Str
  | [], out => out
  | seg :: segs, out =>
    if seg = dot then if segs = [] then out ++ ['/'] else removeDots segs out
    else if seg = dotDot then
      if segs = [] then cutSegment out ++ ['/'] else removeDots segs (cutSegment out)
    else removeDots segs (out ++ '/' :: seg)

/-- Steps A and D drop dot segments in front of the first slash. -/
def dropDots : List Str → Str
  | [] => []
  | seg :: segs => if seg = dot ∨ seg = dotDot then dropDots segs else removeDots segs seg

def removeDotSegments (path : Str) : Str := dropDots (split '/' path)

/-- A path up to its last slash. -/
def directory (path : Str) : Str := path.rdropWhile (· ≠ '/')

/-- Section 5.2.3. -/
def merge (base : Reference) (path : Str) : Str :=
  if base.authority.isSome ∧ base.path = [] then '/' :: path else directory base.path ++ path

/-- Section 5.2.2. -/
def resolve (base ref : Reference) : Reference :=
  if ref.scheme.isSome then { ref with path := removeDotSegments ref.path }
  else if ref.authority.isSome then
    { ref with scheme := base.scheme, path := removeDotSegments ref.path }
  else if ref.path = [] then
    { base with query := ref.query <|> base.query, fragment := ref.fragment }
  else
    { base with
      path := removeDotSegments
        (if ref.path.head? = some '/' then ref.path else merge base ref.path)
      query := ref.query
      fragment := ref.fragment }

example : recompose (resolve (parse "http://a/b/c/d;p?q".toList) (parse "../../../g".toList)) =
    "http://a/g".toList := by decide +kernel

/-! ### Dot segments -/

def NoDotSegments (path : Str) : Prop := ∀ seg ∈ split '/' path, seg ≠ dot ∧ seg ≠ dotDot

instance (path : Str) : Decidable (NoDotSegments path) :=
  inferInstanceAs (Decidable (∀ seg ∈ split '/' path, seg ≠ dot ∧ seg ≠ dotDot))

/-- A text with a slash before each of the segments. -/
def slashed (segs : List Str) : Str := segs.flatMap ('/' :: ·)

theorem slashed_cons (seg : Str) (segs : List Str) :
    slashed (seg :: segs) = '/' :: seg ++ slashed segs := rfl

theorem slashed_split (s : Str) : slashed (split '/' s) = '/' :: s := by
  induction s with
  | nil => rfl
  | cons c s ih =>
    rw [split]
    split_ifs with hc
    · rw [slashed_cons, ih, hc]
      rfl
    · cases hs : split '/' s with
      | nil => simp [hs, slashed] at ih
      | cons p ps =>
        rw [hs, slashed_cons] at ih
        simp only [slashed_cons, List.cons_append, List.cons.injEq, true_and] at ih ⊢
        exact ih

theorem length_cutSegment_le (out : Str) : (cutSegment out).length ≤ out.length := by
  rw [cutSegment, List.length_dropLast]
  exact (Nat.sub_le _ _).trans (List.rdropWhile_prefix _ _).length_le

/-- Without dot segments all segments move to the output. -/
theorem removeDots_of_noDots {segs : List Str} (h : ∀ seg ∈ segs, seg ≠ dot ∧ seg ≠ dotDot)
    (out : Str) : removeDots segs out = out ++ slashed segs := by
  induction segs generalizing out with
  | nil => simp [removeDots, slashed]
  | cons seg segs ih =>
    obtain ⟨hdot, hdotDot⟩ := h seg (by simp)
    rw [removeDots, if_neg hdot, if_neg hdotDot, ih fun t ht => h t (by simp [ht]), slashed_cons,
      List.append_assoc]

theorem length_removeDots_le (segs : List Str) (out : Str) :
    (removeDots segs out).length ≤ out.length + (slashed segs).length := by
  induction segs generalizing out with
  | nil => simp [removeDots]
  | cons seg segs ih =>
    have hcut := length_cutSegment_le out
    have hkeep := ih out
    have hdrop := ih (cutSegment out)
    have hmove := ih (out ++ '/' :: seg)
    rw [removeDots, slashed_cons]
    simp only [List.length_append, List.length_cons] at hmove ⊢
    split_ifs
    · rw [List.length_append, List.length_singleton]
      omega
    · omega
    · rw [List.length_append, List.length_singleton]
      omega
    · omega
    · omega

/-- Each dot segment makes the output shorter than the input. -/
theorem length_removeDots_lt {segs : List Str} (h : ∃ seg ∈ segs, seg = dot ∨ seg = dotDot)
    (out : Str) : (removeDots segs out).length < out.length + (slashed segs).length := by
  induction segs generalizing out with
  | nil => simp at h
  | cons seg segs ih =>
    have hcut := length_cutSegment_le out
    have hkeep := length_removeDots_le segs out
    have hdrop := length_removeDots_le segs (cutSegment out)
    have hdot : dot.length = 1 := rfl
    have hdotDot : dotDot.length = 2 := rfl
    rw [removeDots, slashed_cons]
    simp only [List.length_append, List.length_cons]
    split_ifs with h₁ h₂ h₃ h₄
    · rw [h₁, hdot, List.length_append, List.length_singleton]
      omega
    · rw [h₁, hdot]
      omega
    · rw [h₃, hdotDot, List.length_append, List.length_singleton]
      omega
    · rw [h₃, hdotDot]
      omega
    · obtain ⟨t, ht, hdots⟩ := h
      have hmem : t ∈ segs := by
        rcases List.mem_cons.mp ht with rfl | hmem
        · simp [h₁, h₃] at hdots
        · exact hmem
      have hmove := ih ⟨t, hmem, hdots⟩ (out ++ '/' :: seg)
      simp only [List.length_append, List.length_cons] at hmove
      omega

/-- What a segment with others behind it makes of the output. -/
def pushSegment (out seg : Str) : Str :=
  if seg = dot then out else if seg = dotDot then cutSegment out else out ++ '/' :: seg

theorem removeDots_cons (seg : Str) {segs : List Str} (h : segs ≠ []) (out : Str) :
    removeDots (seg :: segs) out = removeDots segs (pushSegment out seg) := by
  rw [removeDots, if_neg h, if_neg h, pushSegment]
  split_ifs <;> rfl

theorem removeDots_append (segs : List Str) {more : List Str} (h : more ≠ []) (out : Str) :
    removeDots (segs ++ more) out = removeDots more (segs.foldl pushSegment out) := by
  induction segs generalizing out with
  | nil => rfl
  | cons seg segs ih =>
    have hne : segs ++ more ≠ [] := fun hnil => h (List.append_eq_nil_iff.mp hnil).2
    rw [List.cons_append, removeDots_cons seg hne, ih, List.foldl_cons]

/-! ### Rooted paths -/

theorem removeDotSegments_slash (s : Str) :
    removeDotSegments ('/' :: s) = removeDots (split '/' s) [] := by
  have hsplit : split '/' ('/' :: s) = [] :: split '/' s := by simp [split]
  rw [removeDotSegments, hsplit, dropDots, if_neg (by decide)]

theorem noDotSegments_slash {s : Str} : NoDotSegments ('/' :: s) ↔ NoDotSegments s := by
  have hsplit : split '/' ('/' :: s) = [] :: split '/' s := by simp [split]
  have hnil : ([] : Str) ≠ dot ∧ ([] : Str) ≠ dotDot := by decide
  rw [NoDotSegments, hsplit, List.forall_mem_cons]
  exact and_iff_right hnil

theorem length_removeDotSegments_le {path : Str} (h : Rooted path) :
    (removeDotSegments path).length ≤ path.length := by
  rcases h with rfl | ⟨s, rfl⟩
  · exact le_rfl
  · have hle := length_removeDots_le (split '/' s) []
    rwa [slashed_split, List.length_nil, Nat.zero_add, ← removeDotSegments_slash] at hle

/-- The removal of dot segments changes just the paths that have some. -/
theorem removeDotSegments_eq_self_iff {path : Str} (h : Rooted path) :
    removeDotSegments path = path ↔ NoDotSegments path := by
  rcases h with rfl | ⟨s, rfl⟩
  · exact iff_of_true rfl (by decide)
  · rw [noDotSegments_slash, removeDotSegments_slash]
    constructor
    · intro heq
      by_contra hdots
      simp only [NoDotSegments, not_forall, not_and_or, not_not] at hdots
      obtain ⟨seg, hmem, hdot⟩ := hdots
      have hlt := length_removeDots_lt ⟨seg, hmem, hdot⟩ []
      rw [slashed_split, heq, List.length_nil, Nat.zero_add] at hlt
      exact lt_irrefl _ hlt
    · intro hnone
      rw [removeDots_of_noDots hnone, slashed_split, List.nil_append]

/-- A path without dot segments stays whole behind a directory. -/
theorem removeDotSegments_append {dir path : Str} (hdir : Rooted dir) (h : NoDotSegments path) :
    removeDotSegments (dir ++ '/' :: path) = removeDotSegments (dir ++ ['/']) ++ path := by
  obtain ⟨segs, hsegs⟩ : ∃ segs, split '/' dir = [] :: segs := by
    rcases hdir with rfl | ⟨s, rfl⟩
    · exact ⟨[], rfl⟩
    · exact ⟨split '/' s, by simp [split]⟩
  have hwhole : ∀ p, removeDotSegments (dir ++ '/' :: p) =
      removeDots (split '/' p) (segs.foldl pushSegment []) := by
    intro p
    rw [removeDotSegments, split_append_sep, hsegs, List.cons_append, dropDots,
      if_neg (by decide), removeDots_append segs (split_ne_nil '/' p)]
  rw [hwhole, hwhole, removeDots_of_noDots h, slashed_split,
    removeDots_of_noDots (by decide : NoDotSegments []), slashed_split, List.append_assoc]
  rfl

/-- A rooted path has a directory, which ends at a slash. -/
theorem directory_slash (s : Str) : ∃ dir, Rooted dir ∧ directory ('/' :: s) = dir ++ ['/'] := by
  have hne : directory ('/' :: s) ≠ [] := by
    intro hnil
    have hall := List.rdropWhile_eq_nil_iff.mp hnil
    simpa using hall '/' (by simp)
  have hlast : (directory ('/' :: s)).getLast hne = '/' := by
    have hstop := List.rdropWhile_last_not (fun c => decide (c ≠ '/')) ('/' :: s) hne
    exact not_not.mp fun h => hstop (decide_eq_true h)
  refine ⟨(directory ('/' :: s)).dropLast, ?_, ?_⟩
  · have hpre : (directory ('/' :: s)).dropLast <+: '/' :: s :=
      (List.dropLast_prefix _).trans (List.rdropWhile_prefix _ _)
    rcases List.prefix_cons_iff.mp hpre with hnil | ⟨t, ht, -⟩
    · exact .inl hnil
    · exact .inr ⟨t, ht⟩
  · have hsplit := List.dropLast_append_getLast hne
    rw [hlast] at hsplit
    exact hsplit.symm

/-! ### Absolute URIs -/

/-- A text before the first of the stop characters. -/
theorem upTo_append {stop : List Char} {s : Str} (h : ∀ c ∈ stop, c ∉ s) {stopper : Char}
    (hstop : stopper ∈ stop) (rest : Str) :
    upTo stop (s ++ stopper :: rest) = s ∧ since stop (s ++ stopper :: rest) = stopper :: rest := by
  have hpass : ∀ c ∈ s, (!stop.contains c) = true := by
    intro c hc
    simpa using fun hmem => h c hmem hc
  have hhalt : (!stop.contains stopper) = false := by simpa using hstop
  constructor
  · rw [upTo, List.takeWhile_append_of_pos hpass, List.takeWhile_cons, hhalt]
    exact List.append_nil s
  · rw [since, List.dropWhile_append_of_pos hpass, List.dropWhile_cons, hhalt]
    rfl

/-- The parts of a URI with an authority and a path. -/
theorem parse_absolute {scheme authority : Str} (hscheme : ∀ c ∈ [':', '/', '?', '#'], c ∉ scheme)
    (hne : scheme ≠ []) (hauthority : ∀ c ∈ ['/', '?', '#'], c ∉ authority) (tail : Str) :
    parse (scheme ++ ':' :: '/' :: '/' :: (authority ++ '/' :: tail)) = {
      scheme := some scheme
      authority := some authority
      path := '/' :: upTo ['?', '#'] tail
      query := (takeMarked '?' ['#'] (since ['?', '#'] tail)).1
      fragment :=
        (takeMarked '#' [] (takeMarked '?' ['#'] (since ['?', '#'] tail)).2).1 } := by
  obtain ⟨hs, hs'⟩ := upTo_append hscheme (by simp : ':' ∈ [':', '/', '?', '#'])
    ('/' :: '/' :: (authority ++ '/' :: tail))
  obtain ⟨ha, ha'⟩ := upTo_append hauthority (by simp : '/' ∈ ['/', '?', '#']) tail
  have hpath : upTo ['?', '#'] ('/' :: tail) = '/' :: upTo ['?', '#'] tail := by simp [upTo]
  have hrest : since ['?', '#'] ('/' :: tail) = since ['?', '#'] tail := by simp [since]
  rw [parse, takeScheme, hs']
  simp only [hs, if_neg hne, takeAuthority, ha, ha', hpath, hrest]

/-- Without a query and a fragment the path goes on to the end. -/
theorem no_query_fragment_iff {s : Str} :
    (takeMarked '?' ['#'] (since ['?', '#'] s)).1 = none ∧
        (takeMarked '#' [] (takeMarked '?' ['#'] (since ['?', '#'] s)).2).1 = none ↔
      ∀ c ∈ ['?', '#'], c ∉ s := by
  constructor
  · rintro ⟨hquery, hfragment⟩
    rcases since_cases ['?', '#'] s with hnil | ⟨c, hc, rest, hrest⟩
    · have hs := upTo_append_since ['?', '#'] s
      rw [hnil, List.append_nil] at hs
      intro c hc
      exact hs ▸ notMem_upTo hc s
    · rw [hrest] at hquery hfragment
      rcases List.mem_pair.mp hc with rfl | rfl
      · cases hquery
      · cases hfragment
  · intro h
    have hnil : since ['?', '#'] s = [] := by
      refine List.dropWhile_eq_nil_iff.mpr fun c hc => ?_
      have hout : c ∉ ['?', '#'] := fun hmem => h c hmem hc
      simpa using hout
    rw [hnil]
    exact ⟨rfl, rfl⟩

/-! ### Characters -/

def isUnreserved (c : Char) : Bool := c.isAlphanum || ['-', '.', '_', '~'].contains c

def isSubDelim (c : Char) : Bool := "!$&'()*+,;=".toList.contains c

/-- A character of a path segment, other than the percent sign of an encoded one. -/
def isPchar (c : Char) : Bool := isUnreserved c || isSubDelim c || c == ':' || c == '@'

def isHexDigit (c : Char) : Bool :=
  c.isDigit || (97 ≤ c.val && c.val ≤ 102) || (65 ≤ c.val && c.val ≤ 70)

/-- Segments of path characters and percent-encoded bytes, with slashes between them. -/
def validPath : Str → Bool
  | [] => true
  | '%' :: a :: b :: rest => isHexDigit a && isHexDigit b && validPath rest
  | c :: rest => c ≠ '%' && (isPchar c || c == '/') && validPath rest

theorem validPath_cons {c : Char} (hc : c ≠ '%') (s : Str) :
    validPath (c :: s) = ((isPchar c || c == '/') && validPath s) := by
  rw [validPath]
  · simp [hc]
  · intro a b rest h
    exact absurd h hc

theorem validPath_plain {pre : Str} (hpre : pre.all fun c => c ≠ '%' && (isPchar c || c == '/'))
    (s : Str) : validPath (pre ++ s) = validPath s := by
  induction pre with
  | nil => rfl
  | cons c pre ih =>
    simp only [List.all_cons, Bool.and_eq_true, decide_eq_true_eq] at hpre
    obtain ⟨⟨hc, hchar⟩, hrest⟩ := hpre
    rw [List.cons_append, validPath_cons hc, hchar, Bool.true_and, ih hrest]

/-- Neither a query nor a fragment starts within a valid path. -/
theorem notMem_of_validPath {s : Str} (h : validPath s = true) : ∀ c ∈ ['?', '#'], c ∉ s := by
  have hmarks : ['?', '#'].all fun c =>
    c ≠ '%' && !isHexDigit c && !(isPchar c || c == '/') := by decide
  intro mark hmark
  have hmark' := List.all_eq_true.mp hmarks mark hmark
  simp only [Bool.and_eq_true, decide_eq_true_eq, Bool.not_eq_true'] at hmark'
  obtain ⟨⟨hpercent, hhex⟩, hchar⟩ := hmark'
  induction s using validPath.induct with
  | case1 => exact List.not_mem_nil
  | case2 a b rest ih =>
    simp only [validPath, Bool.and_eq_true] at h
    obtain ⟨⟨ha, hb⟩, hrest⟩ := h
    have hne : ∀ c, isHexDigit c = true → mark ≠ c := by
      intro c hc heq
      rw [← heq, hhex] at hc
      cases hc
    simp only [List.mem_cons, not_or]
    exact ⟨hpercent, hne a ha, hne b hb, ih hrest⟩
  | case3 c rest hnot ih =>
    rw [validPath] at h
    · simp only [Bool.and_eq_true] at h
      obtain ⟨⟨-, hc⟩, hrest⟩ := h
      have hne : mark ≠ c := by
        intro heq
        rw [← heq, hchar] at hc
        cases hc
      exact List.mem_cons.not.mpr (not_or.mpr ⟨hne, ih hrest⟩)
    · exact hnot

/-! ### Authorities -/

/-- The host and the port of an authority with a port and without user information. A colon
within the host stands in brackets only. -/
def hostPort (authority : Str) : Option (Str × Str) :=
  let parts :=
    if authority.head? = some '[' then
      match splitOnce ']' authority with
      | some (literal, ':' :: port) => some (literal ++ [']'], port)
      | _ => none
    else splitOnce ':' authority
  parts.filter fun part => part.2.all Char.isDigit

theorem hostPort_of_notMem {host port : Str} (hbracket : '[' ∉ host) (hcolon : ':' ∉ host)
    (hport : port.all Char.isDigit = true) :
    hostPort (host ++ ':' :: port) = some (host, port) := by
  have hhead : (host ++ ':' :: port).head? ≠ some '[' := by
    cases host with
    | nil => simp
    | cons c host =>
      intro h
      exact hbracket (by simp [Option.some.inj h])
  have hsplit : splitOnce ':' (host ++ ':' :: port) = some (host, port) :=
    splitOnce_eq_some.mpr ⟨rfl, hcolon⟩
  rw [hostPort, if_neg hhead, hsplit]
  exact if_pos hport

/-- Only an authority that starts with a bracket has a host that does. -/
theorem hostPort_bracket {authority host port rest : Str}
    (h : hostPort authority = some (host, port)) (hhost : host = '[' :: rest) :
    authority.head? = some '[' := by
  by_contra hhead
  obtain ⟨hsplit, -⟩ := Option.filter_eq_some_iff.mp h
  rw [if_neg hhead] at hsplit
  obtain ⟨rfl, -⟩ := splitOnce_eq_some.mp hsplit
  exact hhead (by rw [hhost]; rfl)

theorem marked_eq_nil_iff (mark : Char) {part : Option Str} :
    marked [mark] part = [] ↔ part = none := by
  cases part <;> simp [marked]

end Uri
