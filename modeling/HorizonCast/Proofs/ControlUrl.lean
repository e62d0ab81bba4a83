import HorizonCast.Lib.Uri
import HorizonCast.Spec.Upnp

/-! When the control URL is the resolution of `controlURL` against the description's
location, and when it is not. -/

namespace HorizonCast

open Text Uri

/-- An absolute http or https URL. -/
def IsHttpUrl (s : Str) : Prop :=
  (∃ scheme ∈ (parse s).scheme, eqIgnoreAsciiCase scheme "http".toList = true ∨
    eqIgnoreAsciiCase scheme "https".toList = true) ∧ (parse s).authority.isSome

/-- An absolute path, or a relative one without dot segments. -/
def IsPath (s : Str) : Prop :=
  (parse s).scheme = none ∧ (parse s).authority = none ∧ (parse s).path ≠ [] ∧
    ((parse s).path.head? = some '/' ∨ NoDotSegments (parse s).path)

/-- What `resolve_url` does not see to: letter case and dot segments of a `controlURL`
with a scheme, dot segments of an absolute path, a location whose authority does not end
at a slash, and a description below the root. -/
def ResolvesPlainly (base ref : Reference) : Prop :=
  if ref.scheme.isSome then
    (ref.scheme = some "http".toList ∨ ref.scheme = some "https".toList) ∧ NoDotSegments ref.path
  else
    (base.path = [] → base.query = none ∧ base.fragment = none) ∧
      if ref.path.head? = some '/' then NoDotSegments ref.path
      else base.path = [] ∨ removeDotSegments (directory base.path) = ['/']

/-! ### The location -/

/-- What of a location without a path `resolve_url` takes for a part of the authority. -/
def overrun (base : Reference) : Str := (base.path ++ base.tail).takeWhile (· ≠ '/')

theorem startsWith_slash {s : Str} : startsWith s "/".toList = true ↔ s.head? = some '/' := by
  cases s with
  | nil => exact iff_of_false (by decide) (by decide)
  | cons c s =>
    change ('/' == c && true) = true ↔ some c = some '/'
    rw [Bool.and_true, beq_iff_eq, Option.some_inj]
    exact eq_comm

/-- The location as `resolve_url` cuts it: what stands before the first slash after `://`. -/
theorem resolveUrl_relative {scheme authority control : Str} (rest : Str) (hscheme : ':' ∉ scheme)
    (hauthority : '/' ∉ authority)
    (hcontrol : (startsWith control "http://".toList || startsWith control "https://".toList) =
      false) :
    resolveUrl (scheme ++ ("://".toList ++ (authority ++ rest))) control =
      some (scheme ++ ("://".toList ++ (authority ++ rest.takeWhile (· ≠ '/'))) ++
        if control.head? = some '/' then control else '/' :: control) := by
  have hfind : findPat "://".toList (scheme ++ ("://".toList ++ (authority ++ rest))) =
      some scheme.length := findPat_skips (skips_of_notMem _ hscheme) _
  have hdrop : (scheme ++ ("://".toList ++ (authority ++ rest))).drop (scheme.length + 3) =
      authority ++ rest := by
    rw [← List.append_assoc]
    exact List.drop_left' (by rw [List.length_append]; rfl)
  have hall : ∀ c ∈ authority, (decide (c ≠ '/')) = true := fun c hc => by
    simpa using fun heq : c = '/' => hauthority (heq ▸ hc)
  have htake : ∀ n, (scheme ++ ("://".toList ++ (authority ++ rest))).take (scheme.length + 3 + n) =
      scheme ++ "://".toList ++ (authority ++ rest).take n := by
    intro n
    have hlen : scheme.length + 3 = (scheme ++ "://".toList).length := by
      rw [List.length_append]
      rfl
    rw [hlen, ← List.append_assoc scheme, List.take_length_add_append]
  unfold resolveUrl
  rw [if_neg (by rw [hcontrol]; decide)]
  simp only [hfind, Option.bind_eq_bind, Option.bind_some, hdrop, htake, take_findChar,
    List.takeWhile_append_of_pos hall, startsWith_slash, List.append_assoc]
  split <;> rfl

/-- An absolute URL in its parts. -/
theorem recompose_absolute {r : Reference} {scheme authority : Str}
    (hscheme : r.scheme = some scheme) (hauthority : r.authority = some authority) :
    recompose r = scheme ++ ("://".toList ++ (authority ++ (r.path ++ r.tail))) := by
  have hmark : "://".toList = [':'] ++ ['/', '/'] := rfl
  simp only [recompose, hscheme, hauthority, Option.elim_some, marked, hmark, List.append_assoc]

theorem IsHttpUrl.parts {s : Str} (h : IsHttpUrl s) :
    ∃ scheme authority, (parse s).scheme = some scheme ∧ (parse s).authority = some authority := by
  obtain ⟨⟨scheme, hscheme, -⟩, hauthority⟩ := h
  obtain ⟨authority, hauthority⟩ := Option.isSome_iff_exists.mp hauthority
  exact ⟨scheme, authority, hscheme, hauthority⟩

theorem resolveUrl_location {location control scheme authority : Str}
    (hscheme : (parse location).scheme = some scheme)
    (hauthority : (parse location).authority = some authority)
    (hcontrol : (startsWith control "http://".toList || startsWith control "https://".toList) =
      false) :
    resolveUrl location control =
      some (scheme ++ ("://".toList ++ (authority ++ overrun (parse location))) ++
        if control.head? = some '/' then control else '/' :: control) := by
  have hparts := parts_parse location
  have htext := hparts.text
  rw [recompose_absolute hscheme hauthority] at htext
  have hcut := resolveUrl_relative ((parse location).path ++ (parse location).tail)
    (hparts.scheme scheme hscheme).2.1 (hparts.authority authority hauthority).1 hcontrol
  rwa [htext] at hcut

/-- What is not taken as it is comes behind the authority of the location. -/
theorem resolveUrl_length {location control : Str} (hlocation : IsHttpUrl location)
    (hcontrol : (startsWith control "http://".toList || startsWith control "https://".toList) =
      false) : ∀ url, resolveUrl location control = some url → control.length < url.length := by
  obtain ⟨scheme, authority, hscheme, hauthority⟩ := hlocation.parts
  intro url hurl
  rw [resolveUrl_location hscheme hauthority hcontrol, Option.some_inj] at hurl
  have hmark : "://".toList.length = 3 := rfl
  subst hurl
  split_ifs
  · simp only [List.length_append, hmark]
    omega
  · simp only [List.length_append, hmark, List.length_cons]
    omega

theorem overrun_eq_nil_iff {base : Reference} (h : Rooted base.path) :
    overrun base = [] ↔ (base.path = [] → base.query = none ∧ base.fragment = none) := by
  unfold overrun
  rcases h with hnil | ⟨s, hs⟩
  · rw [hnil, List.nil_append, Reference.tail, ← marked_eq_nil_iff '?',
      ← marked_eq_nil_iff '#', ← List.append_eq_nil_iff]
    refine ⟨fun hstop _ => ?_, fun hnone => by rw [hnone rfl]; rfl⟩
    cases hquery : base.query <;> cases hfragment : base.fragment <;>
      simp_all [marked]
  · simp [hs]

/-! ### The reference -/

/-- The two schemes are looked for in lower case only. -/
theorem startsWith_http {s : Str}
    (h : (startsWith s "http://".toList || startsWith s "https://".toList) = true) :
    (parse s).scheme = some "http".toList ∨ (parse s).scheme = some "https".toList := by
  rcases Bool.or_eq_true_iff.mp h with hpre | hpre
  · obtain ⟨t, rfl⟩ := List.isPrefixOf_iff_prefix.mp hpre
    exact .inl rfl
  · obtain ⟨t, rfl⟩ := List.isPrefixOf_iff_prefix.mp hpre
    exact .inr rfl

theorem startsWith_scheme {s scheme authority : Str} (hscheme : (parse s).scheme = some scheme)
    (hauthority : (parse s).authority = some authority) :
    startsWith s (scheme ++ "://".toList) = true := by
  have htext := (parts_parse s).text
  rw [recompose_absolute hscheme hauthority, ← List.append_assoc] at htext
  exact List.isPrefixOf_iff_prefix.mpr ⟨_, htext⟩

theorem startsWith_of_scheme {s authority : Str} (hauthority : (parse s).authority = some authority)
    (h : (parse s).scheme = some "http".toList ∨ (parse s).scheme = some "https".toList) :
    (startsWith s "http://".toList || startsWith s "https://".toList) = true := by
  rcases h with hscheme | hscheme
  · exact Bool.or_eq_true_iff.mpr (.inl (startsWith_scheme hscheme hauthority))
  · exact Bool.or_eq_true_iff.mpr (.inr (startsWith_scheme hscheme hauthority))

/-- A path behind something else is its own form without dot segments only if there is
nothing before it and it has none. -/
theorem append_eq_removeDotSegments_iff {pre path : Str} (h : Rooted path) :
    pre ++ path = removeDotSegments path ↔ pre = [] ∧ NoDotSegments path := by
  rw [← removeDotSegments_eq_self_iff h]
  constructor
  · intro heq
    have hle := length_removeDotSegments_le h
    rw [← heq, List.length_append] at hle
    have hnil : pre = [] := List.length_eq_zero_iff.mp (by omega)
    rw [hnil, List.nil_append] at heq
    exact ⟨hnil, heq.symm⟩
  · rintro ⟨rfl, heq⟩
    exact heq.symm

/-- The path that a path resolves to. -/
def target (base ref : Reference) : Str :=
  removeDotSegments (if ref.path.head? = some '/' then ref.path else merge base ref.path)

/-- A relative path without dot segments is resolved against a root directory just as
`resolve_url` does it. -/
theorem target_relative {base ref : Reference} (hauthority : base.authority.isSome)
    (hbase : Rooted base.path) (hrel : ref.path.head? ≠ some '/')
    (hdots : NoDotSegments ref.path) :
    overrun base ++ '/' :: ref.path = target base ref ↔
      overrun base = [] ∧ (base.path = [] ∨ removeDotSegments (directory base.path) = ['/']) := by
  rw [target, if_neg hrel]
  rcases hbase with hnil | ⟨s, hs⟩
  · have hmerge : merge base ref.path = '/' :: ref.path := if_pos ⟨hauthority, hnil⟩
    rw [hmerge, append_eq_removeDotSegments_iff (.inr ⟨_, rfl⟩), noDotSegments_slash]
    exact ⟨fun h => ⟨h.1, .inl hnil⟩, fun h => ⟨h.1, hdots⟩⟩
  · have hne : base.path ≠ [] := by rw [hs]; exact List.cons_ne_nil _ _
    have hover : overrun base = [] :=
      (overrun_eq_nil_iff (.inr ⟨s, hs⟩)).mpr fun hnil => absurd hnil hne
    have hmerge : merge base ref.path = directory base.path ++ ref.path :=
      if_neg fun h => hne h.2
    obtain ⟨dir, hrooted, hdir⟩ := directory_slash s
    rw [← hs] at hdir
    rw [hmerge, hdir, List.append_assoc, List.singleton_append,
      removeDotSegments_append hrooted hdots, hover, List.nil_append]
    have hcut : ['/'] ++ ref.path = removeDotSegments (dir ++ ['/']) ++ ref.path ↔
        ['/'] = removeDotSegments (dir ++ ['/']) := List.append_left_inj ref.path
    rw [List.singleton_append] at hcut
    rw [hcut, eq_comm]
    exact ⟨fun h => ⟨rfl, .inr h⟩, fun h => h.2.resolve_left hne⟩

theorem target_iff {base ref : Reference} (hauthority : base.authority.isSome)
    (hbase : Rooted base.path) (hpath : ref.path.head? = some '/' ∨ NoDotSegments ref.path) :
    (overrun base ++ if ref.path.head? = some '/' then ref.path else '/' :: ref.path) =
        target base ref ↔
      overrun base = [] ∧
        if ref.path.head? = some '/' then NoDotSegments ref.path
        else base.path = [] ∨ removeDotSegments (directory base.path) = ['/'] := by
  by_cases hhead : ref.path.head? = some '/'
  · obtain ⟨s, hs⟩ := List.head?_eq_some_iff.mp hhead
    rw [if_pos hhead, if_pos hhead, target, if_pos hhead]
    exact append_eq_removeDotSegments_iff (.inr ⟨s, hs⟩)
  · rw [if_neg hhead, if_neg hhead]
    exact target_relative hauthority hbase hhead (hpath.resolve_left hhead)

/-! ### Resolution -/

theorem resolve_path {base ref : Reference} (hscheme : ref.scheme = none)
    (hauthority : ref.authority = none) (hpath : ref.path ≠ []) :
    resolve base ref =
      { base with path := target base ref, query := ref.query, fragment := ref.fragment } := by
  rw [resolve, if_neg (by simp [hscheme]), if_neg (by simp [hauthority]), if_neg hpath, target]

/-- An absolute `controlURL` is taken as it is, and only if its scheme is in lower case. -/
theorem resolveUrl_absolute {location control : Str} (hlocation : IsHttpUrl location)
    (hcontrol : IsHttpUrl control) :
    resolveUrl location control = some (recompose (resolve (parse location) (parse control))) ↔
      ((parse control).scheme = some "http".toList ∨ (parse control).scheme = some "https".toList) ∧
        NoDotSegments (parse control).path := by
  obtain ⟨scheme, authority, hscheme, hauthority⟩ := hcontrol.parts
  have hrooted := ((parts_parse control).authority authority hauthority).2
  have htext := (parts_parse control).text
  have hresolve : resolve (parse location) (parse control) =
      { parse control with path := removeDotSegments (parse control).path } :=
    if_pos (by simp [hscheme])
  rw [recompose_absolute hscheme hauthority] at htext
  rw [hresolve, recompose_absolute (by exact hscheme) (by exact hauthority)]
  by_cases hstarts : (startsWith control "http://".toList || startsWith control "https://".toList) =
      true
  · have hplain : resolveUrl location control = some control := if_pos hstarts
    rw [hplain, Option.some_inj]
    nth_rewrite 1 [← htext]
    rw [List.append_cancel_left_eq, List.append_cancel_left_eq, List.append_cancel_left_eq]
    constructor
    · intro heq
      exact ⟨startsWith_http hstarts,
        (removeDotSegments_eq_self_iff hrooted).mp (List.append_cancel_right heq).symm⟩
    · rintro ⟨-, hdots⟩
      dsimp only
      rw [(removeDotSegments_eq_self_iff hrooted).mpr hdots]
  · have hlong := resolveUrl_length hlocation (Bool.eq_false_iff.mpr hstarts)
    have hshort := length_removeDotSegments_le hrooted
    have hlength := congrArg List.length htext
    refine iff_of_false (fun heq => ?_) fun h => hstarts (startsWith_of_scheme hauthority h.1)
    have hle := hlong _ heq
    simp only [Reference.tail, List.length_append] at hle hlength
    omega

theorem head_append {p : Str} (hp : p ≠ []) (t : Str) :
    (if (p ++ t).head? = some '/' then p ++ t else '/' :: (p ++ t)) =
      (if p.head? = some '/' then p else '/' :: p) ++ t := by
  rw [List.head?_append_of_ne_nil _ hp]
  split <;> rfl

/-- A path is put behind the authority. -/
theorem resolveUrl_path {location control : Str} (hlocation : IsHttpUrl location)
    (hcontrol : IsPath control) :
    resolveUrl location control = some (recompose (resolve (parse location) (parse control))) ↔
      ((parse location).path = [] →
          (parse location).query = none ∧ (parse location).fragment = none) ∧
        if (parse control).path.head? = some '/' then NoDotSegments (parse control).path
        else (parse location).path = [] ∨
          removeDotSegments (directory (parse location).path) = ['/'] := by
  obtain ⟨hscheme, hauthority, hpath, hdots⟩ := hcontrol
  obtain ⟨scheme, authority, hbscheme, hbauthority⟩ := hlocation.parts
  have hrooted := ((parts_parse location).authority authority hbauthority).2
  have hplain : (startsWith control "http://".toList || startsWith control "https://".toList) =
      false := Bool.eq_false_iff.mpr fun h => by simpa [hscheme] using startsWith_http h
  have hcut := resolveUrl_location hbscheme hbauthority hplain
  have htext : (parse control).path ++ (parse control).tail = control := by
    have h := (parts_parse control).text
    simpa only [recompose, hscheme, hauthority, Option.elim_none, marked,
      List.nil_append] using h
  have hslash := head_append hpath (parse control).tail
  have htarget := recompose_absolute (r := { parse location with
    path := target (parse location) (parse control)
    query := (parse control).query
    fragment := (parse control).fragment }) hbscheme hbauthority
  rw [htext] at hslash
  rw [← overrun_eq_nil_iff hrooted, ← target_iff (by rw [hbauthority]; rfl) hrooted hdots, hcut,
    resolve_path hscheme hauthority hpath, htarget, hslash, Option.some_inj]
  simp only [List.append_assoc, List.append_cancel_left_eq]
  rw [← List.append_assoc]
  exact List.append_left_inj _

/-- Where `controlURL` resolves as the standard says, for every location and every
`controlURL` that is an absolute URL, an absolute path or a relative path without dot
segments, queries and fragments included. -/
theorem resolve_url_iff (location control : Str) (hlocation : IsHttpUrl location)
    (hcontrol : IsHttpUrl control ∨ IsPath control) :
    resolveUrl location control = some (recompose (resolve (parse location) (parse control))) ↔
      ResolvesPlainly (parse location) (parse control) := by
  unfold ResolvesPlainly
  rcases hcontrol with habsolute | hpath
  · obtain ⟨scheme, -, hscheme, -⟩ := habsolute.parts
    have hsome : (parse control).scheme.isSome = true := by rw [hscheme]; rfl
    rw [if_pos hsome]
    exact resolveUrl_absolute hlocation habsolute
  · have hnone : ¬ (parse control).scheme.isSome = true := by rw [hpath.1]; decide
    rw [if_neg hnone]
    exact resolveUrl_path hlocation hpath

/-- A description at the root, with a path that has directories of its own. -/
theorem resolve_url_root :
    resolveUrl "http://10.0.0.2:80/desc.xml".toList "ctrl/AV".toList =
      some "http://10.0.0.2:80/ctrl/AV".toList := by
  have hlocation : IsHttpUrl "http://10.0.0.2:80/desc.xml".toList :=
    ⟨⟨"http".toList, rfl, .inl (by decide +kernel)⟩, rfl⟩
  have hplain : ResolvesPlainly (parse "http://10.0.0.2:80/desc.xml".toList)
      (parse "ctrl/AV".toList) := by
    unfold ResolvesPlainly
    decide +kernel
  have h := (resolve_url_iff _ _ hlocation (.inr ⟨rfl, rfl, by decide +kernel,
    .inr (by decide +kernel)⟩)).mpr hplain
  rw [h]
  decide +kernel

/-- A description in a directory: its control URL is looked for at the root. -/
theorem resolve_url_directory :
    let location := "http://h/a/d.xml".toList
    let control := "c".toList
    IsHttpUrl location ∧ IsPath control ∧
      recompose (resolve (parse location) (parse control)) = "http://h/a/c".toList ∧
      resolveUrl location control = some "http://h/c".toList ∧
      resolveUrl location control ≠
        some (recompose (resolve (parse location) (parse control))) := by
  refine ⟨⟨⟨"http".toList, rfl, .inl ?_⟩, rfl⟩, ⟨rfl, rfl, ?_, .inr ?_⟩, ?_, ?_, ?_⟩
  all_goals decide +kernel

end HorizonCast
