import HorizonCast.Proofs.ServedBytes
import HorizonCast.Spec.Player
import Mathlib.Algebra.GroupWithZero.Nat

/-! What a renderer knows of a file, whatever it asks for and wherever its connections
break: nothing but the bytes of the file, each in its place. Asking for the rest often
enough gives all of them. -/

namespace HorizonCast.Playback

open Patchwork Text

/-! ### Reading the headers -/

theorem readContentRange_contentRange (start stop total : ℕ) :
    readContentRange (contentRange start stop total) = some (start, total) := by
  have hdash : splitOnce '-' (decimal start ++ '-' :: (decimal stop ++ '/' :: decimal total)) =
      some (decimal start, decimal stop ++ '/' :: decimal total) :=
    splitOnce_eq_some.mpr ⟨rfl, ByteRange.notMem_dash (decimal_digits start).1⟩
  have hslash : splitOnce '/' (decimal stop ++ '/' :: decimal total) =
      some (decimal stop, decimal total) := by
    refine splitOnce_eq_some.mpr ⟨rfl, fun hmem => ?_⟩
    exact absurd (List.all_eq_true.mp (decimal_digits stop).1.2 '/' hmem) (by decide)
  have hdrop : (contentRange start stop total).dropPrefix? "bytes ".toList =
      some (decimal start ++ '-' :: (decimal stop ++ '/' :: decimal total)) :=
    List.dropPrefix?_eq_some_iff.mpr ⟨_, rfl, BEq.rfl⟩
  simp only [readContentRange, Option.bind_eq_bind, hdrop, hdash, hslash, Option.bind_some,
    (decimal_digits _).2]

theorem readTotal_unsatisfied (total : ℕ) :
    readTotal ("bytes */".toList ++ decimal total) = some total := by
  have hdrop : ("bytes */".toList ++ decimal total).dropPrefix? "bytes */".toList =
      some (decimal total) := List.dropPrefix?_eq_some_iff.mpr ⟨_, rfl, BEq.rfl⟩
  simp only [readTotal, hdrop, Option.map_some, (decimal_digits _).2]

/-! ### What a response opens -/

/-- The file system shows this file, as long as it answers. -/
structure Shows (opened : Except Str OpenFile) (file : List UInt8) : Prop where
  contents : ∀ f, opened = .ok f → f.contents = file
  metadata : ∀ f length, opened = .ok f → f.metadata = .ok length → length.toNat = file.length

/-- What a player makes of an answer about the file. -/
inductive Opens (file : List UInt8) (s : Player) : Player → Prop where
  | part (first : ℕ) (body : List UInt8) (here : body <+: file.drop first) :
      Opens file s ({ s with total := some file.length }.connect first body)
  | refused : Opens file s { s with total := some file.length }
  | failed : Opens file s s

theorem rangedBody_isPrefix (f : OpenFile) (start len : ℕ) :
    rangedBody f start len <+: f.contents.drop start := by
  unfold rangedBody
  cases f.seek start with
  | error e => exact List.nil_prefix
  | ok u => exact List.take_prefix _ _

theorem opens_of_ask {state : ServerState} {request : Request} {opened : Except Str OpenFile}
    {file : List UInt8} (h : Shows opened file) (s : Player) :
    Opens file s (s.answered (serve state opened request)) := by
  cases opened with
  | error e => exact .failed
  | ok f =>
    obtain rfl := h.contents f rfl
    have hbody : ∀ {body : List UInt8} {first : ℕ}, body <+: f.contents.drop first →
        (if request.method = .head then [] else body) <+: f.contents.drop first := by
      intro body first hprefix
      split_ifs
      · exact List.nil_prefix
      · exact hprefix
    unfold serve
    cases hmeta : f.metadata with
    | error e =>
      simp only [hmeta]
      exact .failed
    | ok length =>
      simp only [hmeta, h.metadata f length rfl hmeta]
      by_cases hrefused : (request.range.bind fun v => parseRange v f.contents.length) = none ∧
          (request.range.any fun r => rangeIsUnsatisfiable r f.contents.length) = true
      · rw [if_pos hrefused]
        have hheader : (HeaderMap.put [] "content-range".toList
            ("bytes */".toList ++ decimal f.contents.length)).lookup "content-range".toList =
            some ("bytes */".toList ++ decimal f.contents.length) := lookup_put_self _ _ _
        simp only [Player.answered, Response.header, hheader, Option.bind_some,
          readTotal_unsatisfied]
        exact .refused
      · rw [if_neg hrefused]
        cases request.range.bind fun v => parseRange v f.contents.length with
        | none =>
          simp only [Player.answered, Response.header, lookup_insertLen, Option.map_some,
            (decimal_digits _).2]
          exact .part 0 _ (hbody (List.prefix_refl _))
        | some r =>
          obtain ⟨start, stop⟩ := r
          simp only [Player.answered, Response.header, lookup_put_self, Option.bind_some,
            readContentRange_contentRange]
          exact .part start _ (hbody (rangedBody_isPrefix f _ _))

/-! ### Runs -/

/-- What a player knows is of the file, its connections bring what comes next in it, and
what they have brought is known. -/
structure Plays (file : List UInt8) (s : Player) : Prop where
  total : ∀ n, s.total = some n → n = file.length
  known : PartOf s.known file
  rest : ∀ c ∈ s.connections, c.body <+: file.drop c.place
  brought : ∀ c ∈ s.connections, ∀ i, c.first ≤ i → i < c.place → (s.known i).isSome

/-- An action that finds the file as it is. -/
def Action.Finds (file : List UInt8) : Action → Prop
  | ask _ opened => Shows opened file
  | read _ _ => True

theorem Plays.opens {file : List UInt8} {s s' : Player} (h : Plays file s)
    (hopens : Opens file s s') : Plays file s' := by
  have htotal : ∀ n, some file.length = some n → n = file.length := fun n hn =>
    (Option.some.inj hn).symm
  cases hopens with
  | part first body hbody =>
    refine ⟨htotal, h.known, ?_, ?_⟩
    · intro c hc
      rcases List.mem_append.mp hc with hold | hnew
      · exact h.rest c hold
      · obtain rfl := List.mem_singleton.mp hnew
        exact hbody
    · intro c hc i hfirst hplace
      rcases List.mem_append.mp hc with hold | hnew
      · exact h.brought c hold i hfirst hplace
      · obtain rfl := List.mem_singleton.mp hnew
        dsimp only at hfirst hplace
        omega
  | refused => exact ⟨htotal, h.known, h.rest, h.brought⟩
  | failed => exact h

theorem Plays.step {state : ServerState} {file : List UInt8} {s s' : Player} {a : Action}
    (h : Plays file s) (ha : a.Finds file) (hstep : s.step state a = some s') :
    Plays file s' := by
  cases a with
  | ask request opened =>
    obtain rfl := Option.some.inj hstep
    exact h.opens (opens_of_ask ha s)
  | read i count =>
    obtain ⟨c, hc, hrest⟩ := Option.bind_eq_some_iff.mp hstep
    obtain rfl := Option.some.inj hrest
    have hmem := List.mem_of_getElem? hc
    have hsplit : c.body.take count ++ c.body.drop count <+: file.drop c.place := by
      rw [List.take_append_drop]
      exact h.rest c hmem
    have harrived : c.body.take count <+: file.drop c.place :=
      (List.prefix_append _ _).trans hsplit
    refine ⟨h.total, h.known.lay harrived, ?_, ?_⟩
    · intro c' hc'
      rcases List.mem_or_eq_of_mem_set hc' with hold | rfl
      · exact h.rest c' hold
      · obtain ⟨rest, hwhole⟩ := hsplit
        refine ⟨rest, ?_⟩
        dsimp only
        rw [← List.drop_drop, ← hwhole, List.append_assoc, List.drop_left]
    · intro c' hc' j hfirst hplace
      rw [isSome_lay]
      rcases List.mem_or_eq_of_mem_set hc' with hold | rfl
      · exact .inl (h.brought c' hold j hfirst hplace)
      · dsimp only at hfirst hplace
        by_cases hj : j < c.place
        · exact .inl (h.brought c hmem j hfirst hj)
        · exact .inr ⟨by omega, hplace⟩

theorem plays_of_run {state : ServerState} {file : List UInt8} {as : List Action} {s : Player}
    (h : run state as = some s) (hfile : ∀ a ∈ as, a.Finds file) : Plays file s := by
  revert hfile
  refine Transition.run_invariant (fun as s => (∀ a ∈ as, a.Finds file) → Plays file s) ?_ ?_ h
  · intro _
    exact ⟨nofun, partOf_none file, nofun, nofun⟩
  · intro as s a s' _ ih hstep hfile
    exact (ih fun b hb => hfile b (by simp [hb])).step (hfile a (by simp)) hstep

/-- Whatever a player asks, on any number of connections, and wherever they break or the
server cannot read: what it knows are bytes of the file in their places, up to where each
connection has come, and the length that it was told is that of the file. When it knows
them all, it has the file. -/
theorem plays_file {state : ServerState} {file : List UInt8} {as : List Action} {s : Player}
    (h : run state as = some s) (hfile : ∀ a ∈ as, a.Finds file) :
    (∀ i b, s.known i = some b → file[i]? = some b) ∧
      (∀ n, s.total = some n → n = file.length) ∧
      (∀ c ∈ s.connections, c.body <+: file.drop c.place ∧
        ∀ i, c.first ≤ i → i < c.place → s.known i = file[i]?) ∧
      ((∀ i < file.length, (s.known i).isSome) →
        (List.range file.length).filterMap s.known = file) := by
  have hplays := plays_of_run h hfile
  refine ⟨hplays.known, hplays.total, ?_, hplays.known.filterMap_range⟩
  intro c hc
  refine ⟨hplays.rest c hc, fun i hfirst hplace => ?_⟩
  obtain ⟨b, hb⟩ := Option.isSome_iff_exists.mp (hplays.brought c hc i hfirst hplace)
  rw [hb, hplays.known i b hb]

def threeBytes : OpenFile := ⟨.ok 3, [7, 8, 9], fun _ => .ok ()⟩

/-- A part and the whole of three bytes, read in turns. -/
def threeRun : List Action :=
  [.ask ⟨.get, some "bytes=1-".toList, false⟩ (.ok threeBytes), .read 0 1,
    .ask ⟨.get, none, false⟩ (.ok threeBytes), .read 1 2, .read 0 5]

theorem plays_file_three :
    ∃ s, run ⟨[]⟩ threeRun = some s ∧ (List.range 3).filterMap s.known = [7, 8, 9] := by
  have hshows : Shows (.ok threeBytes) [7, 8, 9] := by
    constructor
    · rintro _ ⟨⟩
      rfl
    · rintro _ _ ⟨⟩ ⟨⟩
      rfl
  have hfinds : ∀ a ∈ threeRun, a.Finds [7, 8, 9] := by
    simp [threeRun, Action.Finds, hshows]
  obtain ⟨s, hs, hknown⟩ : ∃ s, run ⟨[]⟩ threeRun = some s ∧ ∀ i < 3, (s.known i).isSome :=
    ⟨_, rfl, by decide +kernel⟩
  obtain ⟨-, -, -, hwhole⟩ := plays_file hs hfinds
  exact ⟨s, hs, hwhole hknown⟩

/-! ### The rest of a file -/

theorem specParts_rest (n : ℕ) :
    specParts ("bytes=".toList ++ (decimal n ++ ['-'])) = some (decimal n, []) := by
  have hdigit : ∀ c ∈ decimal n, c.isDigit = true := List.all_eq_true.mp (decimal_digits n).1.2
  have hplain : ∀ c ∈ decimal n ++ ['-'], c ≠ ',' ∧ isWhitespace c = false := by
    intro c hc
    rcases List.mem_append.mp hc with hc | hc
    · refine ⟨?_, isWhitespace_of_isDigit (hdigit c hc)⟩
      rintro rfl
      exact absurd (hdigit _ hc) (by decide)
    · obtain rfl := List.mem_singleton.mp hc
      exact ⟨by decide, by decide⟩
  have hdrop : ("bytes=".toList ++ (decimal n ++ ['-'])).dropPrefix? "bytes=".toList =
      some (decimal n ++ ['-']) := List.dropPrefix?_eq_some_iff.mpr ⟨_, rfl, BEq.rfl⟩
  have hfirst : (decimal n ++ ['-']).takeWhile (· ≠ ',') = decimal n ++ ['-'] :=
    List.takeWhile_eq_self_iff.mpr fun c hc => decide_eq_true (hplain c hc).1
  unfold specParts
  rw [hdrop, Option.bind_some, hfirst, trim_eq_self fun c hc => (hplain c hc).2]
  exact splitOnce_eq_some.mpr ⟨rfl, ByteRange.notMem_dash (decimal_digits n).1⟩

theorem parseUnsigned_decimal {n : ℕ} (hn : n ≤ u64Max) :
    parseUnsigned u64Max (decimal n) = some n := by
  rw [parseUnsigned_digits (decimal_digits n).1, (decimal_digits n).2, if_pos hn]

section Rest

variable {state : ServerState} {file : OpenFile} {length : UInt64} {n : ℕ}

theorem parseRange_rest {total : ℕ} (htotal : total ≤ u64Max) (hn : n ≤ total) :
    parseRange ("bytes=".toList ++ (decimal n ++ ['-'])) total =
      if n < total then some (n, total - 1) else none := by
  rcases Nat.eq_zero_or_pos total with rfl | hpos
  · rw [if_neg (Nat.not_lt_zero n), parseRange, if_pos rfl]
  · rw [parseRange_parts hpos (specParts_rest n) (decimal_digits n).1.1,
      parseUnsigned_decimal (hn.trans htotal), Option.bind_some, if_pos rfl, Option.bind_some]
    split_ifs
    · omega
    · rfl
    · rfl
    · omega

theorem rangeIsUnsatisfiable_rest {total : ℕ} (htotal : total ≤ u64Max) (hn : n ≤ total) :
    rangeIsUnsatisfiable ("bytes=".toList ++ (decimal n ++ ['-'])) total = decide (total ≤ n) := by
  rw [rangeIsUnsatisfiable_parts (specParts_rest n), if_neg (decimal_digits n).1.1,
    parseUnsigned_decimal (hn.trans htotal), Option.any_some]

/-- The rest of a file, or that there is none. -/
theorem serve_rest (state : ServerState) (hfile : Reads file length) (hn : n ≤ length.toNat) :
    let resp := serve state (.ok file) (restRequest n)
    (n < length.toNat → resp.status = .partialContent ∧ resp.body = file.contents.drop n) ∧
      (n = length.toNat → resp.status = .rangeNotSatisfiable) := by
  have hmax : length.toNat ≤ u64Max := Nat.le_of_lt_succ length.toNat_lt
  have hparse := parseRange_rest hmax hn
  have hrefused := rangeIsUnsatisfiable_rest hmax hn
  dsimp only
  unfold serve
  simp only [restRequest, hfile.metadata, Option.bind_some, Option.any_some, hparse, hrefused]
  constructor
  · intro hlt
    have hbody : rangedBody file n (length.toNat - 1 - n + 1) = file.contents.drop n := by
      rw [rangedBody, hfile.seek n hn]
      refine List.take_of_length_le ?_
      rw [List.length_drop, hfile.contents]
      omega
    simp [hlt, hbody]
  · rintro rfl
    simp

theorem resume_take (hfile : Reads file length) (cut : ℕ) :
    resume state file (file.contents.take n) cut = file.contents.take (n + cut) := by
  have hlength : (file.contents.take n).length ≤ length.toNat := by
    rw [List.length_take, hfile.contents]
    exact min_le_right _ _
  obtain ⟨hpart, hwhole⟩ := serve_rest state hfile hlength
  unfold resume
  rcases hlength.lt_or_eq with hlt | heq
  · obtain ⟨hstatus, hbody⟩ := hpart hlt
    have hn : n ≤ file.contents.length := by
      rw [List.length_take] at hlt
      rw [hfile.contents] at *
      omega
    simp only [hstatus, if_true, hbody]
    rw [List.length_take, Nat.min_eq_left hn, List.take_add]
  · have hall : file.contents.length ≤ n := by
      rw [List.length_take, hfile.contents] at heq
      rw [hfile.contents]
      omega
    simp only [hwhole heq, reduceCtorEq, if_false]
    rw [List.take_of_length_le hall, List.take_of_length_le (hall.trans (Nat.le_add_right _ _))]

end Rest

/-- A player that asks for the rest over and over, each time until the connection breaks,
has what came before the cuts, in order and once. It is told that nothing is left just when
it has the file. -/
theorem resumed_downloads (state : ServerState) {file : OpenFile} {length : UInt64}
    (hfile : Reads file length) (cuts : List ℕ) :
    let got := cuts.foldl (resume state file) []
    got = file.contents.take cuts.sum ∧
      ((serve state (.ok file) (restRequest got.length)).status = .rangeNotSatisfiable ↔
        got = file.contents) := by
  have hgot : cuts.foldl (resume state file) [] = file.contents.take cuts.sum := by
    induction cuts using List.reverseRecOn with
    | nil => simp
    | append_singleton cuts cut ih =>
      rw [List.foldl_append, ih, List.foldl_cons, List.foldl_nil, resume_take hfile,
        List.sum_append, List.sum_singleton]
  have hprefix : cuts.foldl (resume state file) [] <+: file.contents := by
    rw [hgot]
    exact List.take_prefix _ _
  intro got
  have hlength : got.length ≤ length.toNat := hfile.contents ▸ hprefix.length_le
  obtain ⟨hpart, hwhole⟩ := serve_rest state hfile hlength
  refine ⟨hgot, fun hrefused => ?_, fun hall => hwhole (by rw [hall, hfile.contents])⟩
  rcases hlength.lt_or_eq with hlt | heq
  · rw [(hpart hlt).1] at hrefused
    cases hrefused
  · exact hprefix.eq_of_length (heq.trans hfile.contents.symm)

/-- Three bytes over two connections, of which the first breaks after one. -/
theorem resumed_downloads_three :
    [1, 5].foldl (resume ⟨[]⟩ threeBytes) [] = [7, 8, 9] :=
  (resumed_downloads ⟨[]⟩ ⟨rfl, rfl, fun _ _ => rfl⟩ [1, 5]).1

end HorizonCast.Playback
