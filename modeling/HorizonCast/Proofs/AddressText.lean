import HorizonCast.Lib.Collections
import HorizonCast.Spec.Device

/-! The text of an address determines it: `to_string` is injective, over IPv4 and
IPv6 addresses together. -/

namespace HorizonCast

open Collections Text

namespace IpAddr

/-! ### IPv4 -/

theorem octets_injective {m n : ℕ} (h : octets m = octets n) : m = n := by
  simp only [octets, List.cons.injEq] at h
  omega

theorem notMem_decimal {c : Char} (hc : ∀ d < 16, d.digitChar ≠ c) (n : ℕ) : c ∉ decimal n :=
  notMem_toDigits (by omega) (by omega) hc n

theorem showV4_injective {m n : ℕ} (h : showV4 m = showV4 n) : m = n := by
  have hdot : ∀ k, ∀ p ∈ (octets k).map decimal, '.' ∉ p := by
    intro k p hp
    obtain ⟨d, -, rfl⟩ := List.mem_map.mp hp
    exact notMem_decimal (by decide) d
  have hmap := intercalate_injective (hdot m) (hdot n) (by simp [octets]) (by simp [octets]) h
  refine octets_injective (Function.Injective.list_map ?_ hmap)
  exact fun a b => toDigits_injective (by omega) (by omega)

theorem notMem_showV4 {c : Char} (hdigit : ∀ d < 16, d.digitChar ≠ c) (hdot : c ≠ '.') (n : ℕ) :
    c ∉ showV4 n := by
  refine notMem_intercalate hdot fun p hp => ?_
  obtain ⟨d, -, rfl⟩ := List.mem_map.mp hp
  exact notMem_decimal hdigit d

theorem colon_notMem_showV4 (n : ℕ) : ':' ∉ showV4 n := notMem_showV4 (by decide) (by decide) n

theorem dot_mem_showV4 (n : ℕ) : '.' ∈ showV4 n := by
  simp [showV4, octets]

/-! ### IPv6 -/

theorem segments_injective {m n : ℕ} (hm : m < 2 ^ 128) (hn : n < 2 ^ 128)
    (h : segments m = segments n) : m = n := by
  rw [Nat.pow_mul 2 16 8] at hm hn
  apply digits_injective hm hn
  intro i hi
  have hdigit := List.map_inj_left.mp h (7 - i) (List.mem_range.mpr (by omega))
  rwa [Nat.sub_sub_self (by omega), Nat.pow_mul] at hdigit

/-- A run of zero segments, `start` and length. -/
def ZeroRun (segments : List ℕ) (run : ℕ × ℕ) : Prop :=
  ∀ j, run.1 ≤ j → j < run.1 + run.2 → segments[j]? = some 0

theorem ZeroRun.concat {segs : List ℕ} {run : ℕ × ℕ} (h : ZeroRun segs run) (x : ℕ) :
    ZeroRun (segs ++ [x]) run := by
  intro j hlo hhi
  have hj := h j hlo hhi
  rw [List.getElem?_append_left (List.getElem?_eq_some_iff.mp hj).1]
  exact hj

/-- The run that ends with the segments, one longer by one more zero. -/
theorem ZeroRun.grow {segs : List ℕ} {start len : ℕ} (h : ZeroRun segs (start, len))
    (hreach : len = 0 ∨ start + len = segs.length) :
    let run := if len = 0 then (segs.length, 1) else (start, len + 1)
    ZeroRun (segs ++ [0]) run ∧ run.1 + run.2 = segs.length + 1 := by
  intro run
  have hlast : (segs ++ [0])[segs.length]? = some 0 := by simp
  by_cases hlen : len = 0
  · have hrun : run = (segs.length, 1) := if_pos hlen
    rw [hrun]
    refine ⟨fun j hlo hhi => ?_, rfl⟩
    obtain rfl : j = segs.length := by omega
    exact hlast
  · have hrun : run = (start, len + 1) := if_neg hlen
    have hend := hreach.resolve_left hlen
    rw [hrun]
    refine ⟨fun j hlo hhi => ?_, by dsimp only; omega⟩
    rcases Nat.lt_or_ge j (start + len) with hj | hj
    · exact h.concat 0 j hlo hj
    · obtain rfl : j = segs.length := by
        dsimp only at hhi
        omega
      exact hlast

/-- What `longestZeros` finds is a run of zeros. -/
theorem longestZeros_zeroRun (segs : List ℕ) : ZeroRun segs (longestZeros segs) := by
  -- The current run reaches up to the last segment read.
  refine (foldl_zipIdx_invariant (s := (((0, 0), (0, 0)) : (ℕ × ℕ) × (ℕ × ℕ)))
    (fun segs st => ZeroRun segs st.1 ∧ ZeroRun segs st.2 ∧
      (st.2.2 = 0 ∨ st.2.1 + st.2.2 = segs.length)) ?_ ?_ segs).1
  · exact ⟨fun j _ hj => absurd hj (Nat.not_lt_zero j), fun j _ hj => absurd hj (Nat.not_lt_zero j),
      .inl rfl⟩
  · rintro pre x ⟨longest, start, len⟩ ⟨hlongest, hcurrent, hreach⟩
    by_cases hx : x = 0
    · subst hx
      obtain ⟨hgrown, hend⟩ := hcurrent.grow hreach
      simp only [if_true]
      refine ⟨?_, hgrown, .inr (by simpa using hend)⟩
      generalize (if len = 0 then (pre.length, 1) else (start, len + 1)) = run at hgrown ⊢
      split_ifs
      · exact hgrown
      · exact hlongest.concat 0
    · simp only [if_neg hx]
      exact ⟨hlongest.concat x, fun j _ hj => absurd hj (Nat.not_lt_zero j), .inl trivial⟩

theorem ZeroRun.le_length {s : List ℕ} {run : ℕ × ℕ} (h : ZeroRun s run) (hne : 0 < run.2) :
    run.1 + run.2 ≤ s.length := by
  obtain ⟨hlt, -⟩ := List.getElem?_eq_some_iff.mp
    (h (run.1 + run.2 - 1) (by omega) (by omega))
  omega

/-- The segments outside a run of zeros determine the others. -/
theorem eq_of_zeroRun {s s' : List ℕ} {run run' : ℕ × ℕ} (hlen : s.length = s'.length)
    (h : ZeroRun s run) (h' : ZeroRun s' run') (hne : 0 < run.2) (hne' : 0 < run'.2)
    (hfront : s.take run.1 = s'.take run'.1)
    (hback : s.drop (run.1 + run.2) = s'.drop (run'.1 + run'.2)) : s = s' := by
  obtain ⟨start, len⟩ := run
  obtain ⟨start', len'⟩ := run'
  have hle := h.le_length hne
  have hle' := h'.le_length hne'
  have hfrontlen := congrArg List.length hfront
  have hbacklen := congrArg List.length hback
  simp only [List.length_take, List.length_drop] at hle hle' hfrontlen hbacklen hne hne'
  obtain rfl : start = start' := by omega
  obtain rfl : len = len' := by omega
  refine List.ext_getElem? fun j => ?_
  rcases Nat.lt_or_ge j start with hj | hj
  · have hget := congrArg (·[j]?) hfront
    simpa only [List.getElem?_take, hj, if_true] using hget
  · rcases Nat.lt_or_ge j (start + len) with hj' | hj'
    · rw [h j hj hj', h' j hj hj']
    · have hget := congrArg (·[j - (start + len)]?) hback
      simpa only [List.getElem?_drop, Nat.add_sub_cancel' hj'] using hget

/-- The fields before or after a `::`; none at all leaves one empty field. -/
def outer : List Str → List Str
  | [] => [[]]
  | p :: ps => p :: ps

theorem intercalate_outer (ps : List Str) :
    List.intercalate [':'] (outer ps) = List.intercalate [':'] ps := by
  cases ps <;> rfl

theorem outer_injective {ps qs : List Str} (hps : [] ∉ ps) (hqs : [] ∉ qs)
    (h : outer ps = outer qs) : ps = qs := by
  cases ps with
  | nil =>
    cases qs with
    | nil => rfl
    | cons q qs => exact absurd (List.cons.inj h).1 (List.ne_of_not_mem_cons hqs)
  | cons p ps =>
    cases qs with
    | nil => exact absurd (List.cons.inj h).1.symm (List.ne_of_not_mem_cons hps)
    | cons q qs => exact h

/-- The empty field of a `::` tells what is left and what is right of it. -/
theorem outer_append_inj {ps qs ps' qs' : List Str} (hps : [] ∉ ps) (hqs : [] ∉ qs)
    (hps' : [] ∉ ps') (hqs' : [] ∉ qs')
    (h : outer ps ++ [] :: outer qs = outer ps' ++ [] :: outer qs') : ps = ps' ∧ qs = qs' := by
  cases ps with
  | nil =>
    cases ps' with
    | nil => exact ⟨rfl, outer_injective hqs hqs' (List.cons.inj (List.cons.inj h).2).2⟩
    | cons p' ps' => exact absurd (List.cons.inj h).1 (List.ne_of_not_mem_cons hps')
  | cons p ps =>
    cases ps' with
    | nil => exact absurd (List.cons.inj h).1.symm (List.ne_of_not_mem_cons hps)
    | cons p' ps' =>
      obtain ⟨hfront, hback⟩ := append_sep_inj hps hps' h
      exact ⟨hfront, outer_injective hqs hqs' hback⟩

/-! ### The text of an IPv6 address -/

/-- The text of segments around a run of zeros. -/
def showCompressed (segs : List ℕ) (run : ℕ × ℕ) : Str :=
  showSegments (segs.take run.1) ++ "::".toList ++ showSegments (segs.drop (run.1 + run.2))

theorem hex_ne_nil (segs : List ℕ) : [] ∉ segs.map (Nat.toDigits 16) := by
  intro h
  obtain ⟨n, -, hn⟩ := List.mem_map.mp h
  exact Nat.toDigits_ne_nil hn

theorem notMem_hex {c : Char} (hc : ∀ d < 16, d.digitChar ≠ c) (segs : List ℕ) :
    ∀ p ∈ segs.map (Nat.toDigits 16), c ∉ p := by
  intro p hp
  obtain ⟨n, -, rfl⟩ := List.mem_map.mp hp
  exact notMem_toDigits (by omega) (by omega) hc n

theorem hex_injective : Function.Injective (List.map (Nat.toDigits 16)) :=
  Function.Injective.list_map fun _ _ => toDigits_injective (by omega) (by omega)

theorem fields_hex {c : Char} (hc : ∀ d < 16, d.digitChar ≠ c) (left right : List ℕ) :
    ∀ p ∈ outer (left.map (Nat.toDigits 16)) ++ [] :: outer (right.map (Nat.toDigits 16)),
      c ∉ p := by
  have houter : ∀ segs : List ℕ, ∀ p ∈ outer (segs.map (Nat.toDigits 16)), c ∉ p := by
    intro segs p hp
    cases segs with
    | nil => simp [List.mem_singleton.mp hp]
    | cons n segs => exact notMem_hex hc (n :: segs) p hp
  intro p hp
  rcases List.mem_append.mp hp with hp | hp
  · exact houter left p hp
  · rcases List.mem_cons.mp hp with rfl | hp
    · exact List.not_mem_nil
    · exact houter right p hp

theorem showCompressed_eq (segs : List ℕ) (run : ℕ × ℕ) :
    showCompressed segs run = List.intercalate [':']
      (outer ((segs.take run.1).map (Nat.toDigits 16)) ++
        [] :: outer ((segs.drop (run.1 + run.2)).map (Nat.toDigits 16))) := by
  have hne : ∀ ps, outer ps ≠ [] := by
    intro ps
    cases ps <;> exact List.cons_ne_nil _ _
  have hback : ∀ ps, List.intercalate [':'] ([] :: outer ps) =
      ':' :: List.intercalate [':'] ps := by
    intro ps
    obtain ⟨q, qs, hq⟩ := List.exists_cons_of_ne_nil (hne ps)
    rw [← intercalate_outer ps, hq, intercalate_cons, List.nil_append]
  rw [intercalate_append _ (hne _) (List.cons_ne_nil _ _), intercalate_outer, hback]
  simp [showCompressed, showSegments]

/-- The text of an address that is not mapped from IPv4. -/
def showV6 (segs : List ℕ) : Str :=
  if 1 < (longestZeros segs).2 then showCompressed segs (longestZeros segs) else showSegments segs

theorem showV6_injective {s s' : List ℕ} (hs : s.length = 8) (hs' : s'.length = 8)
    (h : showV6 s = showV6 s') : s = s' := by
  have hcolon := fields_hex (c := ':') (by decide)
  have hcolon' := notMem_hex (c := ':') (by decide)
  have hne : ∀ {s : List ℕ}, s.length = 8 → s.map (Nat.toDigits 16) ≠ [] := by
    intro s hs hnil
    simp [List.map_eq_nil_iff.mp hnil] at hs
  have hmid : ∀ {ps qs : List Str}, [] ∈ ps ++ [] :: qs := by simp
  unfold showV6 at h
  split_ifs at h with hrun hrun'
  · rw [showCompressed_eq, showCompressed_eq] at h
    have hfields := intercalate_injective (hcolon _ _) (hcolon _ _) (by simp) (by simp) h
    obtain ⟨hfront, hback⟩ := outer_append_inj (hex_ne_nil _) (hex_ne_nil _) (hex_ne_nil _)
      (hex_ne_nil _) hfields
    exact eq_of_zeroRun (hs.trans hs'.symm) (longestZeros_zeroRun s) (longestZeros_zeroRun s')
      (by omega) (by omega) (hex_injective hfront) (hex_injective hback)
  · rw [showCompressed_eq] at h
    have hfields := intercalate_injective (hcolon _ _) (hcolon' _) (by simp) (hne hs') h
    exact absurd (hfields ▸ hmid) (hex_ne_nil s')
  · rw [showCompressed_eq] at h
    have hfields := intercalate_injective (hcolon' _) (hcolon _ _) (hne hs) (by simp) h
    exact absurd (hfields.symm ▸ hmid) (hex_ne_nil s)
  · exact hex_injective (intercalate_injective (hcolon' _) (hcolon' _) (hne hs) (hne hs') h)

theorem notMem_showV6 {c : Char} (hdigit : ∀ d < 16, d.digitChar ≠ c) (hcolon : c ≠ ':')
    (segs : List ℕ) : c ∉ showV6 segs := by
  unfold showV6
  split_ifs
  · rw [showCompressed_eq]
    exact notMem_intercalate hcolon (fields_hex hdigit _ _)
  · exact notMem_intercalate hcolon (notMem_hex hdigit _)

theorem dot_notMem_showV6 (segs : List ℕ) : '.' ∉ showV6 segs :=
  notMem_showV6 (by decide) (by decide) segs

theorem colon_mem_showV6 {segs : List ℕ} (h : segs.length = 8) : ':' ∈ showV6 segs := by
  unfold showV6
  split_ifs
  · simp [showCompressed]
  · obtain ⟨m, rest, rfl⟩ := List.exists_cons_of_length_eq_add_one h
    obtain ⟨n, rest, rfl⟩ := List.exists_cons_of_length_eq_add_one (Nat.succ.inj h)
    simp [showSegments]

theorem toText_v6 (bits : Fin (2 ^ 128)) :
    toText (.v6 bits) =
      match toIpv4Mapped bits with
      | some ipv4 => "::ffff:".toList ++ showV4 ipv4
      | none => showV6 (segments bits) := rfl

theorem toIpv4Mapped_injective {m n ipv4 : ℕ} (hm : toIpv4Mapped m = some ipv4)
    (hn : toIpv4Mapped n = some ipv4) : m = n := by
  obtain ⟨hm, heq⟩ := Option.ite_none_right_eq_some.mp hm
  obtain ⟨hn, heq'⟩ := Option.ite_none_right_eq_some.mp hn
  rw [Option.some.injEq] at heq heq'
  omega

theorem length_segments (bits : ℕ) : (segments bits).length = 8 := by simp [segments]

theorem toText_v6_injective {m n : Fin (2 ^ 128)} (h : toText (.v6 m) = toText (.v6 n)) :
    m = n := by
  rw [toText_v6, toText_v6] at h
  have hdot : ∀ ipv4 segs, "::ffff:".toList ++ showV4 ipv4 ≠ showV6 segs := fun ipv4 segs heq =>
    dot_notMem_showV6 segs (heq ▸ List.mem_append_right _ (dot_mem_showV4 ipv4))
  cases hm : toIpv4Mapped m <;> cases hn : toIpv4Mapped n <;> rw [hm, hn] at h
  · exact Fin.ext (segments_injective m.isLt n.isLt
      (showV6_injective (length_segments m) (length_segments n) h))
  · exact absurd h.symm (hdot _ _)
  · exact absurd h (hdot _ _)
  · obtain rfl := showV4_injective (List.append_cancel_left h)
    exact Fin.ext (toIpv4Mapped_injective hm hn)

theorem toText_v4 (bits : Fin (2 ^ 32)) : toText (.v4 bits) = showV4 bits := rfl

theorem colon_mem_toText_v6 (bits : Fin (2 ^ 128)) : ':' ∈ toText (.v6 bits) := by
  rw [toText_v6]
  cases toIpv4Mapped bits with
  | none => exact colon_mem_showV6 (length_segments bits)
  | some ipv4 => simp

/-- The text of an address is made of digits, dots and colons. -/
theorem notMem_toText {c : Char} (hdigit : ∀ d < 16, d.digitChar ≠ c) (hdot : c ≠ '.')
    (hcolon : c ≠ ':') (ip : IpAddr) : c ∉ toText ip := by
  have hv4 := notMem_showV4 hdigit hdot
  cases ip with
  | v4 bits => exact hv4 bits
  | v6 bits =>
    rw [toText_v6]
    cases toIpv4Mapped bits with
    | none => exact notMem_showV6 hdigit hcolon _
    | some ipv4 =>
      have hf : c ≠ 'f' := (hdigit 15 (by decide)).symm
      simp [hcolon, hf, hv4 ipv4]

/-- Different addresses have different texts. -/
theorem toText_injective : Function.Injective toText := by
  intro a b h
  have hne : ∀ m n, toText (.v4 m) ≠ toText (.v6 n) := fun m n heq =>
    colon_notMem_showV4 m (toText_v4 m ▸ heq ▸ colon_mem_toText_v6 n)
  cases a with
  | v4 m =>
    cases b with
    | v4 n => rw [Fin.ext (showV4_injective h)]
    | v6 n => exact absurd h (hne m n)
  | v6 m =>
    cases b with
    | v4 n => exact absurd h.symm (hne n m)
    | v6 n => rw [toText_v6_injective h]

end IpAddr

end HorizonCast
