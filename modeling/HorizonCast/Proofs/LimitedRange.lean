import HorizonCast.Proofs.Conversion

/-! Converted frames are limited-range video: the ranges of the samples, and that they are
computed without overflow or clamping. -/

namespace HorizonCast

open Text Collections Interval

/-! ### Channels -/

/-- The channels of the pixel at `i`. -/
def channels (src : Bytes) (i : ℕ) : Option (Channel → ℤ) := do
  let b ← src[i]?
  let g ← src[i + 1]?
  let r ← src[i + 2]?
  some fun
    | .b => b.toNat
    | .g => g.toNat
    | .r => r.toNat

/-- The channels of the pixels of a block. -/
def blockChannels (src : Bytes) (pxs : List ℕ) : Option (Channel × Fin 4 → ℤ) := do
  let bs ← pxs.mapM fun px => src[px]?
  let gs ← pxs.mapM fun px => src[px + 1]?
  let rs ← pxs.mapM fun px => src[px + 2]?
  some fun
    | (.b, k) => (bs.getD k 0).toNat
    | (.g, k) => (gs.getD k 0).toNat
    | (.r, k) => (rs.getD k 0).toNat

def byteRange : Range := ⟨0, 255⟩

theorem toNat_mem_byteRange (b : UInt8) : (b.toNat : ℤ) ∈ byteRange := by
  have hlt := b.toNat_lt
  exact ⟨Int.natCast_nonneg _, by change _ ≤ (255 : ℤ); omega⟩

theorem channels_mem {src : Bytes} {i : ℕ} {ρ : Channel → ℤ} (h : channels src i = some ρ)
    (c : Channel) : ρ c ∈ byteRange := by
  simp only [channels, Option.bind_eq_bind, Option.bind_eq_some_iff, Option.some.injEq] at h
  obtain ⟨b, -, g, -, r, -, rfl⟩ := h
  cases c <;> exact toNat_mem_byteRange _

theorem blockChannels_mem {src : Bytes} {pxs : List ℕ} {ρ : Channel × Fin 4 → ℤ}
    (h : blockChannels src pxs = some ρ) (x : Channel × Fin 4) : ρ x ∈ byteRange := by
  simp only [blockChannels, Option.bind_eq_bind, Option.bind_eq_some_iff, Option.some.injEq] at h
  obtain ⟨bs, -, gs, -, rs, -, rfl⟩ := h
  obtain ⟨c, k⟩ := x
  cases c <;> exact toNat_mem_byteRange _

theorem luma_eq (src : Bytes) (i : ℕ) :
    luma src i = (channels src i).map fun ρ => clampU8 (lumaExpr.eval ρ) := by
  unfold luma channels
  cases src[i]? with
  | none => rfl
  | some b =>
    cases src[i + 1]? with
    | none => rfl
    | some g =>
      cases src[i + 2]? with
      | none => rfl
      | some r => rfl

/-- The mean of the code is the mean of the four values. -/
theorem eval_meanExpr {ρ : Channel × Fin 4 → ℤ} {c : Channel} {bytes : List UInt8}
    (hlen : bytes.length = 4) (hρ : ∀ k : Fin 4, ρ (c, k) = (bytes.getD k 0).toNat) :
    (meanExpr c).eval ρ = ((bytes.map UInt8.toNat).sum / 4 : ℕ) := by
  match bytes, hlen with
  | [p, q, s, t], _ =>
    have hsum : (0 : ℤ) + ρ (c, 0) + ρ (c, 1) + ρ (c, 2) + ρ (c, 3) =
        (([p, q, s, t].map UInt8.toNat).sum : ℕ) := by
      rw [hρ 0, hρ 1, hρ 2, hρ 3]
      simp only [List.map_cons, List.map_nil, List.sum_cons, List.sum_nil]
      change (0 : ℤ) + p.toNat + q.toNat + s.toNat + t.toNat = _
      omega
    change ((0 : ℤ) + ρ (c, 0) + ρ (c, 1) + ρ (c, 2) + ρ (c, 3)).tdiv 4 = _
    rw [hsum]
    exact (Int.ofNat_tdiv _ _).symm

theorem chroma_eq (src : Bytes) {pxs : List ℕ} (hlen : pxs.length = 4) :
    chroma src pxs =
      (blockChannels src pxs).map fun ρ => [clampU8 (uExpr.eval ρ), clampU8 (vExpr.eval ρ)] := by
  unfold chroma blockChannels
  cases hbs : pxs.mapM fun px => src[px]? with
  | none => rfl
  | some bs =>
    cases hgs : pxs.mapM fun px => src[px + 1]? with
    | none => rfl
    | some gs =>
      cases hrs : pxs.mapM fun px => src[px + 2]? with
      | none => rfl
      | some rs =>
        have hb := length_of_mapM hbs
        have hg := length_of_mapM hgs
        have hr := length_of_mapM hrs
        rw [hlen] at hb hg hr
        simp only [Option.bind_eq_bind, Option.bind_some, Option.map_some]
        generalize hρ : (fun x : Channel × Fin 4 => (_ : ℤ)) = ρ
        have heb : (meanExpr .b).eval ρ = ((bs.map UInt8.toNat).sum / 4 : ℕ) :=
          eval_meanExpr hb fun k => by rw [← hρ]
        have heg : (meanExpr .g).eval ρ = ((gs.map UInt8.toNat).sum / 4 : ℕ) :=
          eval_meanExpr hg fun k => by rw [← hρ]
        have her : (meanExpr .r).eval ρ = ((rs.map UInt8.toNat).sum / 4 : ℕ) :=
          eval_meanExpr hr fun k => by rw [← hρ]
        rw [← heb, ← heg, ← her]
        rfl

/-! ### Samples -/

/-- The sample is the value of the expression, computed without overflow and not clamped. -/
def Exact {ν : Type} (e : Expr ν) (ρ : ν → ℤ) (sample : UInt8) : Prop :=
  e.checked i32 ρ = some (sample.toNat : ℤ)

theorem clampU8_of_mem {v : ℤ} (h : v ∈ byteRange) : ((clampU8 v).toNat : ℤ) = v := by
  obtain ⟨hlo, hhi⟩ : 0 ≤ v ∧ v ≤ 255 := h
  have hmin : min v.toNat 255 = v.toNat := Nat.min_eq_left (by omega)
  rw [clampU8, hmin, UInt8.toNat_ofNat', Nat.mod_eq_of_lt (by omega)]
  omega

/-- An expression of bytes whose values are bytes from `lo` to `hi`. -/
structure HasRange {ν : Type} (e : Expr ν) (lo hi : UInt8) : Prop where
  fits : e.Fits i32 fun _ => byteRange
  range : (e.range fun _ => byteRange) = ⟨lo.toNat, hi.toNat⟩

section Samples

variable {ν : Type} {e : Expr ν} {ρ : ν → ℤ} {lo hi : UInt8}

theorem HasRange.toNat_clampU8 (he : HasRange e lo hi) (hρ : ∀ x, ρ x ∈ byteRange) :
    ((clampU8 (e.eval ρ)).toNat : ℤ) = e.eval ρ := by
  have hmem := e.eval_mem_range hρ
  have hbyte : ((e.range fun _ => byteRange)).Within byteRange := by
    rw [he.range]
    exact ⟨(toNat_mem_byteRange lo).1, (toNat_mem_byteRange hi).2⟩
  exact clampU8_of_mem (hbyte.mem hmem)

theorem HasRange.exact (he : HasRange e lo hi) (hρ : ∀ x, ρ x ∈ byteRange) :
    Exact e ρ (clampU8 (e.eval ρ)) := by
  rw [Exact, Expr.checked_of_fits hρ he.fits, he.toNat_clampU8 hρ]

theorem HasRange.bounds (he : HasRange e lo hi) (hρ : ∀ x, ρ x ∈ byteRange) :
    lo ≤ clampU8 (e.eval ρ) ∧ clampU8 (e.eval ρ) ≤ hi := by
  have hmem := e.eval_mem_range hρ
  rw [he.range, ← he.toNat_clampU8 hρ] at hmem
  exact ⟨Int.ofNat_le.mp hmem.1, Int.ofNat_le.mp hmem.2⟩

end Samples

theorem lumaExpr_range : HasRange lumaExpr 16 235 := ⟨by decide, by decide⟩

theorem uExpr_range : HasRange uExpr 16 240 := ⟨by decide, by decide⟩

theorem vExpr_range : HasRange vExpr 16 240 := ⟨by decide, by decide⟩

theorem lumaExpr_increasing : lumaExpr.Increasing := by
  simp [lumaExpr, Expr.Increasing]

/-- The weights of the three channels cancel. -/
theorem eval_grey {ρ : Channel × Fin 4 → ℤ} {level : ℤ} (h : ∀ x, ρ x = level)
    (hlevel : level ∈ byteRange) : uExpr.eval ρ = 128 ∧ vExpr.eval ρ = 128 := by
  have hmean : ∀ c, (meanExpr c).eval ρ = level := by
    intro c
    have hnonneg : 0 ≤ level := hlevel.1
    change ((0 : ℤ) + ρ (c, 0) + ρ (c, 1) + ρ (c, 2) + ρ (c, 3)).tdiv 4 = level
    rw [h, h, h, h, Int.tdiv_eq_ediv_of_nonneg (by omega)]
    omega
  constructor
  · change Int.shiftRight (-38 * (meanExpr .r).eval ρ - 74 * (meanExpr .g).eval ρ +
      112 * (meanExpr .b).eval ρ + 128) 8 + 128 = 128
    rw [hmean, hmean, hmean, show -38 * level - 74 * level + 112 * level + 128 = 128 by omega]
    rfl
  · change Int.shiftRight (112 * (meanExpr .r).eval ρ - 94 * (meanExpr .g).eval ρ -
      18 * (meanExpr .b).eval ρ + 128) 8 + 128 = 128
    rw [hmean, hmean, hmean, show 112 * level - 94 * level - 18 * level + 128 = 128 by omega]
    rfl

/-! ### Planes -/

section Planes

variable {src : Bytes} {width height srcStride : UInt32} {planes : Nv12Planes}

/-- Which pixel each sample of the Y plane is made of. -/
theorem getElem?_y (h : bgraToNv12 src width height srcStride = some planes) {row col : ℕ}
    (hrow : row < (evenDown height).toNat) (hcol : col < (evenDown width).toNat) :
    ∃ y, luma src (row * srcStride.toNat + col * 4) = some y ∧
      planes.y[row * (evenDown width).toNat + col]? = some y := by
  rw [bgraToNv12_eq] at h
  obtain ⟨rows, hrows, h⟩ := Option.bind_eq_some_iff.mp h
  obtain ⟨blocks, -, h⟩ := Option.bind_eq_some_iff.mp h
  cases h
  have hlen : ∀ bytes ∈ rows, bytes.length = (evenDown width).toNat := by
    intro bytes hbytes
    obtain ⟨row, -, hrow⟩ := (mem_of_mapM hrows).mp hbytes
    rw [length_of_mapM hrow, List.length_range]
  obtain ⟨bytes, hbytes, hget⟩ := some_of_mapM_range hrows hrow
  obtain ⟨y, hy, hcell⟩ := some_of_mapM_range hbytes hcol
  refine ⟨y, hy, ?_⟩
  rw [getElem?_flatten hlen row hcol, hget, Option.bind_some, hcell]

/-- Which block each pair of samples of the UV plane is made of. -/
theorem getElem?_uv (h : bgraToNv12 src width height srcStride = some planes) {yb xb : ℕ}
    (hyb : yb < (evenDown height).toNat / 2) (hxb : xb < (evenDown width).toNat / 2) :
    ∃ uv, chroma src (blockPixels srcStride.toNat yb xb) = some uv ∧
      ∀ k < 2, planes.uv[yb * (evenDown width).toNat + xb * 2 + k]? = uv[k]? := by
  have heven := evenDown_even width
  rw [bgraToNv12_eq] at h
  obtain ⟨rows, -, h⟩ := Option.bind_eq_some_iff.mp h
  obtain ⟨blocks, hblocks, h⟩ := Option.bind_eq_some_iff.mp h
  cases h
  have hrow : ∀ {yb uvs}, ((List.range ((evenDown width).toNat / 2)).mapM fun xb =>
      chroma src (blockPixels srcStride.toNat yb xb)) = some uvs → ∀ uv ∈ uvs, uv.length = 2 := by
    intro yb uvs huvs uv huv
    obtain ⟨xb, -, hxb⟩ := (mem_of_mapM huvs).mp huv
    exact length_chroma hxb
  have hlen : ∀ bytes ∈ blocks.map List.flatten, bytes.length = (evenDown width).toNat := by
    intro bytes hbytes
    obtain ⟨uvs, huvs, rfl⟩ := List.mem_map.mp hbytes
    obtain ⟨yb, -, hyb⟩ := (mem_of_mapM hblocks).mp huvs
    rw [length_flatten_eq (hrow hyb), length_of_mapM hyb, List.length_range]
    omega
  obtain ⟨uvs, huvs, hget⟩ := some_of_mapM_range hblocks hyb
  obtain ⟨uv, huv, hcell⟩ := some_of_mapM_range huvs hxb
  refine ⟨uv, huv, fun k hk => ?_⟩
  rw [Nat.add_assoc, getElem?_flatten hlen yb (by omega), List.getElem?_map, hget, Option.map_some,
    Option.bind_some, getElem?_flatten (hrow huvs) xb hk, hcell, Option.bind_some]

/-- The pixel of the sample at an index. -/
theorem luma_of_getElem?_y (h : bgraToNv12 src width height srcStride = some planes) {i : ℕ}
    {y : UInt8} (hi : planes.y[i]? = some y) :
    let row := i / (evenDown width).toNat
    let col := i % (evenDown width).toNat
    row < (evenDown height).toNat ∧ col < (evenDown width).toNat ∧
      luma src (row * srcStride.toNat + col * 4) = some y := by
  intro row col
  obtain ⟨-, -, hlen, -⟩ := bgraToNv12_planes h
  obtain ⟨hlt, -⟩ := List.getElem?_eq_some_iff.mp hi
  rw [hlen, Nat.mul_comm] at hlt
  have hpos : 0 < (evenDown width).toNat := Nat.pos_of_mul_pos_right (Nat.zero_lt_of_lt hlt)
  have hrow := Nat.div_lt_of_lt_mul hlt
  have hcol := Nat.mod_lt i hpos
  obtain ⟨y', hy', hget⟩ := getElem?_y h hrow hcol
  rw [Nat.div_add_mod', hi, Option.some.injEq] at hget
  exact ⟨hrow, hcol, hget ▸ hy'⟩

theorem exists_of_getElem?_uv (h : bgraToNv12 src width height srcStride = some planes) {i : ℕ}
    {c : UInt8} (hi : planes.uv[i]? = some c) :
    ∃ yb xb uv, chroma src (blockPixels srcStride.toNat yb xb) = some uv ∧ c ∈ uv := by
  obtain ⟨-, -, -, hlen⟩ := bgraToNv12_planes h
  obtain ⟨hlt, -⟩ := List.getElem?_eq_some_iff.mp hi
  rw [hlen, Nat.mul_comm] at hlt
  have heven := evenDown_even width
  have hpos : 0 < (evenDown width).toNat := Nat.pos_of_mul_pos_right (Nat.zero_lt_of_lt hlt)
  have hyb := Nat.div_lt_of_lt_mul hlt
  have hcol := Nat.mod_lt i hpos
  have hxb : i % (evenDown width).toNat / 2 < (evenDown width).toNat / 2 := by omega
  obtain ⟨uv, huv, hget⟩ := getElem?_uv h hyb hxb
  have hcell := hget (i % (evenDown width).toNat % 2) (Nat.mod_lt _ (by decide))
  rw [Nat.add_assoc, Nat.div_add_mod', Nat.div_add_mod', hi] at hcell
  exact ⟨_, _, uv, huv, List.mem_of_getElem? hcell.symm⟩

end Planes

/-- What limited-range video asks of the planes, and how their samples are computed from the
pixels. -/
structure LimitedRange (src : Bytes) (w h stride : ℕ) (planes : Nv12Planes) : Prop where
  y : ∀ y ∈ planes.y, 16 ≤ y ∧ y ≤ 235
  uv : ∀ c ∈ planes.uv, 16 ≤ c ∧ c ≤ 240
  luma : ∀ row < h, ∀ col < w, ∃ ρ y, channels src (row * stride + col * 4) = some ρ ∧
    planes.y[row * w + col]? = some y ∧ Exact lumaExpr ρ y
  chroma : ∀ yb < h / 2, ∀ xb < w / 2, ∃ ρ u v,
    blockChannels src (blockPixels stride yb xb) = some ρ ∧
    planes.uv[yb * w + xb * 2]? = some u ∧ Exact uExpr ρ u ∧
    planes.uv[yb * w + xb * 2 + 1]? = some v ∧ Exact vExpr ρ v
  grey : ∀ yb < h / 2, ∀ xb < w / 2, ∀ ρ level,
    blockChannels src (blockPixels stride yb xb) = some ρ → (∀ x, ρ x = level) →
    planes.uv[yb * w + xb * 2]? = some 128 ∧ planes.uv[yb * w + xb * 2 + 1]? = some 128

/-- No channel of a pixel is more than the same channel of the other buffer. -/
def Darker (w h : ℕ) (src : Bytes) (stride : ℕ) (src' : Bytes) (stride' : ℕ) : Prop :=
  ∀ row < h, ∀ col < w, ∀ ρ ρ', channels src (row * stride + col * 4) = some ρ →
    channels src' (row * stride' + col * 4) = some ρ' → ∀ c, ρ c ≤ ρ' c

theorem length_blockPixels (stride yb xb : ℕ) : (blockPixels stride yb xb).length = 4 := rfl

theorem limitedRange {src : Bytes} {width height srcStride : UInt32} {planes : Nv12Planes}
    (h : bgraToNv12 src width height srcStride = some planes) :
    LimitedRange src (evenDown width).toNat (evenDown height).toNat srcStride.toNat planes := by
  have hblock : ∀ yb < (evenDown height).toNat / 2, ∀ xb < (evenDown width).toNat / 2, ∃ ρ,
      blockChannels src (blockPixels srcStride.toNat yb xb) = some ρ ∧
      planes.uv[yb * (evenDown width).toNat + xb * 2]? = some (clampU8 (uExpr.eval ρ)) ∧
      planes.uv[yb * (evenDown width).toNat + xb * 2 + 1]? = some (clampU8 (vExpr.eval ρ)) := by
    intro yb hyb xb hxb
    obtain ⟨uv, huv, hget⟩ := getElem?_uv h hyb hxb
    rw [chroma_eq src (length_blockPixels _ _ _)] at huv
    obtain ⟨ρ, hρ, rfl⟩ := Option.map_eq_some_iff.mp huv
    exact ⟨ρ, hρ, hget 0 (by decide), hget 1 (by decide)⟩
  refine ⟨?_, ?_, ?_, ?_, ?_⟩
  · intro y hy
    obtain ⟨i, hi⟩ := List.mem_iff_getElem?.mp hy
    obtain ⟨-, -, hluma⟩ := luma_of_getElem?_y h hi
    rw [luma_eq] at hluma
    obtain ⟨ρ, hρ, rfl⟩ := Option.map_eq_some_iff.mp hluma
    exact lumaExpr_range.bounds (channels_mem hρ)
  · intro c hc
    obtain ⟨i, hi⟩ := List.mem_iff_getElem?.mp hc
    obtain ⟨yb, xb, uv, huv, hmem⟩ := exists_of_getElem?_uv h hi
    rw [chroma_eq src (length_blockPixels _ _ _)] at huv
    obtain ⟨ρ, hρ, rfl⟩ := Option.map_eq_some_iff.mp huv
    simp only [List.mem_cons, List.not_mem_nil, or_false] at hmem
    rcases hmem with rfl | rfl
    · exact uExpr_range.bounds (blockChannels_mem hρ)
    · exact vExpr_range.bounds (blockChannels_mem hρ)
  · intro row hrow col hcol
    obtain ⟨y, hluma, hget⟩ := getElem?_y h hrow hcol
    rw [luma_eq] at hluma
    obtain ⟨ρ, hρ, rfl⟩ := Option.map_eq_some_iff.mp hluma
    exact ⟨ρ, _, hρ, hget, lumaExpr_range.exact (channels_mem hρ)⟩
  · intro yb hyb xb hxb
    obtain ⟨ρ, hρ, hu, hv⟩ := hblock yb hyb xb hxb
    have hbytes := blockChannels_mem hρ
    exact ⟨ρ, _, _, hρ, hu, uExpr_range.exact hbytes, hv, vExpr_range.exact hbytes⟩
  · intro yb hyb xb hxb ρ level hρ hlevel
    obtain ⟨ρ', hρ', hu, hv⟩ := hblock yb hyb xb hxb
    cases hρ.symm.trans hρ'
    have hmem := blockChannels_mem hρ (.b, 0)
    rw [hlevel] at hmem
    obtain ⟨hu128, hv128⟩ := eval_grey hlevel hmem
    rw [hu, hv, hu128, hv128]
    exact ⟨rfl, rfl⟩

/-- A converted frame is limited-range video, and a brighter one has no smaller Y sample. -/
theorem converted_limited_range {src : Bytes} {width height srcStride : UInt32}
    {planes : Nv12Planes} (h : bgraToNv12 src width height srcStride = some planes) :
    LimitedRange src (evenDown width).toNat (evenDown height).toNat srcStride.toNat planes ∧
      ∀ src' srcStride' planes', bgraToNv12 src' width height srcStride' = some planes' →
        Darker (evenDown width).toNat (evenDown height).toNat src srcStride.toNat src'
          srcStride'.toNat →
        ∀ (i : ℕ) (y y' : UInt8), planes.y[i]? = some y → planes'.y[i]? = some y' → y ≤ y' := by
  refine ⟨limitedRange h, ?_⟩
  intro src' srcStride' planes' h' hdark i y y' hi hi'
  obtain ⟨hrow, hcol, hluma⟩ := luma_of_getElem?_y h hi
  obtain ⟨-, -, hluma'⟩ := luma_of_getElem?_y h' hi'
  rw [luma_eq] at hluma hluma'
  obtain ⟨ρ, hρ, rfl⟩ := Option.map_eq_some_iff.mp hluma
  obtain ⟨ρ', hρ', rfl⟩ := Option.map_eq_some_iff.mp hluma'
  have hle := Expr.eval_le_eval lumaExpr_increasing (hdark _ hrow _ hcol ρ ρ' hρ hρ')
  rw [← lumaExpr_range.toNat_clampU8 (channels_mem hρ),
    ← lumaExpr_range.toNat_clampU8 (channels_mem hρ')] at hle
  exact Int.ofNat_le.mp hle

theorem converted_limited_range_red :
    LimitedRange (redImage 7) 2 2 14 ⟨[82, 82, 82, 82], 2, [90, 240], 2⟩ := by
  have hred : bgraToNv12 (redImage 7) 3 3 14 = some ⟨[82, 82, 82, 82], 2, [90, 240], 2⟩ := by
    decide +kernel
  exact (converted_limited_range hred).1

end HorizonCast
