import HorizonCast.Proofs.FrameCopy

/-! What of a captured buffer a converted frame is made of, and how its planes are
filled. -/

namespace HorizonCast

open Text Filling Collections

/-! ### The loops -/

theorem evenDown_le (n : UInt32) : (evenDown n).toNat ≤ n.toNat := by
  rw [evenDown, UInt32.toNat_and]
  exact Nat.and_le_left

theorem evenDown_evenDown (n : UInt32) : evenDown (evenDown n) = evenDown n := by
  rw [evenDown, evenDown, UInt32.and_assoc, UInt32.and_self]

/-- The rows of the Y plane. -/
def yBytes (src : Bytes) (w h stride : ℕ) : Option (List Bytes) :=
  (List.range h).mapM fun row =>
    (List.range w).mapM fun col => luma src (row * stride + col * 4)

/-- The blocks of each row of the UV plane. -/
def uvBytes (src : Bytes) (w h stride : ℕ) : Option (List (List Bytes)) :=
  (List.range (h / 2)).mapM fun yb =>
    (List.range (w / 2)).mapM fun xb => chroma src (blockPixels stride yb xb)

theorem bgraToNv12_eq (src : Bytes) (width height srcStride : UInt32) :
    bgraToNv12 src width height srcStride =
      (yBytes src (evenDown width).toNat (evenDown height).toNat srcStride.toNat).bind fun rows =>
        (uvBytes src (evenDown width).toNat (evenDown height).toNat srcStride.toNat).bind
          fun blocks => some {
            y := rows.flatten
            yStride := evenDown width
            uv := (blocks.map List.flatten).flatten
            uvStride := evenDown width } := rfl

/-- The two bytes of a block go behind what is filled. -/
theorem writePair_filled {n o : ℕ} {out uv : Bytes} (huv : uv.length = 2) (hout : out.length = o)
    (hroom : o + 1 < n) :
    writePair (Buffer.filled n 0 out) o uv = some (Buffer.filled n 0 (out ++ uv)) := by
  obtain ⟨u, v, rfl⟩ := List.length_eq_two.mp huv
  have hnext : (out ++ [u]).length = o + 1 := by
    rw [List.length_append, hout, List.length_singleton]
  rw [writePair, Option.bind_eq_bind, Buffer.write_filled hout (Nat.lt_of_succ_lt hroom),
    Option.bind_some, Buffer.write_filled hnext hroom, List.append_assoc, List.singleton_append]

theorem yLoop_eq (src : Bytes) (w h stride : ℕ) :
    (List.range h).foldlM (fun yPlane row =>
        (List.range w).foldlM (fun yPlane col =>
          (luma src (row * stride + col * 4)).bind fun v => yPlane.write (row * w + col) v) yPlane)
        (Buffer.blank (w * h) 0) =
      (yBytes src w h stride).map fun rows =>
        (⟨rows.flatten, List.range (w * h)⟩ : Buffer UInt8) := by
  have hsize : ∀ row bytes, ((List.range w).mapM fun col => luma src (row * stride + col * 4)) =
      some bytes → bytes.length = w := by
    intro row bytes hbytes
    rw [length_of_mapM hbytes, List.length_range]
  rw [← Buffer.filled_nil, Buffer.foldlM_filled _ hsize]
  · change (yBytes src w h stride).map _ = _
    cases hrows : yBytes src w h stride with
    | none => rfl
    | some rows =>
      have hlen := length_flatten_of_mapM hrows fun row _ => hsize row
      rw [List.length_range, Nat.mul_comm] at hlen
      rw [Option.map_some, Option.map_some, List.nil_append, Buffer.filled_whole hlen]
  · intro row hrow more hmore
    have hroom : row * w + w ≤ w * h := by
      rw [← Nat.succ_mul, Nat.mul_comm w]
      exact Nat.mul_le_mul_right w hrow
    exact Buffer.foldlM_write hmore hroom

theorem uvLoop_eq (src : Bytes) {w : ℕ} (h stride : ℕ) (heven : w % 2 = 0) :
    (List.range (h / 2)).foldlM (fun uvPlane yb =>
        (List.range (w / 2)).foldlM (fun uvPlane xb =>
          (chroma src (blockPixels stride yb xb)).bind (writePair uvPlane (yb * w + xb * 2)))
          uvPlane)
        (Buffer.blank (w * (h / 2)) 0) =
      (uvBytes src w h stride).map fun rows =>
        (⟨(rows.map List.flatten).flatten, List.range (w * (h / 2))⟩ : Buffer UInt8) := by
  have hsize : ∀ yb bytes, ((List.range (w / 2)).mapM fun xb =>
      chroma src (blockPixels stride yb xb)).map List.flatten = some bytes → bytes.length = w := by
    intro yb bytes hbytes
    obtain ⟨blocks, hblocks, rfl⟩ := Option.map_eq_some_iff.mp hbytes
    rw [length_flatten_of_mapM hblocks fun xb _ _ => length_chroma, List.length_range]
    omega
  rw [← Buffer.filled_nil, Buffer.foldlM_filled _ hsize]
  · rw [mapM_map_result, Option.map_map]
    change (uvBytes src w h stride).map _ = _
    cases hrows : uvBytes src w h stride with
    | none => rfl
    | some rows =>
      have hlen : (rows.map List.flatten).flatten.length = w * (h / 2) := by
        have hmap : ((List.range (h / 2)).mapM fun yb => ((List.range (w / 2)).mapM fun xb =>
            chroma src (blockPixels stride yb xb)).map List.flatten) =
            some (rows.map List.flatten) := by
          rw [mapM_map_result]
          exact congrArg (Option.map _) hrows
        have hflat := length_flatten_of_mapM hmap fun yb _ => hsize yb
        rwa [List.length_range, Nat.mul_comm] at hflat
      rw [Option.map_some, Option.map_some, Function.comp_apply, List.nil_append,
        Buffer.filled_whole hlen]
  · intro yb hyb more hmore
    rw [Option.map_map]
    refine Buffer.foldlM_filled (fun xb => chroma src (blockPixels stride yb xb))
      (fun xb _ => length_chroma) fun xb hxb block hblock => ?_
    have hroom : yb * w + w ≤ w * (h / 2) := by
      rw [← Nat.succ_mul, Nat.mul_comm w]
      exact Nat.mul_le_mul_right w hyb
    have hout : ([] ++ more ++ block).length = yb * w + xb * 2 := by
      rw [List.nil_append, List.length_append, hmore, hblock]
    cases huv : chroma src (blockPixels stride yb xb) with
    | none => rfl
    | some uv => exact writePair_filled (length_chroma huv) hout (by omega)

/-- The loops write every cell of both planes once, in order, and what they write is the
converted frame. -/
theorem writePlanes_eq (src : Bytes) (width height srcStride : UInt32) :
    writePlanes src width height srcStride =
      (bgraToNv12 src width height srcStride).map fun p =>
        (⟨p.y, List.range ((evenDown width).toNat * (evenDown height).toNat)⟩,
          ⟨p.uv, List.range ((evenDown width).toNat * ((evenDown height).toNat / 2))⟩) := by
  have hy := yLoop_eq src (evenDown width).toNat (evenDown height).toNat srcStride.toNat
  have huv := uvLoop_eq src (evenDown height).toNat srcStride.toNat (evenDown_even width)
  unfold writePlanes
  rw [bgraToNv12_eq]
  simp only [Option.bind_eq_bind] at hy huv ⊢
  rw [hy, huv]
  cases yBytes src (evenDown width).toNat (evenDown height).toNat srcStride.toNat with
  | none => rfl
  | some rows =>
    cases uvBytes src (evenDown width).toNat (evenDown height).toNat srcStride.toNat with
    | none => rfl
    | some blocks => rfl

/-! ### The pixels -/

/-- Two buffers have the same B, G and R bytes in the first `w` pixels of the first `h`
rows. -/
def SameColours (w h : ℕ) (src : Bytes) (stride : ℕ) (src' : Bytes) (stride' : ℕ) : Prop :=
  ∀ row < h, ∀ col < w, ∀ c < 3,
    src[row * stride + col * 4 + c]? = src'[row * stride' + col * 4 + c]?

/-- The buffer holds `height` rows of `width` pixels, of the last row maybe not the padding. -/
def HoldsImage (width height srcStride : UInt32) (src : Bytes) : Prop :=
  srcStride.toNat * height.toNat + 4 * width.toNat ≤ src.length + srcStride.toNat

theorem luma_congr {src src' : Bytes} {i i' : ℕ} (h : ∀ c < 3, src[i + c]? = src'[i' + c]?) :
    luma src i = luma src' i' := by
  have hb := h 0 (by decide)
  rw [Nat.add_zero, Nat.add_zero] at hb
  rw [luma, luma, hb, h 1 (by decide), h 2 (by decide)]

theorem chroma_congr {src src' : Bytes} {α : Type} {pxs : List α} {start start' : α → ℕ}
    (h : ∀ px ∈ pxs, ∀ c < 3, src[start px + c]? = src'[start' px + c]?) :
    chroma src (pxs.map start) = chroma src' (pxs.map start') := by
  have hb := mapM_congr fun px hpx => h px hpx 0 (by decide)
  have hg := mapM_congr fun px hpx => h px hpx 1 (by decide)
  have hr := mapM_congr fun px hpx => h px hpx 2 (by decide)
  simp only [Nat.add_zero] at hb
  unfold chroma
  simp only [List.mapM_map, Function.comp_def, hb, hg, hr]

/-- The pixels of a block lie in the image. -/
theorem block_lt {w h yb xb : ℕ} (hyb : yb < h / 2) (hxb : xb < w / 2) {px : ℕ × ℕ}
    (hpx : px ∈ [(0, 0), (0, 1), (1, 0), (1, 1)]) : yb * 2 + px.1 < h ∧ xb * 2 + px.2 < w := by
  have hle : px.1 ≤ 1 ∧ px.2 ≤ 1 := by
    simp only [List.mem_cons, List.not_mem_nil, or_false] at hpx
    rcases hpx with rfl | rfl | rfl | rfl <;> decide
  omega

/-- A conversion sees only the colours of the even-rounded image. -/
theorem bgraToNv12_congr {src src' : Bytes} {width height srcStride srcStride' : UInt32}
    (hsame : SameColours (evenDown width).toNat (evenDown height).toNat src srcStride.toNat src'
      srcStride'.toNat) :
    bgraToNv12 src width height srcStride = bgraToNv12 src' width height srcStride' := by
  have hy : yBytes src (evenDown width).toNat (evenDown height).toNat srcStride.toNat =
      yBytes src' (evenDown width).toNat (evenDown height).toNat srcStride'.toNat := by
    refine mapM_congr fun row hrow => mapM_congr fun col hcol => ?_
    exact luma_congr (hsame row (List.mem_range.mp hrow) col (List.mem_range.mp hcol))
  have huv : uvBytes src (evenDown width).toNat (evenDown height).toNat srcStride.toNat =
      uvBytes src' (evenDown width).toNat (evenDown height).toNat srcStride'.toNat := by
    refine mapM_congr fun yb hyb => mapM_congr fun xb hxb => ?_
    apply chroma_congr
    intro px hpx
    obtain ⟨hrow, hcol⟩ := block_lt (List.mem_range.mp hyb) (List.mem_range.mp hxb) hpx
    exact hsame _ hrow _ hcol
  rw [bgraToNv12_eq, bgraToNv12_eq, hy, huv]

theorem luma_some {src : Bytes} {i : ℕ} (h : i + 2 < src.length) :
    luma src i = some (clampU8 (Int.shiftRight
      (66 * src[i + 2].toNat + 129 * src[i + 1].toNat + 25 * src[i].toNat + 128) 8 + 16)) := by
  rw [luma, List.getElem?_eq_getElem h, List.getElem?_eq_getElem (Nat.lt_of_succ_lt h),
    List.getElem?_eq_getElem (by omega : i < src.length)]
  rfl

theorem chroma_some {src : Bytes} {pxs : List ℕ} (h : ∀ px ∈ pxs, px + 2 < src.length) :
    ∃ uv, chroma src pxs = some uv := by
  have hread : ∀ c < 3, ∃ bytes, (pxs.mapM fun px => src[px + c]?) = some bytes := by
    intro c hc
    refine exists_mapM fun px hpx => ⟨_, List.getElem?_eq_getElem ?_⟩
    have hlt := h px hpx
    omega
  obtain ⟨bs, hbs⟩ := hread 0 (by decide)
  obtain ⟨gs, hgs⟩ := hread 1 (by decide)
  obtain ⟨rs, hrs⟩ := hread 2 (by decide)
  simp only [Nat.add_zero] at hbs
  simp only [chroma, hbs, hgs, hrs]
  exact ⟨_, rfl⟩

theorem row_le {width height srcStride : UInt32} {src : Bytes}
    (himage : HoldsImage width height srcStride src) {row : ℕ}
    (hrow : row < (evenDown height).toNat) :
    row * srcStride.toNat + (evenDown width).toNat * 4 ≤ src.length := by
  have hw := evenDown_le width
  have hh := evenDown_le height
  have hrows : (row + 1) * srcStride.toNat ≤ srcStride.toNat * height.toNat := by
    rw [Nat.mul_comm]
    exact Nat.mul_le_mul_left _ (by omega)
  unfold HoldsImage at himage
  rw [Nat.succ_mul] at hrows
  omega

/-- The colours of a pixel of the even-rounded image are bytes of the buffer. -/
theorem pixel_lt {width height srcStride : UInt32} {src : Bytes}
    (himage : HoldsImage width height srcStride src) {row col : ℕ}
    (hrow : row < (evenDown height).toNat) (hcol : col < (evenDown width).toNat) :
    row * srcStride.toNat + col * 4 + 2 < src.length := by
  have hle := row_le himage hrow
  omega

/-- No index is out of bounds when the buffer holds the image. -/
theorem bgraToNv12_some {width height srcStride : UInt32} {src : Bytes}
    (himage : HoldsImage width height srcStride src) :
    ∃ planes, bgraToNv12 src width height srcStride = some planes := by
  obtain ⟨rows, hrows⟩ : ∃ rows, yBytes src (evenDown width).toNat (evenDown height).toNat
      srcStride.toNat = some rows := by
    refine exists_mapM fun row hrow => exists_mapM fun col hcol => ?_
    exact ⟨_, luma_some (pixel_lt himage (List.mem_range.mp hrow) (List.mem_range.mp hcol))⟩
  obtain ⟨blocks, hblocks⟩ : ∃ blocks, uvBytes src (evenDown width).toNat
      (evenDown height).toNat srcStride.toNat = some blocks := by
    refine exists_mapM fun yb hyb => exists_mapM fun xb hxb => chroma_some fun px hpx => ?_
    obtain ⟨offset, hoffset, rfl⟩ := List.mem_map.mp hpx
    obtain ⟨hrow, hcol⟩ := block_lt (List.mem_range.mp hyb) (List.mem_range.mp hxb) hoffset
    exact pixel_lt himage hrow hcol
  rw [bgraToNv12_eq, hrows, hblocks]
  exact ⟨_, rfl⟩

/-! ### The crop -/

/-- The pixels of the first `h` rows and `w` columns, packed tightly. -/
def crop (src : Bytes) (w h stride : ℕ) : Bytes := rowBytes h (w * 4) stride src

theorem getElem?_rowBytes {rows row stride r c : ℕ} {src : Bytes}
    (hrows : ∀ r < rows, r * stride + row ≤ src.length) (hr : r < rows) (hc : c < row) :
    (rowBytes rows row stride src)[r * row + c]? = src[r * stride + c]? := by
  induction rows with
  | zero => exact absurd hr (Nat.not_lt_zero r)
  | succ rows ih =>
    have hlen := length_rowBytes fun r hr => hrows r (Nat.lt_succ_of_lt hr)
    rw [rowBytes_succ]
    rcases Nat.lt_succ_iff_lt_or_eq.mp hr with hlt | rfl
    · have hin : r * row + c < rows * row := by
        have hle := Nat.mul_le_mul_right row (Nat.succ_le_of_lt hlt)
        rw [Nat.succ_mul] at hle
        omega
      rw [List.getElem?_append_left (by rwa [hlen])]
      exact ih (fun r hr => hrows r (Nat.lt_succ_of_lt hr)) hlt
    · rw [List.getElem?_append_right (by omega), hlen, Nat.add_sub_cancel_left,
        List.getElem?_take_of_lt hc, List.getElem?_drop]

theorem crop_sameColours {w h stride : ℕ} {src : Bytes}
    (hrows : ∀ r < h, r * stride + w * 4 ≤ src.length) :
    SameColours w h (crop src w h stride) (w * 4) src stride := by
  intro row hrow col hcol c hc
  rw [Nat.add_assoc, Nat.add_assoc]
  exact getElem?_rowBytes hrows hrow (by omega)

theorem bgraToNv12_evenDown (src : Bytes) (width height srcStride : UInt32) :
    bgraToNv12 src (evenDown width) (evenDown height) srcStride =
      bgraToNv12 src width height srcStride := by
  rw [bgraToNv12_eq, bgraToNv12_eq, evenDown_evenDown, evenDown_evenDown]

/-- Converting the packed crop is converting the image. -/
theorem bgraToNv12_crop {width height srcStride : UInt32} {src : Bytes}
    (hstride : 4 * width.toNat ≤ srcStride.toNat) (himage : HoldsImage width height srcStride src) :
    bgraToNv12 (crop src (evenDown width).toNat (evenDown height).toNat srcStride.toNat)
        (evenDown width) (evenDown height) (4 * evenDown width) =
      bgraToNv12 src width height srcStride := by
  have hpacked : (4 * evenDown width).toNat = (evenDown width).toNat * 4 := by
    have hw := evenDown_le width
    have hlt := srcStride.toNat_lt
    rw [UInt32.toNat_mul, Nat.mul_comm]
    exact Nat.mod_eq_of_lt (by change (evenDown width).toNat * 4 < _; omega)
  have hsame := crop_sameColours fun r hr => row_le himage hr
  rw [← hpacked] at hsame
  rw [bgraToNv12_evenDown, bgraToNv12_congr hsame]

/-- Buffers that hold the image and agree on the colours of its even-rounded part are
converted to the same planes, those of the packed crop. Nothing is read out of bounds, and
the loops write every byte of the planes once. -/
theorem conversion_reads_colours (width height srcStride : UInt32) (src src' : Bytes)
    (hstride : 4 * width.toNat ≤ srcStride.toNat)
    (himage : HoldsImage width height srcStride src)
    (himage' : HoldsImage width height srcStride src')
    (hsame : SameColours (evenDown width).toNat (evenDown height).toNat src srcStride.toNat src'
      srcStride.toNat) :
    let w := (evenDown width).toNat
    let h := (evenDown height).toNat
    ∃ planes : Nv12Planes, planes.y.length = w * h ∧ planes.uv.length = w * (h / 2) ∧
      (∀ buffer ∈ [src, src'],
        bgraToNv12 buffer width height srcStride = some planes ∧
        writePlanes buffer width height srcStride =
          some (⟨planes.y, List.range (w * h)⟩, ⟨planes.uv, List.range (w * (h / 2))⟩) ∧
        bgraToNv12 (crop buffer w h srcStride.toNat) (evenDown width) (evenDown height)
          (4 * evenDown width) = some planes) := by
  intro w h
  obtain ⟨planes, hplanes⟩ := bgraToNv12_some himage
  have hplanes' : bgraToNv12 src' width height srcStride = some planes := by
    rw [← hplanes, bgraToNv12_congr hsame]
  obtain ⟨-, -, hy, huv⟩ := bgraToNv12_planes hplanes
  refine ⟨planes, by rw [hy, Nat.mul_comm], by rw [huv, Nat.mul_comm], ?_⟩
  have hbuffer : ∀ buffer ∈ [src, src'], HoldsImage width height srcStride buffer ∧
      bgraToNv12 buffer width height srcStride = some planes := by
    intro buffer hbuffer
    simp only [List.mem_cons, List.not_mem_nil, or_false] at hbuffer
    rcases hbuffer with rfl | rfl
    · exact ⟨himage, hplanes⟩
    · exact ⟨himage', hplanes'⟩
  intro buffer hmem
  obtain ⟨hholds, hconv⟩ := hbuffer buffer hmem
  refine ⟨hconv, ?_, ?_⟩
  · rw [writePlanes_eq, hconv]
    rfl
  · rw [bgraToNv12_crop hstride hholds, hconv]

/-- Three by three pixels of which the even part is red, with any byte elsewhere. -/
def redImage (other : UInt8) : Bytes :=
  let row := [0, 0, 255, other, 0, 0, 255] ++ List.replicate 5 other
  row ++ [other, other] ++ row ++ [other, other] ++ List.replicate 12 other

theorem conversion_reads_colours_red :
    ∃ planes, bgraToNv12 (redImage 7) 3 3 14 = some planes ∧
      bgraToNv12 (redImage 9) 3 3 14 = some planes := by
  obtain ⟨planes, -, -, hplanes⟩ := conversion_reads_colours 3 3 14 (redImage 7) (redImage 9)
    (by decide) (by unfold HoldsImage; decide) (by unfold HoldsImage; decide)
    (by unfold SameColours; decide)
  exact ⟨planes, (hplanes _ (by simp)).1, (hplanes _ (by simp)).1⟩

end HorizonCast
