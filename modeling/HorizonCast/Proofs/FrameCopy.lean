import HorizonCast.Lib.Collections
import HorizonCast.Spec.Nv12

/-! When the copy of a captured frame into the encoder's buffer is the frame cut to the
size of the encoder, and when it is not: nothing compares the two sizes. -/

namespace HorizonCast

open Text Collections

/-! ### Rows -/

/-- The bytes of some rows of a plane, `row` of each. -/
def rowBytes (rows row stride : ℕ) (src : Bytes) : Bytes :=
  (List.range rows).flatMap fun r => (src.drop (r * stride)).take row

theorem rowBytes_succ (rows row stride : ℕ) (src : Bytes) :
    rowBytes (rows + 1) row stride src =
      rowBytes rows row stride src ++ (src.drop (rows * stride)).take row := by
  simp [rowBytes, List.range_succ]

theorem length_rowBytes {rows row stride : ℕ} {src : Bytes}
    (h : ∀ r < rows, r * stride + row ≤ src.length) :
    (rowBytes rows row stride src).length = rows * row := by
  induction rows with
  | zero => simp [rowBytes]
  | succ rows ih =>
    have hlast := h rows (by omega)
    rw [rowBytes_succ, List.length_append, ih fun r hr => h r (by omega), List.length_take,
      List.length_drop, Nat.min_eq_left (by omega), Nat.succ_mul]

/-- A buffer with some bytes written at a position. -/
def blit (dst : Bytes) (o : ℕ) (bytes : Bytes) : Bytes :=
  dst.take o ++ bytes ++ dst.drop (o + bytes.length)

theorem length_blit {dst bytes : Bytes} {o : ℕ} (h : o + bytes.length ≤ dst.length) :
    (blit dst o bytes).length = dst.length := by
  rw [blit, List.length_append, List.length_append, List.length_take, List.length_drop,
    Nat.min_eq_left (by omega)]
  omega

/-- Writing on where the last write ended is one write. -/
theorem blit_blit {dst bytes : Bytes} {o : ℕ} (h : o + bytes.length ≤ dst.length) (more : Bytes) :
    blit (blit dst o bytes) (o + bytes.length) more = blit dst o (bytes ++ more) := by
  have hfront : (dst.take o ++ bytes).length = o + bytes.length := by
    rw [List.length_append, List.length_take, Nat.min_eq_left (by omega)]
  have htake : (blit dst o bytes).take (o + bytes.length) = dst.take o ++ bytes :=
    List.take_left' hfront
  have hdrop : (blit dst o bytes).drop (o + bytes.length + more.length) =
      dst.drop (o + (bytes ++ more).length) := by
    rw [blit, ← List.drop_drop, List.drop_left' hfront, List.drop_drop, List.length_append,
      Nat.add_assoc]
  rw [blit, htake, hdrop, blit, List.append_assoc (dst.take o)]

theorem slice_eq {buf : Bytes} {s n : ℕ} (h : s + n ≤ buf.length) :
    slice buf s (s + n) = some ((buf.drop s).take n) := by
  rw [slice, if_pos ⟨by omega, h⟩, List.drop_take, Nat.add_sub_cancel_left]

theorem length_take_drop {src : Bytes} {s row : ℕ} (h : s + row ≤ src.length) :
    ((src.drop s).take row).length = row := by
  rw [List.length_take, List.length_drop, Nat.min_eq_left (by omega)]

theorem copyRow_eq_some {row s o : ℕ} {src dst : Bytes} {out : Bytes × ℕ} :
    copyRow row src s dst o = some out ↔ o + row ≤ dst.length ∧ s + row ≤ src.length ∧
      out = (blit dst o ((src.drop s).take row), o + row) := by
  unfold copyRow
  by_cases hdst : o + row ≤ dst.length
  · by_cases hsrc : s + row ≤ src.length
    · simp [slice_eq hdst, slice_eq hsrc, blit, length_take_drop hsrc, hdst, hsrc, eq_comm]
    · have hnone : slice src s (s + row) = none := if_neg fun h => hsrc h.2
      simp [hnone, hsrc]
  · have hnone : slice dst o (o + row) = none := if_neg fun h => hdst h.2
    simp [hnone, hdst]

theorem copyRows_succ (rows row stride : ℕ) (src : Bytes) (out : Bytes × ℕ) :
    copyRows (rows + 1) row stride src out =
      (copyRows rows row stride src out).bind fun (dst, o) =>
        copyRow row src (rows * stride) dst o := by
  rw [copyRows, List.range_succ, List.foldlM_append]
  simp only [List.foldlM_cons, List.foldlM_nil, bind_pure]
  rfl

/-- A copy that does not panic finds all its rows and has room for them. -/
theorem copyRows_eq_some {rows row stride o : ℕ} {src dst : Bytes} {out : Bytes × ℕ}
    (hroom : o ≤ dst.length) :
    copyRows rows row stride src (dst, o) = some out ↔
      o + rows * row ≤ dst.length ∧ (∀ r < rows, r * stride + row ≤ src.length) ∧
        out = (blit dst o (rowBytes rows row stride src), o + rows * row) := by
  induction rows generalizing out with
  | zero => simp [copyRows, rowBytes, blit, hroom, eq_comm]
  | succ rows ih =>
    -- the rows before the last one are written, and the last one goes behind them
    have hstep : o + rows * row ≤ dst.length → (∀ r < rows, r * stride + row ≤ src.length) →
        (blit dst o (rowBytes rows row stride src)).length = dst.length ∧
          blit (blit dst o (rowBytes rows row stride src)) (o + rows * row)
            ((src.drop (rows * stride)).take row) =
          blit dst o (rowBytes (rows + 1) row stride src) := by
      intro hfit hrows
      have hlen := length_rowBytes hrows
      have hfit' : o + (rowBytes rows row stride src).length ≤ dst.length := by rwa [hlen]
      refine ⟨length_blit hfit', ?_⟩
      rw [rowBytes_succ, ← blit_blit hfit', hlen]
    have hall : (∀ r < rows + 1, r * stride + row ≤ src.length) ↔
        (∀ r < rows, r * stride + row ≤ src.length) ∧ rows * stride + row ≤ src.length :=
      Nat.forall_lt_succ_right
    rw [copyRows_succ, Option.bind_eq_some_iff, hall, Nat.succ_mul, ← Nat.add_assoc]
    constructor
    · rintro ⟨mid, hmid, hlast⟩
      obtain ⟨hfit, hrows, rfl⟩ := ih.mp hmid
      obtain ⟨hlen, hblit⟩ := hstep hfit hrows
      obtain ⟨hroom', hrow, rfl⟩ := copyRow_eq_some.mp hlast
      rw [hlen] at hroom'
      exact ⟨hroom', ⟨hrows, hrow⟩, by rw [hblit]⟩
    · rintro ⟨hfit, ⟨hrows, hrow⟩, rfl⟩
      have hfit' : o + rows * row ≤ dst.length := by omega
      obtain ⟨hlen, hblit⟩ := hstep hfit' hrows
      refine ⟨_, ih.mpr ⟨hfit', hrows, rfl⟩, copyRow_eq_some.mpr ⟨?_, hrow, ?_⟩⟩
      · rw [hlen]
        exact hfit
      · rw [hblit]

/-- What the copy of the planes needs of them and of the buffer, and what it leaves there. -/
theorem copyPlanes_eq_some {self : MfEncoder} {p : Nv12Planes} {dst out : Bytes} :
    self.copyPlanes p dst = some out ↔
      self.height.toNat * self.width.toNat + self.height.toNat / 2 * self.width.toNat ≤
          dst.length ∧
        (∀ r < self.height.toNat, r * p.yStride.toNat + self.width.toNat ≤ p.y.length) ∧
        (∀ r < self.height.toNat / 2, r * p.uvStride.toNat + self.width.toNat ≤ p.uv.length) ∧
        out = blit dst 0
          (rowBytes self.height.toNat self.width.toNat p.yStride.toNat p.y ++
            rowBytes (self.height.toNat / 2) self.width.toNat p.uvStride.toNat p.uv) := by
  unfold MfEncoder.copyPlanes
  generalize self.height.toNat = rows
  generalize self.width.toNat = row
  generalize p.yStride.toNat = yStride
  generalize p.uvStride.toNat = uvStride
  have hy : ∀ out, copyRows rows row yStride p.y (dst, 0) = some out ↔
      rows * row ≤ dst.length ∧ (∀ r < rows, r * yStride + row ≤ p.y.length) ∧
        out = (blit dst 0 (rowBytes rows row yStride p.y), rows * row) := by
    intro out
    rw [copyRows_eq_some (Nat.zero_le dst.length), Nat.zero_add]
  -- the UV rows go behind the Y rows
  have huv : rows * row ≤ dst.length → (∀ r < rows, r * yStride + row ≤ p.y.length) → ∀ out,
      copyRows (rows / 2) row uvStride p.uv
          (blit dst 0 (rowBytes rows row yStride p.y), rows * row) = some out ↔
        rows * row + rows / 2 * row ≤ dst.length ∧
          (∀ r < rows / 2, r * uvStride + row ≤ p.uv.length) ∧
          out = (blit dst 0
            (rowBytes rows row yStride p.y ++ rowBytes (rows / 2) row uvStride p.uv),
            rows * row + rows / 2 * row) := by
    intro hroom hrows out
    have hlen := length_rowBytes hrows
    have hfit : 0 + (rowBytes rows row yStride p.y).length ≤ dst.length := by omega
    have hblit := blit_blit hfit (rowBytes (rows / 2) row uvStride p.uv)
    rw [hlen, Nat.zero_add] at hblit
    rw [copyRows_eq_some (by rwa [length_blit hfit]), length_blit hfit, hblit]
  simp only [Option.bind_eq_bind, Option.bind_eq_some_iff, Option.some.injEq]
  constructor
  · rintro ⟨mid, hmid, last, hlast, rfl⟩
    obtain ⟨hroom, hrows, rfl⟩ := (hy mid).mp hmid
    obtain ⟨hfit, huvrows, rfl⟩ := (huv hroom hrows last).mp hlast
    exact ⟨hfit, hrows, huvrows, rfl⟩
  · rintro ⟨hfit, hrows, huvrows, rfl⟩
    have hroom : rows * row ≤ dst.length := by omega
    exact ⟨_, (hy _).mpr ⟨hroom, hrows, rfl⟩, _,
      (huv hroom hrows _).mpr ⟨hfit, huvrows, rfl⟩, rfl⟩

/-! ### Frames -/

/-- The rows of a plane, without padding. -/
def planeRows (plane : Bytes) (stride width rows : ℕ) : List Bytes :=
  (List.range rows).map fun r => (plane.drop (r * stride)).take width

def CapturedFrame.yRows (f : CapturedFrame) : List Bytes :=
  planeRows f.planes.y f.planes.yStride.toNat f.width.toNat f.height.toNat

def CapturedFrame.uvRows (f : CapturedFrame) : List Bytes :=
  planeRows f.planes.uv f.planes.uvStride.toNat f.width.toNat (f.height.toNat / 2)

/-- A frame as the capture backend delivers it: no stride is less than the width, and the
planes hold all rows, of the last one maybe not the padding. -/
structure Delivered (f : CapturedFrame) : Prop where
  yStride : f.width ≤ f.planes.yStride
  uvStride : f.width ≤ f.planes.uvStride
  yRows : ∀ r < f.height.toNat,
    r * f.planes.yStride.toNat + f.width.toNat ≤ f.planes.y.length
  uvRows : ∀ r < f.height.toNat / 2,
    r * f.planes.uvStride.toNat + f.width.toNat ≤ f.planes.uv.length

/-- The first `w` bytes of each of the first `h` rows, all of which are there. -/
def FirstBytes (h w : ℕ) (rows : List Bytes) (out : Bytes) : Prop :=
  h ≤ rows.length ∧ (∀ row ∈ rows.take h, w ≤ row.length) ∧ out = (rows.take h).flatMap (·.take w)

/-- The frame is at least as large as the encoder, unless the encoder takes no rows. -/
def Covers (self : MfEncoder) (f : CapturedFrame) : Prop :=
  self.height ≤ f.height ∧ (self.height = 0 ∨ self.width ≤ f.width)

theorem firstBytes_planeRows {h w stride width rows : ℕ} {plane : Bytes} (hh : h ≤ rows)
    (hw : h = 0 ∨ w ≤ width) (hrows : ∀ r < rows, r * stride + width ≤ plane.length) :
    FirstBytes h w (planeRows plane stride width rows) (rowBytes h w stride plane) := by
  have htake : (planeRows plane stride width rows).take h = planeRows plane stride width h := by
    rw [planeRows, ← List.map_take, List.take_range, Nat.min_eq_left hh, planeRows]
  refine ⟨by simp [planeRows, hh], ?_, ?_⟩
  · intro row hrow
    rw [htake] at hrow
    obtain ⟨r, hr, rfl⟩ := List.mem_map.mp hrow
    have hrh := List.mem_range.mp hr
    rw [length_take_drop (hrows r (by omega))]
    omega
  · rw [htake, planeRows, List.flatMap_map, rowBytes]
    refine List.flatMap_congr fun r hr => ?_
    have hrh := List.mem_range.mp hr
    rw [List.take_take, Nat.min_eq_left (by omega)]

theorem covers_of_firstBytes {h w stride width rows : ℕ} {plane out : Bytes}
    (hfirst : FirstBytes h w (planeRows plane stride width rows) out) :
    h ≤ rows ∧ (h = 0 ∨ w ≤ width) := by
  obtain ⟨hh, hw, -⟩ := hfirst
  have hrows : h ≤ rows := by simpa [planeRows] using hh
  refine ⟨hrows, ?_⟩
  rcases Nat.eq_zero_or_pos h with hzero | hpos
  · exact .inl hzero
  · have hmem : plane.take width ∈ (planeRows plane stride width rows).take h := by
      rw [planeRows, ← List.map_take, List.take_range, Nat.min_eq_left hrows]
      exact List.mem_map.mpr ⟨0, List.mem_range.mpr hpos, by simp⟩
    have hle := hw _ hmem
    rw [List.length_take] at hle
    exact .inr (by omega)

/-! ### The backend -/

theorem evenDown_even (n : UInt32) : (evenDown n).toNat % 2 = 0 := by
  have hmask : (~~~(1 : UInt32)).toNat % 2 ^ 1 = 0 := by decide
  have hmod := Nat.and_mod_two_pow (a := n.toNat) (b := (~~~(1 : UInt32)).toNat) (n := 1)
  rw [hmask, Nat.and_zero] at hmod
  rwa [evenDown, UInt32.toNat_and]

theorem length_chroma {src : Bytes} {pxs : List ℕ} {bytes : List UInt8}
    (h : chroma src pxs = some bytes) : bytes.length = 2 := by
  unfold chroma at h
  simp only [Option.bind_eq_bind, Option.bind_eq_some_iff, Option.some.injEq] at h
  obtain ⟨bs, -, gs, -, rs, -, rfl⟩ := h
  rfl

/-- A converted frame has planes of its rounded size, without padding. -/
theorem bgraToNv12_planes {src : Bytes} {width height stride : UInt32} {p : Nv12Planes}
    (h : bgraToNv12 src width height stride = some p) :
    p.yStride = evenDown width ∧ p.uvStride = evenDown width ∧
      p.y.length = (evenDown height).toNat * (evenDown width).toNat ∧
      p.uv.length = (evenDown height).toNat / 2 * (evenDown width).toNat := by
  unfold bgraToNv12 at h
  simp only [Option.bind_eq_bind, Option.bind_eq_some_iff, Option.some.injEq] at h
  obtain ⟨yPlane, hy, uvPlane, huv, rfl⟩ := h
  refine ⟨rfl, rfl, ?_, ?_⟩
  · have hlen := length_flatten_of_mapM hy fun row _ bytes hrow => length_of_mapM hrow
    rwa [List.length_range, List.length_range] at hlen
  · have hrows : ∀ bytes ∈ uvPlane.map List.flatten, bytes.length = (evenDown width).toNat := by
      intro bytes hbytes
      obtain ⟨row, hrow, rfl⟩ := List.mem_map.mp hbytes
      obtain ⟨yb, -, hyb⟩ := (mem_of_mapM huv).mp hrow
      have hlen := length_flatten_of_mapM hyb fun xb _ block hblock => length_chroma hblock
      have heven := evenDown_even width
      rw [List.length_range] at hlen
      omega
    rw [length_flatten_eq hrows, List.length_map, length_of_mapM huv, List.length_range]

/-- What Windows delivers meets what the copy takes for granted. -/
theorem toNv12_delivered {build : Build} {width height : Int32} {data : Bytes} {pts : Duration}
    {f : CapturedFrame} (h : toNv12 build (.bgra width height data) pts = some (some f)) :
    Delivered f := by
  simp only [toNv12, Option.bind_eq_bind, Option.bind_eq_some_iff, Option.some.injEq] at h
  obtain ⟨stride, -, planes, hplanes, rfl⟩ := h
  obtain ⟨hy, huv, hylen, huvlen⟩ := bgraToNv12_planes hplanes
  have hrow : ∀ w n, ∀ r < n, r * w + w ≤ n * w := fun w n r hr => by
    rw [← Nat.succ_mul]
    exact Nat.mul_le_mul_right w hr
  refine ⟨?_, ?_, ?_, ?_⟩
  · rw [hy]
    exact UInt32.le_refl _
  · rw [huv]
    exact UInt32.le_refl _
  · rw [hy, hylen]
    exact hrow _ _
  · rw [huv, huvlen]
    exact hrow _ _

/-! ### Samples -/

/-- An error, or a sample of the first bytes of the first rows. -/
def CopiedExactly (self : MfEncoder) (f : CapturedFrame) : Except Failure Sample → Prop
  | .ok sample => ∃ y uv, sample.buffer = y ++ uv ∧
      FirstBytes self.height.toNat self.width.toNat f.yRows y ∧
      FirstBytes (self.height.toNat / 2) self.width.toNat f.uvRows uv
  | .error (.err _) => True
  | .error _ => False

/-- The bytes of an encoder's input. -/
def MfEncoder.inputSize (self : MfEncoder) : ℕ :=
  self.width.toNat * self.height.toNat + self.width.toNat * (self.height.toNat / 2)

/-- A call whose failure is returned does no harm. -/
theorem copiedExactly_mfCall {self : MfEncoder} {f : CapturedFrame} {context : Str}
    {error : Option Str} {rest : Unit → Except Failure Sample}
    (h : CopiedExactly self f (rest ())) :
    CopiedExactly self f (mfCall context error >>= rest) := by
  cases error with
  | none => exact h
  | some e => trivial

theorem blit_whole {dst bytes : Bytes} (h : bytes.length = dst.length) :
    blit dst 0 bytes = bytes := by
  rw [blit, h, Nat.zero_add, List.drop_length, List.take_zero, List.nil_append, List.append_nil]

/-- A frame that is large enough is copied into a buffer of the size of the input. -/
theorem copyPlanes_of_covers {self : MfEncoder} {f : CapturedFrame} {dst : Bytes}
    (hframe : Delivered f) (hcovers : Covers self f) (hsize : dst.length = self.inputSize) :
    ∃ y uv, self.copyPlanes f.planes dst = some (y ++ uv) ∧
      FirstBytes self.height.toNat self.width.toNat f.yRows y ∧
      FirstBytes (self.height.toNat / 2) self.width.toNat f.uvRows uv := by
  obtain ⟨hheight, hwidth⟩ := hcovers
  have hw : self.height.toNat = 0 ∨ self.width.toNat ≤ f.width.toNat :=
    hwidth.imp_left fun h => by rw [h]; rfl
  have hh : self.height.toNat ≤ f.height.toNat := hheight
  have hhalf : self.height.toNat / 2 ≤ f.height.toNat / 2 := Nat.div_le_div_right hh
  have hy : ∀ r < self.height.toNat,
      r * f.planes.yStride.toNat + self.width.toNat ≤ f.planes.y.length := by
    intro r hr
    have hrow := hframe.yRows r (by omega)
    omega
  have huv : ∀ r < self.height.toNat / 2,
      r * f.planes.uvStride.toNat + self.width.toNat ≤ f.planes.uv.length := by
    intro r hr
    have hrow := hframe.uvRows r (by omega)
    omega
  have htotal : self.height.toNat * self.width.toNat + self.height.toNat / 2 * self.width.toNat =
      dst.length := by
    rw [hsize, MfEncoder.inputSize, Nat.mul_comm, Nat.mul_comm (self.height.toNat / 2)]
  have hcopy := copyPlanes_eq_some.mpr ⟨htotal.le, hy, huv, rfl⟩
  rw [blit_whole (by rw [List.length_append, length_rowBytes hy, length_rowBytes huv, htotal])]
    at hcopy
  exact ⟨_, _, hcopy, firstBytes_planeRows hh hw hframe.yRows,
    firstBytes_planeRows hhalf (hw.imp_left fun h => by rw [h]) hframe.uvRows⟩

theorem copiedExactly_of_covers {self : MfEncoder} {f : CapturedFrame} (hframe : Delivered f)
    (hcovers : Covers self f) (hsize : self.inputSize < 2 ^ 32) (build : Build)
    (mf : MediaFoundation) (pts : UInt64) :
    CopiedExactly self f (self.makeInputSample build mf f pts) := by
  have htotal : usizeAdd build (self.width.toNat * self.height.toNat)
      (self.width.toNat * (self.height.toNat / 2)) = some self.inputSize :=
    if_pos (hsize.le.trans (by decide))
  have hdst : ((List.range self.inputSize).map mf.memory).length = self.inputSize := by
    rw [List.length_map, List.length_range]
  obtain ⟨y, uv, hcopy, hy, huv⟩ := copyPlanes_of_covers hframe hcovers hdst
  have hfits : ¬ self.inputSize % 2 ^ 32 < self.inputSize := by
    rw [Nat.mod_eq_of_lt hsize]
    exact lt_irrefl _
  unfold MfEncoder.makeInputSample
  simp only [htotal]
  refine copiedExactly_mfCall (copiedExactly_mfCall ?_)
  rw [if_neg hfits, hcopy]
  iterate 6 apply copiedExactly_mfCall
  exact ⟨y, uv, rfl, hy, huv⟩

/-- Where Media Foundation returns no error, an exact copy shows that the frame is large
enough and the size of the input fits. -/
theorem covers_of_copiedExactly {self : MfEncoder} {f : CapturedFrame} {build : Build}
    {memory : ℕ → UInt8} {pts : UInt64}
    (h : CopiedExactly self f (self.makeInputSample build { memory } f pts)) :
    Covers self f ∧ self.inputSize < 2 ^ 32 := by
  unfold MfEncoder.makeInputSample at h
  cases htotal : usizeAdd build (self.width.toNat * self.height.toNat)
      (self.width.toNat * (self.height.toNat / 2)) with
  | none =>
    simp only [htotal] at h
    exact h.elim
  | some total =>
    simp only [htotal] at h
    change CopiedExactly self f (if total % 2 ^ 32 < total then _ else _) at h
    split_ifs at h with hfits
    · exact h.elim
    · cases hcopy : self.copyPlanes f.planes ((List.range total).map memory) with
      | none =>
        simp only [hcopy] at h
        exact h.elim
      | some buffer =>
        simp only [hcopy] at h
        obtain ⟨y, uv, -, hy, huv⟩ := h
        obtain ⟨hroom, -, -, -⟩ := copyPlanes_eq_some.mp hcopy
        obtain ⟨hheight, hwidth⟩ := covers_of_firstBytes hy
        have htotal' : total < 2 ^ 32 := by
          have hmod := Nat.mod_lt total (by decide : 0 < 2 ^ 32)
          omega
        rw [List.length_map, List.length_range] at hroom
        refine ⟨⟨hheight, hwidth.imp_left fun h => UInt32.toNat_inj.mp h⟩, ?_⟩
        rw [MfEncoder.inputSize, Nat.mul_comm, Nat.mul_comm _ (self.height.toNat / 2)]
        omega

/-- A delivered frame is copied exactly, whatever Media Foundation answers, just when it is
at least as large as the first frame and the size of the input fits a `u32`. -/
theorem frame_copied_iff (build : Build) (first frame : CapturedFrame) (fps bitrateKbps : UInt32)
    (hframe : Delivered frame) :
    let encoder := MfEncoder.new (.ofFirst first fps bitrateKbps)
    (∀ mf pts, CopiedExactly encoder frame (encoder.makeInputSample build mf frame pts)) ↔
      first.height ≤ frame.height ∧ (first.height = 0 ∨ first.width ≤ frame.width) ∧
        first.width.toNat * first.height.toNat + first.width.toNat * (first.height.toNat / 2) <
          2 ^ 32 := by
  intro encoder
  rw [← and_assoc]
  constructor
  · intro h
    exact covers_of_copiedExactly (h { memory := fun _ => 0 } 0)
  · rintro ⟨hsizes, hsize⟩ mf pts
    have hcovers : Covers encoder frame := hsizes
    exact copiedExactly_of_covers hframe hcovers hsize build mf pts

/-- A frame of zeros whose planes have no padding. -/
def blankFrame (width height : UInt32) : CapturedFrame where
  width
  height
  pts := ⟨0, by decide⟩
  planes := {
    y := List.replicate (width.toNat * height.toNat) 0
    yStride := width
    uv := List.replicate (width.toNat * (height.toNat / 2)) 0
    uvStride := width }

theorem blankFrame_delivered (width height : UInt32) : Delivered (blankFrame width height) := by
  have hrow : ∀ n, ∀ r < n, r * width.toNat + width.toNat ≤ width.toNat * n := by
    intro n r hr
    have hle := Nat.mul_le_mul_right width.toNat (Nat.succ_le_of_lt hr)
    rwa [Nat.succ_mul, Nat.mul_comm n] at hle
  refine ⟨UInt32.le_refl width, UInt32.le_refl width, ?_, ?_⟩
  · simp only [blankFrame, List.length_replicate]
    exact hrow _
  · simp only [blankFrame, List.length_replicate]
    exact hrow _

/-- A frame of another resolution, larger than the first one. -/
theorem frame_copied_larger :
    let encoder := MfEncoder.new (.ofFirst (blankFrame 2 2) 30 4000)
    CopiedExactly encoder (blankFrame 4 2)
      (encoder.makeInputSample .release { memory := fun _ => 0 } (blankFrame 4 2) 90000) :=
  (frame_copied_iff .release (blankFrame 2 2) (blankFrame 4 2) 30 4000
    (blankFrame_delivered 4 2)).mpr (by decide) _ _

/-- A frame of another resolution, smaller than the first one: its second row is looked for
outside the plane. -/
theorem frame_copied_smaller :
    let encoder := MfEncoder.new (.ofFirst (blankFrame 4 2) 30 4000)
    let outcome := encoder.makeInputSample .release { memory := fun _ => 0 } (blankFrame 2 2) 0
    Delivered (blankFrame 2 2) ∧ outcome = .error .panic ∧
      ¬ CopiedExactly encoder (blankFrame 2 2) outcome := by
  have hpanic : (MfEncoder.new (.ofFirst (blankFrame 4 2) 30 4000)).makeInputSample .release
      { memory := fun _ => 0 } (blankFrame 2 2) 0 = .error .panic := by decide +kernel
  exact ⟨blankFrame_delivered 2 2, hpanic, by rw [hpanic]; exact id⟩

end HorizonCast
