import MicroLearn.Fixed.Convolution
import MicroLearn.Proofs.Word

/-!
# The fused layer is the three layers one after another

The three layers are stated on whole images through the general convolution. The
fused layer never has the expanded image at hand; what carries it is that the ring
holds, after `top` rows have entered it, the last rows of the image before row `top`.
The scratch buffers may be unset or hold anything before, and whatever is stored for
rows below the image, no cell of it is ever read.
-/

set_option autoImplicit false

namespace MicroLearn.Fixed

open Number
open BottleneckShape
open List (flatMap_congr range range_succ)

/-- A layer on whole images: at every anchor the convolution, and of its sums the channel's
values. -/
def ConvShape.layer (s : ConvShape) (value : Nat → Int → Int) (input filter : Array Int) :
    Array Int :=
  ((range s.batches).flatMap fun n =>
    (anchors s.height s.filterHeight s.dilationH s.padUp s.padDown s.strideH).flatMap fun h =>
      (anchors s.width s.filterWidth s.dilationW s.padLeft s.padRight s.strideW).flatMap fun w =>
        (range s.groups).flatMap fun g =>
          (range s.outChannels).map fun c =>
            value (g*s.outChannels+c) (s.correlate input filter n g c h w)).toArray

theorem sum_over_congr (count : Nat) (f g : Nat → Int) (h : ∀ i < count, f i = g i) :
    sumOver count f = sumOver count g := by
  unfold sumOver
  congr 1
  exact List.map_congr_left fun i hi => h i (List.mem_range.1 hi)

theorem sum_over_one (f : Nat → Int) : sumOver 1 f = f 0 := by
  simp [sumOver, Number.total]

theorem anchors_getElem (size filter dilation : Nat) (low high : Int) (stride i : Nat)
    (hi : i < (anchors size filter dilation low high stride).length) :
    (anchors size filter dilation low high stride)[i] =
      (dilation*((filter-1)/2) : Nat)-low+(i*stride : Nat) := by
  simp [anchors, steps]

theorem anchors_single (size : Nat) :
    anchors size 1 1 0 0 1 = (range size).map fun (i : Nat) => (i : Int) := by
  simp [anchors, steps]

theorem layer_getElem (s : ConvShape) (value : Nat → Int → Int) (input filter : Array Int)
    (hs ws : List Int)
    (hhs : hs = anchors s.height s.filterHeight s.dilationH s.padUp s.padDown s.strideH)
    (hws : ws = anchors s.width s.filterWidth s.dilationW s.padLeft s.padRight s.strideW)
    (n i j g c : Nat) (hn : n < s.batches) (hi : i < hs.length) (hj : j < ws.length)
    (hg : g < s.groups) (hc : c < s.outChannels) :
    (s.layer value input filter)[((n*hs.length+i)*ws.length+j) *
        (s.groups*s.outChannels)+(g*s.outChannels+c)]? =
      some (value (g*s.outChannels+c) (s.correlate input filter n g c hs[i] ws[j])) := by
  have hindex : ((n*hs.length+i)*ws.length+j)*(s.groups*s.outChannels) +
      (g*s.outChannels+c) = n*(hs.length*(ws.length*(s.groups*s.outChannels))) +
        (i*(ws.length*(s.groups*s.outChannels)) +
          (j*(s.groups*s.outChannels)+(g*s.outChannels+c))) := by ring
  have hgc := cell_lt hg hc
  have hjgc := cell_lt hj hgc
  have hijgc := cell_lt hi hjgc
  unfold ConvShape.layer
  rw [← hhs, ← hws, hindex, List.getElem?_toArray]
  rw [flatMap_getElem _ _ _ _ n _ (by simpa using hn) hijgc]
  rw [flatMap_getElem _ _ _ _ i _ hi hjgc]
  rw [flatMap_getElem _ _ _ _ j _ hj hgc]
  rw [flatMap_getElem _ _ _ _ g _ (by simpa using hg) hc]
  · simp [hc]
  all_goals simp

namespace BottleneckShape

variable (s : BottleneckShape)

def rowAnchors : List Int := anchors s.height s.filterHeight 1 s.padUp s.padDown s.strideH

def colAnchors : List Int := anchors s.width s.filterWidth 1 s.padLeft s.padRight s.strideW

def pointwise (height width inChannels outChannels : Nat) : ConvShape where
  batches := s.batches
  height := height
  width := width
  inChannels := inChannels
  filterHeight := 1
  filterWidth := 1
  filterChannels := inChannels
  outChannels := outChannels
  outHeight := height
  outWidth := width
  groups := 1
  padUp := 0
  padDown := 0
  padLeft := 0
  padRight := 0
  strideH := 1
  strideW := 1
  dilationH := 1
  dilationW := 1

def channelwise : ConvShape where
  batches := s.batches
  height := s.height
  width := s.width
  inChannels := s.midChannels
  filterHeight := s.filterHeight
  filterWidth := s.filterWidth
  filterChannels := 1
  outChannels := 1
  outHeight := s.outHeight
  outWidth := s.outWidth
  groups := s.midChannels
  padUp := s.padUp
  padDown := s.padDown
  padLeft := s.padLeft
  padRight := s.padRight
  strideH := s.strideH
  strideW := s.strideW
  dilationH := 1
  dilationW := 1

/-- The sizes a layer is called with: the output has a cell for every anchor, and the window of an
output row begins where the rows of the one before end or earlier. -/
structure Regular : Prop where
  padUp_nonneg : 0 ≤ s.padUp
  stride_pos : 0 < s.strideH
  window : s.strideH+s.padUp ≤ s.filterHeight
  first_window : (s.filterHeight : Int)-s.padUp-s.strideH ≤ s.height
  rows : s.outHeight = s.rowAnchors.length
  cols : s.outWidth = s.colAnchors.length

end BottleneckShape

namespace Bottleneck

variable (m : Scaling) (b : Bottleneck) (input : Array Int)
variable {t t₀ : Buffers}

def expandValue (k : Nat) : Int → Int :=
  activate m b b.expandScale b.expandLimit (b.expand.bias.getD k 0) (b.expand.scale.getD k 0)

def depthValue (k : Nat) : Int → Int :=
  activate m b b.depthScale b.depthLimit (b.depth.bias.getD k 0) (b.depth.scale.getD k 0)

def projectValue (o : Nat) (sum : Int) : Int :=
  rescale m b.words.out b.projectScale
    (affine m b b.projectScale (b.project.bias.getD o 0) (b.project.scale.getD o 0) sum)

def expandedImage : Array Int :=
  (b.shape.pointwise b.shape.height b.shape.width b.shape.inChannels b.shape.midChannels).layer
    (expandValue m b) input b.expand.filter

def filteredImage : Array Int :=
  b.shape.channelwise.layer (depthValue m b) (expandedImage m b input) b.depth.filter

def unfused : Array Int :=
  (b.shape.pointwise b.shape.outHeight b.shape.outWidth b.shape.midChannels
    b.shape.outChannels).layer
    (projectValue m b) (filteredImage m b input) b.project.filter

/-- Buffers and weights of the sizes that the shape tells. -/
structure Sized (t : Buffers) : Prop where
  input : input.size = b.shape.batches*b.shape.height*b.shape.width*b.shape.inChannels
  expandFilter : b.expand.filter.size = b.shape.inChannels*b.shape.midChannels
  expandBias : b.expand.bias.size = b.shape.midChannels
  expandScale : b.expand.scale.size = b.shape.midChannels
  depthFilter : b.depth.filter.size = b.shape.midChannels*b.shape.filterHeight*b.shape.filterWidth
  depthBias : b.depth.bias.size = b.shape.midChannels
  depthScale : b.depth.scale.size = b.shape.midChannels
  projectFilter : b.project.filter.size = b.shape.midChannels*b.shape.outChannels
  projectBias : b.project.bias.size = b.shape.outChannels
  projectScale : b.project.scale.size = b.shape.outChannels
  ring : t.ring.size = b.shape.filterHeight*b.shape.width*b.shape.midChannels
  pixel : t.pixel.size = b.shape.midChannels
  output : t.output.size = b.shape.batches*b.shape.outHeight*b.shape.outWidth*b.shape.outChannels

def expandedCell (n y x k : Nat) : Int :=
  expandValue m b k (sumOver b.shape.inChannels fun c =>
    input.getD (((n*b.shape.height+y)*b.shape.width+x)*b.shape.inChannels+c) 0 *
      b.expand.filter.getD (c*b.shape.midChannels+k) 0)

/-- The sum of the depthwise layer at an anchor, taps outside the image counting as zero. -/
def windowSum (n : Nat) (h w : Int) (g : Nat) : Int :=
  sumOver b.shape.filterHeight fun (p : Nat) =>
    let y := h+((p : Int)-((b.shape.filterHeight-1)/2 : Nat))
    if y < 0 ∨ y ≥ b.shape.height then 0
    else
      sumOver b.shape.filterWidth fun (q : Nat) =>
        let x := w+((q : Int)-((b.shape.filterWidth-1)/2 : Nat))
        if x < 0 ∨ x ≥ b.shape.width then 0
        else
          expandedCell m b input n y.toNat x.toNat g *
            b.depth.filter.getD ((g*b.shape.filterHeight+p)*b.shape.filterWidth+q) 0

def filteredCell (n i j g : Nat) : Int :=
  depthValue m b g (windowSum m b input n (b.shape.rowAnchors.getD i 0)
    (b.shape.colAnchors.getD j 0) g)

def outputCell (n i j o : Nat) : Int :=
  projectValue m b o (sumOver b.shape.midChannels fun k =>
    filteredCell m b input n i j k*b.project.filter.getD (k*b.shape.outChannels+o) 0)

def pixelCells (n i j : Nat) : List Int :=
  (range b.shape.outChannels).map (outputCell m b input n i j)

def rowOutput (n i : Nat) : List Int :=
  (range b.shape.outWidth).flatMap (pixelCells m b input n i)

def imageOutput (n : Nat) : List Int :=
  (range b.shape.outHeight).flatMap (rowOutput m b input n)

def before (n i j : Nat) : List Int :=
  (range n).flatMap (imageOutput m b input)++((range i).flatMap (rowOutput m b input n) ++
      (range j).flatMap (pixelCells m b input n i))

theorem pointwise_correlate (s : BottleneckShape) (height width ins outs : Nat)
    (image filter : Array Int) (n y x k : Nat) (hy : y < height) (hx : x < width) :
    (s.pointwise height width ins outs).correlate image filter n 0 k y x = sumOver ins fun c =>
        image.getD (((n*height+y)*width+x)*ins+c) 0*filter.getD (c*outs+k) 0 := by
  have hy' : ¬((y : Int) < 0) := by omega
  have hx' : ¬((x : Int) < 0) := by omega
  simp [ConvShape.correlate, pointwise, sum_over_one, ConvShape.inputIndex,
    ConvShape.filterIndex, Nat.not_le.2 hy, Nat.not_le.2 hx, hx']

theorem pointwise_layer (s : BottleneckShape) (height width ins outs : Nat)
    (value : Nat → Int → Int) (image filter : Array Int) :
    (s.pointwise height width ins outs).layer value image filter =
      ((range s.batches).flatMap fun n => (range height).flatMap fun y =>
        (range width).flatMap fun x => (range outs).map fun k =>
          value k (sumOver ins fun c =>
            image.getD (((n*height+y)*width+x)*ins+c) 0 *
              filter.getD (c*outs+k) 0)).toArray := by
  unfold ConvShape.layer
  congr 1
  simp only [pointwise, anchors_single, List.flatMap_map, List.range_one,
    List.flatMap_singleton, Nat.zero_mul, Nat.zero_add]
  refine flatMap_congr fun n _ => flatMap_congr fun y hy =>
    flatMap_congr fun x hx => List.map_congr_left fun k _ => ?_
  congr 1
  exact pointwise_correlate s height width ins outs image filter n y x k
    (List.mem_range.1 hy) (List.mem_range.1 hx)

theorem getD_of_getElem (a : Array Int) (i : Nat) (v : Int) (h : a[i]? = some v) :
    a.getD i 0 = v := by
  simp [h]

theorem expandedImage_cell (n y x k : Nat) (hn : n < b.shape.batches) (hy : y < b.shape.height)
    (hx : x < b.shape.width) (hk : k < b.shape.midChannels) : (expandedImage m b input).getD
        (((n*b.shape.height+y)*b.shape.width+x)*b.shape.midChannels+k) 0 =
      expandedCell m b input n y x k := by
  let s := b.shape.pointwise b.shape.height b.shape.width b.shape.inChannels b.shape.midChannels
  have h := layer_getElem s (expandValue m b) input b.expand.filter _ _
    (anchors_single b.shape.height).symm (anchors_single b.shape.width).symm n y x 0 k hn
    (by simpa using hy) (by simpa using hx) Nat.one_pos hk
  have hc := pointwise_correlate b.shape b.shape.height b.shape.width b.shape.inChannels
    b.shape.midChannels input b.expand.filter n y x k hy hx
  simp only [List.getElem_map, List.getElem_range, s, hc] at h
  apply getD_of_getElem
  simpa [pointwise, expandedImage, expandedCell] using h

theorem channelwise_correlate (n : Nat) (hn : n < b.shape.batches) (h w : Int) (g : Nat)
    (hg : g < b.shape.midChannels) :
    b.shape.channelwise.correlate (expandedImage m b input) b.depth.filter n g 0 h w =
      windowSum m b input n h w g := by
  refine sum_over_congr _ _ _ fun p _ => ?_
  simp only [channelwise, Nat.cast_one, one_mul]
  split
  · rfl
  · refine sum_over_congr _ _ _ fun q _ => ?_
    split
    · rfl
    · have hcell := expandedImage_cell m b input n
        (h+((p : Int)-((b.shape.filterHeight-1)/2 : Nat))).toNat
        (w+((q : Int)-((b.shape.filterWidth-1)/2 : Nat))).toNat g hn
        (by omega) (by omega) hg
      simp only [sum_over_one, ConvShape.inputIndex, ConvShape.filterIndex, Nat.mul_one,
        Nat.add_zero]
      rw [hcell]

theorem filteredImage_cell (hr : b.shape.Regular) (n i j g : Nat) (hn : n < b.shape.batches)
    (hi : i < b.shape.outHeight) (hj : j < b.shape.outWidth) (hg : g < b.shape.midChannels) :
    (filteredImage m b input).getD
        (((n*b.shape.outHeight+i)*b.shape.outWidth+j)*b.shape.midChannels+g) 0 =
      filteredCell m b input n i j g := by
  have hi' : i < b.shape.rowAnchors.length := by rw [← hr.rows]; exact hi
  have hj' : j < b.shape.colAnchors.length := by rw [← hr.cols]; exact hj
  have h := layer_getElem b.shape.channelwise (depthValue m b) (expandedImage m b input)
    b.depth.filter b.shape.rowAnchors b.shape.colAnchors rfl rfl n i j g 0 hn hi' hj' hg Nat.one_pos
  have hc := channelwise_correlate m b input n hn b.shape.rowAnchors[i] b.shape.colAnchors[j] g hg
  have hrow : b.shape.rowAnchors.getD i 0 = b.shape.rowAnchors[i] := by simp [hi']
  have hcol : b.shape.colAnchors.getD j 0 = b.shape.colAnchors[j] := by simp [hj']
  rw [hc, ← hr.rows, ← hr.cols] at h
  apply getD_of_getElem
  unfold filteredCell filteredImage
  rw [hrow, hcol]
  simpa only [channelwise, Nat.mul_one, Nat.add_zero] using h

theorem unfused_eq (hr : b.shape.Regular) :
    unfused m b input = (before m b input b.shape.batches 0 0).toArray := by
  unfold unfused before
  rw [pointwise_layer]
  congr 1
  simp only [List.range_zero, List.flatMap_nil, List.append_nil]
  refine flatMap_congr fun n hn => flatMap_congr fun i hi =>
    flatMap_congr fun j hj => List.map_congr_left fun o _ => ?_
  congr 1
  refine sum_over_congr _ _ _ fun k hk => ?_
  rw [filteredImage_cell m b input hr n i j k (List.mem_range.1 hn) (List.mem_range.1 hi)
    (List.mem_range.1 hj) hk]

/-- After `top` rows have entered the ring, it holds the last rows of the image before row `top`. -/
structure Holds (n top : Nat) (ring : Cells) : Prop where
  size : ring.size = b.shape.filterHeight*b.shape.width*b.shape.midChannels
  rows : ∀ y x k, y < b.shape.height → y < top → top ≤ y+b.shape.filterHeight →
    x < b.shape.width → k < b.shape.midChannels →
    ring.read? ((y % b.shape.filterHeight*b.shape.width+x)*b.shape.midChannels+k) =
      some (expandedCell m b input n y x k)

def rowOf (n y : Nat) : List Int :=
  b.rowCells.map fun (x,k) => expandedCell m b input n y x k

theorem rowCells_length : b.rowCells.length = b.shape.width*b.shape.midChannels := by
  unfold rowCells
  simp

theorem rowOf_getElem (n y x k : Nat) (hx : x < b.shape.width) (hk : k < b.shape.midChannels) :
    (rowOf m b input n y)[x*b.shape.midChannels+k]? = some (expandedCell m b input n y x k) := by
  have hcell : b.rowCells[x*b.shape.midChannels+k]? = some (x,k) := by
    unfold rowCells
    rw [flatMap_getElem _ _ b.shape.midChannels (by simp) x k (by simpa using hx) hk]
    simp [hk]
  simp [rowOf, hcell]

variable {m b input} {n i j g : Nat} {ring pixel : Cells} {below : List (Option Int)}

theorem activate_some (f : AffineFilter) (s : StageScale) (limit sum : Int) (k : Nat)
    (hb : k < f.bias.size) (hw : k < f.scale.size) : activate? m b f s limit sum k =
      some (activate m b s limit (f.bias.getD k 0) (f.scale.getD k 0) sum) := by
  simp [activate?, hb, hw]

theorem expandedRow_eq (hs : Sized b input t) {y} (hn : n < b.shape.batches)
    (hy : y < b.shape.height) : expandedRow m b input n y = some (rowOf m b input n y) := by
  refine mapM_some_of_forall _ _ _ ?_
  rintro ⟨x,k⟩ hxk
  obtain ⟨hx,hk⟩ : x < b.shape.width ∧ k < b.shape.midChannels := by
    simpa [rowCells] using hxk
  show (sumOver? b.shape.inChannels _ >>= fun sum => activate? m b b.expand b.expandScale
    b.expandLimit sum k) = _
  rw [sum_over_of_forall _ _ (fun c => input.getD
    (((n*b.shape.height+y)*b.shape.width+x)*b.shape.inChannels+c) 0 *
      b.expand.filter.getD (c*b.shape.midChannels+k) 0)]
  · exact activate_some _ _ _ _ _ (hs.expandBias ▸ hk) (hs.expandScale ▸ hk)
  · intro c hc
    have hin := hs.input ▸ cell_lt (cell_lt (cell_lt hn hy) hx) hc
    have hfilter := hs.expandFilter ▸ cell_lt hc hk
    simp [hin, hfilter]

theorem slot_ne {y top f} (h1 : y < top) (h2 : top+1 ≤ y+f) : y % f ≠ top % f := by
  intro h
  have hd : (top-y) % f = 0 := Nat.sub_mod_eq_zero_of_mod_eq h.symm
  rw [Nat.mod_eq_of_lt (by omega)] at hd
  omega

theorem blocks_apart {p q c len : Nat} (hne : p ≠ q) (hc : c < len) :
    p*len+c < q*len ∨ q*len+len ≤ p*len+c := by
  rcases Nat.lt_or_gt_of_ne hne with h | h
  · have := row_end_le len h
    omega
  · have := row_end_le len h
    omega

theorem storeRow_holds {top} (row : List (Option Int)) (hf : 0 < b.shape.filterHeight)
    (hring : Holds m b input n top ring) (hlen : row.length = b.shape.width*b.shape.midChannels)
    (hrow : top < b.shape.height → row = (rowOf m b input n top).map some) :
    ∃ r, storeRow b ring (top % b.shape.filterHeight) row = some r ∧
    Holds m b input n (top+1) r := by
  have hslot : top % b.shape.filterHeight < b.shape.filterHeight := Nat.mod_lt _ hf
  have hfit : top % b.shape.filterHeight*(b.shape.width*b.shape.midChannels)+row.length ≤
      ring.size := by
    rw [hlen, hring.size, Nat.mul_assoc]
    exact row_end_le _ hslot
  obtain ⟨r,hr,hsize,hin,hout⟩ := store_from_spec row ring _ hfit
  refine ⟨r,hr,⟨hsize.trans hring.size,?_⟩⟩
  intro y x k hy htop hwin hx hk
  have hcell := cell_lt hx hk
  have hplace : (y % b.shape.filterHeight*b.shape.width+x)*b.shape.midChannels+k =
      y % b.shape.filterHeight*(b.shape.width*b.shape.midChannels) +
        (x*b.shape.midChannels+k) := by ring
  unfold Cells.read?
  rw [hplace]
  by_cases hyt : y = top
  · subst hyt
    have hv := hin (x*b.shape.midChannels+k) (by omega)
    have hget : row[x*b.shape.midChannels+k]? = some (some (expandedCell m b input n y x k)) := by
      rw [hrow hy, List.getElem?_map, rowOf_getElem m b input n y x k hx hk]
      rfl
    rw [hv, ← List.getElem?_eq_getElem, hget]
    rfl
  · have hold := hring.rows y x k hy (by omega) (by omega) hx hk
    have hne : y % b.shape.filterHeight ≠ top % b.shape.filterHeight := slot_ne (by omega) hwin
    rw [hplace] at hold
    rw [hout _ (by rw [hlen]; exact blocks_apart hne hcell)]
    exact hold

theorem rowOf_length (n y : Nat) :
    (rowOf m b input n y).length = b.shape.width*b.shape.midChannels := by
  simp [rowOf, rowCells_length]

section Rows

variable (hs : Sized b input t) (hr : b.shape.Regular)

include hs hr

theorem prefill_holds (hn : n < b.shape.batches) (h : ring.size = t.ring.size) :
    ∃ r, prefill m b input n ring = some r ∧ Holds m b input n b.margin r := by
  have hpad := hr.padUp_nonneg
  have hfirst := hr.first_window
  refine foldlM_range _ _ (Holds m b input n) ring ⟨h.trans hs.ring,by simp⟩ ?_
  intro y hy r hold
  unfold margin at hy
  have hrow := expandedRow_eq (m := m) hs hn (show y < b.shape.height by omega)
  have hslot : y % b.shape.filterHeight = y := Nat.mod_eq_of_lt (by omega)
  obtain ⟨r',hr',hnew⟩ := storeRow_holds ((rowOf m b input n y).map some) (by omega) hold
    (by simp [rowOf_length]) fun _ => rfl
  rw [hslot] at hr'
  exact ⟨r',by simp [hrow, hr'],hnew⟩

theorem advance_holds (hbelow : below.length = b.shape.width*b.shape.midChannels)
    (hn : n < b.shape.batches) (h : Holds m b input n (b.margin+i*b.shape.strideH) ring) :
    ∃ r, advance m b (some below) input n i ring = some r ∧
      Holds m b input n (b.margin+(i+1)*b.shape.strideH) r := by
  have hwin := hr.window
  have hpad := hr.padUp_nonneg
  rw [show b.margin+(i+1)*b.shape.strideH = b.margin+i*b.shape.strideH+b.shape.strideH by ring]
  refine foldlM_range _ _ (fun d => Holds m b input n (b.margin+i*b.shape.strideH+d)) ring h ?_
  intro d _ r hold
  have htop : d+b.margin+i*b.shape.strideH = b.margin+i*b.shape.strideH+d := by ring
  rw [htop]
  by_cases hy : b.margin+i*b.shape.strideH+d < b.shape.height
  · obtain ⟨r',hr',hnew⟩ := storeRow_holds _ (by omega) hold (by simp [rowOf_length]) fun _ => rfl
    exact ⟨r',by simp [hy, expandedRow_eq hs hn hy, hr'],hnew⟩
  · obtain ⟨r',hr',hnew⟩ := storeRow_holds below (by omega) hold hbelow fun h => absurd h hy
    exact ⟨r',by simp [hy, hr'],hnew⟩

theorem depthSum_eq (hi : i < b.shape.rowAnchors.length) (hg : g < b.shape.midChannels) (w : Int)
    (h : Holds m b input n (b.margin+(i+1)*b.shape.strideH) ring) :
    depthSum b ring b.shape.rowAnchors[i] w g =
      some (windowSum m b input n b.shape.rowAnchors[i] w g) := by
  have hwin := hr.window
  have hmargin : (b.margin : Int) = b.shape.filterHeight-b.shape.padUp-b.shape.strideH := by
    unfold margin
    omega
  have hanchor : b.shape.rowAnchors[i] =
      ((1*((b.shape.filterHeight-1)/2) : Nat) : Int)-b.shape.padUp +
        (i*b.shape.strideH : Nat) := anchors_getElem _ _ _ _ _ _ i hi
  have htop : b.margin+(i+1)*b.shape.strideH =
      b.margin+i*b.shape.strideH+b.shape.strideH := by ring
  refine sum_over_of_forall _ _ _ fun p hp => ?_
  dsimp only
  split
  · rfl
  · refine sum_over_of_forall _ _ _ fun q hq => ?_
    split
    · rfl
    · rename_i hy hx
      -- the row of the tap lies in the window, so it is one of the rows the ring holds
      have hcell := h.rows
        (b.shape.rowAnchors[i]+((p : Int)-((b.shape.filterHeight-1)/2 : Nat))).toNat
        (w+((q : Int)-((b.shape.filterWidth-1)/2 : Nat))).toNat g
        (by omega) (by omega) (by omega) (by omega) hg
      have hfilter := hs.depthFilter ▸ cell_lt (cell_lt hg hp) hq
      rw [hcell]
      simp [hfilter]

theorem depthwise_eq (hi : i < b.shape.rowAnchors.length) (hj : j < b.shape.colAnchors.length)
    (h : Holds m b input n (b.margin+(i+1)*b.shape.strideH) ring)
    (hp : pixel.size = b.shape.midChannels) :
    ∃ r, depthwise m b ring b.shape.rowAnchors[i] b.shape.colAnchors[j] pixel = some r ∧
      r.size = b.shape.midChannels ∧
      ∀ k < b.shape.midChannels, r.read? k = some (filteredCell m b input n i j k) := by
  refine foldlM_range _ _ (fun g (r : Cells) => r.size = b.shape.midChannels ∧
    ∀ k < g, r.read? k = some (filteredCell m b input n i j k)) pixel
    ⟨hp,fun k hk => absurd hk (Nat.not_lt_zero k)⟩ ?_
  intro g hg r ⟨hsize,hcells⟩
  have hsum := depthSum_eq hs hr hi hg b.shape.colAnchors[j] h
  have hval : activate? m b b.depth b.depthScale b.depthLimit
      (windowSum m b input n b.shape.rowAnchors[i] b.shape.colAnchors[j] g) g =
        some (filteredCell m b input n i j g) := by
    rw [activate_some _ _ _ _ _ (hs.depthBias ▸ hg) (hs.depthScale ▸ hg)]
    simp [filteredCell, depthValue, hi, hj]
  refine ⟨r.setIfInBounds g (some (filteredCell m b input n i j g)),?_,by simpa using hsize,?_⟩
  · simp [hsum, hval, store_some, hsize, hg]
  · intro k hk
    by_cases hkg : k = g
    · subst hkg
      simp [Cells.read?, hsize, hg]
    · have hold := hcells k (by omega)
      simpa [Cells.read?, Ne.symm hkg] using hold

end Rows

theorem projected_eq (hs : Sized b input t)
    (hp : ∀ k < b.shape.midChannels, pixel.read? k = some (filteredCell m b input n i j k)) :
    projected m b pixel = some (pixelCells m b input n i j) := by
  refine mapM_some_of_forall _ _ _ fun o ho => ?_
  have ho' : o < b.shape.outChannels := List.mem_range.1 ho
  have hb : o < b.project.bias.size := hs.projectBias ▸ ho'
  have hw : o < b.project.scale.size := hs.projectScale ▸ ho'
  rw [sum_over_of_forall _ _ (fun k => filteredCell m b input n i j k *
    b.project.filter.getD (k*b.shape.outChannels+o) 0)]
  · simp [hb, hw, outputCell, projectValue]
  · intro k hk
    have hfilter := hs.projectFilter ▸ cell_lt hk ho'
    simp [hp k hk, hfilter]

variable (m b input n i j)

theorem pixelCells_length : (pixelCells m b input n i j).length = b.shape.outChannels := by
  simp [pixelCells]

theorem rowOutput_length :
    (rowOutput m b input n i).length = b.shape.outWidth*b.shape.outChannels := by
  unfold rowOutput
  rw [flatMap_length _ _ b.shape.outChannels fun j _ => pixelCells_length m b input n i j]
  simp

theorem imageOutput_length : (imageOutput m b input n).length =
    b.shape.outHeight*(b.shape.outWidth*b.shape.outChannels) := by
  unfold imageOutput
  rw [flatMap_length _ _ _ fun i _ => rowOutput_length m b input n i]
  simp

theorem before_length : (before m b input n i j).length =
    ((n*b.shape.outHeight+i)*b.shape.outWidth+j)*b.shape.outChannels := by
  unfold before
  rw [List.length_append, List.length_append, flatMap_length _ _ _ fun n _ =>
    imageOutput_length m b input n, flatMap_length _ _ _ fun i _ => rowOutput_length m b input n i,
    flatMap_length _ _ _ fun j _ => pixelCells_length m b input n i j]
  simp only [List.length_range]
  ring

theorem before_pixel :
    before m b input n i (j+1) = before m b input n i j++pixelCells m b input n i j := by
  simp [before, range_succ]

theorem before_row : before m b input n i b.shape.outWidth = before m b input n (i+1) 0 := by
  simp [before, range_succ, rowOutput]

theorem before_image : before m b input n b.shape.outHeight 0 = before m b input (n+1) 0 0 := by
  simp [before, range_succ, imageOutput]

/-- The output is right up to a pixel, and the buffers have kept their sizes. -/
structure Progress (t : Buffers) (n i j : Nat) : Prop where
  pixel : t.pixel.size = b.shape.midChannels
  output : t.output.size = b.shape.batches*b.shape.outHeight*b.shape.outWidth*b.shape.outChannels
  done : before m b input n i j <+: t.output.toList

variable {m b input n i j}

section Steps

variable (hs : Sized b input t₀) (hr : b.shape.Regular) (hn : n < b.shape.batches)

include hs hr hn

theorem pixel_step (hi : i < b.shape.rowAnchors.length) (hj : j < b.shape.colAnchors.length)
    (hring : Holds m b input n (b.margin+(i+1)*b.shape.strideH) t.ring)
    (ht : Progress m b input t n i j) :
    ∃ r, outputPixel m b n i b.shape.rowAnchors[i] t (b.shape.colAnchors[j],j) = some r ∧
      r.ring = t.ring ∧ Progress m b input r n i (j+1) := by
  obtain ⟨pixel,hpixel,hsize,hcells⟩ := depthwise_eq hs hr hi hj hring ht.pixel
  have hvalues := projected_eq hs hcells
  have hi' : i < b.shape.outHeight := hr.rows ▸ hi
  have hj' : j < b.shape.outWidth := hr.cols ▸ hj
  have hfit : (before m b input n i j).length+(pixelCells m b input n i j).length ≤
      t.output.size := by
    rw [before_length, pixelCells_length, ht.output]
    exact row_end_le _ (cell_lt (cell_lt hn hi') hj')
  obtain ⟨output,hout,hosize,hdone⟩ := store_from_prefix _ _ t.output ht.done hfit
  rw [before_length] at hout
  refine ⟨⟨t.ring,pixel,output⟩,?_,rfl,⟨hsize,hosize.trans ht.output,?_⟩⟩
  · simp [outputPixel, hpixel, hvalues, hout]
  · rw [before_pixel]
    exact hdone

theorem row_step (hbelow : below.length = b.shape.width*b.shape.midChannels)
    (hi : i < b.shape.rowAnchors.length)
    (hring : Holds m b input n (b.margin+i*b.shape.strideH) t.ring)
    (ht : Progress m b input t n i 0) :
    ∃ r, outputRow m b (some below) input n t (b.shape.rowAnchors[i],i) = some r ∧
      Holds m b input n (b.margin+(i+1)*b.shape.strideH) r.ring ∧
      Progress m b input r n (i+1) 0 := by
  obtain ⟨ring,hadvance,hholds⟩ := advance_holds hs hr hbelow hn hring
  obtain ⟨r,hr',hsame,hdone⟩ := foldlM_zipIdx (outputPixel m b n i b.shape.rowAnchors[i])
    b.shape.colAnchors (fun j r => r.ring = ring ∧ Progress m b input r n i j) { t with ring }
    ⟨rfl,⟨ht.pixel,ht.output,ht.done⟩⟩ fun j hj u ⟨hu,hp⟩ => by
      obtain ⟨r,hr',hsame,hnext⟩ := pixel_step hs hr hn hi hj (hu ▸ hholds) hp
      exact ⟨r,hr',hsame.trans hu,hnext⟩
  rw [← hr.cols] at hdone
  refine ⟨r,?_,hsame ▸ hholds,⟨hdone.pixel,hdone.output,before_row m b input n i ▸ hdone.done⟩⟩
  simp only [outputRow, hadvance]
  exact hr'

theorem image_step (hbelow : below.length = b.shape.width*b.shape.midChannels)
    (hring : t.ring.size = t₀.ring.size)
    (ht : Progress m b input t n 0 0) :
    ∃ r, image m b (some below) input t n = some r ∧ r.ring.size = t₀.ring.size ∧
      Progress m b input r (n+1) 0 0 := by
  obtain ⟨ring,hprefill,hholds⟩ := prefill_holds (m := m) hs hr hn hring
  obtain ⟨r,hr',hlast,hdone⟩ := foldlM_zipIdx (outputRow m b (some below) input n)
    b.shape.rowAnchors (fun i r => Holds m b input n (b.margin+i*b.shape.strideH) r.ring ∧
      Progress m b input r n i 0) { t with ring }
    ⟨by simpa using hholds,⟨ht.pixel,ht.output,ht.done⟩⟩ fun i hi u ⟨hu,hp⟩ =>
      row_step hs hr hn hbelow hi hu hp
  rw [← hr.rows] at hdone
  refine ⟨r,?_,hlast.size.trans hs.ring.symm,⟨hdone.pixel,hdone.output,
    before_image m b input n ▸ hdone.done⟩⟩
  simp only [image, hprefill]
  exact hr'

end Steps

theorem filledRow_some (hs : Sized b input t) :
    ∃ row, filledRow m b = some row ∧ row.length = b.shape.width*b.shape.midChannels := by
  refine ⟨_,mapM_some_of_forall _ (fun c =>
    rescale m b.words.buffer b.expandScale
      (if b.shape.midChannels-b.words.narrowFill b.shape.midChannels ≤ c.2 then
        clip (wrap 16 b.expandLimit) (wrap 16 (b.expand.bias.getD c.2 0*b.expand.scale.getD c.2 0))
      else clip b.expandLimit
        (wrap b.words.mid (b.expand.bias.getD c.2 0*b.expand.scale.getD c.2 0)))) _ ?_,?_⟩
  · rintro ⟨x,k⟩ hxk
    obtain ⟨-,hk⟩ : x < b.shape.width ∧ k < b.shape.midChannels := by
      simpa [rowCells] using hxk
    have hb : k < b.expand.bias.size := hs.expandBias ▸ hk
    have hw : k < b.expand.scale.size := hs.expandScale ▸ hk
    simp [hb, hw]
  · simp [rowCells_length]

theorem finished (hr : b.shape.Regular) (ht : Progress m b input t b.shape.batches 0 0) :
    t.output = unfused m b input := by
  have hlen : (before m b input b.shape.batches 0 0).length = t.output.toList.length := by
    rw [before_length, Array.length_toList, ht.output]
    ring
  rw [unfused_eq m b input hr, ht.done.eq_of_length hlen]

/-- The fused layer succeeds, so none of its accesses leaves a buffer or meets an unset cell, and it
computes the three layers; it still does when before each image the ring is given any contents,
unset cells among them, and any cells at all are stored for the rows below the image. -/
theorem fused_eq_unfused (m : Scaling) (b : Bottleneck) (input : Array Int) (t : Buffers)
    (hr : b.shape.Regular) (hs : Sized b input t) : run m b input t = some (unfused m b input) ∧
      ∀ (below : List (Option Int)) (rings : Nat → Cells),
        below.length = b.shape.width*b.shape.midChannels →
        (∀ n, (rings n).size = t.ring.size) →
        ((List.range b.shape.batches).foldlM
          (fun u n => image m b (some below) input { u with ring := rings n } n) t).map
            Buffers.output = some (unfused m b input) := by
  have hstart : Progress m b input t 0 0 0 :=
    ⟨hs.pixel,hs.output,by simp [before]⟩
  constructor
  · obtain ⟨row,hrow,hlen⟩ := filledRow_some (m := m) hs
    have hbelow : (row.map some).length = b.shape.width*b.shape.midChannels := by simpa using hlen
    obtain ⟨u,hu,-,hdone⟩ := foldlM_range (image m b (some (row.map some)) input)
      b.shape.batches (fun n u => u.ring.size = t.ring.size ∧ Progress m b input u n 0 0) t
      ⟨rfl,hstart⟩ fun n hn u ⟨hring,hu⟩ =>
        image_step hs hr hn hbelow hring hu
    simp [run, hrow, hu, finished hr hdone]
  · intro below rings hbelow hrings
    obtain ⟨u,hu,hdone⟩ := foldlM_range
      (fun u n => image m b (some below) input { u with ring := rings n } n)
      b.shape.batches (fun n u => Progress m b input u n 0 0) t hstart fun n hn u hu => by
        obtain ⟨r,hr',-,hnext⟩ := image_step hs hr hn hbelow (t := { u with ring := rings n })
          (hrings n) ⟨hu.pixel,hu.output,hu.done⟩
        exact ⟨r,hr',hnext⟩
    simp [hu, finished hr hdone]

/-- Two images of three rows, of which the second window reaches one row below the image. -/
def twoImages : Bottleneck where
  shape := ⟨2,3,2,1,2,3,3,1,2,2,1,1,1,1,2,1⟩
  words := ⟨32,16,8,8,fun _ => 0⟩
  expand := ⟨#[3, -2],#[5, 7],#[1, -4]⟩
  expandScale := ⟨1,2,1,4⟩
  expandLimit := 96
  depth := ⟨#[1, -2, 3, 4, 5, -6, 7, 8, 9, -1, 2, -3, 4, -5, 6, -7, 8, 9],#[3, 2],#[-1, 6]⟩
  depthScale := ⟨1,8,1,2⟩
  depthLimit := 120
  project := ⟨#[11, -13],#[4],#[9]⟩
  projectScale := ⟨1,4,1,8⟩

theorem fused_eq_unfused_two_images :
    run .factors twoImages #[1, 2, 3, 4, 5, 6, -7, 8, -9, 10, -11, 12]
        ⟨Array.replicate 12 none,#[none, none],Array.replicate 8 77⟩ =
      some #[16, 27, -5, 15, 6, 60, 3, 3] := by
  have hthree : unfused .factors twoImages #[1, 2, 3, 4, 5, 6, -7, 8, -9, 10, -11, 12] =
      #[16, 27, -5, 15, 6, 60, 3, 3] := by decide +kernel
  rw [← hthree]
  exact (fused_eq_unfused .factors twoImages _ _
    ⟨by decide,by decide,by decide,by decide,by decide,by decide⟩
    ⟨rfl,rfl,rfl,rfl,rfl,rfl,rfl,rfl,rfl,rfl,rfl,rfl,rfl⟩).1

end Bottleneck

end MicroLearn.Fixed
