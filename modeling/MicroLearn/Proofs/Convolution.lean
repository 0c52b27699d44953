import Mathlib
import MicroLearn.Proofs.Bottleneck

/-!
# Convolution is cross-correlation

The kernel walks over anchors, centred taps and places in unsigned words. Its output is the grouped,
dilated, strided and zero-padded cross-correlation of image and filter, brought to scale. Its cells
are stored once each, in the order of the buffer, and no access leaves a buffer.
-/

set_option autoImplicit false

namespace MicroLearn.Fixed

open Finset (range)
open ConvShape

namespace ConvShape

variable (s : ConvShape)

/-- A channel of a pixel. Outside the image there is nothing. -/
def pixel (input : Array Int) (n : Nat) (y x : Int) (c : Nat) : Int :=
  if y < 0 ∨ y ≥ s.height ∨ x < 0 ∨ x ≥ s.width then 0
  else input.getD (s.inputIndex n y.toNat x.toNat+c) 0

def crossCorrelation (input filter : Array Int) (n i j g c : Nat) : Int :=
  ∑ a ∈ range s.filterHeight, ∑ b ∈ range s.filterWidth, ∑ k ∈ range s.filterChannels,
    s.pixel input n (i*s.strideH-s.padUp+s.dilationH*a) (j*s.strideW-s.padLeft+s.dilationW*b)
      (g*s.filterChannels+k)*filter.getD (s.filterIndex g a b k c) 0

/-- The sizes fit one another: the channels of the image are those of the groups, the output has a
cell for every place of the filter, and the buffers have less than `2 ^ 31` cells. -/
structure Regular : Prop where
  filterHeight : 1 ≤ s.filterHeight
  filterWidth : 1 ≤ s.filterWidth
  strideH : 1 ≤ s.strideH
  strideW : 1 ≤ s.strideW
  channels : s.inChannels = s.groups*s.filterChannels
  outHeight : 1 ≤ s.outHeight ∧ (s.outHeight : Int) = (s.height+s.padUp+s.padDown -
    s.dilationH*(s.filterHeight-1)-1)/s.strideH+1
  outWidth : 1 ≤ s.outWidth ∧ (s.outWidth : Int) = (s.width+s.padLeft+s.padRight -
    s.dilationW*(s.filterWidth-1)-1)/s.strideW+1
  inputCells : s.batches*s.height*s.width*s.inChannels < 2^31
  filterCells : s.groups*s.filterHeight*s.filterWidth*s.filterChannels*s.outChannels < 2^31
  outputCells : s.batches*s.outHeight*s.outWidth*(s.outChannels*s.groups) < 2^31

end ConvShape

section Places

theorem anchors_length (size filter dilation : Nat) (low high : Int) (stride count : Nat)
    (hfilter : 1 ≤ filter) (hstride : 1 ≤ stride) (hpos : 1 ≤ count)
    (hcount : (count : Int) = (size+low+high-dilation*(filter-1)-1)/stride+1) :
    (anchors size filter dilation low high stride).length = count := by
  have hhalves : dilation*((filter-1)/2)+dilation*(filter/2) = dilation*(filter-1) := by
    rw [← Nat.mul_add]
    congr 1
    omega
  obtain ⟨t,ht⟩ : ∃ t : Nat, (size : Int)+low+high-dilation*(filter-1) = t+1 := by
    have hnonneg : 0 ≤ (size+low+high-dilation*(filter-1)-1 : Int)/stride := by omega
    rw [Int.ediv_nonneg_iff_of_pos (by omega)] at hnonneg
    exact ⟨(size+low+high-dilation*(filter-1)-1 : Int).toNat,by omega⟩
  have hspan : (size : Int)-((dilation*(filter/2) : Nat)-high) -
      ((dilation*((filter-1)/2) : Nat)-low) = t+1 := by
    have hcast : ((dilation*(filter-1) : Nat) : Int) = dilation*(filter-1) := by
      rw [Nat.cast_mul, Nat.cast_sub hfilter, Nat.cast_one]
    omega
  have hcount' : count = t/stride+1 := by
    rw [ht, add_sub_cancel_right] at hcount
    exact_mod_cast hcount
  rw [anchors, steps, List.length_map, List.length_range, hspan, hcount',
    show ((t : Int)+1).toNat+stride-1 = t+stride by omega, Nat.add_div_right t (by omega)]

theorem lowBits_eq {x : Int} (n : Nat) (hx : x = n) (hn : n < 2^31) : lowBits x = n := by
  change (x % ((2^32 : Nat) : Int)).toNat = n
  omega

variable {s : ConvShape} {n i j g c a b k y x : Nat}

theorem inputStart_eq (hs : s.Regular) (hn : n < s.batches) (hg : g < s.groups)
    (hk : k < s.filterChannels) (hy : y < s.height) (hx : x < s.width) :
    s.inputStart n g y x+k = s.inputIndex n y x+(g*s.filterChannels+k) ∧
      s.inputIndex n y x+(g*s.filterChannels+k) < s.batches*s.height*s.width*s.inChannels := by
  have hchannel : g*s.filterChannels+k < s.inChannels := hs.channels ▸ cell_lt hg hk
  have hlt := cell_lt (cell_lt (cell_lt hn hy) hx) hchannel
  have hsplit : s.inputIndex n y x+(g*s.filterChannels+k) = x*s.inChannels +
      (y*(s.width*s.inChannels)+(g*s.filterChannels +
        n*(s.height*(s.width*s.inChannels))))+k := by
    rw [inputIndex]
    ring
  refine ⟨?_,hlt⟩
  have hcells := hs.inputCells
  rw [inputIndex] at hsplit ⊢
  rw [hsplit, ConvShape.inputStart]
  rw [lowBits_eq (x*s.inChannels) (by push_cast; ring) (by omega),
    lowBits_eq (y*(s.width*s.inChannels)+(g*s.filterChannels +
      n*(s.height*(s.width*s.inChannels)))) (by push_cast; ring) (by omega)]

theorem filterStart_eq (hs : s.Regular) (hg : g < s.groups) (ha : a < s.filterHeight)
    (hb : b < s.filterWidth) (hk : k < s.filterChannels) (hc : c < s.outChannels) :
    s.filterStart g a b c+k*s.outChannels = s.filterIndex g a b k c ∧ s.filterIndex g a b k c <
      s.groups*s.filterHeight*s.filterWidth*s.filterChannels*s.outChannels := by
  have hlt := cell_lt (cell_lt (cell_lt (cell_lt hg ha) hb) hk) hc
  have hsplit : s.filterIndex g a b k c = b*(s.filterChannels*s.outChannels) +
      (a*(s.filterWidth*(s.filterChannels*s.outChannels)) +
        g*(s.filterHeight*(s.filterWidth*(s.filterChannels*s.outChannels)))+c) +
      k*s.outChannels := by
    rw [filterIndex]
    ring
  refine ⟨?_,hlt⟩
  have hcells := hs.filterCells
  rw [filterIndex] at hsplit ⊢
  rw [hsplit, ConvShape.filterStart, lowBits_eq _ rfl (by omega), lowBits_eq _ rfl (by omega)]

theorem outputStart_eq (hs : s.Regular) (hn : n < s.batches) (hi : i < s.outHeight)
    (hj : j < s.outWidth) (hg : g < s.groups) (hc : c < s.outChannels) :
    s.outputStart n i j g+c = s.outputIndex n i j+(g*s.outChannels+c) := by
  have hchannel : g*s.outChannels+c < s.outChannels*s.groups :=
    Nat.mul_comm _ s.groups ▸ cell_lt hg hc
  have hlt := cell_lt (cell_lt (cell_lt hn hi) hj) hchannel
  have hsplit : s.outputIndex n i j+(g*s.outChannels+c) = g*s.outChannels +
      (j*(s.outChannels*s.groups)+(i*(s.outWidth*(s.outChannels*s.groups)) +
        n*(s.outHeight*(s.outWidth*(s.outChannels*s.groups)))))+c := by
    rw [outputIndex]
    ring
  have hcells := hs.outputCells
  rw [outputIndex] at hsplit ⊢
  rw [hsplit, ConvShape.outputStart, lowBits_eq _ rfl (by omega), lowBits_eq _ rfl (by omega)]

end Places

section Sums

variable {s : ConvShape} {input filter : Array Int} {n i j g c : Nat}

theorem correlate_ok (hs : s.Regular)
    (hinput : input.size = s.batches*s.height*s.width*s.inChannels) (hfilter : filter.size =
      s.groups*s.filterHeight*s.filterWidth*s.filterChannels*s.outChannels)
    (hn : n < s.batches) (hg : g < s.groups) (hc : c < s.outChannels) (h w : Int) :
    s.correlate? input filter n g c h w = some (s.correlate input filter n g c h w) := by
  refine sum_over_of_forall _ _ _ fun a ha => ?_
  dsimp only
  split
  · rfl
  rename_i hrow
  refine sum_over_of_forall _ _ _ fun b hb => ?_
  split
  · rfl
  rename_i hcol
  refine sum_over_of_forall _ _ _ fun k hk => ?_
  obtain ⟨y,hy⟩ := Int.eq_ofNat_of_zero_le (Int.not_lt.1 fun hlt => hrow (.inl hlt))
  obtain ⟨x,hx⟩ := Int.eq_ofNat_of_zero_le (Int.not_lt.1 fun hlt => hcol (.inl hlt))
  rw [hy] at hrow ⊢
  rw [hx] at hcol ⊢
  obtain ⟨hstart,hlt⟩ := inputStart_eq hs hn hg hk (y := y) (x := x) (by omega) (by omega)
  obtain ⟨hstart',hlt'⟩ := filterStart_eq hs hg ha hb hk hc
  rw [← hinput] at hlt
  rw [← hfilter] at hlt'
  simp [hstart, hstart', hlt, hlt', Nat.add_assoc]

theorem sumOver_eq_sum (count : Nat) (f : Nat → Int) :
    Number.sumOver count f = ∑ i ∈ range count, f i :=
  rfl

theorem tap_eq (dilation half i stride a : Nat) (pad : Int) : ((dilation*half : Nat) : Int)-pad +
    (i*stride : Nat)+dilation*((a : Int)-half) = i*stride-pad+dilation*a := by
  push_cast
  ring

theorem correlate_eq : s.correlate input filter n g c
      ((s.dilationH*((s.filterHeight-1)/2) : Nat)-s.padUp+(i*s.strideH : Nat))
      ((s.dilationW*((s.filterWidth-1)/2) : Nat)-s.padLeft+(j*s.strideW : Nat)) =
    s.crossCorrelation input filter n i j g c := by
  rw [ConvShape.correlate, sumOver_eq_sum]
  refine Finset.sum_congr rfl fun a _ => ?_
  rw [tap_eq]
  dsimp only
  split
  · rename_i hrow
    refine (Finset.sum_eq_zero fun b _ => Finset.sum_eq_zero fun k _ => ?_).symm
    rw [pixel, if_pos (hrow.elim .inl fun h => .inr (.inl h)), zero_mul]
  rw [sumOver_eq_sum]
  refine Finset.sum_congr rfl fun b _ => ?_
  rw [tap_eq]
  split
  · rename_i hcol
    refine (Finset.sum_eq_zero fun k _ => ?_).symm
    rw [pixel, if_pos (.inr (.inr hcol)), zero_mul]
  rw [sumOver_eq_sum]
  refine Finset.sum_congr rfl fun k _ => ?_
  rw [pixel, if_neg (by tauto), Nat.add_assoc]

theorem abs_sum_range_le (count : Nat) {f : Nat → Int} {bound} (hf : ∀ i, |f i| ≤ bound) :
    |∑ i ∈ range count, f i| ≤ count*bound := by
  calc |∑ i ∈ range count, f i| ≤ ∑ i ∈ range count, |f i| := Finset.abs_sum_le_sum_abs _ _
    _ ≤ ∑ _i ∈ range count, bound := Finset.sum_le_sum fun i _ => hf i
    _ = count*bound := by simp

theorem abs_getD_le {buffer : Array Int} (hwords : ∀ x ∈ buffer, InWord 16 x) (t : Nat) :
    |buffer.getD t 0| ≤ 2^15 := by
  rcases Nat.lt_or_ge t buffer.size with ht | ht
  · obtain ⟨hlow,hhigh⟩ := hwords _ (Array.getElem_mem ht)
    rw [← Array.getElem_eq_getD 0 (h := ht)]
    exact abs_le.2 ⟨hlow,hhigh.le⟩
  · simp [Nat.not_lt.2 ht]

theorem abs_pixel_le (hinput : ∀ x ∈ input, InWord 16 x) (y x : Int) (k : Nat) :
    |s.pixel input n y x k| ≤ 2^15 := by
  rw [pixel]
  split
  · simp
  · exact abs_getD_le hinput _

theorem crossCorrelation_inWord (hs : s.Regular) (hg : g < s.groups) (hc : c < s.outChannels)
    (hinput : ∀ x ∈ input, InWord 16 x) (hfilter : ∀ x ∈ filter, InWord 16 x) :
    InWord 64 (s.crossCorrelation input filter n i j g c) := by
  have hsum : |s.crossCorrelation input filter n i j g c| ≤
      s.filterHeight*(s.filterWidth*(s.filterChannels*(2^15*2^15))) := by
    refine abs_sum_range_le _ fun a => abs_sum_range_le _ fun b => abs_sum_range_le _ fun k => ?_
    rw [abs_mul]
    exact mul_le_mul (abs_pixel_le hinput _ _ _) (abs_getD_le hfilter _) (abs_nonneg _)
      (by norm_num)
  have htaps : s.filterHeight*s.filterWidth*s.filterChannels < 2^31 := by
    calc s.filterHeight*s.filterWidth*s.filterChannels
        ≤ s.groups*(s.filterHeight*s.filterWidth*s.filterChannels)*s.outChannels :=
          (Nat.le_mul_of_pos_left _ (by omega)).trans (Nat.le_mul_of_pos_right _ (by omega))
      _ = s.groups*s.filterHeight*s.filterWidth*s.filterChannels*s.outChannels := by ring
      _ < 2^31 := hs.filterCells
  have hbound : (s.filterHeight*(s.filterWidth*(s.filterChannels*(2^15*2^15))) : Int) ≤
      2^31*(2^15*2^15) := by
    have hcast : ((s.filterHeight*s.filterWidth*s.filterChannels : Nat) : Int) ≤ 2^31 := by
      exact_mod_cast htaps.le
    linarith
  obtain ⟨hlow,hhigh⟩ := abs_le.1 (hsum.trans hbound)
  exact ⟨le_trans (by norm_num [Number.twoPow_eq]) hlow,
    lt_of_le_of_lt hhigh (by norm_num [Number.twoPow_eq])⟩

end Sums

section Stores

variable {s : ConvShape} {n i j g c : Nat}

theorem flatMap_consecutive (count len base : Nat) (f : Nat → List Nat)
    (hf : ∀ i < count, f i = (List.range len).map (base+i*len + ·)) :
    (List.range count).flatMap f = (List.range (count*len)).map (base + ·) := by
  rw [range_mul, List.map_flatMap]
  refine List.flatMap_congr fun i hi => ?_
  simp only [hf i (List.mem_range.1 hi), List.map_map, Function.comp_def, Nat.add_assoc]

namespace ConvShape

def cellAt (s : ConvShape) (n i j g c : Nat) : OutputCell :=
  ⟨n,i,j,g,c,(s.dilationH*((s.filterHeight-1)/2) : Nat)-s.padUp+(i*s.strideH : Nat),
    (s.dilationW*((s.filterWidth-1)/2) : Nat)-s.padLeft+(j*s.strideW : Nat)⟩

def place (s : ConvShape) (p : OutputCell) : Nat :=
  s.outputStart p.image p.row p.col p.group+p.channel

end ConvShape

theorem anchors_zipIdx (size filter dilation : Nat) (low high : Int) (stride count : Nat)
    (hlength : (anchors size filter dilation low high stride).length = count) :
    (anchors size filter dilation low high stride).zipIdx = (List.range count).map fun i =>
      ((dilation*((filter-1)/2) : Nat)-low+(i*stride : Nat),i) := by
  refine List.ext_getElem (by simp [hlength]) fun i hi _ => ?_
  rw [List.getElem_zipIdx, anchors_getElem]
  simp

theorem cells_eq (hs : s.Regular) : s.cells = (List.range s.batches).flatMap fun n =>
    (List.range s.outHeight).flatMap fun i => (List.range s.outWidth).flatMap fun j =>
      (List.range s.groups).flatMap fun g => (List.range s.outChannels).map (s.cellAt n i j g) := by
  have hrows := anchors_zipIdx _ _ _ _ _ _
    _ (anchors_length _ _ _ _ _ _ _ hs.filterHeight hs.strideH
    hs.outHeight.1 hs.outHeight.2)
  have hcols := anchors_zipIdx _ _ _ _ _ _ _ (anchors_length _ _ _ _ _ _ _ hs.filterWidth hs.strideW
    hs.outWidth.1 hs.outWidth.2)
  simp only [ConvShape.cells, hrows, hcols, List.flatMap_map]
  rfl

theorem mem_cells (hs : s.Regular) {p} : p ∈ s.cells ↔
    ∃ n < s.batches, ∃ i < s.outHeight, ∃ j < s.outWidth, ∃ g < s.groups, ∃ c < s.outChannels,
      s.cellAt n i j g c = p := by
  simp [cells_eq hs]

theorem map_place_cells (hs : s.Regular) : s.cells.map s.place =
    List.range (s.batches*s.outHeight*s.outWidth*(s.outChannels*s.groups)) := by
  have hblocks : s.cells.map s.place = (List.range (s.batches *
      (s.outHeight*(s.outWidth*(s.groups*s.outChannels))))).map (0 + ·) := by
    simp only [cells_eq hs, List.map_flatMap, List.map_map]
    -- images, rows, pixels and groups are blocks inside one another
    refine flatMap_consecutive _ _ _ _ fun n hn => ?_
    refine flatMap_consecutive _ _ _ _ fun i hi => ?_
    refine flatMap_consecutive _ _ _ _ fun j hj => ?_
    refine flatMap_consecutive _ _ _ _ fun g hg => ?_
    refine List.map_congr_left fun c hc => ?_
    have hplace := outputStart_eq hs hn hi hj hg (List.mem_range.1 hc)
    rw [outputIndex] at hplace
    exact hplace.trans (by ring)
  rw [hblocks]
  simp only [Nat.zero_add, List.map_id']
  ring_nf

theorem cells_getElem (hs : s.Regular) (hn : n < s.batches) (hi : i < s.outHeight)
    (hj : j < s.outWidth) (hg : g < s.groups) (hc : c < s.outChannels) :
    s.cells[s.outputIndex n i j+(g*s.outChannels+c)]? = some (s.cellAt n i j g c) := by
  obtain ⟨t,ht,hcell⟩ := List.getElem_of_mem ((mem_cells hs).2 ⟨n,hn,i,hi,j,hj,g,hg,c,hc,rfl⟩)
  have hplace : s.place s.cells[t] = t := by
    have hmap : (s.cells.map s.place)[t]? = some (s.place s.cells[t]) := by simp [ht]
    rw [map_place_cells hs, List.getElem?_eq_some_iff] at hmap
    obtain ⟨_,hmap⟩ := hmap
    rw [← hmap, List.getElem_range]
  rw [hcell] at hplace
  rw [← outputStart_eq hs hn hi hj hg hc]
  change s.cells[s.place (s.cellAt n i j g c)]? = _
  rw [hplace, List.getElem?_eq_getElem ht, hcell]

theorem applyStores_consecutive (stores : List (Nat × Int)) (base : Nat) (buffer : Array Int)
    (hplaces : stores.map Prod.fst = List.range' base stores.length) :
    applyStores? buffer stores = storeFrom? buffer base (stores.map Prod.snd) := by
  induction stores generalizing base buffer with
  | nil => rfl
  | cons store stores ih =>
    rw [List.map_cons, List.length_cons, List.range'_succ, List.cons.injEq] at hplaces
    obtain ⟨hplace,hplaces⟩ := hplaces
    simp only [applyStores?, List.foldlM_cons, hplace] at ih ⊢
    exact congrArg _ (funext fun buffer' => ih (base+1) buffer' hplaces)

end Stores

section Convolution

variable {s : ConvShape} {words : ConvWords} {input filter : Array Int}

/-- What a cell is given: the sum at its place, brought to scale. -/
def ConvShape.scaled (s : ConvShape) (words : ConvWords) (scale : Int) (input filter : Array Int)
    (n i j g c : Nat) : Int :=
  wrap words.out ((s.crossCorrelation input filter n i j g c).tdiv scale)

/-- No sum overflows the accumulator. -/
def ConvShape.Fits (s : ConvShape) (words : ConvWords) (input filter : Array Int) : Prop :=
  ∀ n < s.batches, ∀ i < s.outHeight, ∀ j < s.outWidth, ∀ g < s.groups, ∀ c < s.outChannels,
    InWord words.acc (s.crossCorrelation input filter n i j g c)

theorem stores_ok (hs : s.Regular) {scale} (hscale : scale ≠ 0) (hacc : 1 ≤ words.acc)
    (hfits : s.Fits words input filter)
    (hinput : input.size = s.batches*s.height*s.width*s.inChannels) (hfilter : filter.size =
      s.groups*s.filterHeight*s.filterWidth*s.filterChannels*s.outChannels) :
    s.stores? .factors words scale input filter = some (s.cells.map fun p =>
      (s.place p,s.scaled words scale input filter p.image p.row p.col p.group p.channel)) := by
  refine mapM_some_of_forall _ _ _ fun p hp => ?_
  obtain ⟨n,hn,i,hi,j,hj,g,hg,c,hc,rfl⟩ := (mem_cells hs).1 hp
  have hsum := wrap_eq_self hacc (hfits n hn i hi j hj g hg c hc)
  simp only [cellAt, correlate_ok hs hinput hfilter hn hg hc, correlate_eq, Scaling.down?,
    if_neg hscale, Option.bind_eq_bind, Option.bind_some, hsum]
  rfl

/-- The output is the cross-correlation, brought to scale and wrapped into the words of the output;
all reads and stores find their cells, and every cell of the output is stored exactly once. -/
theorem convolve_eq_crossCorrelation (hs : s.Regular) (words : ConvWords)
    (scInput scOutput demote : Int) (input filter output : Array Int)
    (hscale : scInput*scOutput*demote ≠ 0)
    (hinput : input.size = s.batches*s.height*s.width*s.inChannels) (hfilter : filter.size =
      s.groups*s.filterHeight*s.filterWidth*s.filterChannels*s.outChannels)
    (houtput : output.size = s.batches*s.outHeight*s.outWidth*(s.outChannels*s.groups))
    (hwords : words = .wide ∧ (∀ x ∈ input, InWord 16 x) ∧ (∀ x ∈ filter, InWord 16 x) ∨
      (words = .narrow ∨ words = .mixed) ∧ s.Fits words input filter) : ∃ stores result,
      s.stores? .factors words (scInput*scOutput*demote) input filter = some stores ∧
      stores.map Prod.fst = List.range output.size ∧
      convolve? .factors words scInput scOutput demote s input filter output = some result ∧
      result.size = output.size ∧
      ∀ n < s.batches, ∀ i < s.outHeight, ∀ j < s.outWidth, ∀ g < s.groups, ∀ c < s.outChannels,
        result[s.outputIndex n i j+(g*s.outChannels+c)]? = some (wrap words.out
          ((s.crossCorrelation input filter n i j g c).tdiv (scInput*scOutput*demote))) := by
  have hfits : 1 ≤ words.acc ∧ s.Fits words input filter := by
    rcases hwords with ⟨rfl,hin,hfil⟩ | ⟨rfl | rfl, hfits⟩
    · exact ⟨by decide,fun n _ i _ j _ g hg c hc => crossCorrelation_inWord hs hg hc hin hfil⟩
    · exact ⟨by decide,hfits⟩
    · exact ⟨by decide,hfits⟩
  have hstores := stores_ok hs hscale hfits.1 hfits.2 hinput hfilter
  have hplaces : (s.cells.map fun p => (s.place p,s.scaled words (scInput*scOutput*demote)
      input filter p.image p.row p.col p.group p.channel)).map Prod.fst =
          List.range output.size := by
    rw [List.map_map, houtput, ← map_place_cells hs]
    rfl
  generalize hst : s.cells.map _ = stores at hstores hplaces
  have hlength : stores.length = output.size := by simpa using congrArg List.length hplaces
  have hrun := applyStores_consecutive stores 0 output (by
    rw [hplaces, hlength, List.range_eq_range'])
  obtain ⟨result,hresult,hsize,hvalues,-⟩ := store_from_spec (stores.map Prod.snd) output 0
    (by simp [hlength])
  refine ⟨stores,result,hstores,hplaces,?_,hsize,fun n hn i hi j hj g hg c hc => ?_⟩
  · rw [convolve?, show Scaling.factors.join (Scaling.factors.join scInput scOutput) demote =
      scInput*scOutput*demote from rfl, hstores]
    exact hrun.trans hresult
  · have hcell := cells_getElem hs hn hi hj hg hc
    have hvalue : (stores.map Prod.snd)[s.outputIndex n i j+(g*s.outChannels+c)]? = some
        (s.scaled words (scInput*scOutput*demote) input filter n i j g c) := by
      rw [← hst, List.map_map, List.getElem?_map, hcell]
      rfl
    obtain ⟨ht,hvalue⟩ := List.getElem?_eq_some_iff.1 hvalue
    rw [← Nat.zero_add (_+_), hvalues _ ht, hvalue]
    rfl

/-- Two groups, a filter of even sides and strides, dilations and pads that differ along the
axes. -/
def ConvShape.grouped : ConvShape where
  batches := 1
  height := 4
  width := 3
  inChannels := 2
  filterHeight := 2
  filterWidth := 2
  filterChannels := 1
  outChannels := 1
  outHeight := 2
  outWidth := 4
  groups := 2
  padUp := 1
  padDown := 0
  padLeft := 1
  padRight := 1
  strideH := 2
  strideW := 1
  dilationH := 2
  dilationW := 1

/-- A sum of four squares of `-2 ^ 15` does not fit a word of 32 bits. -/
theorem convolve_eq_crossCorrelation_grouped : ConvShape.grouped.Regular ∧
    ConvShape.grouped.crossCorrelation (Array.replicate 24 (-32768)) (Array.replicate 8 (-32768))
      0 1 1 1 0 = 2^32 ∧
    ∃ result, convolve? .factors .wide 64 2 (-1024) .grouped (Array.replicate 24 (-32768))
        (Array.replicate 8 (-32768)) (Array.replicate 16 7) = some result ∧
      result.size = 16 ∧ result[11]? = some (-32768) := by
  have hs : ConvShape.grouped.Regular := by constructor <;> decide
  have hsum : ConvShape.grouped.crossCorrelation (Array.replicate 24 (-32768))
      (Array.replicate 8 (-32768)) 0 1 1 1 0 = 2^32 := by decide +kernel
  obtain ⟨stores,result,-,-,hrun,hsize,hcells⟩ := convolve_eq_crossCorrelation hs
    .wide 64 2 (-1024) (Array.replicate 24 (-32768)) (Array.replicate 8 (-32768))
      (Array.replicate 16 7)
    (by decide) (by decide) (by decide) (by decide) (.inl ⟨rfl,by decide,by decide⟩)
  refine ⟨hs,hsum,result,hrun,hsize,?_⟩
  have hcell := hcells 0 (by decide) 1 (by decide) 1 (by decide) 1 (by decide) 0 (by decide)
  rw [hsum] at hcell
  exact hcell

end Convolution

end MicroLearn.Fixed
