import MicroLearn.Proofs.Convolution
import MicroLearn.Proofs.TreeSum

/-!
# Convolution that keeps the size

The operator fills its scratch vector with the products of one cell, sums them in place and starts
again for the next cell. Where no level of the sum halves, each cell is given the cross-correlation
at its place modulo the word, whatever the cells before have left behind.
-/

set_option autoImplicit false

namespace MicroLearn.Device

open MicroLearn.Fixed MicroLearn.Number
open Finset (range)
open ConvSizes

namespace ConvSizes

/-- A channel of a pixel. Outside the image there is nothing. -/
def pixel (s : ConvSizes) (a : Array Int) (n : Nat) (y x : Int) (ci : Nat) : Int :=
  if y < 0 ∨ s.height ≤ y ∨ x < 0 ∨ s.width ≤ x then 0
  else a.getD (((n*s.height+y.toNat)*s.width+x.toNat)*s.inChannels+ci) 0

def weight (s : ConvSizes) (b : Array Int) (hf wf ci co : Nat) : Int :=
  b.getD (((hf*s.filterWidth+wf)*s.inChannels+ci)*s.outChannels+co) 0

/-- The product at a tap of the filter, whose middle lies on the cell. -/
def product (s : ConvSizes) (shrA shrB : Int) (a b : Array Int) (n h w co hf wf ci : Nat) : Int :=
  (s.pixel a n (h+hf-((s.filterHeight-1)/2 : Nat)) (w+wf-((s.filterWidth-1)/2 : Nat))
    ci).tdiv shrA*(s.weight b hf wf ci co).tdiv shrB

def correlation (s : ConvSizes) (shrA shrB : Int) (a b : Array Int) (n h w co : Nat) : Int :=
  ∑ hf ∈ range s.filterHeight, ∑ wf ∈ range s.filterWidth, ∑ ci ∈ range s.inChannels,
    s.product shrA shrB a b n h w co hf wf ci

def stored (s : ConvSizes) (shrA shrB : Int) (a b : Array Int) (c : Nat × Nat × Nat × Nat) :
    Nat × Int :=
  (s.place c,wrap 16 (s.correlation shrA shrB a b c.1 c.2.1 c.2.2.1 c.2.2.2))

/-- The buffers of image and filter have their sizes. -/
structure Holds (s : ConvSizes) (a b : Array Int) : Prop where
  image : a.size = s.batches*s.height*s.width*s.inChannels
  filter : b.size = s.filterHeight*s.filterWidth*s.inChannels*s.outChannels

end ConvSizes

theorem wrap_mul_wrap (bits : Nat) (x y : Int) :
    wrap bits (wrap bits x*wrap bits y) = wrap bits (x*y) := by
  simp only [wrap, ← Int.mul_bmod]

theorem getElem?_eq_getD {a : Array Int} {i} (h : i < a.size) : a[i]? = some (a.getD i 0) := by
  rw [Array.getElem?_eq_getElem h, Array.getElem_eq_getD 0]

variable {s : ConvSizes} {a b tmp : Array Int} {n h w co : Nat}

theorem tap_eq_product (hs : s.Holds a b) (hn : n < s.batches) (hco : co < s.outChannels) {hf wf ci}
    (hhf : hf < s.filterHeight) (hwf : wf < s.filterWidth) (hci : ci < s.inChannels)
    (shrA shrB : Int) :
    s.tap? shrA shrB a b n h w co (hf,wf,ci) =
      some (wrap 16 (s.product shrA shrB a b n h w co hf wf ci)) := by
  have hweight := getElem?_eq_getD (hs.filter ▸ cell_lt (cell_lt (cell_lt hhf hwf) hci) hco)
  rw [tap?, ConvSizes.product]
  generalize (s.filterHeight-1)/2 = padH
  generalize (s.filterWidth-1)/2 = padW
  simp only [hweight]
  by_cases hout : h+hf < padH ∨ s.height+padH ≤ h+hf ∨ w+wf < padW ∨ s.width+padW ≤ w+wf
  · have hpixel : s.pixel a n (h+hf-padH) (w+wf-padW) ci = 0 := if_pos (by omega)
    simp [if_pos hout, hpixel, div16, divWord, wrap_mul_wrap]
  · have hcell := getElem?_eq_getD (hs.image ▸ cell_lt (cell_lt (cell_lt hn
      (show h+hf-padH < s.height by omega)) (show w+wf-padW < s.width by omega)) hci)
    have hpixel : s.pixel a n (h+hf-padH) (w+wf-padW) ci =
        a.getD (((n*s.height+(h+hf-padH))*s.width+(w+wf-padW))*s.inChannels+ci) 0 := by
      rw [pixel, if_neg (by omega)]
      congr <;> omega
    simp only [if_neg hout, hcell, hpixel]
    exact congrArg some (wrap_mul_wrap 16 _ _)

theorem sum_flatMap_range (count : Nat) (f : Nat → List Int) :
    ((List.range count).flatMap f).sum = ∑ i ∈ range count, (f i).sum := by
  rw [List.flatMap, List.sum_flatten, List.map_map]
  rfl

theorem sum_taps (f : Nat → Nat → Nat → Int) : (s.taps.map fun t => f t.1 t.2.1 t.2.2).sum =
    ∑ hf ∈ range s.filterHeight, ∑ wf ∈ range s.filterWidth, ∑ ci ∈ range s.inChannels,
    f hf wf ci := by
  simp only [taps, List.map_flatMap, List.map_map, sum_flatMap_range]
  rfl

theorem length_taps : s.taps.length = s.terms := by
  simp [taps, terms, Nat.mul_assoc]

theorem treeSum_front {xs} (hpos : 1 ≤ xs.length) (hwords : ∀ x ∈ xs, InWord 16 x) {plain : Nat}
    (hplain : xs.length ≤ 2^plain) (hxs : xs <+: tmp.toList) :
    (treeSum 16 xs.length 0 plain tmp).size = tmp.size ∧
      (treeSum 16 xs.length 0 plain tmp).getD 0 0 = wrap 16 xs.sum := by
  have hsize : xs.length ≤ tmp.size := hxs.length_le
  have hcells : ∀ i < xs.length, tmp.getD i 0 = xs.getD i 0 := by
    intro i hi
    have hget := List.prefix_iff_getElem?.1 hxs i hi
    rw [Array.getD_eq_getD_getElem?, ← Array.getElem?_toList, hget, List.getD_eq_getElem _ _ hi]
    rfl
  have hsum : leftSum xs.length tmp = xs.sum := by
    rw [← sum_getD]
    exact Finset.sum_congr rfl fun i hi => hcells i (Finset.mem_range.1 hi)
  rw [treeSum, ← hsum]
  refine ⟨passes_size _ _ _ _ _ _ _ (by omega),
    passes_wrap (by decide) 0 _ 0 _ _ (by omega) hpos le_rfl
    (by simpa using hplain) le_rfl fun i hi => ?_⟩
  rw [hcells i hi, List.getD_eq_getElem _ _ hi]
  exact hwords _ (List.getElem_mem hi)

theorem mem_taps {t} : t ∈ s.taps ↔ t.1 < s.filterHeight ∧ t.2.1 < s.filterWidth ∧
    t.2.2 < s.inChannels := by
  obtain ⟨hf,wf,ci⟩ := t
  simp [taps]

theorem mem_cells {c} : c ∈ s.cells ↔
    c.1 < s.batches ∧ c.2.1 < s.height ∧ c.2.2.1 < s.width ∧ c.2.2.2 < s.outChannels := by
  obtain ⟨n,h,w,co⟩ := c
  simp [ConvSizes.cells]

section Cells

variable (hs : s.Holds a b) (hterms : 1 ≤ s.terms) {plain : Nat} (hplain : s.terms ≤ 2^plain)
    (shrA shrB : Int)

include hs hterms hplain

theorem storeCell_stored (stores : List (Nat × Int)) (htmp : s.terms ≤ tmp.size) {c}
    (hc : c ∈ s.cells) : ∃ tmp', s.storeCell? shrA shrB 0 plain a b (stores,tmp) c =
      some (stores++[s.stored shrA shrB a b c],tmp') ∧ tmp'.size = tmp.size := by
  obtain ⟨hn,-,-,hco⟩ := mem_cells.1 hc
  have hproducts := mapM_some_of_forall (s.tap? shrA shrB a b c.1 c.2.1 c.2.2.1 c.2.2.2) (fun t =>
    wrap 16 (s.product shrA shrB a b c.1 c.2.1 c.2.2.1 c.2.2.2 t.1 t.2.1 t.2.2)) s.taps
        fun t ht => by
      obtain ⟨hhf,hwf,hci⟩ := mem_taps.1 ht
      exact tap_eq_product hs hn hco hhf hwf hci shrA shrB
  generalize hxs : s.taps.map _ = xs at hproducts
  have hlength : xs.length = s.terms := by rw [← hxs, List.length_map, length_taps]
  have hwords : ∀ x ∈ xs, InWord 16 x := by
    rw [← hxs, List.forall_mem_map]
    exact fun _ _ => wrap_inWord (by decide) _
  obtain ⟨filled,hfilled,hsize,hpre⟩ :=
    store_from_prefix [] xs tmp (List.nil_prefix ..) (by simpa [hlength])
  obtain ⟨hkept,hsum⟩ := treeSum_front (by omega) hwords (hlength.trans_le hplain) hpre
  have hvalue : wrap 16 xs.sum =
      wrap 16 (s.correlation shrA shrB a b c.1 c.2.1 c.2.2.1 c.2.2.2) := by
    rw [← hxs, sum_taps fun hf wf ci =>
      wrap 16 (s.product shrA shrB a b c.1 c.2.1 c.2.2.1 c.2.2.2 hf wf ci)]
    exact wrap_sum_congr _ _ _ fun _ _ => wrap_sum_congr _ _ _ fun _ _ =>
      wrap_sum_congr _ _ _ fun _ _ => wrap_wrap _
  refine ⟨treeSum 16 xs.length 0 plain filled,?_,hkept.trans hsize⟩
  rw [hvalue] at hsum
  rw [List.length_nil] at hfilled
  simp only [ConvSizes.storeCell?, hproducts, ← hlength, Option.bind_eq_bind, Option.bind_some,
    hfilled, hsum]
  rfl

theorem stores_stored (htmp : s.terms ≤ tmp.size) :
    ∃ tmp', s.stores? shrA shrB 0 plain a b tmp =
      some (s.cells.map (s.stored shrA shrB a b),tmp') := by
  obtain ⟨⟨stores,tmp'⟩,hrun,hstores,-⟩ :=
    foldlM_invariant (s.storeCell? shrA shrB 0 plain a b) s.cells
    (fun i r => r.1 = (s.cells.take i).map (s.stored shrA shrB a b) ∧ r.2.size = tmp.size) ([],tmp)
      ⟨rfl,rfl⟩
    (by
      rintro i hi ⟨stores,t⟩ ⟨hstores,hsize⟩
      obtain ⟨t',ht',hsize'⟩ := storeCell_stored hs hterms hplain shrA shrB stores (hsize ▸ htmp)
        (List.getElem_mem hi)
      refine ⟨_,ht',?_,hsize'.trans hsize⟩
      rw [List.take_succ_eq_append_getElem hi, List.map_append, ← hstores]
      rfl)
  rw [List.take_length] at hstores
  exact ⟨tmp',hstores ▸ hrun⟩

end Cells

theorem map_place_cells : s.cells.map s.place =
    List.range (s.batches*s.height*s.width*s.outChannels) := by
  have hblocks : s.cells.map s.place =
      (List.range (s.batches*(s.height*(s.width*s.outChannels)))).map (0 + ·) := by
    simp only [ConvSizes.cells, List.map_flatMap, List.map_map]
    refine flatMap_consecutive _ _ _ _ fun n hn => ?_
    refine flatMap_consecutive _ _ _ _ fun h hh => ?_
    refine flatMap_consecutive _ _ _ _ fun w hw => ?_
    refine List.map_congr_left fun co hco => ?_
    rw [Function.comp_apply, ConvSizes.place]
    ring
  rw [hblocks]
  simp only [Nat.zero_add, List.map_id', Nat.mul_assoc]

theorem applyStores_all {stores} {c}
    (hplaces : stores.map Prod.fst = List.range c.size) : ∃ result,
      applyStores? c stores = some result ∧
      result.size = c.size ∧ ∀ p ∈ stores, result[p.1]? = some p.2 := by
  have hlength : stores.length = c.size := by simpa using congrArg List.length hplaces
  have hrun := applyStores_consecutive stores 0 c (by rw [hplaces, hlength, List.range_eq_range'])
  obtain ⟨result,hresult,hsize,hvalues,-⟩ :=
    store_from_spec (stores.map Prod.snd) c 0 (by simp [hlength])
  refine ⟨result,hrun.trans hresult,hsize,fun p hp => ?_⟩
  obtain ⟨i,hi,rfl⟩ := List.getElem_of_mem hp
  have hplace : stores[i].1 = i := by
    rw [← List.getElem_map Prod.fst (h := by simpa using hi), List.getElem_of_eq hplaces,
      List.getElem_range]
  have hvalue := hvalues i (by simpa using hi)
  rw [Nat.zero_add, List.getElem_map] at hvalue
  rw [hplace]
  exact hvalue

/-- Every cell of the output is stored exactly once, with the cross-correlation at its place modulo
the word, and no access leaves the buffers of image and filter. The output has the shape of the
typed expression. -/
theorem convolve_same_size (s : ConvSizes) (shrA shrB : Int) (plain : Nat) (a b c tmp : Array Int)
    (hterms : 1 ≤ s.terms) (hplain : s.terms ≤ 2^plain) (hs : s.Holds a b)
    (hc : c.size = s.batches*s.height*s.width*s.outChannels) (htmp : s.terms ≤ tmp.size) :
    ∃ stores tmp' result, s.stores? shrA shrB 0 plain a b tmp = some (stores,tmp') ∧
      stores.map Prod.fst = List.range c.size ∧
      convolve? s shrA shrB 0 plain a b c tmp = some result ∧ result.size = c.size ∧
      (∀ n < s.batches, ∀ h < s.height, ∀ w < s.width, ∀ co < s.outChannels,
        result[((n*s.height+h)*s.width+w)*s.outChannels+co]? =
          some (wrap 16 (s.correlation shrA shrB a b n h w co))) ∧
      Lang.convolveTy (.tensor [s.batches, s.height, s.width, s.inChannels])
          (.tensor [s.filterHeight, s.filterWidth, s.inChannels, s.outChannels]) =
        .ok (.tensor [s.batches, s.height, s.width, s.outChannels]) := by
  obtain ⟨tmp',hstores⟩ := stores_stored hs hterms hplain shrA shrB htmp
  have hplaces : (s.cells.map (s.stored shrA shrB a b)).map Prod.fst = List.range c.size := by
    rw [List.map_map, hc, ← map_place_cells]
    rfl
  obtain ⟨result,hresult,hsize,hvalues⟩ := applyStores_all hplaces
  refine ⟨_,tmp',result,hstores,hplaces,?_,hsize,fun n hn h hh w hw co hco => ?_,by
    simp [Lang.convolveTy, demand]⟩
  · rw [convolve?, hstores]
    exact hresult
  · have hcell : (n,h,w,co) ∈ s.cells := mem_cells.2 ⟨hn,hh,hw,hco⟩
    exact hvalues _ (List.mem_map_of_mem hcell)

/-- A filter that is wider and higher than the image, one side of it even. -/
def ConvSizes.overhanging : ConvSizes := ⟨1,2,2,1,4,3,1⟩

theorem convolve_same_size_overhanging :
    ConvSizes.overhanging.Holds #[7, -8, 9, 10] #[0, 1, 2, 3, 4, 5, 6, 7, 8, 9, 10, 11] ∧
    ∃ result, convolve? .overhanging 2 1 0 4 #[7, -8, 9, 10] #[0, 1, 2, 3, 4, 5, 6, 7, 8, 9, 10, 11]
      #[1, 1, 1, 1] (Array.replicate 12 99) = some result ∧ result.size = 4 ∧
          result[3]? = some 28 := by
  have hs : ConvSizes.overhanging.Holds #[7, -8, 9, 10] #[0, 1, 2, 3, 4, 5, 6, 7, 8, 9, 10, 11] :=
    ⟨rfl,rfl⟩
  obtain ⟨-,-,result,-,-,hrun,hsize,hcells,-⟩ := convolve_same_size .overhanging 2 1 4 _ _
    #[1, 1, 1, 1] (Array.replicate 12 99) (by decide) (by decide) hs rfl (by decide)
  refine ⟨hs,result,hrun,hsize,?_⟩
  have hcell := hcells 0 (by decide) 1 (by decide) 1 (by decide) 0 (by decide)
  exact hcell.trans (by decide +kernel)

end MicroLearn.Device
