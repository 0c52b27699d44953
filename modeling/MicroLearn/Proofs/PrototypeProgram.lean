import MicroLearn.Proofs.FoldedTree
import MicroLearn.Proofs.PrintedRange
import MicroLearn.Proofs.ProgramValues

/-!
# The program of prototypes

The program written for a model of prototypes adds up the labels of all prototypes, each times
its kernel. Its tensors are turned: the projection by the reader, the places and the labels of the
prototypes by the writer, and the ranges of the inputs are divided out of the projection. On
exact numbers it comes to the scores of the trained model on the normalised input.
-/

set_option autoImplicit false

open Option (bind_eq_bind bind_some map_some)
open List (ext_getElem getElem?_eq_getElem map_congr_left map_map zipWith)

namespace MicroLearn.Number

theorem withoutUnderscores_digits {ds} (h : ∀ c ∈ ds, c.isDigit = true) (after : Bool) :
    withoutUnderscores after ds = some ds := by
  induction ds generalizing after with
  | nil => rfl
  | cons c ds ih =>
    have hc : c ≠ '_' := by
      rintro rfl
      cases h '_' (by simp)
    rw [withoutUnderscores.eq_4 _ _ _ (by simpa using hc), ih fun d hd => h d (by simp [hd])]
    rfl

theorem digit_plain {c} (h : c.isDigit = true) :
    Text.isBlank c = false ∧ Text.westernDigit c = c := by
  simp only [Char.isDigit, Bool.and_eq_true, decide_eq_true_eq] at h
  have hlow : 48 ≤ c.toNat := h.1
  have hhigh : c.toNat ≤ 57 := h.2
  constructor
  · simp only [Text.isBlank, Bool.or_eq_false_iff, Bool.and_eq_false_iff, decide_eq_false_iff_not,
      beq_eq_false_iff_ne]
    omega
  · rw [Text.westernDigit, if_pos (by omega)]

theorem trimChars_eq_self {ds} (h : ∀ c ∈ ds, Text.isBlank c = false) : Text.trimChars ds = ds := by
  have hkeep : ∀ l : List Char, (∀ c ∈ l, Text.isBlank c = false) → l.dropWhile Text.isBlank = l :=
    fun l hl => List.dropWhile_eq_self_iff.2 fun _ => by simp [hl]
  rw [Text.trimChars, hkeep ds h, hkeep _ fun c hc => h c (List.mem_reverse.1 hc),
    List.reverse_reverse]

theorem readInt_toString (n : Nat) : readInt? (toString n) = some (n : Int) := by
  have hdigits : ∀ c ∈ Nat.toDigits 10 n, c.isDigit = true := fun c =>
    Nat.isDigit_of_mem_toDigits (by decide) (by decide)
  have hlist : (toString n).toList = Nat.toDigits 10 n := digits_toList n
  have hwestern : (Nat.toDigits 10 n).map Text.westernDigit = Nat.toDigits 10 n :=
    (map_congr_left fun c hc => (digit_plain (hdigits c hc)).2).trans (List.map_id _)
  have hvalue : digitsValue (Nat.toDigits 10 n) = n := Nat.ofDigitChars_ten_toDigits
  rw [readInt?, hlist, trimChars_eq_self fun c hc => (digit_plain (hdigits c hc)).1, hwestern,
    withoutUnderscores_digits hdigits]
  obtain ⟨c,cs,hcs⟩ := List.exists_cons_of_ne_nil (Nat.toDigits_ne_nil (n := n) (b := 10))
  have hsplit : splitSign (Nat.toDigits 10 n) = (false,Nat.toDigits 10 n) := by
    rw [hcs] at hdigits ⊢
    exact splitSign_digit (hdigits c (by simp)) cs
  simp only [hsplit, hvalue, List.isEmpty_eq_false_iff.2 Nat.toDigits_ne_nil,
    List.all_eq_true.2 hdigits]
  rfl

end MicroLearn.Number

namespace MicroLearn.Model

section Turned

variable {F : Type} [Field F] {rows cols : Nat} {m : Rows F}

theorem columns_columns (h : Shaped rows cols m) : columns rows (columns cols m) = m := by
  apply ext_getElem
  · simp [columns, h.length]
  · intro i hi him
    apply ext_getElem
    · simp [columns, h.width _ (List.getElem_mem him)]
    · intro j hj hjm
      simp [columns, getElem?_eq_getElem him, getElem?_eq_getElem hjm]

theorem swapAxes_eq_columns (h : Shaped rows cols m) (hrows : 1 ≤ rows) :
    Net.swapAxes m = columns cols m := by
  have hwidth : (m.head?.map List.length).getD 0 = cols := by
    cases m with
    | nil => simp [← h.length] at hrows
    | cons row m => simp [h.width row (by simp)]
  rw [Net.swapAxes, hwidth]
  apply map_congr_left
  intro j hj
  have hread : ∀ row ∈ m, row[j]? = some (row.getD j 0) := by
    intro row hrow
    have hj : j < row.length := h.width row hrow ▸ List.mem_range.1 hj
    rw [List.getD_eq_getElem _ _ hj, getElem?_eq_getElem hj]
  rw [List.filterMap_congr hread, List.filterMap_eq_map']

theorem foldl_plus_scale {v : List F} (xs : List F) (ms : Rows F) (hxs : xs.length = ms.length)
    (hms : ∀ row ∈ ms, row.length = v.length) :
    (zipWith Net.scale xs ms).foldl Net.plus v =
      (List.range v.length).map fun j => v.getD j 0+dot (ms.map fun row => row.getD j 0) xs := by
  induction ms generalizing xs v with
  | nil =>
    apply ext_getElem
    · simp
    · intro j hj hj'
      have hj : j < v.length := by simpa using hj
      simp [getElem?_eq_getElem hj]
  | cons row ms ih =>
    obtain ⟨x,xs,rfl⟩ := List.exists_cons_of_length_eq_add_one hxs
    have hrow := hms row (by simp)
    have hplus : (Net.plus v (Net.scale x row)).length = v.length := by
      simp [Net.plus, Net.scale, hrow]
    rw [List.zipWith_cons_cons, List.foldl_cons,
      ih (v := Net.plus v (Net.scale x row)) xs (by simpa using hxs)
      (fun r hr => by rw [hplus]; exact hms r (by simp [hr])), hplus]
    apply map_congr_left
    intro j hj
    have hj := List.mem_range.1 hj
    have hjr : j < row.length := by omega
    simp [Net.plus, Net.scale, List.getElem?_zipWith, getElem?_eq_getElem hj,
      getElem?_eq_getElem hjr]
    ring

theorem rowTimes_eq (h : Shaped rows cols m) (hrows : 1 ≤ rows) {x : List F}
    (hx : x.length = rows) : Net.rowTimes x m = Net.applyMat (columns cols m) x := by
  obtain ⟨hlength,hwidth⟩ := h
  cases m with
  | nil => simp [← hlength] at hrows
  | cons row m =>
    obtain ⟨a,x,rfl⟩ := List.exists_cons_of_length_eq_add_one (hx.trans hlength.symm)
    have hrow := hwidth row (by simp)
    have hscale : (Net.scale a row).length = cols := by simp [Net.scale, hrow]
    rw [Net.rowTimes, List.zipWith_cons_cons]
    dsimp only
    rw [foldl_plus_scale x m (by simpa using hx.trans hlength.symm)
      (fun r hr => by rw [hscale]; exact hwidth r (by simp [hr])), hscale, Net.applyMat, columns,
        map_map]
    apply map_congr_left
    intro j hj
    have hjr : j < row.length := hrow ▸ List.mem_range.1 hj
    simp [Net.scale, getElem?_eq_getElem hjr]
    ring

end Turned

end MicroLearn.Model

namespace MicroLearn

open Model (Rows Shaped asColumn columns PrototypeModel PreparedPrototypes)
open Model.PreparedPrototypes
open Model
open PrototypeModel
open Function (comp_def update update_of_ne update_self)
open Lang

/-- The least and the greatest values of the inputs, which differ in each coordinate. -/
structure Ranges (F : Type) [Field F] where
  low : List F
  high : List F
  length_high : high.length = low.length
  differ : ∀ d ∈ Net.minus high low, d ≠ 0

section Ranges

variable {F : Type} [Field F]

def Ranges.standard (r : Ranges F) : Standard F :=
  ⟨r.low,Net.minus r.high r.low,by simp [Net.minus, r.length_high],r.differ⟩

/-- The input that a model is trained on. -/
def normalised (ranges : Option (Ranges F)) (x : List F) : List F :=
  (ranges.map fun r => r.standard.normalised x).getD x

def divided (ranges : Option (Ranges F)) (m : Rows F) : Rows F :=
  (ranges.map fun r => m.map fun row => zipWith (· / ·) row r.standard.deviation).getD m

def offsetOf (ranges : Option (Ranges F)) (m : Rows F) : List F :=
  (ranges.map fun r => Net.applyMat (divided ranges m) r.low).getD (m.map fun _ => ((1 : Int) : F))

theorem divideByRanges_ok [DecidableEq F] (r : Ranges F) (m : Rows F) :
    divideByRanges m r.low r.high = .ok (divided (some r) m) := by
  apply mapM_ok_of_forall
  intro row hrow
  clear hrow
  obtain ⟨low,high,hlength,hdiffer⟩ := r
  simp only [Ranges.standard, Net.minus] at hdiffer ⊢
  clear hlength
  induction row generalizing low high with
  | nil => rfl
  | cons x row ih =>
    cases high with
    | nil => rfl
    | cons b high =>
      cases low with
      | nil => rfl
      | cons a low =>
        rw [List.zip_cons_cons, List.zip_cons_cons, List.mapM_cons, ih low high fun d hd =>
          hdiffer d (by simp [hd])]
        rw [quotient_ok x (hdiffer _ (by simp))]
        rfl

end Ranges

namespace Net.Prototypes

variable {F : Type} [Field F]

structure Sized (p : Prototypes F) (inputs projected prototypes classes : Nat) : Prop where
  inputs_pos : 1 ≤ inputs
  projected_pos : 1 ≤ projected
  prototypes_pos : 1 ≤ prototypes
  classes_pos : 1 ≤ classes
  projection : Shaped inputs projected p.projection
  places : Shaped projected prototypes p.places
  labels : Shaped classes prototypes p.labels

/-- The files of a trained model. -/
def arrays (p : Prototypes F) (ranges : Option (Ranges F)) : PrototypeModel F :=
  .ofArrays p.projection p.places p.labels [[p.gamma]] (ranges.map fun r => [r.low, r.high])

def prepared (p : Prototypes F) (ranges : Option (Ranges F))
    (inputs projected prototypes classes : Nat) : PreparedPrototypes F :=
  let W := columns projected p.projection
  ⟨inputs,projected,prototypes,classes,divided ranges W,p.places,p.labels,p.gamma*p.gamma,
    offsetOf ranges W,ranges.isSome⟩

variable {p : Prototypes F} {ranges : Option (Ranges F)} {inputs projected prototypes classes : Nat}

theorem arrays_projection (h : p.Sized inputs projected prototypes classes) :
    (p.arrays ranges).W = columns projected p.projection :=
  swapAxes_eq_columns h.projection h.inputs_pos

section

variable (h : p.Sized inputs projected prototypes classes)
    (hranges : ∀ r ∈ ranges, r.low.length = inputs)
include h hranges

theorem divided_shaped :
    Shaped projected inputs (divided ranges (columns projected p.projection)) := by
  have hW := columns_shaped h.projection
  cases ranges with
  | none => exact hW
  | some r =>
    refine hW.map _ fun row hrow => ?_
    simp [Ranges.standard, Net.minus, r.length_high, hranges r rfl, hW.width row hrow]

theorem validate_arrays : (p.arrays ranges).validate = .ok () := by
  have hW := (columns_shaped h.projection).size_ok h.projected_pos
  have hB : size (p.arrays ranges).B = .ok (projected,prototypes) :=
    h.places.size_ok h.projected_pos
  have hZ : size (p.arrays ranges).Z = .ok (classes,prototypes) := h.labels.size_ok h.classes_pos
  have hgamma : size (p.arrays ranges).gamma = .ok (1,1) := rfl
  rw [validate, arrays_projection h]
  simp only [hW, hB, hZ, bind, Except.bind, beq_self_eq_true]
  cases ranges with
  | none => rfl
  | some r =>
    have hbounds : size [r.low, r.high] = .ok (2,inputs) := by
      rw [size, hranges r rfl]
      rfl
    simp only [arrays, ofArrays, map_some, hbounds, beq_self_eq_true]
    rfl

theorem prepare_arrays [DecidableEq F] :
    (p.arrays ranges).prepare = .ok (p.prepared ranges inputs projected prototypes classes) := by
  have hW := (columns_shaped h.projection).size_ok h.projected_pos
  have hB : size (p.arrays ranges).B = .ok (projected,prototypes) :=
    h.places.size_ok h.projected_pos
  rw [prepare, arrays_projection h]
  simp only [hW, hB, bind, Except.bind]
  have hcount : (columns projected p.projection).length = projected := by simp [columns]
  cases ranges with
  | none =>
    simp only [arrays, ofArrays, hcount, h.labels.length]
    rfl
  | some r =>
    have hproduct : product (divided (some r) (columns projected p.projection))
      (r.low.map fun c => [c]) =
        .ok (asColumn (offsetOf (some r) (columns projected p.projection))) :=
      product_asColumn (hranges r rfl ▸ divided_shaped h hranges) h.projected_pos
        (hranges r rfl ▸ h.inputs_pos)
    have hsize := (asColumn_shaped (offsetOf (some r) (columns projected p.projection))).size_ok
      (by simpa [offsetOf, divided, Net.applyMat, columns] using h.projected_pos)
    have hflat : (asColumn (offsetOf (some r) (columns projected p.projection))).flatten =
        offsetOf (some r) (columns projected p.projection) := by
      simp [asColumn, ← List.flatMap_def]
    simp only [arrays, ofArrays, map_some, List.headD_cons, List.drop_succ_cons,
      List.drop_zero, divideByRanges_ok, hproduct, hsize, hflat, hcount, h.labels.length]
    rfl

end

end Net.Prototypes

open Lang (Value Env)

theorem Lang.Value.sum_columns {F} [Field F] {v} {vs : Rows F} (h : ∀ u ∈ vs, u.length = v.length) :
    Value.sum ((v::vs).map Value.column) = some (Value.column (vs.foldl Net.plus v)) := by
  induction vs generalizing v with
  | nil => rfl
  | cons u vs ih =>
    have hplus : (Net.plus v u).length = v.length := by simp [Net.plus, h u]
    have hstep : Value.additive .plus (Value.column v) (Value.column u) =
        some (Value.column (Net.plus v u)) :=
      Value.entrywise_asColumn _ (h u (by simp)).symm
    have hrest := ih (v := Net.plus v u) fun w hw => by rw [hplus]; exact h w (by simp [hw])
    simp only [Value.sum, List.map_cons, List.foldlM_cons, hstep] at hrest ⊢
    exact hrest

namespace Model

variable {F : Type} [Field F] [LinearOrder F] {exp : F → F} {tensors env : Env F}

theorem prototypeTerm_value {places labels : Rows F} {z b l} {g} {k : Nat}
    (hz : env "WX" = some (Value.column z)) (hB : env "B" = some (.stack (places.map asColumn)))
    (hZ : env "Z" = some (.stack (labels.map asColumn))) (hg : env "g2" = some (.number g))
    (hk : env "i" = some (.int k)) (hb : places[k]? = some b) (hl : labels[k]? = some l)
    (hlength : z.length = b.length) (hpos : 1 ≤ z.length) (hclasses : 1 ≤ l.length) :
    prototypeTerm.value (fun _ => exp) tensors env =
      some (Value.column (Net.scale (exp (-g*dot (Net.minus z b) (Net.minus z b))) l)) := by
  have hplace : Value.index (.stack (places.map asColumn)) (.int k) = some (Value.column b) := by
    simp [Value.index, hb, Value.column]
  have hlabel : Value.index (.stack (labels.map asColumn)) (.int k) = some (Value.column l) := by
    simp [Value.index, hl, Value.column]
  have hdel : Value.additive .minus (Value.column z) (Value.column b) =
      some (Value.column (Net.minus z b)) :=
    Value.entrywise_asColumn _ hlength
  have hdelLength : (Net.minus z b).length = z.length := by simp [Net.minus, hlength]
  have hturned : Value.transposed (Value.column (Net.minus z b)) =
      some (.matrix [Net.minus z b]) := by
    have hcolumns : columns 1 (asColumn (Net.minus z b)) = [Net.minus z b] := by
      simp [columns, asColumn, comp_def]
    rw [Value.column, Value.transposed, transpose_ok (asColumn_shaped _) (by omega), hcolumns]
    rfl
  have hsquare : Value.product .times (.matrix [Net.minus z b]) (Value.column (Net.minus z b)) =
      some (Value.column [dot (Net.minus z b) (Net.minus z b)]) :=
    Value.product_column (.inl rfl) ⟨rfl,by simp⟩ (Nat.le_refl 1) (by omega)
  have hscore : ∀ e : F, Value.product .times (Value.column l) (Value.column [e]) =
      some (Value.column (Net.scale e l)) := by
    intro e
    rw [Value.column, Value.product_column (x := [e]) (.inl rfl)
      (asColumn_shaped l) hclasses (Nat.le_refl 1)]
    simp [asColumn, Net.scale, comp_def, mul_comm]
  have hkept : ∀ v, v ≠ "del" → update env "del" (some (Value.column (Net.minus z b))) v = env v :=
    fun v hv => update_of_ne hv _ _
  simp only [prototypeTerm, Tree.value, hz, hB, hk, hplace, hdel, hkept "Z" (by decide), hZ,
    hkept "i" (by decide), hlabel, hkept "g2" (by decide), hg, hturned, hsquare,
    update_self, bind_eq_bind, bind_some]
  exact hscore _

end Model

namespace Model.PreparedPrototypes

variable {F : Type}

/-- The tensors of a program, which takes the places and the labels of the prototypes one by one. -/
def tensors (p : PreparedPrototypes F) (places labels : Rows F) (x : List F) (name : String) :
    Option (Value F) :=
  [("X",Value.column x), ("W",.matrix p.W), ("B",.stack (places.map asColumn)),
    ("Z",.stack (labels.map asColumn)), ("norm",Value.column p.offset),
    ("g2",.number p.gammaSquare)].lookup name

def names (p : PreparedPrototypes F) (sparse : Bool) (width : Nat)
    (range : String → String × String) (square : String) : List (String × Tree) :=
  Lang.declared range (p.declarations width)++("g2",.real square)::Lang.bindings (p.lines sparse)

/-- What the program comes to on an input, given the texts of the ranges and of the width of the
kernel. -/
def programScores [Field F] [LinearOrder F] (p : PreparedPrototypes F) (exp : F → F) (sparse : Bool)
    (range : String → String × String) (square : String) (x : List F) : Option (Value F) := do
  let places ← (transpose p.B).toOption
  let labels ← (transpose p.Z).toOption
  (Lang.binds (p.names sparse x.length range square) (.name "res")).value (fun _ => exp)
    (p.tensors places labels x)
    fun _ => none

end Model.PreparedPrototypes

namespace Net.Prototypes

section

variable {F : Type} [Field F] {p : Prototypes F} {ranges : Option (Ranges F)}
  {inputs projected prototypes classes : Nat} {x : List F}
variable (h : p.Sized inputs projected prototypes classes)
    (hranges : ∀ r ∈ ranges, r.low.length = inputs)
include h hranges

theorem declarations_fit :
    ∀ d ∈ (p.prepared ranges inputs projected prototypes classes).declarations x.length, ∃ v,
      (p.prepared ranges inputs projected prototypes classes).tensors (columns prototypes p.places)
        (columns prototypes p.labels) x d.name = some v ∧ v.fits (d.shape.map toString) = true := by
  have hstack : ∀ {rows : Nat} {m : Rows F}, Shaped rows prototypes m →
      (Value.stack ((columns prototypes m).map asColumn)).fits
        [toString prototypes, toString rows, toString 1] = true := by
    intro rows m hm
    have hm := columns_shaped hm
    apply Value.fits_stack
    · rw [List.length_map, hm.length]
    · rintro _ hcolumn
      obtain ⟨row,hrow,rfl⟩ := List.mem_map.1 hcolumn
      exact hm.width row hrow ▸ asColumn_shaped row
  have hoffset : Shaped projected
      1 (asColumn (offsetOf ranges (columns projected p.projection))) := by
    have hlength : (offsetOf ranges (columns projected p.projection)).length = projected := by
      cases ranges with
      | none => simp [offsetOf, columns]
      | some r => simp [offsetOf, divided, applyMat, columns]
    simpa only [hlength] using asColumn_shaped (offsetOf ranges (columns projected p.projection))
  intro d hd
  simp only [declarations, List.mem_append, List.mem_cons, List.not_mem_nil, or_false] at hd
  rcases hd with (rfl | rfl | rfl | rfl) | hd
  · exact ⟨_,rfl,Value.fits_matrix (asColumn_shaped x)⟩
  · exact ⟨_,rfl,Value.fits_matrix (divided_shaped h hranges)⟩
  · exact ⟨_,rfl,hstack h.places⟩
  · exact ⟨_,rfl,hstack h.labels⟩
  · have hd : d = ⟨"norm",1,[projected, 1],3⟩ := by
      cases ranges with
      | none => simp [prepared] at hd
      | some r => simpa [prepared] using hd
    subst hd
    exact ⟨_,rfl,Value.fits_matrix hoffset⟩

variable (hx : x.length = inputs)
include hx

omit h in
theorem minus_offset (r : Ranges F) (hr : ranges = some r) :
    minus (applyMat (divided ranges (columns projected p.projection)) x)
        (offsetOf ranges (columns projected p.projection)) =
      applyMat (columns projected p.projection) (normalised ranges x) := by
  subst hr
  simp only [minus, applyMat, divided, offsetOf, map_some, Option.getD_some, map_map,
    List.zipWith_map, List.zipWith_self]
  apply map_congr_left
  intro row hrow
  exact Standard.dot_divided row _ (hx.trans (hranges r rfl).symm)

variable [LinearOrder F] {exp : F → F} {tensors env : Env F}

theorem image_value (sparse : Bool) (hX : env "X" = some (Value.column x))
    (hW : env "W" = some (.matrix (divided ranges (columns projected p.projection))))
    (hnorm : ranges.isSome →
      env "norm" = some (Value.column (offsetOf ranges (columns projected p.projection)))) :
    ((p.prepared ranges inputs projected prototypes classes).image sparse).value (fun _ => exp)
      tensors env =
      some (Value.column (applyMat (columns projected p.projection) (normalised ranges x))) := by
  have hproduct := Value.product_column (x := x) (Value.times_or_sparse sparse)
    (hx ▸ divided_shaped h hranges)
    h.projected_pos (hx ▸ h.inputs_pos)
  cases ranges with
  | none =>
    simp only [image, prepared, Option.isSome_none, Bool.false_eq_true,
      if_false, Tree.value, hX, hW]
    exact hproduct
  | some r =>
    simp only [image, prepared, Option.isSome_some, if_true, Tree.value, hX, hW,
      hnorm rfl, bind_eq_bind, bind_some]
    rw [hproduct, ← minus_offset hranges hx r rfl]
    exact Value.entrywise_asColumn _ (by simp [offsetOf, applyMat])

end

section

variable {F : Type} [Field F]

theorem total_times (x y : Vec F) : total (times x y) = dot x y := by
  rw [total, times, ← List.map_uncurry_zip_eq_zipWith, List.foldl_map]
  rfl

theorem total_squares (b z : Vec F) :
    total ((minus b z).map fun d => d*d) = dot (minus z b) (minus z b) := by
  have htimes : ∀ v : Vec F, v.map (fun d => d*d) = times v v := by
    intro v
    rw [times, List.zipWith_self]
  rw [htimes, total_times]
  simp only [minus]
  induction b generalizing z with
  | nil => simp
  | cons a b ih =>
    cases z with
    | nil => simp
    | cons c z =>
      simp only [List.zipWith_cons_cons, dot_cons]
      rw [ih]
      ring

variable {p : Prototypes F} {inputs projected prototypes classes : Nat}

def kernels (p : Prototypes F) (exp : F → F) (projected prototypes : Nat) (x : Vec F) : Vec F :=
  let z := applyMat (columns projected p.projection) x
  (columns prototypes p.places).map fun b => exp (-(p.gamma*p.gamma)*dot (minus z b) (minus z b))

theorem score_eq (h : p.Sized inputs projected prototypes classes) (exp : F → F) {x}
    (hx : x.length = inputs) :
    p.score exp x = rowTimes (p.kernels exp projected prototypes x)
      (columns prototypes p.labels) := by
  have hkernels : (p.distances x).map (fun d => exp (-1*p.gamma*p.gamma*d)) =
      p.kernels exp projected prototypes x := by
    rw [distances, rowTimes_eq h.projection h.inputs_pos hx,
      swapAxes_eq_columns h.places h.projected_pos, map_map]
    apply map_congr_left
    intro b _
    simp only [Function.comp_apply, total_squares, neg_mul, one_mul]
  rw [rowTimes_eq (columns_shaped h.labels) h.prototypes_pos (by simp [kernels, columns]),
    columns_columns h.labels, score, hkernels]
  exact map_congr_left fun row _ => total_times row _

theorem length_normalised {ranges} {x : Vec F}
    (hranges : ∀ r ∈ ranges, r.low.length = inputs) (hx : x.length = inputs) :
    (normalised ranges x).length = inputs := by
  cases ranges with
  | none => exact hx
  | some r =>
    simp [normalised, Standard.normalised, Ranges.standard, minus, r.length_high, hranges r rfl, hx]

theorem sum_scaled {rows cols} {m} {w : Vec F} (hm : Shaped rows cols m) (hw : w.length = rows)
    (hrows : 1 ≤ rows) :
    Value.sum ((zipWith scale w m).map Value.column) = some (Value.column (rowTimes w m)) := by
  have hwidth : ∀ u ∈ zipWith scale w m, u.length = cols := by
    intro u hu
    obtain ⟨k,hk,rfl⟩ := List.mem_iff_getElem.1 hu
    rw [List.getElem_zipWith, scale, List.length_map]
    exact hm.width _ (List.getElem_mem _)
  rw [rowTimes]
  cases hlist : zipWith scale w m with
  | nil =>
    have hlength := congrArg List.length hlist
    simp [hm.length, hw] at hlength
    omega
  | cons v vs =>
    rw [hlist] at hwidth
    exact Value.sum_columns fun u hu => (hwidth u (by simp [hu])).trans (hwidth v (by simp)).symm

end

section

variable {F : Type} [Field F] [LinearOrder F] {p : Prototypes F} {ranges : Option (Ranges F)}
  {inputs projected prototypes classes : Nat} {exp : F → F} {tensors env : Env F} {x : Vec F}

theorem result_value (h : p.Sized inputs projected prototypes classes) (hx : x.length = inputs)
    (himage : env "WX" = some (Value.column (applyMat (columns projected p.projection) x)))
    (hplaces : env "B" = some (.stack ((columns prototypes p.places).map asColumn)))
    (hlabels : env "Z" = some (.stack ((columns prototypes p.labels).map asColumn)))
    (hsquare : env "g2" = some (.number (p.gamma*p.gamma))) :
    (Tree.sum "i" "0" (toString prototypes) prototypeTerm).value (fun _ => exp) tensors env =
      some (Value.column (p.score exp x)) := by
  have hB := columns_shaped h.places
  have hZ := columns_shaped h.labels
  have hkernels : (p.kernels exp projected prototypes x).length = prototypes := by
    simp [kernels, hB.length]
  have hterms : (List.range prototypes).mapM
    (fun k : Nat => prototypeTerm.value (fun _ => exp) tensors
      (update env "i" (some (.int (0+(k : Int)))))) =
      some ((zipWith scale (p.kernels exp projected prototypes x) (columns prototypes p.labels)).map
        Value.column) := by
    rw [Fixed.mapM_some_of_forall _ fun k => Value.column
      (scale ((p.kernels exp projected prototypes x).getD k 0)
        ((columns prototypes p.labels).getD k []))]
    · congr 1
      apply ext_getElem
      · simp [hkernels, hZ.length]
      · intro k hk hk'
        have hk : k < prototypes := by simpa using hk
        simp [getElem?_eq_getElem (hkernels.symm ▸ hk), getElem?_eq_getElem (hZ.length.symm ▸ hk)]
    · intro k hk
      have hk := List.mem_range.1 hk
      have hkB : k < (columns prototypes p.places).length := hB.length.symm ▸ hk
      have hkZ : k < (columns prototypes p.labels).length := hZ.length.symm ▸ hk
      have hkept : ∀ v, v ≠ "i" → update env "i" (some (Value.int (0+(k : Int)))) v = env v :=
        fun v hv => update_of_ne hv _ _
      rw [prototypeTerm_value ((hkept _ (by decide)).trans himage)
        ((hkept _ (by decide)).trans hplaces)
        ((hkept _ (by decide)).trans hlabels) ((hkept _ (by decide)).trans hsquare)
        ((update_self ..).trans (by rw [Int.zero_add])) (getElem?_eq_getElem hkB)
        (getElem?_eq_getElem hkZ)]
      · simp [kernels, getElem?_eq_getElem hkB, getElem?_eq_getElem hkZ]
      · simp [applyMat, columns, h.places.length]
      · simpa [applyMat, columns] using h.projected_pos
      · simpa [hZ.width _ (List.getElem_mem hkZ)] using h.classes_pos
  have hzero : Number.readInt? "0" = some 0 := by decide
  simp only [Tree.value, hzero, Number.readInt_toString, bind_eq_bind, bind_some, Int.sub_zero,
    Int.toNat_natCast, hterms, sum_scaled hZ hkernels h.prototypes_pos, score_eq h exp hx]

theorem scores_prepared (h : p.Sized inputs projected prototypes classes)
    (hranges : ∀ r ∈ ranges, r.low.length = inputs) (hx : x.length = inputs) (sparse : Bool)
    (range : String → String × String) (square : String) :
    (p.prepared ranges inputs projected prototypes classes).programScores exp sparse range square
      x = some (Value.column (p.score exp (normalised ranges x))) := by
  let q := p.prepared ranges inputs projected prototypes classes
  let tensors := q.tensors (columns prototypes p.places) (columns prototypes p.labels) x
  obtain ⟨env,hvalues,hdeclared⟩ :=
    Lang.declared_leads (fun _ => exp) range (q.declarations x.length)
    (declarations_fit h hranges) fun _ => none
  have hnorm : ranges.isSome → env "norm" = tensors "norm" := by
    cases ranges with
    | none => simp
    | some r => exact fun _ => hvalues "norm"
  have hfixed : ∀ v ∈ ["X", "W", "B", "Z"], env v = tensors v := by
    intro v hv
    rw [hvalues, if_pos]
    simp only [declarations, List.map_append, List.mem_append]
    exact .inl hv
  -- each binding leaves the values that the later ones read
  let env1 := update env "g2" (some (.number (p.gamma*p.gamma)))
  let env2 := update env1 "WX"
    (some (Value.column (applyMat (columns projected p.projection) (normalised ranges x))))
  have hdecl : (q.image sparse).declared = none := by
    rw [image]
    cases q.normalised with
    | false => rfl
    | true => rfl
  have himage : (q.image sparse).value (fun _ => exp) tensors env1 =
      some (Value.column (applyMat (columns projected p.projection) (normalised ranges x))) :=
    image_value h hranges hx sparse (hfixed "X" (by simp)) (hfixed "W" (by simp)) hnorm
  have hresult : (Tree.sum "i" "0" (toString prototypes) prototypeTerm).value (fun _ => exp) tensors
      env2 = some (Value.column (p.score exp (normalised ranges x))) :=
    result_value h (length_normalised hranges hx) (update_self ..) (hfixed "B" (by simp))
      (hfixed "Z" (by simp)) rfl
  have hlines : Leads (fun _ => exp) tensors
      env (("g2",.real square)::Lang.bindings (q.lines sparse)) _ :=
    Lang.leads_decl rfl rfl
      rfl (Lang.leads_cons hdecl himage (Lang.leads_cons rfl hresult Lang.leads_nil))
  have hnames := hdeclared.append hlines [] (.name "res")
  rw [List.append_nil] at hnames
  have hB : transpose q.B = .ok (columns prototypes p.places) :=
    transpose_ok h.places h.projected_pos
  have hZ : transpose q.Z = .ok (columns prototypes p.labels) := transpose_ok h.labels h.classes_pos
  rw [programScores, hB, hZ]
  exact hnames

/-- The files of a trained model are accepted, and the program written for them comes to the scores
of the model on the normalised input. -/
theorem program_scores_prototypes (p : Prototypes F) (inputs projected prototypes classes : Nat)
    (h : p.Sized inputs projected prototypes classes) (ranges : Option (Ranges F))
    (hranges : ∀ r ∈ ranges, r.low.length = inputs) (exp : F → F) (sparse : Bool)
    (range : String → String × String) (square : String) (x : List F) (hx : x.length = inputs) :
    (p.arrays ranges).validate = .ok () ∧ ∃ q, (p.arrays ranges).prepare = .ok q ∧
      q.programScores exp sparse range square x =
        some (Value.column (p.score exp (normalised ranges x))) :=
  ⟨validate_arrays h hranges,_,prepare_arrays h hranges,
    scores_prepared h hranges hx sparse range square⟩

end

def twoPlaces : Prototypes ℚ where
  projection := [[1, 2], [0, 1]]
  places := [[1, 0], [2, 3]]
  labels := [[1, -1], [0, 2], [5, 1]]
  gamma := 2

theorem twoPlaces_sized : twoPlaces.Sized 2 2 2 3 :=
  ⟨by decide,by decide,by decide,by decide,⟨rfl,by decide⟩,⟨rfl,by decide⟩,⟨rfl,by decide⟩⟩

def twoRanges : Ranges ℚ where
  low := [1, -1]
  high := [3, 3]
  length_high := rfl
  differ := by decide +kernel

/-- The scores with the square for the kernel. -/
theorem program_scores_prototypes_two_places : twoPlaces.Sized 2 2 2 3 ∧ twoRanges.low.length = 2 ∧
    ∃ q, (twoPlaces.arrays (some twoRanges)).prepare = .ok q ∧
      q.programScores (fun y => y*y) true (fun _ => ("-1.0","1.0")) "4.0" [2, 0] =
        some (Value.column [-165, 2809/8, 1827/8]) := by
  have hscore : twoPlaces.score (fun y => y*y) (normalised (some twoRanges) [2, 0]) =
      [-165, 2809/8, 1827/8] := by
    decide +kernel
  have h := program_scores_prototypes twoPlaces 2 2 2 3 twoPlaces_sized (some twoRanges)
    (by rintro r ⟨⟩; rfl) (fun y => y*y) true (fun _ => ("-1.0","1.0")) "4.0" [2, 0] rfl
  rw [hscore] at h
  exact ⟨twoPlaces_sized,rfl,h.2⟩

end Net.Prototypes

end MicroLearn
