import Mathlib
import MicroLearn.Learn.Record
import MicroLearn.Proofs.Word

/-!
# Scores of a classifier

The confusion matrix of a classifier counts its samples by the class that was found and the right
one. Each sample stands in one row and one column, and the hits on the diagonal, so the scores over
all samples are the share of hits. The scores of a class lie between 0 and 1, and their harmonic
mean does not exceed the arithmetic one.
-/

set_option autoImplicit false

open List (length_ofFn map_ofFn ofFn sum_ofFn)

namespace MicroLearn.Learn

open Finset
open Model (mapM_ok_of_forall)

section Tables

variable {α β : Type} {n : Nat}

theorem zipIdx_ofFn (f : Fin n → α) : (ofFn f).zipIdx = ofFn fun i => (f i,(i : Nat)) := by
  apply List.ext_getElem <;> simp

theorem range_eq_ofFn (n : Nat) : List.range n = ofFn fun i : Fin n => (i : Nat) := by
  apply List.ext_getElem <;> simp

theorem mapM_ofFn {step : α → Except Fault β} {f : Fin n → α} {g : Fin n → β}
    (h : ∀ i, step (f i) = .ok (g i)) : (ofFn f).mapM step = .ok (ofFn g) := by
  rw [List.ofFn_eq_map, List.mapM_map, List.ofFn_eq_map]
  exact mapM_ok_of_forall _ g _ fun i _ => h i

theorem total_ofFn (f : Fin n → ℚ) : total (ofFn f) = ∑ i, f i := by
  rw [total, ← List.sum_eq_foldl, sum_ofFn]

theorem tally_eq (n : Nat) : (tally n : ℚ) = n := by
  induction n with
  | zero => rfl
  | succ n ih => rw [tally, ih, Nat.cast_succ]

end Tables

section Matrix

variable {classes : Nat} (M : Fin classes → Fin classes → ℚ)

def matrix : Model.Rows ℚ := ofFn fun i => ofFn (M i)

def rowSum (i : Fin classes) : ℚ := ∑ j, M i j

def columnSum (j : Fin classes) : ℚ := ∑ i, M i j

theorem length_matrix : (matrix M).length = classes := length_ofFn

theorem entry_matrix (i j : Fin classes) : Model.entry (matrix M) i j = .ok (M i j) := by
  simp [Model.entry, matrix]

theorem rowSums_matrix : rowSums (matrix M) = ofFn (rowSum M) := by
  rw [rowSums, matrix, map_ofFn]
  exact congrArg ofFn (funext fun i => total_ofFn (M i))

theorem columnSums_matrix : columnSums (matrix M) = ofFn (columnSum M) := by
  have hfold (rows : List (Fin classes → ℚ)) (sums : Fin classes → ℚ) :
      (rows.map ofFn).foldl (fun sums row => sums.zipWith (· + ·) row) (ofFn sums) =
        ofFn fun j => sums j+(rows.map (· j)).sum := by
    induction rows generalizing sums with
    | nil => simp
    | cons row rows ih =>
      have hstep : (ofFn sums).zipWith (· + ·) (ofFn row) = ofFn fun j => sums j+row j := by
        apply List.ext_getElem <;> simp
      simp [hstep, ih, add_assoc]
  cases classes with
  | zero => rfl
  | succ n =>
    have hrows : matrix M = ofFn (M 0)::(ofFn fun i : Fin n => M i.succ).map ofFn := by
      simp [matrix, List.ofFn_succ, map_ofFn, Function.comp_def]
    rw [columnSums, hrows, List.tail_cons, List.headD_cons, hfold]
    refine congrArg ofFn (funext fun j => ?_)
    rw [columnSum, Fin.sum_univ_succ, map_ofFn, sum_ofFn]
    rfl

theorem diagonalShares_matrix (T : Fin classes → ℚ) :
    diagonalShares (matrix M) (ofFn T) 0 = .ok (ofFn fun i => M i i/T i) := by
  rw [diagonalShares, zipIdx_ofFn]
  refine mapM_ofFn fun i => ?_
  by_cases hzero : T i = 0
  · simp [hzero]
    rfl
  · simp [hzero, entry_matrix]

def precisionOf (i : Fin classes) : ℚ := M i i/rowSum M i

def recallOf (i : Fin classes) : ℚ := M i i/columnSum M i

theorem macroScores_matrix :
    macroScores (matrix M) = .ok ((∑ i, precisionOf M i)/classes,(∑ i, recallOf M i)/classes) := by
  rw [macroScores, rowSums_matrix, columnSums_matrix, diagonalShares_matrix, diagonalShares_matrix]
  change Except.ok (_/tally _,_/tally _) = _
  simp only [total_ofFn, tally_eq, length_ofFn]
  rfl

theorem microScores_matrix : microScores (matrix M) =
    .ok ((∑ i, M i i)/∑ i, rowSum M i,(∑ i, M i i)/∑ i, columnSum M i) := by
  rw [microScores, diagonal, length_matrix, range_eq_ofFn, mapM_ofFn fun i => entry_matrix M i i,
    rowSums_matrix, columnSums_matrix]
  change Except.ok (total _/_,total _/_) = _
  simp only [total_ofFn]

theorem fScores_matrix : fScores (matrix M) =
    .ok ((∑ i, harmonic (precisionOf M i) (recallOf M i))/classes,
      let p := (∑ i, M i i)/∑ i, rowSum M i
      let r := (∑ i, M i i)/∑ i, columnSum M i
      (1+1)*p*r/orOne (p+r)) := by
  rw [fScores, rowSums_matrix, columnSums_matrix, diagonalShares_matrix, diagonalShares_matrix]
  change (List.mapM (m := Except Fault) _ (List.zipIdx _) >>= _) = _
  rw [zipIdx_ofFn, mapM_ofFn (g := fun i => harmonic (precisionOf M i) (recallOf M i))]
  · change (List.mapM (m := Except Fault) _ _ >>= _) = _
    rw [length_ofFn, range_eq_ofFn, mapM_ofFn fun i => entry_matrix M i i]
    change Except.ok (_/tally _,_) = _
    simp only [total_ofFn, tally_eq]
  · intro i
    simp [precisionOf, recallOf]

theorem hit_div_orOne {hit sum : ℚ} (h0 : 0 ≤ hit) (hle : hit ≤ sum) : hit/orOne sum = hit/sum := by
  by_cases hsum : sum = 0
  · obtain rfl : hit = 0 := le_antisymm (hsum ▸ hle) h0
    simp
  · simp [orOne, hsum]

theorem twice_square_div (x : ℚ) : (1+1)*x*x/orOne (x+x) = x := by
  by_cases hx : x = 0
  · simp [hx]
  · rw [orOne, if_neg (by simpa [← two_mul] using hx)]
    field_simp

theorem place_fin {n : Nat} (i : Fin n) : place n (i : Nat) = .ok (i : Nat) := by
  simp [place]

variable {M} (hM : ∀ i j, 0 ≤ M i j)
include hM

theorem classScores_matrix (i : Fin classes) :
    classScores (matrix M) (i : Nat) = .ok (precisionOf M i,recallOf M i) := by
  have hrow : M i i ≤ rowSum M i := single_le_sum (f := M i) (fun j _ => hM i j) (mem_univ i)
  have hcolumn : M i i ≤ columnSum M i :=
    single_le_sum (f := (M · i)) (fun j _ => hM j i) (mem_univ i)
  rw [classScores, length_matrix, place_fin, columnSums_matrix, rowSums_matrix]
  change (place (ofFn (columnSum M)).length _ >>= _) = _
  rw [length_ofFn, place_fin]
  change (Model.entry (matrix M) i i >>= _) = _
  rw [entry_matrix]
  change Except.ok (_,_) = _
  simp [hit_div_orOne (hM i i), hrow, hcolumn, precisionOf, recallOf]

theorem share_nonneg (i : Fin classes) : 0 ≤ precisionOf M i ∧ 0 ≤ recallOf M i :=
  ⟨div_nonneg (hM i i) (sum_nonneg fun j _ => hM i j),
    div_nonneg (hM i i) (sum_nonneg fun j _ => hM j i)⟩

omit hM in
theorem harmonic_bounds {p r : ℚ} (hp : 0 ≤ p) (hr : 0 ≤ r) :
    0 ≤ harmonic p r ∧ harmonic p r ≤ (p+r)/2 := by
  by_cases hsum : p+r = 0
  · obtain rfl : p = 0 := by linarith
    simpa [harmonic] using div_nonneg hr zero_le_two
  · have hpos : 0 < p+r := lt_of_le_of_ne (add_nonneg hp hr) (Ne.symm hsum)
    rw [harmonic, orOne, if_neg (by simpa using hsum)]
    refine ⟨by positivity,(div_le_iff₀ hpos).2 ?_⟩
    linarith [sq_nonneg (p-r)]

theorem meanHarmonic_bounds : 0 ≤ (∑ i, harmonic (precisionOf M i) (recallOf M i))/classes ∧
    (∑ i, harmonic (precisionOf M i) (recallOf M i))/classes ≤
      ((∑ i, precisionOf M i)/classes+(∑ i, recallOf M i)/classes)/2 := by
  have hbounds (i) := harmonic_bounds (share_nonneg hM i).1 (share_nonneg hM i).2
  have hsum : ∑ i, harmonic (precisionOf M i) (recallOf M i) ≤
      (∑ i, precisionOf M i+∑ i, recallOf M i)/2 := by
    rw [← sum_add_distrib, sum_div]
    exact sum_le_sum fun i _ => (hbounds i).2
  refine ⟨div_nonneg (sum_nonneg fun i _ => (hbounds i).1) (Nat.cast_nonneg _),?_⟩
  calc (∑ i, harmonic (precisionOf M i) (recallOf M i))/classes
      ≤ (∑ i, precisionOf M i+∑ i, recallOf M i)/2/classes :=
        div_le_div_of_nonneg_right hsum (Nat.cast_nonneg _)
    _ = _ := by ring

end Matrix

section Samples

variable {classes count : Nat} (predicted target : Fin count → Fin classes)

def cell (i j : Fin classes) : Nat := #{k | predicted k = i ∧ target k = j}

theorem count_ofFn {α : Type} [BEq α] [LawfulBEq α] [DecidableEq α] (f : Fin count → α) (a : α) :
    (ofFn f).count a = #{k | f k = a} := by
  rw [List.ofFn_eq_map, List.count, List.countP_map, List.countP_eq_length_filter, Fin.univ_def]
  simp [Finset.card, Function.comp_def, beq_eq_decide]

theorem confusion_eq : confusion classes (ofFn fun k => ((predicted k : Nat) : Int))
    (ofFn fun k => ((target k : Nat) : Int)) =
      .ok (ofFn fun i => ofFn (cell predicted target i)) := by
  rw [confusion, zipIdx_ofFn, mapM_ofFn (g := fun k => ((predicted k : Nat),(target k : Nat)))]
  · change Except.ok ((List.range classes).map fun i => (List.range classes).map fun j =>
      List.count (i,j) _) = _
    simp only [range_eq_ofFn, map_ofFn, Function.comp_def, count_ofFn, Prod.mk.injEq, ← Fin.ext_iff]
    rfl
  · intro k
    simp only [place_fin, bind, Except.bind]
    simp [place_fin]
    rfl

/-- Each sample stands in one cell. -/
theorem sum_cell (f : Fin classes → Fin classes → ℚ) :
    ∑ i, ∑ j, f i j*cell predicted target i j = ∑ k, f (predicted k) (target k) := by
  rw [← sum_fiberwise univ (fun k => (predicted k,target k)), Fintype.sum_prod_type]
  refine sum_congr rfl fun i _ => sum_congr rfl fun j _ => ?_
  have hcell : ∀ k ∈ ({k | (predicted k,target k) = (i,j)} : Finset (Fin count)),
      f (predicted k) (target k) = f i j := by
    intro k hk
    obtain ⟨rfl,rfl⟩ := Prod.mk.inj (mem_filter.1 hk).2
    rfl
  rw [sum_congr rfl hcell, sum_const, nsmul_eq_mul, mul_comm]
  simp [cell]

omit predicted target in
/-- The cells hold every sample once. The scores over all samples are the share of hits, the scores
over all classes the means of their scores, and the mean of the harmonic means lies between 0 and
the mean of these two. -/
theorem scores_consistent (predicted target : Fin (count+1) → Fin classes) : ∃ m, confusion classes
    (ofFn fun k => ((predicted k : Nat) : Int)) (ofFn fun k => ((target k : Nat) : Int)) = .ok m ∧
    m.flatten.sum = count+1 ∧
    let q : Model.Rows ℚ := m.map fun row => row.map Nat.cast
    let hits : ℚ := #{k | predicted k = target k}/(count+1 : Nat)
    microScores q = .ok (hits,hits) ∧
    ∃ (each : Fin classes → ℚ × ℚ) (p r f : ℚ),
    (∀ i : Fin classes, classScores q (i : Nat) = .ok (each i)) ∧
      p = (∑ i, (each i).1)/classes ∧ r = (∑ i, (each i).2)/classes ∧
      macroScores q = .ok (p,r) ∧ fScores q = .ok (f,hits) ∧ 0 ≤ f ∧ f ≤ (p+r)/2 := by
  generalize count+1 = count at predicted target ⊢
  let M : Fin classes → Fin classes → ℚ := fun i j => cell predicted target i j
  have hM (i j) : 0 ≤ M i j := Nat.cast_nonneg _
  have hq : (ofFn fun i => ofFn (cell predicted target i)).map (fun row => row.map Nat.cast) =
      matrix M := by
    simp [matrix, M, map_ofFn, Function.comp_def]
  have hrows : ∑ i, rowSum M i = count := by
    simpa [rowSum, M] using sum_cell predicted target fun _ _ => 1
  have hcolumns : ∑ j, columnSum M j = count := hrows ▸ sum_comm
  have hhits : ∑ i, M i i = #{k | predicted k = target k} := by
    simpa [M, sum_boole] using sum_cell predicted target fun i j => if i = j then 1 else 0
  refine ⟨_,confusion_eq predicted target,?_,?_,?_⟩
  · rw [List.sum_flatten]
    have hsum : ((∑ i, ∑ j, cell predicted target i j : Nat) : ℚ) = count := by
      simpa [rowSum, M] using hrows
    simpa [map_ofFn, Function.comp_def, sum_ofFn] using Nat.cast_injective hsum
  · rw [hq, microScores_matrix, hrows, hcolumns, hhits]
  · rw [hq]
    refine ⟨fun i => (precisionOf M i,recallOf M i),_,_,_,classScores_matrix hM,rfl,rfl,
      macroScores_matrix M,?_,meanHarmonic_bounds hM⟩
    rw [fScores_matrix, hrows, hcolumns, hhits]
    exact congrArg (fun x => Except.ok (_,x)) (twice_square_div _)

end Samples

end MicroLearn.Learn
