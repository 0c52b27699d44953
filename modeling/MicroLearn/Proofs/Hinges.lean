import MicroLearn.Net.Tree
import MicroLearn.Proofs.FirstGreatest
import MicroLearn.Proofs.Word

/-!
# The best wrong class

The hinge of a sample compares the score of its class with the best score of another class. That one
is read off the two greatest scores: it is the second of them if the search for a greatest score
ends at the right class, and the first of them if not. Equal scores do no harm.
-/

set_option autoImplicit false

open List (mapM_map ofFn)

namespace MicroLearn.Net

open Fixed (argmax_isLeast mapM_some_of_forall)

section Scores

variable {α : Type} [LinearOrder α]

/-- The two greatest entries, equal ones counted apart. -/
def TopTwo (xs : List α) (p : α × α) : Prop :=
  p.2 ≤ p.1 ∧ ∃ rest, xs.Perm (p.1::p.2::rest) ∧ ∀ x ∈ rest, x ≤ p.2

theorem topTwo_append {xs : List α} {p : α × α} (h : TopTwo xs p) (x : α) :
    TopTwo (xs++[x]) (if p.1 < x then (x,p.1) else if p.2 < x then (p.1,x) else p) := by
  obtain ⟨hle,rest,hperm,hrest⟩ := h
  have hall : (xs++[x]).Perm (x::p.1::p.2::rest) := by
    exact (List.perm_append_singleton x xs).trans (hperm.cons x)
  split
  · next hx =>
    exact ⟨hx.le,p.2::rest,hall,List.forall_mem_cons.2 ⟨hle,fun y hy => (hrest y hy).trans hle⟩⟩
  split
  · next hx hsecond =>
    refine ⟨not_lt.1 hx,p.2::rest,hall.trans (.swap ..),List.forall_mem_cons.2 ?_⟩
    exact ⟨hsecond.le,fun y hy => (hrest y hy).trans hsecond.le⟩
  · next hx hsecond =>
    refine ⟨hle,x::rest,hall.trans ?_,List.forall_mem_cons.2 ⟨not_lt.1 hsecond,hrest⟩⟩
    exact (List.Perm.swap ..).trans ((List.Perm.swap ..).cons p.1)

theorem topTwo_foldl (ys : List α) {xs : List α} {p : α × α} (h : TopTwo xs p) :
    TopTwo (xs++ys) (ys.foldl (fun (p : α × α) x =>
      if p.1 < x then (x,p.1) else if p.2 < x then (p.1,x) else p) p) := by
  induction ys generalizing xs p with
  | nil => simpa using h
  | cons y ys ih =>
    rw [List.foldl_cons, List.append_cons]
    exact ih (topTwo_append h y)

theorem topTwo_spec {xs : List α} (h : 2 ≤ xs.length) : ∃ p, topTwo? xs = some p ∧ TopTwo xs p := by
  match xs, h with
  | a::b::rest, _ =>
    refine ⟨_,rfl,?_⟩
    apply topTwo_foldl rest (show TopTwo [a, b] _ from ?_)
    split
    · next hlt => exact ⟨hlt.le,[],.swap ..,by simp⟩
    · next hlt => exact ⟨not_lt.1 hlt,[],.refl _,by simp⟩

/-- The score taken for the best wrong one is the greatest at the other places. -/
theorem bestOther_isGreatest {row : List α} {label : Nat} (h : 2 ≤ row.length)
    (hlabel : label < row.length) :
    ∃ wrong, bestOther? row label = some wrong ∧
    IsGreatest {x | ∃ i ≠ label, row[i]? = some x} wrong := by
  obtain ⟨⟨first,second⟩,htop,hle,rest,hperm,hrest⟩ := topTwo_spec h
  obtain ⟨⟨best,hbest,hgreatest⟩,-⟩ := argmax_isLeast (v := row) (by rintro rfl; simp at h)
  have hfirst : best = first := by
    refine le_antisymm ?_ (hgreatest first (hperm.mem_iff.2 List.mem_cons_self))
    have hmem := hperm.mem_iff.1 (List.mem_of_getElem? hbest)
    rcases List.mem_cons.1 hmem with rfl | hmem
    · exact le_rfl
    · rcases List.mem_cons.1 hmem with rfl | hmem
      · exact hle
      · exact (hrest best hmem).trans hle
  simp only [bestOther?, htop, Option.map_some, Option.some.injEq, exists_eq_left',
    ← List.mem_eraseIdx_iff_getElem?]
  split
  · next heq =>
    -- without the right score, which is the greatest one, the second is the greatest
    have hothers : (row.eraseIdx label).Perm (second::rest) := by
      have hright : row[label] = first := by
        rw [heq, hfirst] at hbest
        exact (List.getElem?_eq_some_iff.1 hbest).2
      exact (hright ▸ (List.getElem_cons_eraseIdx_perm hlabel).trans hperm).cons_inv
    refine ⟨hothers.mem_iff.2 List.mem_cons_self,fun x hx => ?_⟩
    rcases List.mem_cons.1 (hothers.mem_iff.1 hx) with rfl | hx
    · exact le_rfl
    · exact hrest x hx
  · next hne =>
    refine ⟨List.mem_eraseIdx_iff_getElem?.2 ⟨_,hne,hfirst ▸ hbest⟩,fun x hx => ?_⟩
    exact hfirst ▸ hgreatest x (List.mem_of_mem_eraseIdx hx)

theorem bestOther_ofFn {classes : Nat} (hclasses : 2 ≤ classes) (scores : Fin classes → α)
    (label : Fin classes) :
    ∃ wrong, bestOther? (ofFn scores) label = some wrong ∧
    IsGreatest (scores '' {label}ᶜ) wrong := by
  have hlabel : label < (ofFn scores).length := by simp
  obtain ⟨wrong,hwrong,hgreatest⟩ := bestOther_isGreatest (by simpa) hlabel
  refine ⟨wrong,hwrong,?_⟩
  convert hgreatest using 1
  ext x
  simp [Fin.exists_iff, Fin.ext_iff]

end Scores

section Batch

variable {F : Type} {batch classes : Nat}

theorem flatten_ofFn_getElem (f : Fin batch → Fin classes → F) (b : Fin batch) (j : Fin classes) :
    (ofFn fun b => ofFn (f b)).flatten[(b : Nat)*classes+j]? = some (f b j) := by
  rw [← List.flatMap_id,
    Fixed.flatMap_getElem _ id classes (by simp [List.mem_ofFn]) b j (by simp) j.2]
  simp

theorem zip_vector_map {ι : Type} [Inhabited F] (op : F → F → F) (l : List ι) (x y : ι → F) :
    (Tensor.vector (l.map x)).zip op (.vector (l.map y)) =
      .ok (.vector (l.map fun i => op (x i) (y i))) := by
  simp [Tensor.zip, Tensor.vector, List.zipWith_map, List.zipWith_self]
  rfl

variable [Field F]

theorem mean_map_finRange (f : Fin batch → F) :
    mean Nat.cast ((List.finRange batch).map f) = (∑ b, f b)/batch := by
  rw [mean, total, ← List.sum_eq_foldl, ← List.ofFn_eq_map, List.sum_ofFn, List.length_ofFn]

variable [LinearOrder F]

theorem positivePart_eq_max (x : F) : positivePart x = max 0 x := by
  rw [positivePart]
  split
  · next hx => exact (max_eq_left hx.le).symm
  · next hx => exact (max_eq_right (not_lt.1 hx)).symm

variable [IsStrictOrderedRing F]

/-- A row of labels that marks one class. -/
def oneHot (label : Fin classes) : List F := ofFn fun j => if j = label then 1 else 0

theorem argmax_oneHot (label : Fin classes) : Fixed.argmax (oneHot label : List F) = label := by
  have hne : (oneHot label : List F) ≠ [] := by
    rw [oneHot, Ne, List.ofFn_eq_nil_iff]
    exact (Fin.pos label).ne'
  obtain ⟨⟨x,hx,hgreatest⟩,-⟩ := argmax_isLeast hne
  generalize Fixed.argmax (oneHot label : List F) = i at hx ⊢
  have hone : (1 : F) ≤ x := hgreatest 1 (List.mem_ofFn.2 ⟨label,if_pos rfl⟩)
  obtain ⟨hlt,hx⟩ := List.getElem?_eq_some_iff.1 hx
  simp only [oneHot, List.getElem_ofFn, Fin.ext_iff] at hx
  by_contra hother
  rw [if_neg hother] at hx
  exact absurd (hx ▸ hone) (by simp)

/-- For any scores, equal ones among them, and labels that mark one class each, the loss is the mean
over the samples of what the best wrong score lacks to stay below the right one by one, also for a
number of samples that is told. -/
theorem hinge_loss_eq_mean [Inhabited F] (hbatch : 1 ≤ batch) (hclasses : 2 ≤ classes)
    (whole : F → Nat) (hwhole : ∀ n : Nat, whole n = n)
    (scores : Fin batch → Fin classes → F) (right : Fin batch → Fin classes) :
    let rows := ofFn fun b => ofFn (scores b)
    let labels := ofFn fun b => oneHot (right b)
    ∃ wrong : Fin batch → F, (∀ b, IsGreatest (scores b '' {right b}ᶜ) (wrong b)) ∧
      let loss := (∑ b, max 0 (1+wrong b-scores b (right b)))/batch
      hingeLoss? Nat.cast rows labels = some loss ∧
        toldHingeLoss Nat.cast whole batch rows labels = .ok loss := by
  intro rows labels
  choose wrong hwrong hgreatest using fun b => bestOther_ofFn hclasses (scores b) (right b)
  let samples := List.finRange batch
  have hcount : ((labels.head?.map List.length).getD 0) = classes := by
    obtain ⟨batch,rfl⟩ : ∃ n, batch = n+1 := ⟨batch-1,by omega⟩
    simp [labels, List.ofFn_succ, oneHot]
  have hbest : labels.map Fixed.argmax = samples.map fun b => (right b : Nat) := by
    simp [labels, samples, List.ofFn_eq_map, Function.comp_def, argmax_oneHot]
  have hrows : rows = samples.map fun b => ofFn (scores b) := List.ofFn_eq_map
  have hright (b : Fin batch) : rows.flatten[(b : Nat)*classes+right b]? =
      some (scores b (right b)) :=
    flatten_ofFn_getElem scores b (right b)
  refine ⟨wrong,hgreatest,?_,?_⟩
  · have hsamples : rows.zip (samples.map fun b => (right b : Nat)).zipIdx =
        samples.map fun b => (ofFn (scores b),(right b : Nat),(b : Nat)) := by
      apply List.ext_getElem <;> simp [hrows, samples]
    rw [hingeLoss?, hcount, hbest, hinges, hsamples, mapM_map,
      mapM_some_of_forall _ (fun b => max 0 (1+wrong b-scores b (right b))), Option.map_some,
      mean_map_finRange]
    intro b _
    simp [hright, hinge?, hwrong, positivePart_eq_max]
  · have hbase : (List.range batch).map (fun i => ((i*classes : Nat) : F)) =
        samples.map fun b : Fin batch => ((b*classes : Nat) : F) := by
      rw [← List.map_coe_finRange_eq_range, List.map_map]
      rfl
    rw [toldHingeLoss, hcount, hbest, hbase, hrows, List.zip_map', List.map_map, Function.comp_def,
      zip_vector_map]
    change (List.mapM (m := Except Fault) _ (samples.map _) >>= _) = _
    rw [mapM_map, Model.mapM_ok_of_forall _ fun b => scores b (right b)]
    · change (List.mapM (m := Except Fault) _ (samples.map _) >>= _) = _
      rw [mapM_map, Model.mapM_ok_of_forall _ wrong]
      · change (Tensor.zip _ (.vector (samples.map _)) (.vector (samples.map _)) >>= _) = _
        rw [zip_vector_map]
        simp only [positivePart_eq_max]
        exact congrArg Except.ok (mean_map_finRange _)
      · intro b _
        simp [hwrong]
    · intro b _
      rw [← hrows, Function.comp_apply, ← Nat.cast_add, hwhole, hright]
      rfl

/-- Two samples with equal greatest scores, the right one among them and not. -/
theorem hinge_loss_eq_mean_ties :
    hingeLoss? Nat.cast [[1, 1, 0], [0, 2, 2]] [[1, 0, 0], [1, 0, 0]] = some (2 : ℚ) ∧
      toldHingeLoss Nat.cast (fun x => x.num.toNat) 2 [[1, 1, 0], [0, 2, 2]]
        [[1, 0, 0], [1, 0, 0]] = .ok (2 : ℚ) := by
  let scores : Fin 2 → Fin 3 → ℚ := ![![1, 1, 0], ![0, 2, 2]]
  obtain ⟨wrong,hwrong,hloss⟩ := hinge_loss_eq_mean (by decide) (by decide)
    (fun x => x.num.toNat) (by simp) scores fun _ => 0
  have hbest : wrong 0 = 1 ∧ wrong 1 = 2 := by
    refine ⟨(hwrong 0).unique ⟨⟨1,by decide,rfl⟩,?_⟩,(hwrong 1).unique ⟨⟨1,by decide,rfl⟩,?_⟩⟩
    · rintro _ ⟨j,-,rfl⟩
      fin_cases j <;> simp [scores]
    · rintro _ ⟨j,-,rfl⟩
      fin_cases j <;> simp [scores]
  have hmean : (∑ b, max 0 (1+wrong b-scores b 0))/(2 : Nat) = 2 := by
    rw [Fin.sum_univ_two, hbest.1, hbest.2]
    norm_num [scores]
  rw [hmean] at hloss
  simpa [scores, oneHot, List.ofFn_succ] using hloss

end Batch

end MicroLearn.Net
