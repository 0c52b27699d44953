import MicroLearn.Proofs.Outliers

/-!
# The budget of weights

Thresholding keeps the weights from a rank on among the magnitudes in rising order. It is stable
under repetition, keeps the largest weights and, where no two have the same magnitude, as many as
the share allows. This is never more than the size that is reported for a small share.
-/

set_option autoImplicit false

namespace MicroLearn.Learn

open Model (holds_at_iff)

instance exactWeight : Weight ℚ where
  count n := n
  above x := .ok ⌈x⌉
  ceil x := ⌈x⌉
  abs x := |x|
  isUndefined _ := false

section Ranks

variable {xs ys : List ℚ} {rank : Nat} {t : ℚ}

theorem rising_perm (xs : List ℚ) : (risingMagnitudes (|·|) xs).Perm (xs.map (|·|)) :=
  List.mergeSort_perm _ _

theorem rising_sorted (xs : List ℚ) : (risingMagnitudes (|·|) xs).Pairwise (· ≤ ·) :=
  Model.sorted_reaches (xs.map (|·|))

theorem length_rising (xs : List ℚ) : (risingMagnitudes (|·|) xs).length = xs.length := by
  rw [(rising_perm xs).length_eq, List.length_map]

theorem rising_le_iff (h : (risingMagnitudes (|·|) xs)[rank]? = some t) (b : ℚ) :
    t ≤ b ↔ rank < xs.countP fun x => decide (|x| ≤ b) := by
  have hplace := holds_at_iff (P := fun x => decide (x ≤ b))
    ((rising_sorted xs).imp fun hxy hy => by
      simp only [decide_eq_true_eq] at hy ⊢
      exact hxy.trans hy) h
  rwa [(rising_perm xs).countP_eq, List.countP_map, decide_eq_true_eq] at hplace

theorem countP_lt_rising (hxs : (xs.map (|·|)).Nodup)
    (h : (risingMagnitudes (|·|) xs)[rank]? = some t) :
    xs.countP (fun x => decide (|x| < t)) = rank := by
  have hlt := ((rising_sorted xs).and ((rising_perm xs).nodup_iff.2 hxs)).imp fun hxy =>
    lt_of_le_of_ne hxy.1 hxy.2
  have hcount : xs.countP (fun x => decide (|x| < t)) =
      (risingMagnitudes (|·|) xs).countP fun x => decide (x < t) := by
    rw [(rising_perm xs).countP_eq, List.countP_map]
    rfl
  have hplace {i : Nat} {x : ℚ} (hx : (risingMagnitudes (|·|) xs)[i]? = some x) :=
    holds_at_iff (P := fun x => decide (x < t)) (hlt.imp fun hxy hy => by
      simp only [decide_eq_true_eq] at hy ⊢
      exact hxy.trans hy) hx
  simp only [decide_eq_true_eq] at hplace
  rw [hcount]
  apply le_antisymm
  · exact not_lt.1 fun hr => lt_irrefl t ((hplace h).2 hr)
  · cases rank with
    | zero => exact Nat.zero_le _
    | succ r =>
      have hlength := (List.getElem?_eq_some_iff.1 h).1
      have hr := List.getElem?_eq_getElem (Nat.lt_of_succ_lt hlength)
      refine (hplace hr).1 ?_
      rw [← (List.getElem?_eq_some_iff.1 h).2]
      exact List.pairwise_iff_getElem.1 hlt r (r+1) _ hlength (Nat.lt_succ_self r)

end Ranks

section Cutting

variable {xs : List ℚ} {rank : Nat} {t : ℚ}

/-- The rank of a threshold does not rise when weights are set to zero, so cutting twice changes
nothing more. -/
theorem thresholdAt_twice (h : (risingMagnitudes (|·|) xs)[rank]? = some t) :
    thresholdAt (|·|) rank (cutBelow (|·|) t xs) = cutBelow (|·|) t xs := by
  have hlength : rank < (risingMagnitudes (|·|) (cutBelow (|·|) t xs)).length := by
    rw [length_rising, cutBelow, List.length_map, ← length_rising]
    exact (List.getElem?_eq_some_iff.1 h).1
  have hnew := List.getElem?_eq_getElem hlength
  generalize (risingMagnitudes (|·|) (cutBelow (|·|) t xs))[rank] = u at hnew
  have hle : u ≤ t := by
    refine (rising_le_iff hnew t).2 (((rising_le_iff h t).1 le_rfl).trans_le ?_)
    rw [cutBelow, List.countP_map]
    refine List.countP_mono_left fun x _ hx => ?_
    simp only [decide_eq_true_eq, Function.comp_apply] at hx ⊢
    split
    · rw [abs_zero]
      exact (abs_nonneg x).trans hx
    · exact hx
  rw [thresholdAt, hnew]
  conv_rhs => rw [← List.map_id (cutBelow (|·|) t xs)]
  refine List.map_congr_left fun y hy => ?_
  obtain ⟨x,-,rfl⟩ := List.mem_map.1 hy
  by_cases hx : |x| < t
  · simp [hx]
  · have hkept : ¬ |x| < u := fun hlt => hx (hlt.trans_le hle)
    simp [hx, hkept]

/-- Where all magnitudes differ and none is zero, all weights but as many as the rank are kept. -/
theorem nonzero_cutBelow (hxs : (xs.map (|·|)).Nodup) (hzero : ∀ x ∈ xs, x ≠ 0)
    (h : (risingMagnitudes (|·|) xs)[rank]? = some t) :
    (cutBelow (|·|) t xs).countP (fun y => decide (y ≠ 0))+rank = xs.length := by
  have hkept : (cutBelow (|·|) t xs).countP (fun y => decide (y ≠ 0)) =
      xs.countP fun x => !decide (|x| < t) := by
    rw [cutBelow, List.countP_map]
    refine List.countP_congr fun x hx => ?_
    by_cases hlt : |x| < t
    · simp [hlt]
    · simp [hlt, hzero x hx]
  rw [hkept, ← countP_lt_rising hxs h, List.length_eq_countP_add_countP (fun x => decide (|x| < t)),
    Nat.add_comm]
  exact congrArg _ (List.countP_congr fun x _ => by simp)

end Cutting

section Shares

variable {s : ℚ} {xs : List ℚ}

/-- The rank of the threshold among `n` weights. -/
def budgetRank (s : ℚ) (n : Nat) : Nat := (n-1-⌊((n-1 : Int) : ℚ)*s⌋).toNat

theorem thresholdRank_eq (h0 : 0 < s) (h1 : s < 1) (n : Nat) :
    thresholdRank ((1-s)*100/100) n = .ok (budgetRank s n) := by
  have hdropped : (1-s)*100/100 = 1-s := by ring
  have hceil : ⌈((n-1 : Int) : ℚ)*(1-s)⌉ = n-1-⌊((n-1 : Int) : ℚ)*s⌋ := by
    rw [mul_sub, mul_one, sub_eq_add_neg, Int.ceil_intCast_add, Int.ceil_neg, ← sub_eq_add_neg]
  rw [thresholdRank, hdropped, if_pos ⟨by linarith,by linarith⟩]
  change Except.ok (⌈((n-1 : Int) : ℚ)*(1-s)⌉.toNat) = _
  rw [hceil, budgetRank]

theorem keepLargest_eq (h0 : 0 < s) (h1 : s < 1) (hxs : xs ≠ []) :
    keepLargest s xs = .ok (thresholdAt (|·|) (budgetRank s xs.length) xs) := by
  have hdefined : xs.any Weight.isUndefined = false :=
    List.any_eq_false.2 fun _ _ => Bool.false_ne_true
  simp only [keepLargest, keepFrom, List.isEmpty_eq_false_iff.2 hxs, thresholdRank_eq h0 h1,
    hdefined]
  rfl

theorem budgetRank_add (h0 : 0 < s) (h1 : s < 1) {n : Nat} (hn : 1 ≤ n) :
    (budgetRank s n : Int)+(1+⌊((n-1 : Int) : ℚ)*s⌋) = n ∧ budgetRank s n < n := by
  have hcount : (0 : ℚ) ≤ ((n-1 : Int) : ℚ) := by exact_mod_cast (by omega : (0 : Int) ≤ n-1)
  have hlow : 0 ≤ ⌊((n-1 : Int) : ℚ)*s⌋ := Int.floor_nonneg.2 (mul_nonneg hcount h0.le)
  have hhigh : ⌊((n-1 : Int) : ℚ)*s⌋ ≤ n-1 :=
    Int.floor_le_iff.2 ((mul_le_of_le_one_right hcount h1.le).trans_lt (lt_add_one _))
  unfold budgetRank
  omega

/-- Thresholding at a share keeps the same weights when it is repeated, and the weights that it sets
to zero are all smaller than those it keeps. If no two magnitudes are equal and none is zero, it
keeps one weight and the share of the others, which is at most what is reported for a small
share. -/
theorem keepLargest_budget (h0 : 0 < s) (h1 : s < 1) (hxs : xs ≠ []) :
    ∃ ys, keepLargest s xs = .ok ys ∧ keepLargest s ys = .ok ys ∧
      (∃ keep : ℚ → Bool, ys = xs.map (fun x => if keep x then x else 0) ∧
        ∀ x ∈ xs, keep x = false → ∀ y ∈ xs, keep y = true → |x| < |y|) ∧
      ((xs.map (|·|)).Nodup → (∀ x ∈ xs, x ≠ 0) →
        (ys.countP (fun y => decide (y ≠ 0)) : Int) = 1+⌊((xs.length-1 : Int) : ℚ)*s⌋ ∧
        (s < 1/2 → ∃ reported, sparseCount xs.length s = some reported ∧
          (ys.countP (fun y => decide (y ≠ 0)) : ℚ) ≤ reported)) := by
  obtain ⟨hrank,hlt⟩ := budgetRank_add h0 h1 (List.length_pos_iff.2 hxs)
  obtain ⟨t,ht⟩ : ∃ t, (risingMagnitudes (|·|) xs)[budgetRank s xs.length]? = some t :=
    ⟨_,List.getElem?_eq_getElem (hlt.trans_eq (length_rising xs).symm)⟩
  have hcut : thresholdAt (|·|) (budgetRank s xs.length) xs = cutBelow (|·|) t xs := by
    rw [thresholdAt, ht]
  have hlength : (cutBelow (|·|) t xs).length = xs.length := List.length_map _
  have hys : cutBelow (|·|) t xs ≠ [] := by
    rw [← List.length_pos_iff, hlength]
    exact List.length_pos_iff.2 hxs
  refine ⟨cutBelow (|·|) t xs,by rw [keepLargest_eq h0 h1 hxs, hcut],?_,?_,?_⟩
  · rw [keepLargest_eq h0 h1 hys, hlength, thresholdAt_twice ht]
  · refine ⟨fun x => !decide (|x| < t),?_,fun x _ hx y _ hy => ?_⟩
    · refine List.map_congr_left fun x _ => ?_
      by_cases hx : |x| < t <;> simp [hx]
    · simp only [Bool.not_eq_false', Bool.not_eq_true', decide_eq_true_eq, decide_eq_false_iff_not,
        not_lt] at hx hy
      exact hx.trans_le hy
  · intro hnodup hzero
    have hcount := nonzero_cutBelow hnodup hzero ht
    have hkept : ((cutBelow (|·|) t xs).countP (fun y => decide (y ≠ 0)) : Int) =
        1+⌊((xs.length-1 : Int) : ℚ)*s⌋ := by omega
    refine ⟨hkept,fun hhalf => ⟨⌈(xs.length : ℚ)*s⌉,?_,?_⟩⟩
    · rw [sparseCount, if_pos (by norm_num; exact hhalf)]
      rfl
    · have hfloor := Int.floor_le (((xs.length-1 : Int) : ℚ)*s)
      have hceil := Int.le_ceil ((xs.length : ℚ)*s)
      have hbelow : ⌊((xs.length-1 : Int) : ℚ)*s⌋ < ⌈(xs.length : ℚ)*s⌉ := by
        rw [← Int.cast_lt (R := ℚ)]
        push_cast at hfloor ⊢
        linarith
      have hle : ((cutBelow (|·|) t xs).countP (fun y => decide (y ≠ 0)) : Int) ≤
          ⌈(xs.length : ℚ)*s⌉ := by omega
      exact_mod_cast hle

/-- Of three weights a share of two fifths keeps one, and two are reported. -/
theorem keepLargest_budget_three : ∃ ys, keepLargest (2/5 : ℚ) [3, -1, 2] = .ok ys ∧
    ys.countP (fun y => decide (y ≠ 0)) = 1 ∧ sparseCount 3 (2/5 : ℚ) = some 2 := by
  have hfloor : ⌊((([3, -1, 2] : List ℚ).length-1 : Int) : ℚ)*(2/5)⌋ = 0 := by
    rw [Int.floor_eq_iff]
    norm_num
  have hceil : ⌈((3 : Int) : ℚ)*(2/5)⌉ = 2 := by
    rw [Int.ceil_eq_iff]
    norm_num
  obtain ⟨ys,hys,-,-,hbudget⟩ := keepLargest_budget (s := 2/5) (by norm_num) (by norm_num)
    (by simp : ([3, -1, 2] : List ℚ) ≠ [])
  obtain ⟨hcount,-⟩ := hbudget (by norm_num [abs_of_pos]) (by norm_num)
  rw [hfloor] at hcount
  refine ⟨ys,hys,by omega,?_⟩
  rw [sparseCount, if_pos (by norm_num)]
  change some ((⌈((3 : Int) : ℚ)*(2/5)⌉ : ℚ)) = _
  rw [hceil]
  norm_num

end Shares

end MicroLearn.Learn
