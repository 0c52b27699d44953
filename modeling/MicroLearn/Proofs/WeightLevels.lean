import Mathlib
import MicroLearn.Learn.Record

/-!
# The levels of weights

Weights are multiplied by a factor, rounded and clamped. The factor spreads the largest magnitude
over all levels, but is itself rounded, so a large weight can be clamped by more than one step.
-/

set_option autoImplicit false

namespace MicroLearn.Learn

/-- The nearest whole number, the even one of two. -/
def nearestEven (x : ℚ) : ℤ :=
  if 2*(x-⌊x⌋) < 1 ∨ 2*(x-⌊x⌋) = 1 ∧ Even ⌊x⌋ then ⌊x⌋ else ⌊x⌋+1

theorem nearestEven_near (x : ℚ) : |nearestEven x-x| ≤ 1/2 := by
  have hfloor := Int.floor_le x
  have hlt := Int.lt_floor_add_one x
  rw [abs_le, nearestEven]
  split <;> push_cast <;> constructor <;> grind

theorem nearestEven_pos {x : ℚ} : 0 < nearestEven x ↔ 1/2 < x := by
  have hnear := abs_le.1 (nearestEven_near x)
  refine ⟨fun h => lt_of_le_of_ne ?_ ?_,fun h => ?_⟩
  · have hone : (1 : ℚ) ≤ nearestEven x := mod_cast h
    linarith
  · rintro rfl
    norm_num [nearestEven] at h
  · have hpos : (0 : ℚ) < nearestEven x := by linarith
    exact mod_cast hpos

/-- A whole number is kept or clamped, and then it is beyond the last level. -/
theorem clampLevel_whole (most : ℕ) (n : ℤ) {q : ℚ} (hq : clampLevel (most : ℚ) n = q) :
    -(most+1) ≤ q ∧ q ≤ most ∧
    (q = n ∨ q = most ∧ (most+1 : ℚ) ≤ n ∨ q = -(most+1) ∧ (n : ℚ) ≤ -(most+1)) := by
  have hmost : (0 : ℚ) ≤ most := Nat.cast_nonneg most
  have habove (h : (most : ℚ) < n) : (most+1 : ℚ) ≤ n := mod_cast h
  have hbelow (h : (n : ℚ) < -most) : (n : ℚ) ≤ -(most+1) := by
    have hn : n+1 ≤ -(most : ℤ) := mod_cast h
    have hn' : (n : ℚ)+1 ≤ -most := mod_cast hn
    linarith
  grind [clampLevel]

/-- The factor is positive if the largest magnitude is small enough. The levels are whole steps from
the weights at most where the factor brings a weight no further than one step beyond the last
level. -/
theorem levels_within_step {most : ℕ} {limit w : ℚ} (hlimit : 0 < limit) (hw : |w| ≤ limit) :
    let f : ℚ := nearestEven (levelFactor (most : ℚ) limit)
    let q := level (fun x => (nearestEven x : ℚ)) most f w
    (0 < f ↔ limit < 2*most+1) ∧ -(most+1) ≤ q ∧ q ≤ most ∧
      (0 < f → (|q/f-w| ≤ 1/f ↔ -(most+2) ≤ f*w ∧ f*w ≤ most+1) ∧ |q/f-w| ≤ (1+limit)/2/f) := by
  intro f q
  obtain ⟨hlow,hhigh,hcut⟩ := clampLevel_whole most (nearestEven (f*w)) (rfl : _ = q)
  have hnear := abs_le.1 (nearestEven_near (f*w))
  have hfactor := abs_le.1 (nearestEven_near (levelFactor (most : ℚ) limit))
  have hspread : levelFactor (most : ℚ) limit*limit = most+1/2 := by
    rw [levelFactor]
    field_simp
  refine ⟨?_,hlow,hhigh,fun hf => ?_⟩
  · rw [Int.cast_pos, nearestEven_pos, levelFactor, lt_div_iff₀ (by positivity)]
    constructor <;> intro h <;> linarith
  have hreach : |f*w| ≤ most+1/2+limit/2 := by
    rw [abs_mul, abs_of_pos hf]
    calc f*|w| ≤ f*limit := by gcongr
      _ ≤ (levelFactor (most : ℚ) limit+1/2)*limit := by gcongr; linarith
      _ = most+1/2+limit/2 := by linarith
  have herror : q/f-w = (q-f*w)/f := by field_simp
  rw [herror, abs_div, abs_of_pos hf, div_le_div_iff_of_pos_right hf,
    div_le_div_iff_of_pos_right hf, abs_le, abs_le]
  rw [abs_le] at hreach
  clear_value q f
  rcases hcut with rfl | ⟨rfl,hn⟩ | ⟨rfl,hn⟩ <;> grind

/-- The weight 5 is clamped from 130 to 127. -/
theorem levels_within_step_five :
    let f : ℚ := nearestEven (levelFactor 127 5)
    let q := level (fun x => (nearestEven x : ℚ)) 127 f 5
    f = 26 ∧ ¬ |q/f-5| ≤ 1/f ∧ |q/f-5| ≤ 3/f := by
  have hfactor : nearestEven (levelFactor 127 5) = 26 := by
    have hfloor : ⌊(51/2 : ℚ)⌋ = 25 := by norm_num
    norm_num [nearestEven, levelFactor, hfloor]
  have h := (@levels_within_step 127 5 5 (by norm_num) (by norm_num)).2.2.2
  norm_num [hfactor] at h ⊢
  exact h

end MicroLearn.Learn
