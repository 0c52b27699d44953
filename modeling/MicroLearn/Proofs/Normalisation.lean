import Mathlib.Algebra.Order.BigOperators.Group.List
import Mathlib.Algebra.BigOperators.Ring.List
import Mathlib.Algebra.Order.Ring.Abs
import Mathlib.Order.Bounds.Basic
import MicroLearn.Proofs.Word

/-!
# Normalised positions

A position of a tensor is multiplied by the inverse of its norm, which is found by
bisection. The squares of the norm are cut towards zero after squaring, the factors of the
result before: cut numbers have squares no greater than cut squares, and so the
result has at most the norm one where the bisection has found a factor.
-/

set_option autoImplicit false

namespace MicroLearn.Fixed

open MicroLearn.Number

section Bisection

variable {square one low high : Int}

theorem square_le_square (hsquare : 0 ≤ square) {u v} (hu : 0 ≤ u) (huv : u ≤ v) :
    square*u*u ≤ square*v*v := by
  rw [mul_assoc, mul_assoc]
  exact mul_le_mul_of_nonneg_left (mul_le_mul huv huv hu (hu.trans huv)) hsquare

theorem inverseNorm_mem (square one low high : Int) :
    low ≤ inverseNorm square one low high ∧ inverseNorm square one low high ≤ max low (high-1) := by
  fun_induction inverseNorm square one low high with
  | case1 low high hlt mid hover ih =>
    omega
  | case2 low high hlt mid hover ih =>
    omega
  | case3 low high hlt => omega

/-- What the bisection comes to is a factor that it has tried and found small enough, or
its lower bound; all factors above it are too great. -/
theorem inverseNorm_spec (hsquare : 0 ≤ square) (hlow : 0 ≤ low) :
    (inverseNorm square one low high = low ∨
      square*inverseNorm square one low high*inverseNorm square one low high ≤ one) ∧
    ∀ v, inverseNorm square one low high < v → v < high → one < square*v*v := by
  fun_induction inverseNorm square one low high with
  | case1 low high hlt mid hover ih =>
    obtain ⟨hfound,habove⟩ := ih hlow
    refine ⟨hfound,fun v hv hvhigh => ?_⟩
    rcases lt_or_ge v mid with hvmid | hvmid
    · exact habove v hv hvmid
    · exact hover.trans_le (square_le_square hsquare (by omega) hvmid)
  | case2 low high hlt mid hover ih =>
    obtain ⟨hfound,habove⟩ := ih (by omega)
    refine ⟨.inr ?_,habove⟩
    rcases hfound with heq | hle
    · rw [heq]
      exact not_lt.1 hover
    · exact hle
  | case3 low high hlt => exact ⟨.inl rfl,fun v hv hvhigh => by omega⟩

end Bisection

theorem tdiv_mul_self_le (x : Int) (k : Nat) :
    x.tdiv (twoPow k)*x.tdiv (twoPow k) ≤ (x*x) >>> (2*k) := by
  have hpos : (0 : Int) < twoPow k := Int.natCast_pos.2 (twoPow_pos k)
  have hsquare : ((2^(2*k) : Nat) : Int) = twoPow k*twoPow k := by
    rw [twoPow_eq, two_mul, pow_add, Nat.cast_mul]
  have habs : |x.tdiv (twoPow k)*twoPow k| ≤ |x| := by
    rw [Int.abs_eq_natAbs, Int.abs_eq_natAbs, Int.natAbs_mul, Int.natAbs_tdiv]
    exact_mod_cast Nat.div_mul_le_self x.natAbs _
  rw [Int.shiftRight_eq_div_pow, hsquare, Int.le_ediv_iff_mul_le (mul_pos hpos hpos)]
  calc x.tdiv (twoPow k)*x.tdiv (twoPow k)*(twoPow k*twoPow k)
      = x.tdiv (twoPow k)*twoPow k*(x.tdiv (twoPow k)*twoPow k) := by ring
    _ ≤ x*x := by
      rw [← abs_mul_abs_self, ← abs_mul_abs_self x]
      exact mul_self_le_mul_self (abs_nonneg _) habs

theorem square_shift_nonneg (x : Int) (k : Nat) : 0 ≤ (x*x) >>> k := by
  rw [Int.shiftRight_eq_div_pow]
  exact Int.ediv_nonneg (mul_self_nonneg x) (Int.natCast_nonneg _)

section Position

variable {scaleIn scaleOut : Int} {p : List Int}

theorem squares_nonneg (scaleOut : Int) (p : List Int) : 0 ≤ squares scaleOut p := by
  apply List.sum_nonneg
  intro y hy
  obtain ⟨x,-,rfl⟩ := List.mem_map.1 hy
  exact square_shift_nonneg x _

/-- The number one at the scale of a squared norm. -/
def oneSquared (scaleIn : Int) : Int := twoPow (-(2*scaleIn+2)).toNat

/-- The factor that a position is multiplied by. -/
def inverseOf (scaleIn scaleOut : Int) (p : List Int) : Int :=
  inverseNorm (squares scaleOut p) (oneSquared scaleIn) 1 (twoPow (scaleOut-1).toNat)

def scaled (scaleIn scaleOut : Int) (p : List Int) : List Int :=
  p.map fun x => x.tdiv (twoPow scaleOut.toNat)*inverseOf scaleIn scaleOut p

/-- What the bisection is for: the greatest factor in its range that keeps the norm to one. -/
def factors (scaleIn scaleOut : Int) (p : List Int) : Set Int :=
  {v | 1 ≤ v ∧ v ≤ max 1 ((twoPow (scaleOut-1).toNat : Int)-1) ∧
    squares scaleOut p*v*v ≤ oneSquared scaleIn}

theorem inverseOf_mem (scaleIn scaleOut : Int) (p : List Int) : 1 ≤ inverseOf scaleIn scaleOut p ∧
    inverseOf scaleIn scaleOut p ≤ max 1 ((twoPow (scaleOut-1).toNat : Int)-1) :=
  inverseNorm_mem _ _ _ _

theorem inverseOf_spec (scaleIn scaleOut : Int) (p : List Int) :
    IsGreatest (factors scaleIn scaleOut p) (inverseOf scaleIn scaleOut p) ∨
      factors scaleIn scaleOut p = ∅ ∧ inverseOf scaleIn scaleOut p = 1 := by
  obtain ⟨hfound,habove⟩ := @inverseNorm_spec _ (oneSquared scaleIn) 1
    (twoPow (scaleOut-1).toNat) (squares_nonneg scaleOut p) (by decide)
  have hmem := inverseOf_mem scaleIn scaleOut p
  have hupper : ∀ v ∈ factors scaleIn scaleOut p, v ≤ inverseOf scaleIn scaleOut p := by
    rintro v ⟨hv,hmax,hle⟩
    by_contra hgt
    exact absurd hle (not_le.2 (habove v (not_le.1 hgt) (by unfold inverseOf at *; omega)))
  by_cases hle : squares scaleOut p*inverseOf scaleIn scaleOut p*inverseOf scaleIn scaleOut p ≤
      oneSquared scaleIn
  · exact .inl ⟨⟨hmem.1,hmem.2,hle⟩,hupper⟩
  · have hone : inverseOf scaleIn scaleOut p = 1 := hfound.resolve_right hle
    refine .inr ⟨Set.eq_empty_of_forall_notMem fun v hv => hle ?_,hone⟩
    have hvone : v = 1 := le_antisymm (hone ▸ hupper v hv) hv.1
    rw [hone, ← hvone]
    exact hv.2.2

theorem scaled_inWord (hout : 1 ≤ scaleOut ∧ scaleOut ≤ 15) {x} (hx : InWord 16 x) :
    InWord 16 (x.tdiv (twoPow scaleOut.toNat)*inverseOf scaleIn scaleOut p) := by
  obtain ⟨k,rfl⟩ : ∃ k : Nat, scaleOut = k+1 := ⟨(scaleOut-1).toNat,by omega⟩
  have hmem := inverseOf_mem scaleIn (k+1) p
  generalize inverseOf scaleIn (k+1) p = v at hmem
  rw [show ((k : Int)+1-1).toNat = k by omega] at hmem
  rw [show ((k : Int)+1).toNat = k+1 by omega]
  have hcut : |x.tdiv (twoPow (k+1))| * (2*twoPow k) ≤ 2^15 := by
    have hx' : x.natAbs ≤ 2^15 := by
      have := hx.1
      have := hx.2
      rw [twoPow_eq] at *
      omega
    have hquotient := Nat.div_mul_le_self x.natAbs (twoPow (k+1))
    rw [Int.abs_eq_natAbs, Int.natAbs_tdiv]
    rw [twoPow_succ] at hquotient ⊢
    exact_mod_cast hquotient.trans hx'
  have hpow := twoPow_pos k
  have hv : |v| ≤ twoPow k := by
    rw [abs_of_nonneg (by omega)]
    omega
  have hproduct : |x.tdiv (twoPow (k+1))*v| * 2 ≤ 2^15 := by
    rw [abs_mul]
    nlinarith [abs_nonneg (x.tdiv (twoPow (k+1)))]
  rw [InWord, twoPow_eq]
  have := abs_le.1 (show |x.tdiv (twoPow (k+1))*v| ≤ 2^14 by omega)
  omega

theorem normalisePosition_eq (hout : 1 ≤ scaleOut ∧ scaleOut ≤ 15)
    (hin : -15 ≤ scaleIn ∧ scaleIn ≤ -1)
    (hword : ∀ x ∈ p, InWord 16 x) (hfits : squares scaleOut p < 2^31) :
    normalisePosition .factors scaleIn scaleOut p = scaled scaleIn scaleOut p := by
  have hsquares : wrap 32 (squares scaleOut p) = squares scaleOut p := by
    have := squares_nonneg scaleOut p
    exact wrap_eq_self (by decide) ⟨by rw [twoPow_eq]; omega,hfits⟩
  have hone : wrap 32 (oneSquared scaleIn) = oneSquared scaleIn := by
    have hpow : twoPow (-(2*scaleIn+2)).toNat < 2^31 := Nat.pow_lt_pow_right (by decide) (by omega)
    exact wrap_eq_self (by decide)
      ⟨by rw [oneSquared]; omega,by rw [oneSquared]; exact_mod_cast hpow⟩
  have hhigh : wrap 16 (twoPow (scaleOut-1).toNat) = twoPow (scaleOut-1).toNat := by
    have hpow : twoPow (scaleOut-1).toNat < 2^15 := Nat.pow_lt_pow_right (by decide) (by omega)
    exact wrap_eq_self (by decide) ⟨by rw [twoPow_eq]; omega,by exact_mod_cast hpow⟩
  apply List.map_congr_left
  intro x hx
  rw [hsquares, hhigh]
  change wrap 16 (_*inverseNorm _ (wrap 32 (oneSquared scaleIn)) _ _) = _
  rw [hone]
  exact wrap_eq_self (by decide) (scaled_inWord hout (hword x hx))

theorem norm_scaled (hle : squares scaleOut p ≤ oneSquared scaleIn) :
    ((scaled scaleIn scaleOut p).map fun y => y*y).sum ≤ oneSquared scaleIn := by
  have hfactor : squares scaleOut p*inverseOf scaleIn scaleOut p*inverseOf scaleIn scaleOut p ≤
      oneSquared scaleIn := by
    rcases inverseOf_spec scaleIn scaleOut p with hgreatest | ⟨-,hone⟩
    · exact hgreatest.1.2.2
    · simpa [hone] using hle
  refine le_trans ?_ hfactor
  have hcut : (p.map fun x => x.tdiv (twoPow scaleOut.toNat)*x.tdiv (twoPow scaleOut.toNat)).sum ≤
      squares scaleOut p := by
    apply List.sum_le_sum
    intro x _
    rw [show (2*scaleOut).toNat = 2*scaleOut.toNat by omega]
    exact tdiv_mul_self_le x _
  have hsum : ((scaled scaleIn scaleOut p).map fun y => y*y).sum =
      (p.map fun x => x.tdiv (twoPow scaleOut.toNat)*x.tdiv (twoPow scaleOut.toNat)).sum *
        (inverseOf scaleIn scaleOut p*inverseOf scaleIn scaleOut p) := by
    rw [← List.sum_map_mul_right, scaled, List.map_map]
    congr 1
    apply List.map_congr_left
    intro x _
    simp only [Function.comp_apply]
    ring
  rw [hsum, mul_assoc]
  exact mul_le_mul_of_nonneg_right hcut (mul_self_nonneg _)

end Position

/-- A tensor of words is normalised position by position. Where the squares of a position add up to
less than `2 ^ 31`, the bisection comes to the greatest factor that keeps the norm to one, or to one
if there is none; every number of the position, cut by the scale, times that factor is a word, and
these words are what is stored. If the squares of the position add up to at most one, those of the
result do. -/
theorem normalised_within_one (scaleIn scaleOut : Int) (hout : 1 ≤ scaleOut ∧ scaleOut ≤ 15)
    (hin : -15 ≤ scaleIn ∧ scaleIn ≤ -1) (channels : Nat) (positions : List (List Int))
    (hchannels : ∀ p ∈ positions, p.length = channels) (hwords : ∀ p ∈ positions, ∀ x ∈ p,
      InWord 16 x)
    (i : Nat) (hi : i < positions.length) (hfits : squares scaleOut positions[i] < 2^31) :
    (IsGreatest (factors scaleIn scaleOut positions[i]) (inverseOf scaleIn scaleOut positions[i]) ∨
      factors scaleIn scaleOut positions[i] = ∅ ∧ inverseOf scaleIn scaleOut positions[i] = 1) ∧
    (∀ y ∈ scaled scaleIn scaleOut positions[i], InWord 16 y) ∧
    ((normalise .factors scaleIn scaleOut positions).drop (i*channels)).take channels =
      scaled scaleIn scaleOut positions[i] ∧
    (squares scaleOut positions[i] ≤ oneSquared scaleIn →
      ((scaled scaleIn scaleOut positions[i]).map fun y => y*y).sum ≤ oneSquared scaleIn) := by
  have hmem := List.getElem_mem hi
  refine ⟨inverseOf_spec _ _ _,?_,?_,norm_scaled⟩
  · intro y hy
    obtain ⟨x,hx,rfl⟩ := List.mem_map.1 hy
    exact scaled_inWord hout (hwords _ hmem x hx)
  · have hlength : ∀ part ∈ positions.map (normalisePosition .factors scaleIn scaleOut),
        part.length = channels := by
      intro part hpart
      obtain ⟨p,hp,rfl⟩ := List.mem_map.1 hpart
      rw [normalisePosition, List.length_map, hchannels p hp]
    rw [normalise, List.flatMap_def, take_drop_flatten hlength (by simpa using hi),
      List.getElem_map, normalisePosition_eq hout hin (hwords _ hmem) hfits]

/-- The first position is too long for any factor; the second is normalised with the factor 21. -/
theorem normalised_within_one_two :
    ((normalise .factors (-8) 6 [[32000, -6400, 0], [320, -192, 64]]).drop 3).take 3 =
      [105, -63, 21] ∧ (([105, -63, 21] : List Int).map fun y => y*y).sum ≤ oneSquared (-8) := by
  have hinverse : inverseOf (-8) 6 [320, -192, 64] = 21 := by
    have hsquares : squares 6 [320, -192, 64] = 35 := by decide
    have hone : oneSquared (-8) = 16384 := by decide
    have hhigh : (twoPow ((6 : Int)-1).toNat : Int) = 32 := by decide
    rw [inverseOf, hsquares, hone, hhigh]
    simp [inverseNorm]
  have hscaled : scaled (-8) 6 [320, -192, 64] = [105, -63, 21] := by
    rw [scaled, hinverse]
    decide
  obtain ⟨-,-,hstored,hnorm⟩ := normalised_within_one (-8) 6 (by decide) (by decide) 3
    [[32000, -6400, 0], [320, -192, 64]] (by decide) (by decide) 1 (by decide) (by decide)
  rw [← hscaled]
  exact ⟨hstored,hnorm (by decide)⟩

end MicroLearn.Fixed
