import Mathlib
import MicroLearn.Bench.Store
import MicroLearn.Proofs.Word

/-!
# Thirds of doubles

The phases of a tree's training end at the integer parts of `t / 3` and `2 t / 3`,
computed with doubles. Doubling is exact and division by three rounds a doubled
number to the double of what it rounds the number to, so the second bound is at least
twice the first, unless the doubled number is too large for a double.
-/

set_option autoImplicit false

namespace MicroLearn.Number

open Bench (wholeOf)
open Float.Model Float.Model.UnpackedFloat
open Format (binary64)
open ExtendedMantissa (ofMantissaAndAccuracy roundedMantissa)
open Float

variable (s : Sign) (m : Nat) (e : Int) (a : Accuracy) (em : ExtendedMantissa)

theorem shiftRight_succ (k : Nat) : em >>> (k+1) = (em >>> k).shiftRightOne := rfl

theorem shiftRight_mantissa (k : Nat) :
    (em >>> k).mantissa = em.mantissa/2^k := by
  induction k with
  | zero => exact (Nat.div_one em.mantissa).symm
  | succ k ih =>
    rw [shiftRight_succ, Nat.pow_succ, ← Nat.div_div_eq_div_mul, ← ih]
    rfl

theorem shiftRight_exact (m k : Nat) :
    (ExtendedMantissa.mk (m*2^k) false false) >>> k = ⟨m,false,false⟩ := by
  induction k generalizing m with
  | zero => rw [Nat.pow_zero, Nat.mul_one]; rfl
  | succ k ih =>
    rw [shiftRight_succ, Nat.pow_succ', ← Nat.mul_assoc, ih]
    simp [ExtendedMantissa.shiftRightOne]

theorem ofMantissaAndAccuracy_mantissa : (ofMantissaAndAccuracy m a).mantissa = m := by
  cases a with
  | exact => rfl
  | inexact o => cases o <;> rfl

theorem roundedMantissa_mem :
    em.mantissa ≤ em.roundedMantissa ∧ em.roundedMantissa ≤ em.mantissa+1 := by
  obtain ⟨m,r,s⟩ := em
  cases r <;> cases s <;>
    simp [roundedMantissa, ExtendedMantissa.accuracy, Accuracy.roundToNearestEven]
  omega

theorem targetExponent_eq :
    binary64.targetExponent (totalExponent m e) = max ((m.log2 : Int)+e-52) (-1074) := by
  simp only [Format.targetExponent, totalExponent, Format.mantissaBits, Format.minExponent]
  norm_num
  omega

theorem shiftToTargetExponent_normal (he : -1074 ≤ e) :
    shiftToTargetExponent binary64 m e a =
      (ofMantissaAndAccuracy m a >>> (m.log2-52),e+(m.log2-52 : Nat)) := by
  have hshift : (max ((m.log2 : Int)+e-52) (-1074)-e).toNat = m.log2-52 := by omega
  simp only [shiftToTargetExponent, shiftToExponent, targetExponent_eq, hshift]

/-- The leading digits of a number, as many as a double has. -/
def leading (m : Nat) : Nat := m/2^(m.log2-52)

theorem log2_leading {m : Nat} (hm : 52 ≤ m.log2) : (leading m).log2 = 52 := by
  rw [leading, Nat.log2_eq_log_two, Nat.log_div_base_pow, ← Nat.log2_eq_log_two]
  omega

/-- The leading digits, rounded: a carry can make them one too many. -/
def roundedTo (m : Nat) (a : Accuracy) : Nat :=
  (ofMantissaAndAccuracy m a >>> (m.log2-52)).roundedMantissa

theorem leading_le_roundedTo : leading m ≤ roundedTo m a := by
  have h := (roundedMantissa_mem (ofMantissaAndAccuracy m a >>> (m.log2-52))).1
  rwa [shiftRight_mantissa, ofMantissaAndAccuracy_mantissa] at h

theorem round_eq (he : -1074 ≤ e) (hpos : 0 < leading (roundedTo m a)) :
    roundWithAccuracy binary64 s m e a = .finite s (leading (roundedTo m a))
      (e+(m.log2-52 : Nat)+((roundedTo m a).log2-52 : Nat)) hpos := by
  have hfirst : (ofMantissaAndAccuracy m a >>> (m.log2-52)).roundedMantissa =
      roundedTo m a := rfl
  have hmant : (ofMantissaAndAccuracy (roundedTo m a) .exact >>>
      ((roundedTo m a).log2-52)).mantissa = leading (roundedTo m a) := shiftRight_mantissa _ _
  simp only [roundWithAccuracy, shiftToTargetExponent_normal m e a he, hfirst,
    shiftToTargetExponent_normal (roundedTo m a) (e+(m.log2-52 : Nat)) .exact (by omega)]
  rw [dif_neg (by rw [hmant]; omega)]
  simp only [hmant]

theorem round_normal (hm : 52 ≤ m.log2) :
    ∃ (q j : Nat) (hq : 0 < q), q.log2 = 52 ∧ ∀ (s : Sign) (e : Int), -1074 ≤ e →
      roundWithAccuracy binary64 s m e a = .finite s q (e+j) hq := by
  have hlog : 52 ≤ (roundedTo m a).log2 := by
    rw [← log2_leading hm, Nat.log2_eq_log_two, Nat.log2_eq_log_two]
    exact Nat.log_mono_right (leading_le_roundedTo m a)
  have hq : 0 < leading (roundedTo m a) := by
    rw [Nat.pos_iff_ne_zero]
    intro h
    have := log2_leading hlog
    simp [h] at this
  refine ⟨_,m.log2-52+((roundedTo m a).log2-52),hq,log2_leading hlog,fun s e he => ?_⟩
  rw [round_eq s m e a he hq, Nat.cast_add, Int.add_assoc]

theorem round_shifted (s : Sign) (m k : Nat) (e : Int) (hpos : 0 < m) (hm : m.log2 = 52)
    (he : -1074 ≤ e) : roundWithAccuracy binary64 s (m*2^k) e .exact = .finite s m (e+k) hpos := by
  have hlog : (m*2^k).log2-52 = k := by
    have hdiv := Nat.log_div_base_pow 2 (m*2^k) k
    rw [Nat.mul_div_cancel
      _ (Nat.two_pow_pos k), ← Nat.log2_eq_log_two, ← Nat.log2_eq_log_two] at hdiv
    omega
  have hround : roundedTo (m*2^k) .exact = m := by
    unfold roundedTo
    rw [hlog]
    simp only [ofMantissaAndAccuracy, shiftRight_exact]
    rfl
  have hlead : leading m = m := by simp [leading, hm]
  have h := round_eq s (m*2^k) e .exact he (by rwa [hround, hlead])
  simpa only [hround, hlead, hlog, hm, Nat.sub_self, Nat.cast_zero, Int.add_zero] using h

theorem packComponents_toNat (e : BitVec 11) (f : BitVec 52) :
    (packComponents binary64 s e f).toNat = s.toBitVec.toNat*2^63+e.toNat*2^52+f.toNat := by
  have he := e.isLt
  have hf := f.isLt
  show (s.toBitVec++e++f).toNat = _
  rw [BitVec.toNat_append, BitVec.toNat_append, ← Nat.shiftLeft_add_eq_or_of_lt he,
    ← Nat.shiftLeft_add_eq_or_of_lt hf]
  simp only [Nat.shiftLeft_eq]
  ring

def isNegative (s : Sign) : Bool := s matches .negative

theorem ofBits_packComponents (e : BitVec 11) (f : BitVec 52) :
    Binary.ofBits (packComponents binary64 s e f).toNat =
      if e.toNat = 2047 then (if f.toNat = 0 then .infinite (isNegative s) else .undefined)
      else if e.toNat = 0 then .finite (isNegative s) f.toNat (-1074)
      else .finite (isNegative s) (f.toNat+2^52) (e.toNat-1075) := by
  have he := e.isLt
  have hf := f.isLt
  have hexp : (s.toBitVec.toNat*2^63+e.toNat*2^52+f.toNat)/2^52 % 2^11 = e.toNat := by omega
  have hfrac : (s.toBitVec.toNat*2^63+e.toNat*2^52+f.toNat) % 2^52 = f.toNat := by omega
  have hsign : 2^63 ≤ s.toBitVec.toNat*2^63+e.toNat*2^52+f.toNat ↔ isNegative s = true := by
    cases s with
    | negative => exact ⟨fun _ => rfl,fun _ => show 2^63 ≤ 1*2^63+e.toNat*2^52+f.toNat by omega⟩
    | positive =>
      have hlt : ¬ 2^63 ≤ 0*2^63+e.toNat*2^52+f.toNat := by omega
      exact ⟨fun h => absurd h hlt,fun h => absurd h Bool.false_ne_true⟩
  rw [packComponents_toNat]
  unfold Binary.ofBits
  simp only [twoPow_eq, hexp, hfrac, hsign, Bool.decide_eq_true]

theorem biasedExponent_eq :
    (e+(binary64.exponentBias : Int)+(52 : Nat)).toNat = (e+1075).toNat := by
  show (e+1023+52).toNat = _
  omega

theorem toNat_biased {e : Int} (he : e ≤ 972) :
    (BitVec.ofNat 11 (e+1075).toNat).toNat = (e+1075).toNat := by
  rw [BitVec.toNat_ofNat, Nat.mod_eq_of_lt (by omega)]

variable (hpos : 0 < m)

theorem ofFloat_normal (hm : m.log2 = 52) (he : -1074 ≤ e) :
    Binary.ofFloat ⟨Model.pack (.finite s m e hpos)⟩ =
      if e ≤ 971 then .finite (isNegative s) m e else .infinite (isNegative s) := by
  obtain ⟨hlow,hhigh⟩ := (Nat.log2_eq_iff hpos.ne').mp hm
  show Binary.ofBits (UnpackedFloat.pack binary64 (.finite s m e hpos)).toNat = _
  simp only [UnpackedFloat.pack, biasedExponent_eq, hm]
  by_cases hle : e ≤ 971
  · rw [if_neg (by omega), if_pos (by rfl), if_pos hle, ofBits_packComponents]
    have hfrac : (BitVec.ofNat 52 m).toNat = m-2^52 := by
      rw [BitVec.toNat_ofNat]
      omega
    rw [toNat_biased (by omega), hfrac, if_neg (by omega), if_neg (by omega)]
    congr 1 <;> omega
  · rw [if_pos (by omega), if_neg hle]
    show Binary.ofBits (packComponents binary64 s (-1#11) 0#52).toNat = _
    rw [ofBits_packComponents]
    rfl

theorem truncate_below_one (negative : Bool) (m : Nat) (e : Int) (he : e ≤ -53) (hm : m < 2^53) :
    (Binary.finite negative m e).truncate = some 0 := by
  have hden : m/2^(-e).toNat = 0 := by
    apply Nat.div_eq_of_lt
    exact lt_of_lt_of_le hm (Nat.pow_le_pow_right (by decide) (by omega))
  simp only [Binary.truncate, ratio, if_neg (show ¬ 0 ≤ e by omega), twoPow_eq, hden]
  cases negative <;> rfl

theorem truncate_tiny (he : e ≤ -53) :
    (Binary.ofFloat ⟨Model.pack (.finite s m e hpos)⟩).truncate = some 0 := by
  have hfrac := (BitVec.ofNat 52 m).isLt
  show (Binary.ofBits (UnpackedFloat.pack binary64 (.finite s m e hpos)).toNat).truncate = _
  simp only [UnpackedFloat.pack, biasedExponent_eq]
  rw [if_neg (by omega)]
  split
  · rw [ofBits_packComponents, toNat_biased (by omega), if_neg (by omega)]
    split
    · exact truncate_below_one _ _ _ (by omega) (by omega)
    · exact truncate_below_one _ _ _ (by omega) (by omega)
  · rw [ofBits_packComponents, if_neg (by decide), if_pos (by rfl)]
    exact truncate_below_one _ _ _ (by omega) (by omega)

theorem truncate_zero : (Binary.ofFloat ⟨Model.pack (.zero s)⟩).truncate = some 0 := by
  show (Binary.ofBits (packComponents binary64 s 0#11 0#52).toNat).truncate = _
  rw [ofBits_packComponents, if_neg (by decide), if_pos (by rfl)]
  exact truncate_below_one _ _ _ (by omega) (by decide)

theorem toNat_implicit (f : BitVec 52) : (1#1++f).toNat = 2^52+f.toNat := by
  rw [BitVec.toNat_append, ← Nat.shiftLeft_add_eq_or_of_lt f.isLt]
  rfl

theorem unpack_finite (x : Model) {s : Sign} {m : Nat} {e : Int} {hpos : 0 < m}
    (h : x.unpack = .finite s m e hpos) : m < 2^53 ∧ -1074 ≤ e ∧ (m.log2 = 52 ∨ e = -1074) := by
  have hfrac : (@unpackMantissa binary64 x.toBits.toBitVec).toNat < 2^52 := BitVec.isLt _
  have hbias : (binary64.exponentBias : Int)+(52 : Nat) = 1075 := rfl
  unfold Model.unpack UnpackedFloat.unpack at h
  simp only [toNat_implicit, hbias] at h
  split at h
  · split at h <;> cases h
  · split at h
    · rename_i hzero
      split at h
      · cases h
      · injection h with _ hm he
        rw [hzero] at he
        exact ⟨by omega,by simp at he; omega,.inr (by simp at he; omega)⟩
    · rename_i hzero
      injection h with _ hm he
      have hne : (@unpackExponent binary64 x.toBits.toBitVec).toNat ≠ 0 :=
        fun h0 => hzero (BitVec.eq_of_toNat_eq h0)
      refine ⟨by omega,by omega,.inl ?_⟩
      exact (Nat.log2_eq_iff (by omega)).mpr ⟨by omega,by omega⟩

theorem unpack_pack_normal (hm : m.log2 = 52) (hlow : -1074 ≤ e) (hhigh : e ≤ 971) :
    (Model.pack (.finite s m e hpos)).unpack = .finite s m e hpos := by
  obtain ⟨hmlow,hmhigh⟩ := (Nat.log2_eq_iff hpos.ne').mp hm
  have hexp := toNat_biased (e := e) (by omega)
  have hfrac : 2^52+(BitVec.ofNat 52 m).toNat = m := by
    rw [BitVec.toNat_ofNat]
    omega
  show UnpackedFloat.unpack binary64 (UnpackedFloat.pack binary64 (.finite s m e hpos)) = _
  simp only [UnpackedFloat.pack, biasedExponent_eq, hm]
  rw [if_neg (by omega), if_pos (by rfl)]
  unfold UnpackedFloat.unpack
  simp only [unpackExponent_packComponents, unpackMantissa_packComponents,
    unpackSign_packComponents, Sign.ofBitVec_toBitVec, toNat_implicit, hfrac, hexp]
  have hne : ∀ k : BitVec 11, k.toNat ≠ (e+1075).toNat → BitVec.ofNat 11 (e+1075).toNat ≠ k := by
    rintro _ hk rfl
    exact hk hexp
  rw [if_neg (hne _ (by simp; omega)), if_neg (hne _ (by simp; omega))]
  congr 1
  show ((e+1075).toNat : Int)-(1023+52) = e
  omega

abbrev three : UnpackedFloat := .finite .positive (3*2^51) (-51) (by decide)

theorem targetExponent_three :
    binary64.targetExponent (totalExponent m e-totalExponent (3*2^51) (-51)) =
      max ((m.log2 : Int)+e-54) (-1074) := by
  have hlog : (3*2^51).log2 = 52 := by decide
  simp only [Format.targetExponent, totalExponent, Format.mantissaBits, Format.minExponent, hlog]
  norm_num
  omega

theorem third_normal (hm : m.log2 = 52) :
    ∃ (q j : Nat) (hq : 0 < q), q.log2 = 52 ∧ ∀ (s : Sign) (e : Int), -1000 ≤ e →
      UnpackedFloat.div binary64 (.finite s m e hpos) three = .finite (s / .positive) q (e-2+j)
        hq := by
  have hlow := ((Nat.log2_eq_iff hpos.ne').mp hm).1
  obtain ⟨q,j,hq,hlog,hround⟩ := round_normal (m <<< 53/(3*2^51))
    (accuracyOfFraction (m <<< 53 % (3*2^51)) (3*2^51)) (by
      rw [Nat.le_log2 (by rw [Nat.shiftLeft_eq]; omega), Nat.shiftLeft_eq]
      omega)
  refine ⟨q,j,hq,hlog,fun s e he => ?_⟩
  have hexp : min (e - -51) (max ((m.log2 : Int)+e-54) (-1074)) = e-2 := by omega
  have hshift : (e - -51-(e-2)).toNat = 53 := by omega
  simp only [UnpackedFloat.div, divCore, targetExponent_three, hexp, hshift]
  exact hround (s / .positive) (e-2) (by omega)

theorem log2_le_of_lt {m k : Nat} (h : m < 2^(k+1)) : m.log2 ≤ k := by
  by_cases hm : m = 0
  · rw [hm]
    exact Nat.zero_le k
  · exact Nat.lt_succ_iff.mp ((Nat.log2_lt hm).mpr h)

theorem shiftToTargetExponent_mem : (shiftToTargetExponent binary64 m e a).1.mantissa ≤ m ∧
      (shiftToTargetExponent binary64 m e a).2 = max e (max ((m.log2 : Int)+e-52) (-1074)) := by
  simp only [shiftToTargetExponent, shiftToExponent, targetExponent_eq, shiftRight_mantissa,
    ofMantissaAndAccuracy_mantissa]
  exact ⟨Nat.div_le_self _ _,by omega⟩

theorem round_tiny (hm : m < 2^178) (he : e ≤ -900) : roundWithAccuracy binary64 s m e a = .zero s ∨
      ∃ q e' hq, roundWithAccuracy binary64 s m e a = .finite s q e' hq ∧ e' ≤ -53 := by
  obtain ⟨hmant,hexp⟩ := shiftToTargetExponent_mem m e a
  have hlog := log2_le_of_lt hm
  unfold roundWithAccuracy
  generalize shiftToTargetExponent binary64 m e a = first at hmant hexp ⊢
  obtain ⟨em,e1⟩ := first
  dsimp only at hmant hexp ⊢
  have hexp' := (shiftToTargetExponent_mem em.roundedMantissa e1 .exact).2
  have hlog' : em.roundedMantissa.log2 ≤ 178 := by
    apply log2_le_of_lt
    have := (roundedMantissa_mem em).2
    omega
  by_cases hzero : (shiftToTargetExponent binary64 em.roundedMantissa e1 .exact).1.mantissa = 0
  · exact .inl (dif_pos hzero)
  · exact .inr ⟨_,_,Nat.pos_of_ne_zero hzero,dif_neg hzero,by omega⟩

theorem third_tiny (hm : m < 2^53) (hlow : -1074 ≤ e) (he : e < -1000) :
    (Binary.ofFloat ⟨Model.pack (UnpackedFloat.div binary64 (.finite s m e hpos) three)⟩).truncate =
      some 0 := by
  have hlog := log2_le_of_lt hm
  simp only [UnpackedFloat.div, divCore, targetExponent_three]
  generalize ht : min (e - -51) (max ((m.log2 : Int)+e-54) (-1074)) = t
  have hquot : m <<< (e - -51-t).toNat/(3*2^51) < 2^178 := by
    apply lt_of_le_of_lt (Nat.div_le_self _ _)
    rw [Nat.shiftLeft_eq]
    calc m*2^(e - -51-t).toNat ≤ m*2^125 :=
          Nat.mul_le_mul_left _ (Nat.pow_le_pow_right (by decide) (by omega))
      _ < 2^53*2^125 := Nat.mul_lt_mul_of_pos_right hm (by decide)
      _ = 2^178 := by decide
  rcases round_tiny (s / .positive) _
    t (accuracyOfFraction (m <<< (e - -51-t).toNat % (3*2^51)) (3*2^51))
    hquot (by omega) with h | ⟨q,e',hq,h,he'⟩
  · rw [h]
    exact truncate_zero _
  · rw [h]
    exact truncate_tiny _ _ _ _ he'

theorem ratio_twice : 2*((ratio m e).1/(ratio m e).2) ≤ (ratio m (e+1)).1/(ratio m (e+1)).2 := by
  unfold ratio
  by_cases he : 0 ≤ e
  · rw [if_pos he, if_pos (by omega), show (e+1).toNat = e.toNat+1 by omega, twoPow_succ]
    simp only [Nat.div_one]
    rw [Nat.mul_left_comm]
  · rw [if_neg he]
    have hpow : twoPow (-e).toNat = 2*twoPow (-(e+1)).toNat := by
      rw [← twoPow_succ]
      congr 1
      omega
    have hle : 2*(m/(2*twoPow (-(e+1)).toNat)) ≤ m/twoPow (-(e+1)).toNat := by
      rw [Nat.mul_comm 2 (twoPow _), ← Nat.div_div_eq_div_mul]
      omega
    by_cases hlast : 0 ≤ e+1
    · rw [if_pos hlast]
      have hzero : (e+1).toNat = 0 := by omega
      have hzero' : (-(e+1)).toNat = 0 := by omega
      rw [hpow]
      rw [hzero'] at hle ⊢
      rw [hzero]
      simpa [twoPow_eq] using hle
    · rw [if_neg hlast, hpow]
      exact hle

theorem wholeOf_normal (hm : m.log2 = 52) (he : -1074 ≤ e) :
    (wholeOf ⟨Model.pack (.finite s m e hpos)⟩).toNat =
      if e ≤ 971 ∧ isNegative s = false then (ratio m e).1/(ratio m e).2 else 0 := by
  unfold wholeOf
  rw [ofFloat_normal s m e hpos hm he]
  by_cases hle : e ≤ 971
  · rw [if_pos hle]
    cases isNegative s with
    | true =>
      rw [if_neg (by simp)]
      exact Int.toNat_neg_natCast _
    | false =>
      rw [if_pos ⟨hle,rfl⟩]
      exact Int.toNat_natCast _
  · simp [hle, Binary.truncate]

theorem third_eq (t : Float) :
    t/3.0 = ⟨Model.pack (UnpackedFloat.div binary64 t.toModel.unpack three)⟩ := rfl

theorem twice_eq (t : Float) : 2.0*t = ⟨Model.pack (UnpackedFloat.mul binary64
      (.finite .positive (2^52) (-51) (by decide)) t.toModel.unpack)⟩ := rfl

theorem twice_normal (hm : m.log2 = 52) (he : -1000 ≤ e) :
    UnpackedFloat.mul binary64 (.finite .positive (2^52) (-51) (by decide)) (.finite s m e hpos) =
      .finite (.positive*s) m (e+1) hpos := by
  show roundWithAccuracy binary64 (.positive*s) (2^52*m) (-51+e) .exact = _
  rw [Nat.mul_comm, round_shifted _ m 52 _ hpos hm (by omega)]
  congr 1
  omega

theorem positive_mul_div : (Sign.positive*s)/Sign.positive = s/Sign.positive := by
  cases s <;> rfl

theorem unpack_pack_large (he : 971 < e) :
    (Model.pack (.finite s m e hpos)).unpack = .infinity s := by
  show UnpackedFloat.unpack binary64 (UnpackedFloat.pack binary64 (.finite s m e hpos)) = _
  simp only [UnpackedFloat.pack, biasedExponent_eq]
  rw [if_pos (by omega)]
  cases s <;> rfl

/-- The integer part of two thirds is at least twice that of one third, unless the double of the
number is too large. -/
theorem twice_third_le (t : Float) : (wholeOf (2.0*t/3.0)).toNat = 0 ∨
      2*(wholeOf (t/3.0)).toNat ≤ (wholeOf (2.0*t/3.0)).toNat := by
  have hsmall : (wholeOf (t/3.0)).toNat = 0 → (wholeOf (2.0*t/3.0)).toNat = 0 ∨
      2*(wholeOf (t/3.0)).toNat ≤ (wholeOf (2.0*t/3.0)).toNat := by
    intro h
    rw [h]
    exact .inr (Nat.zero_le _)
  cases ht : t.toModel.unpack with
  | infinity s =>
    apply hsmall
    rw [third_eq, ht]
    cases s <;> rfl
  | notANumber =>
    apply hsmall
    rw [third_eq, ht]
    rfl
  | zero s =>
    apply hsmall
    rw [third_eq, ht]
    unfold wholeOf
    show ((Binary.ofFloat ⟨Model.pack (.zero (s / .positive))⟩).truncate.getD 0).toNat = 0
    rw [truncate_zero]
    rfl
  | finite s m e hpos =>
    obtain ⟨hm,hlow,hdigits⟩ := unpack_finite _ ht
    by_cases he : e < -1000
    · apply hsmall
      rw [third_eq, ht]
      unfold wholeOf
      rw [third_tiny s m e hpos hm hlow he]
      rfl
    · have hlog : m.log2 = 52 := hdigits.resolve_right (by omega)
      obtain ⟨q,j,hq,hqlog,hthird⟩ := third_normal m hpos hlog
      have hone : (wholeOf (t/3.0)).toNat =
          if e-2+j ≤ 971 ∧ isNegative (s / .positive) = false then
            (ratio q (e-2+j)).1/(ratio q (e-2+j)).2 else 0 := by
        rw [third_eq, ht, hthird s e (by omega), wholeOf_normal _ q _ hq hqlog (by omega)]
      by_cases hbig : 971 < e+1
      · left
        rw [third_eq, twice_eq, ht, twice_normal s m e hpos hlog (by omega),
          unpack_pack_large _ m _ hpos (by omega)]
        cases s <;> rfl
      · have htwo : (wholeOf (2.0*t/3.0)).toNat =
            if e+1-2+j ≤ 971 ∧ isNegative (s / .positive) = false then
              (ratio q (e+1-2+j)).1/(ratio q (e+1-2+j)).2 else 0 := by
          rw [third_eq, twice_eq, ht, twice_normal s m e hpos hlog (by omega),
            unpack_pack_normal _ m _ hpos hlog (by omega) (by omega), hthird _ (e+1) (by omega),
            positive_mul_div, wholeOf_normal _ q _ hq hqlog (by omega)]
        have hexp : e+1-2+j = e-2+j+1 := by omega
        rw [hone, htwo, hexp]
        by_cases hin : e-2+j+1 ≤ 971 ∧ isNegative (s / .positive) = false
        · rw [if_pos hin, if_pos ⟨by omega,hin.2⟩]
          exact .inr (ratio_twice q _)
        · exact .inl (if_neg hin)

end MicroLearn.Number
