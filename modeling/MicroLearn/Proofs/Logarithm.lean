import Mathlib
import MicroLearn.Lower.State
import MicroLearn.Proofs.Word

/-!
# The number of levels of a tree

The levels of a tree over `n` numbers are counted with a logarithm of doubles. The
double nearest to a count below `2 ^ 48` is the count itself, the logarithm of a
power of two is exact, and that of any other count lies so far from an integer that
its rounding stays strictly between two of them. So the count of levels is exact.
-/

set_option autoImplicit false

namespace MicroLearn.Number

open Binary
open Nat (add_mul mul_le_mul_right two_pow_pos zero_add)

theorem toBits_ofBits (b : UInt64) (h : b.toNat/2^52 % 2^11 ≠ 2047) :
    (Float.ofBits b).toBits = b := by
  have valid : Float.Model.Format.binary64.Valid b.toBitVec := by
    refine ⟨fun he _ => absurd ?_ h⟩
    have := congrArg BitVec.toNat he
    simpa [Float.Model.UnpackedFloat.unpackExponent, Nat.shiftRight_eq_div_pow] using this
  exact congrArg Float.toBits (Float.ofBits_toBits ⟨⟨b,valid⟩⟩)

theorem pack_normal (m : Nat) (e : Int) (hm : 2^52 ≤ m) (he : e ≤ 971) :
    Binary.pack false m e = (e+1075).toNat*2^52+(m-2^52) := by
  simp only [Binary.pack, twoPow_eq, if_neg (Nat.not_lt.2 hm), if_neg (Int.not_lt.2 he)]
  simp

theorem ofFloat_pack (m : Nat) (e : Int) (hm : 2^52 ≤ m) (hm' : m < 2^53)
    (hlow : -1074 ≤ e) (he : e ≤ 971) :
    ofFloat (Float.ofBits (Binary.pack false m e).toUInt64) = .finite false m e := by
  obtain ⟨x,hx⟩ : ∃ x, x = (e+1075).toNat := ⟨_,rfl⟩
  have hexp : (x : Int)-1075 = e := by omega
  have hpack : Binary.pack false m e = x*2^52+(m-2^52) := by
    rw [pack_normal m e hm he, hx]
  have hword : (Binary.pack false m e).toUInt64.toNat = x*2^52+(m-2^52) := by
    rw [hpack, UInt64.toNat_ofNat', Nat.mod_eq_of_lt (by omega)]
  have hquot : (x*2^52+(m-2^52))/2^52 % 2^11 = x := by omega
  have hrest : (x*2^52+(m-2^52)) % 2^52 = m-2^52 := by omega
  have hsign : ¬ 2^63 ≤ x*2^52+(m-2^52) := by omega
  have hbits : (Float.ofBits (Binary.pack false m e).toUInt64).toBits =
      (Binary.pack false m e).toUInt64 := by
    apply toBits_ofBits
    omega
  rw [ofFloat, hbits, hword]
  simp only [Binary.ofBits, twoPow_eq, hquot, hrest, hsign, decide_false]
  rw [if_neg (by omega), if_neg (by omega), Nat.sub_add_cancel hm, hexp]

theorem roundDiv_mem (num den : Nat) :
    num/den ≤ roundDiv num den ∧ roundDiv num den ≤ num/den+1 := by
  unfold roundDiv
  dsimp only
  split
  · omega
  · split
    · omega
    · split <;> omega

theorem roundDiv_mul (q den : Nat) (h : 0 < den) : roundDiv (q*den) den = q := by
  simp [roundDiv, h]

theorem ofFloat_nearest (num d j : Nat) (hlow : 2^(d+j) ≤ num) (hhigh : num < 2^(d+j+1))
    (hj : j < 52) : ofFloat (nearest false num (twoPow d)) =
      if roundDiv (num*2^(52-j)) (2^d) = 2^53 then .finite false (2^52) (j-51)
      else .finite false (roundDiv (num*2^(52-j)) (2^d)) (j-52) := by
  have hpos : num ≠ 0 := by
    omega
  have hguess : (num.log2 : Int)-((2^d).log2 : Int)-52 = (j : Int)-52 := by
    rw [(Nat.log2_eq_iff hpos).2 ⟨hlow,hhigh⟩, Nat.log2_two_pow]
    omega
  have hneg : ¬ (0 : Int) ≤ (j : Int)-52 := by omega
  have hshift : (-((j : Int)-52)).toNat = 52-j := by omega
  have hunit : 2^(d+j)*2^(52-j) = 2^52*2^d := by
    rw [← pow_add, ← pow_add]
    congr 1
    omega
  have hfloor : 2^52 ≤ num*2^(52-j)/2^d := by
    rw [Nat.le_div_iff_mul_le (two_pow_pos d), ← hunit]
    exact mul_le_mul_right _ hlow
  have hceil : num*2^(52-j)/2^d < 2^53 := by
    rw [Nat.div_lt_iff_lt_mul (two_pow_pos d)]
    calc num*2^(52-j) < 2^(d+j+1)*2^(52-j) :=
          Nat.mul_lt_mul_of_pos_right hhigh (two_pow_pos _)
      _ = 2^53*2^d := by rw [pow_succ, mul_right_comm, hunit]; ring
  have hround := roundDiv_mem (num*2^(52-j)) (2^d)
  have hbits : nearestBits false num (twoPow d) =
      if roundDiv (num*2^(52-j)) (2^d) = 2^53 then Binary.pack false (2^52) ((j : Int)-51)
      else Binary.pack false (roundDiv (num*2^(52-j)) (2^d)) ((j : Int)-52) := by
    have hmax : max ((j : Int)-52) (-1074) = (j : Int)-52 := by omega
    have hnext : (j : Int)-52+1 = (j : Int)-51 := by omega
    simp only [nearestBits, if_neg hpos, hguess, if_neg hneg, hshift, twoPow_eq,
      if_neg (Nat.not_lt.2 hfloor), hmax, hnext]
  rw [nearest, hbits]
  split
  · exact ofFloat_pack _ _ (le_refl _) (by norm_num) (by omega) (by omega)
  · exact ofFloat_pack _ _ (by omega) (by omega) (by omega) (by omega)

theorem logDigits_mem (steps x found : Nat) : found*2^steps ≤ logDigits steps x found ∧
      logDigits steps x found < (found+1)*2^steps := by
  induction steps generalizing x found with
  | zero => simp [logDigits]
  | succ steps ih =>
    rw [logDigits]
    split
    · have h := ih (x*x/twoPow logWorking/2) (2*found+1)
      rw [pow_succ]
      constructor <;> nlinarith
    · have h := ih (x*x/twoPow logWorking) (2*found)
      rw [pow_succ]
      constructor <;> nlinarith

theorem logDigits_one (steps : Nat) : logDigits steps (twoPow logWorking) 0 = 0 := by
  induction steps with
  | zero => rfl
  | succ steps ih =>
    have hpos := twoPow_pos logWorking
    have hsmall : ¬ twoPow (logWorking+1) ≤ twoPow logWorking := by
      rw [twoPow_succ]
      omega
    rw [logDigits]
    simp only [Nat.mul_div_cancel _ hpos, if_neg hsmall, ih]

theorem square_above (unit x w : Nat) (hunit : 0 < unit) (hx : unit+w ≤ x) :
    unit+2*w ≤ x*x/unit := by
  rw [Nat.le_div_iff_mul_le hunit]
  calc (unit+2*w)*unit ≤ (unit+w)*(unit+w) := by nlinarith
    _ ≤ x*x := Nat.mul_le_mul hx hx

/-- A number at least `2 ^ -j` above one has a one among the first `j` places of its logarithm: each
squaring doubles the distance from one. -/
theorem logDigits_above (steps j x : Nat) (hj : 1 ≤ j) (hsteps : j ≤ steps)
    (hplaces : j ≤ logWorking) (hx : twoPow logWorking+twoPow (logWorking-j) ≤ x) :
    2^(steps-j) ≤ logDigits steps x 0 := by
  induction steps generalizing j x with
  | zero => omega
  | succ steps ih =>
    have hsquare := square_above _ x _ (twoPow_pos logWorking) hx
    have hdouble : 2*twoPow (logWorking-j) = twoPow (logWorking-(j-1)) := by
      rw [← twoPow_succ]
      congr 1
      omega
    rw [logDigits]
    split
    · have h := (logDigits_mem steps (x*x/twoPow logWorking/2) 1).1
      calc 2^(steps+1-j) ≤ 2^steps := Nat.pow_le_pow_right (by decide) (by omega)
        _ ≤ _ := by simpa using h
    · rename_i hsmall
      obtain rfl | hj' := Nat.eq_or_lt_of_le hj
      · rw [hdouble, Nat.sub_zero] at hsquare
        rw [twoPow_succ] at hsmall
        omega
      · rw [hdouble] at hsquare
        have h := ih (j-1) _ (by omega) (by omega) (by omega) hsquare
        rwa [show steps+1-j = steps-(j-1) by omega]

theorem integerAbove_finite (x : Float) (m s : Nat) (hs : 0 < s)
    (hx : ofFloat x = .finite false m (-(s : Int))) :
    integerAbove x = .ok (((m+2^s-1)/2^s : Nat) : Int) := by
  have hneg : ¬ (0 : Int) ≤ -(s : Int) := by omega
  have hratio : ratio m (-(s : Int)) = (m,2^s) := by
    rw [ratio, if_neg hneg, Int.neg_neg, Int.toNat_natCast, twoPow_eq]
  simp only [integerAbove, hx, Binary.ceiling, hratio]
  rfl

theorem above_div (k m unit : Nat) (hunit : 0 < unit) (hlow : k*unit < m) (hhigh : m ≤ (k+1)*unit) :
    (m+unit-1)/unit = k+1 := by
  apply Nat.div_eq_of_lt_le
  · rw [add_mul] at hhigh ⊢
    omega
  · rw [add_mul, add_mul]
    rw [add_mul] at hhigh
    omega

/-- The ceiling of the double nearest to `k` and a fraction, where the fraction is zero or not too
close to zero: rounding reaches neither `k` nor anything above `k + 1`. -/
theorem integerAbove_nearest (k part : Nat) (hk : 1 ≤ k) (hsmall : k < 48)
    (hpart : part < 2^logPlaces) (hfar : part = 0 ∨ 2^(logPlaces-k) ≤ part) :
    integerAbove (nearest false (k*2^logPlaces+part) (twoPow logPlaces)) =
      .ok (if part = 0 then k else k+1) := by
  obtain ⟨j,hj⟩ : ∃ j, j = k.log2 := ⟨_,rfl⟩
  obtain ⟨hjlow,hjhigh⟩ := (Nat.log2_eq_iff (by omega)).1 hj.symm
  have hj5 : j ≤ 5 := by
    by_contra hlarge
    have : 2^6 ≤ 2^j := Nat.pow_le_pow_right (by decide) (by omega)
    omega
  obtain ⟨s,hs⟩ : ∃ s, s = 52-j := ⟨_,rfl⟩
  have hexp : (j : Int)-52 = -(s : Int) := by omega
  have hexp' : (j : Int)-51 = -((s-1 : Nat) : Int) := by omega
  have hplace := two_pow_pos logPlaces
  have htop : k*2^s < 2^53 := by
    calc k*2^s < 2^(j+1)*2^s := Nat.mul_lt_mul_of_pos_right hjhigh (two_pow_pos s)
      _ = 2^53 := by rw [← pow_add]; congr 1; omega
  have hread := ofFloat_nearest (k*2^logPlaces+part) logPlaces j
    (by rw [pow_add, mul_comm]; exact Nat.le_add_right_of_le (mul_le_mul_right _ hjlow))
    (by
      calc k*2^logPlaces+part < (k+1)*2^logPlaces := by rw [add_mul]; omega
        _ ≤ 2^(j+1)*2^logPlaces := mul_le_mul_right _ hjhigh
        _ = 2^(logPlaces+j+1) := by rw [← pow_add]; congr 1; omega)
    (by omega)
  rw [← hs, hexp, hexp'] at hread
  by_cases hzero : part = 0
  · have hexact : roundDiv ((k*2^logPlaces+part)*2^s) (2^logPlaces) = k*2^s := by
      rw [hzero, Nat.add_zero, Nat.mul_right_comm, roundDiv_mul _ _ hplace]
    rw [hexact, if_neg (by omega)] at hread
    rw [integerAbove_finite _ _ s (by omega) hread, if_pos hzero, Nat.add_sub_assoc (two_pow_pos s),
      Nat.add_comm, Nat.add_mul_div_right _ _ (two_pow_pos s),
      Nat.div_eq_of_lt (Nat.sub_lt (two_pow_pos s) Nat.one_pos), zero_add]
  · have hstep : 1 ≤ part*2^s/2^logPlaces := by
      rw [Nat.le_div_iff_mul_le hplace]
      calc 2^logPlaces ≤ 2^(logPlaces-k+s) := Nat.pow_le_pow_right (by decide) (by omega)
        _ = 2^(logPlaces-k)*2^s := pow_add ..
        _ ≤ part*2^s := mul_le_mul_right _ (hfar.resolve_left hzero)
    have hfraction : part*2^s/2^logPlaces < 2^s := by
      rw [Nat.div_lt_iff_lt_mul hplace, Nat.mul_comm]
      exact Nat.mul_lt_mul_of_pos_left hpart (two_pow_pos s)
    have hfloor : (k*2^logPlaces+part)*2^s/2^logPlaces =
        part*2^s/2^logPlaces+k*2^s := by
      rw [add_mul, Nat.mul_right_comm, Nat.add_comm, Nat.add_mul_div_right _ _ hplace]
    obtain ⟨hlow,hhigh⟩ := roundDiv_mem ((k*2^logPlaces+part)*2^s) (2^logPlaces)
    have hroom : (k+1)*2^s = k*2^s+2^s := by rw [add_mul, Nat.one_mul]
    have hhalf : 2^s = 2*2^(s-1) := by rw [← pow_succ']; congr 1; omega
    have hsplit : k*2^s = 2*(k*2^(s-1)) := by rw [hhalf, Nat.mul_left_comm]
    rw [if_neg hzero]
    split at hread
    · rename_i hcarry
      rw [integerAbove_finite _ _ (s-1) (by omega) hread,
        above_div k _ _ (two_pow_pos _) (by omega) (by rw [add_mul]; omega)]
      rfl
    · rw [integerAbove_finite _ _ s (by omega) hread,
        above_div k _ _ (two_pow_pos _) (by omega) (by omega)]
      rfl

section

variable (n k : Nat) (hlow : 2^k ≤ n) (hhigh : n < 2^(k+1)) (hk : k < 52)
include n k hlow hhigh hk

theorem ofFloat_floatOfInt :
    ofFloat (floatOfInt n) = .finite false (n*2^(52-k)) ((k : Int)-52) := by
  have hread := ofFloat_nearest n 0 k (by rwa [zero_add]) (by rwa [zero_add]) hk
  have htop : n*2^(52-k) < 2^53 := by
    calc n*2^(52-k) < 2^(k+1)*2^(52-k) :=
          Nat.mul_lt_mul_of_pos_right hhigh (two_pow_pos _)
      _ = 2^53 := by rw [← pow_add]; congr 1; omega
  have hexact : roundDiv (n*2^(52-k)) (2^0) = n*2^(52-k) := by
    simpa using roundDiv_mul (n*2^(52-k)) 1 Nat.one_pos
  rw [hexact, if_neg (Nat.ne_of_lt htop)] at hread
  have hsign : decide ((n : Int) < 0) = false := by simp
  exact hread

theorem logUnits_normal : logUnits (n*2^(52-k)) ((k : Int)-52) =
      (k*2^logPlaces+logDigits logPlaces (n*2^(logWorking-k)) 0 : Nat) := by
  have hscale : 2^k*2^(52-k) = 2^52 := by rw [← pow_add]; congr 1; omega
  have htop : (n*2^(52-k)).log2 = 52 := by
    refine (Nat.log2_eq_iff (Nat.mul_ne_zero ?_ ?_)).2 ⟨?_,?_⟩
    · omega
    · exact Nat.ne_of_gt (two_pow_pos _)
    · rw [← hscale]
      exact mul_le_mul_right _ hlow
    · rw [pow_succ, ← hscale, Nat.mul_right_comm]
      exact Nat.mul_lt_mul_of_pos_right hhigh (two_pow_pos _)
  have hunit : n*2^(52-k)*2^logWorking/2^52 = n*2^(logWorking-k) := by
    have hparts : 2^(52-k)*2^logWorking = 2^(logWorking-k)*2^52 := by
      rw [← pow_add, ← pow_add]
      congr 1
      simp only [logWorking]
      omega
    rw [Nat.mul_assoc, hparts, ← Nat.mul_assoc, Nat.mul_div_cancel _ (two_pow_pos 52)]
  simp only [logUnits, htop, twoPow_eq, hunit]
  push_cast
  ring

theorem logTwo_floatOfInt : logTwo (floatOfInt n) =
      nearest false (k*2^logPlaces+logDigits logPlaces (n*2^(logWorking-k)) 0)
        (twoPow logPlaces) := by
  have hmantissa : n*2^(52-k) ≠ 0 := by
    exact Nat.mul_ne_zero (by omega) (Nat.ne_of_gt (two_pow_pos _))
  simp only [logTwo, ofFloat_floatOfInt n k hlow hhigh hk, if_neg hmantissa,
    logUnits_normal n k hlow hhigh hk, Int.natAbs_natCast]
  rw [decide_eq_false (Int.not_lt.2 (Int.natCast_nonneg _)), if_neg Bool.false_ne_true]

end

/-- The digits of the logarithm of a count vanish for a power of two only, and are never tiny. -/
theorem logDigits_count (n k : Nat) (hlow : 2^k ≤ n) (hk : k < 48) :
    (n = 2^k → logDigits logPlaces (n*2^(logWorking-k)) 0 = 0) ∧ (n ≠ 2^k → 1 ≤ k →
        2^(logPlaces-k) ≤ logDigits logPlaces (n*2^(logWorking-k)) 0) := by
  have hunit : 2^k*2^(logWorking-k) = twoPow logWorking := by
    rw [← pow_add]
    congr 1
    simp only [logWorking]
    omega
  constructor
  · intro hn
    rw [hn, hunit, logDigits_one]
  · intro hn hk1
    apply logDigits_above _ _ _ hk1
    · simp only [logPlaces]
      omega
    · simp only [logWorking]
      omega
    · calc twoPow logWorking+twoPow (logWorking-k) = (2^k+1)*2^(logWorking-k) := by
            rw [← hunit, add_mul, Nat.one_mul, twoPow_eq]
        _ ≤ n*2^(logWorking-k) := mul_le_mul_right _ (by omega)

end MicroLearn.Number

namespace MicroLearn.Lower

open Number

/-- The levels that the doubles give for a tree over `n` numbers are the least power of two that
reaches `n`, exactly. -/
theorem treeLevels_eq (n : Nat) (hpos : 1 ≤ n) (hsmall : n < 2^48) :
    treeLevels n = .ok (Nat.clog 2 n : Int) := by
  obtain rfl | hn := Nat.eq_or_lt_of_le hpos
  · decide +kernel
  obtain ⟨k,hk⟩ : ∃ k, k = n.log2 := ⟨_,rfl⟩
  obtain ⟨hlow,hhigh⟩ := (Nat.log2_eq_iff (by omega)).1 hk.symm
  have hk1 : 1 ≤ k := by
    by_contra hzero
    obtain rfl : k = 0 := by omega
    omega
  have hk48 : k < 48 := (Nat.pow_lt_pow_iff_right (by decide)).1 (Nat.lt_of_le_of_lt hlow hsmall)
  obtain ⟨hpower,hother⟩ := logDigits_count n k hlow hk48
  have hdouble : doubleOfInt n = .ok (floatOfInt n) := by
    rw [doubleOfInt, if_neg]
    simp only [wordMin, twoPow_eq]
    omega
  have hdigits := (logDigits_mem logPlaces (n*2^(logWorking-k)) 0).2
  simp only [treeLevels, hdouble, bind, Except.bind]
  rw [logTwo_floatOfInt n k hlow hhigh (by omega)]
  by_cases hn2 : n = 2^k
  · rw [integerAbove_nearest k _ hk1 hk48 hdigits (.inl (hpower hn2)), if_pos (hpower hn2), hn2,
      Nat.clog_pow _ _ (by decide)]
  · have hfar := hother hn2 hk1
    have hclog : Nat.clog 2 n = k+1 := by
      apply le_antisymm (Nat.clog_le_of_le_pow hhigh.le)
      exact (Nat.lt_clog_iff_pow_lt (by decide)).2 (by omega)
    rw [integerAbove_nearest k _ hk1 hk48 hdigits (.inr hfar), if_neg, hclog]
    · rfl
    · have := Nat.two_pow_pos (logPlaces-k)
      omega

end MicroLearn.Lower
