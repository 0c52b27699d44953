import Mathlib
import MicroLearn.Device.Operator
import MicroLearn.Lower.State
import MicroLearn.Proofs.Word

/-!
# Sums, differences and their intervals

Two matrices at different scales are added and subtracted without overflow. The interval of a sum
holds all sums. That of a difference is taken from the two lower bounds and the two upper bounds as
well, and not from opposite bounds, so it holds all differences only when nothing but zeros is
subtracted.
-/

set_option autoImplicit false

namespace MicroLearn.Lower

open Number Fixed Device
open Interval
open AddShifts

namespace Interval

def Contains (a : Interval) (x : Int) : Prop := a.low ≤ x ∧ x ≤ a.high

instance (a : Interval) : DecidablePred a.Contains :=
  fun x => inferInstanceAs (Decidable (a.low ≤ x ∧ x ≤ a.high))

/-- Zero lies in the interval, and its bounds keep to the limit of the word. -/
structure Fits (word : Nat) (a : Interval) : Prop where
  low_nonpos : a.low ≤ 0
  high_nonneg : 0 ≤ a.high
  low_ge : -limit word ≤ a.low
  high_le : a.high ≤ limit word

end Interval

def shiftFactor (shift : Int) : Int := twoPow shift.toNat

namespace AddShifts

def minus (s : AddShifts) (x y : Int) : Int :=
  (x.tdiv (shiftFactor s.left)-y.tdiv (shiftFactor s.right)).tdiv (shiftFactor s.result)

/-- The factors, the divided operands, their difference and the result all fit a word. -/
structure NoOverflow (word : Nat) (s : AddShifts) (x y : Int) : Prop where
  factors : InWord word (shiftFactor s.left) ∧ InWord word (shiftFactor s.right) ∧
    InWord word (shiftFactor s.result)
  operands : InWord word (x.tdiv (shiftFactor s.left)) ∧ InWord word (y.tdiv (shiftFactor s.right))
  difference : InWord word (x.tdiv (shiftFactor s.left)-y.tdiv (shiftFactor s.right))
  result : InWord word (s.minus x y)

def deviceMinus (word : Nat) (s : AddShifts) (x y : Int) : Int :=
  combine word (· - ·) (shiftFactor s.left) (shiftFactor s.right) (shiftFactor s.result) x y

def subtract (word : Nat) (s : AddShifts) (A B : List Int) : List Int :=
  subMatrices word (shiftFactor s.left) (shiftFactor s.right) (shiftFactor s.result) A B

def opposite (s : AddShifts) (a b : Interval) : Interval :=
  ⟨s.minus a.low b.high,s.minus a.high b.low⟩

def endwise (s : AddShifts) (a b : Interval) : Interval :=
  ⟨a.low.fdiv (shiftFactor s.left)-b.low.fdiv (shiftFactor s.right),
    a.high.fdiv (shiftFactor s.left)-b.high.fdiv (shiftFactor s.right)⟩

end AddShifts

def alignment (p q : Int) : AddShifts := ⟨(q-p).toNat,(p-q).toNat,0⟩

/-- All entries of differences of matrices over `a` and `b` lie in `c`. -/
def HoldsDifferences (word : Nat) (s : AddShifts) (a b c : Interval) : Prop :=
  ∀ A B : List Int, (∀ x ∈ A, a.Contains x) → (∀ y ∈ B, b.Contains y) →
    ∀ z ∈ s.subtract word A B, c.Contains z

section Bounds

variable {word : Nat} {a b : Interval}
variable {f x : Int}

theorem shiftFactor_pos (n : Int) : 0 < shiftFactor n := Int.natCast_pos.2 (twoPow_pos _)

theorem tdiv_mem (x : Int) (hf : 0 < f) :
    (0 ≤ x → 0 ≤ x.tdiv f ∧ x.tdiv f ≤ x) ∧ (x ≤ 0 → x ≤ x.tdiv f ∧ x.tdiv f ≤ 0) := by
  have hup : ∀ n : Int, 0 ≤ n → 0 ≤ n.tdiv f ∧ n.tdiv f ≤ n := fun n hn =>
    ⟨Int.tdiv_nonneg hn hf.le,Int.tdiv_le_self f hn⟩
  refine ⟨hup x,fun hx => ?_⟩
  have h := hup (-x) (by omega)
  rw [Int.neg_tdiv] at h
  omega

theorem fdiv_mem (x : Int) (hf : 0 < f) :
    (0 ≤ x → 0 ≤ x.fdiv f ∧ x.fdiv f ≤ x) ∧ (x ≤ 0 → x ≤ x.fdiv f ∧ x.fdiv f ≤ 0) := by
  have h := Int.mul_fdiv_add_fmod x f
  have hlow := Int.fmod_nonneg_of_pos x hf
  have hhigh := Int.fmod_lt_of_pos x hf
  constructor
  · intro hx
    constructor <;> nlinarith
  · intro hx
    constructor <;> nlinarith

theorem fdiv_le_tdiv (hf : 0 < f) : x.fdiv f ≤ x.tdiv f := by
  rw [Int.fdiv_eq_ediv_of_nonneg _ hf.le, Int.tdiv_eq_ediv, Int.sign_eq_one_of_pos hf]
  split <;> omega

theorem fdiv_le_fdiv {y} (hf : 0 < f) (h : x ≤ y) : x.fdiv f ≤ y.fdiv f := by
  rw [Int.fdiv_eq_ediv_of_nonneg _ hf.le, Int.fdiv_eq_ediv_of_nonneg _ hf.le]
  exact Int.ediv_le_ediv hf h

theorem fdiv_eq_tdiv (hf : 0 < f) (hx : 0 ≤ x) : x.fdiv f = x.tdiv f := by
  rw [Int.fdiv_eq_ediv_of_nonneg _ hf.le, Int.tdiv_eq_ediv_of_nonneg hx]

theorem limit_word (hword : 2 ≤ word) : (twoPow (word-1) : Int) = 2*(limit word+1) := by
  rw [show word-1 = word-2+1 by omega, twoPow_succ, limit]
  push_cast
  ring

theorem shiftFactor_inWord {n} (hword : 2 ≤ word) (hn : n ≤ (word : Int)-2) :
    InWord word (shiftFactor n) := by
  have hhalf := limit_word hword
  have hpow : twoPow n.toNat ≤ twoPow (word-2) := Nat.pow_le_pow_right (by decide) (by omega)
  have hpos := shiftFactor_pos n
  have hlimit : limit word+1 = twoPow (word-2) := by rw [limit]; omega
  unfold shiftFactor at *
  constructor <;> omega

theorem Interval.Fits.tdiv_mem (ha : a.Fits word) (hf : 0 < f) (hx : a.Contains x) :
    -limit word ≤ x.tdiv f ∧ x.tdiv f ≤ limit word := by
  obtain ⟨hlow,hhigh⟩ := hx
  obtain ⟨h1,h2,h3,h4⟩ := ha
  rcases le_total 0 x with h | h
  · have := (Lower.tdiv_mem x hf).1 h
    omega
  · have := (Lower.tdiv_mem x hf).2 h
    omega

end Bounds

section Alignment

variable {word : Nat} {maxScale p q : Int} {a b c : Interval}
variable {x y : Int} {s : AddShifts}

theorem alignment_minus (x y : Int) : (alignment p q).minus x y =
    x.tdiv (shiftFactor (alignment p q).left)-y.tdiv (shiftFactor (alignment p q).right) :=
  Int.tdiv_one _

theorem alignment_right : shiftFactor (alignment p q).right = shiftFactor (p-q) := rfl

theorem alignment_eq (p q : Int) : (if q ≤ p then 0 else q-p) = (alignment p q).left ∧
    (if q ≤ p then p-q else 0) = (alignment p q).right := by
  dsimp only [alignment]
  omega

theorem alignment_one :
    shiftFactor (alignment p q).left = 1 ∨ shiftFactor (alignment p q).right = 1 := by
  rcases le_total q p with h | h
  · exact .inl (by simp [alignment, shiftFactor, Int.toNat_of_nonpos (sub_nonpos.2 h), twoPow_eq])
  · exact .inr (by simp [alignment, shiftFactor, Int.toNat_of_nonpos (sub_nonpos.2 h), twoPow_eq])

theorem Interval.Fits.fdiv_mem {f} (ha : a.Fits word) (hf : 0 < f) :
    (-limit word ≤ a.low.fdiv f ∧ a.low.fdiv f ≤ 0) ∧ 0 ≤ a.high.fdiv f ∧
    a.high.fdiv f ≤ limit word := by
  obtain ⟨h1,h2,h3,h4⟩ := ha
  have hlow := (Lower.fdiv_mem a.low hf).2 h1
  have hhigh := (Lower.fdiv_mem a.high hf).1 h2
  omega

theorem endwise_fits (s : AddShifts) (ha : a.Fits word) (hb : b.Fits word) :
    ((s.endwise a b).low.natAbs : Int) ≤ limit word ∧
    ((s.endwise a b).high.natAbs : Int) ≤ limit word := by
  have hleft := ha.fdiv_mem (shiftFactor_pos s.left)
  have hright := hb.fdiv_mem (shiftFactor_pos s.right)
  dsimp only [endwise]
  omega

theorem additive_minus (ha : a.Fits word) (hb : b.Fits word) :
    additive word maxScale p q a b .minus =
      (max p q,(alignment p q).endwise a b,alignment p q) := by
  obtain ⟨hlow,hhigh⟩ := endwise_fits (alignment p q) ha hb
  obtain ⟨hleft,hright⟩ := alignment_eq p q
  have hcarry : ¬ limit word+1 ≤
      max (((alignment p q).endwise a b).low.natAbs : Int)
        ((alignment p q).endwise a b).high.natAbs := by
    omega
  have hfirst : -limit word ≤ ((alignment p q).endwise a b).low := by omega
  have hlast : ((alignment p q).endwise a b).high ≤ limit word := by omega
  simp only [endwise, shiftFactor] at hcarry hfirst hlast ⊢
  have hunit : ((twoPow 0 : Nat) : Int) = 1 := rfl
  simp only [additive, hleft, hright, Additive.apply, decide_eq_false hcarry, Bool.false_and,
    Bool.false_eq_true, if_false, Int.toNat_zero, hunit, Int.fdiv_one, add_zero, max_eq_left hfirst,
    min_eq_left hlast]
  rfl

theorem alignment_noOverflow (hgap : |p-q| ≤ (word : Int)-2) (ha : a.Fits word) (hb : b.Fits word)
    (hx : a.Contains x) (hy : b.Contains y) : (alignment p q).NoOverflow word x y := by
  obtain ⟨hgap1,hgap2⟩ := abs_le.1 hgap
  have hword : 2 ≤ word := by omega
  have hhalf := limit_word hword
  have hx := ha.tdiv_mem (shiftFactor_pos (alignment p q).left) hx
  have hy := hb.tdiv_mem (shiftFactor_pos (alignment p q).right) hy
  have hdifference : InWord word (x.tdiv (shiftFactor (alignment p q).left) -
      y.tdiv (shiftFactor (alignment p q).right)) := by
    constructor <;> omega
  refine ⟨⟨shiftFactor_inWord hword ?_,shiftFactor_inWord hword ?_,shiftFactor_inWord hword ?_⟩,
    ⟨⟨?_,?_⟩,?_,?_⟩,hdifference,?_⟩
  · dsimp only [alignment]; omega
  · dsimp only [alignment]; omega
  · dsimp only [alignment]; omega
  iterate 4 omega
  rw [alignment_minus]
  exact hdifference

theorem deviceMinus_of_noOverflow (hword : 1 ≤ word) (h : s.NoOverflow word x y) :
    s.deviceMinus word x y = s.minus x y := by
  rw [AddShifts.deviceMinus, combine, divWord, divWord, divWord, wrap_eq_self hword h.operands.1,
    wrap_eq_self hword h.operands.2, wrap_eq_self hword h.difference]
  exact wrap_eq_self hword h.result

theorem mem_subtract {A B} {z} (hz : z ∈ s.subtract word A B) :
    ∃ x ∈ A, ∃ y ∈ B, z = s.deviceMinus word x y := by
  rw [subtract, subMatrices, ← List.map_uncurry_zip_eq_zipWith] at hz
  obtain ⟨⟨x,y⟩,hmem,rfl⟩ := List.mem_map.1 hz
  obtain ⟨hx,hy⟩ := List.of_mem_zip hmem
  exact ⟨x,hx,y,hy,rfl⟩

theorem minus_mono {x' y'} (hx : x ≤ x') (hy : y' ≤ y) :
    (alignment p q).minus x y ≤ (alignment p q).minus x' y' := by
  rw [alignment_minus, alignment_minus]
  exact sub_le_sub (Int.tdiv_le_tdiv (shiftFactor_pos _) hx)
    (Int.tdiv_le_tdiv (shiftFactor_pos _) hy)

theorem holdsDifferences_iff (hgap : |p-q| ≤ (word : Int)-2) (ha : a.Fits word) (hb : b.Fits word) :
    HoldsDifferences word (alignment p q) a b c ↔
      c.low ≤ ((alignment p q).opposite a b).low ∧
      ((alignment p q).opposite a b).high ≤ c.high := by
  have hword : 1 ≤ word := by
    have := abs_nonneg (p-q)
    omega
  have hexact : ∀ x y, a.Contains x → b.Contains y →
      (alignment p q).deviceMinus word x y = (alignment p q).minus x y := fun x y hx hy =>
    deviceMinus_of_noOverflow hword (alignment_noOverflow hgap ha hb hx hy)
  have halow : a.Contains a.low := ⟨le_refl _,ha.low_nonpos.trans ha.high_nonneg⟩
  have hahigh : a.Contains a.high := ⟨ha.low_nonpos.trans ha.high_nonneg,le_refl _⟩
  have hblow : b.Contains b.low := ⟨le_refl _,hb.low_nonpos.trans hb.high_nonneg⟩
  have hbhigh : b.Contains b.high := ⟨hb.low_nonpos.trans hb.high_nonneg,le_refl _⟩
  constructor
  · intro h
    have hentry : ∀ x y, a.Contains x → b.Contains y → c.Contains ((alignment p q).minus x y) := by
      intro x y hx hy
      rw [← hexact x y hx hy]
      exact h [x] [y] (by simpa) (by simpa) _ (List.mem_singleton_self _)
    exact ⟨(hentry _ _ halow hbhigh).1,(hentry _ _ hahigh hblow).2⟩
  · rintro ⟨hlow,hhigh⟩ A B hA hB z hz
    obtain ⟨x,hx,y,hy,rfl⟩ := mem_subtract hz
    rw [hexact x y (hA x hx) (hB y hy)]
    have hx := hA x hx
    have hy := hB y hy
    exact ⟨hlow.trans (minus_mono hx.1 hy.2),(minus_mono hx.2 hy.1).trans hhigh⟩

/-- Bounds of one side reach the opposite ones only if everything that is subtracted vanishes. -/
theorem endwise_covers_iff (ha : a.Fits word) (hb : b.Fits word) :
    (((alignment p q).endwise a b).low ≤ ((alignment p q).opposite a b).low ∧
      ((alignment p q).opposite a b).high ≤ ((alignment p q).endwise a b).high) ↔
        b.low = 0 ∧ b.high < shiftFactor (p-q) := by
  rw [← alignment_right]
  have hone := alignment_one (p := p) (q := q)
  simp only [opposite, alignment_minus, endwise]
  generalize hf : shiftFactor (alignment p q).left = f at *
  generalize hg : shiftFactor (alignment p q).right = g at *
  have hfpos : 0 < f := hf ▸ shiftFactor_pos _
  have hgpos : 0 < g := hg ▸ shiftFactor_pos _
  rw [fdiv_eq_tdiv hfpos ha.high_nonneg, fdiv_eq_tdiv hgpos hb.high_nonneg]
  have hhigh := (tdiv_mem b.high hgpos).1 hb.high_nonneg
  have hlow := (tdiv_mem b.low hgpos).2 hb.low_nonpos
  have hvanish : b.high < g ↔ b.high.tdiv g = 0 := by
    rw [Int.tdiv_eq_ediv_of_nonneg hb.high_nonneg]
    refine ⟨Int.ediv_eq_zero_of_lt hb.high_nonneg,fun h => ?_⟩
    simpa [h] using Int.lt_ediv_add_one_mul_self b.high hgpos
  constructor
  · rintro ⟨h1,h2⟩
    have hhigh0 : b.high.tdiv g = 0 := by omega
    have hlow0 : b.low.tdiv g = 0 := by omega
    refine ⟨?_,hvanish.2 hhigh0⟩
    by_contra hne
    -- a negative bound vanishes under a proper factor only, and then the other operand has none
    have hneg := Int.fdiv_neg_of_neg_of_pos (lt_of_le_of_ne hb.low_nonpos hne) hgpos
    rcases hone with rfl | rfl
    · rw [Int.fdiv_one, Int.tdiv_one] at h1
      omega
    · rw [Int.tdiv_one] at hlow0
      exact hne hlow0
  · rintro ⟨hzero,hsmall⟩
    rw [hvanish.1 hsmall, hzero, Int.zero_fdiv, Int.zero_tdiv, sub_zero, sub_zero]
    exact ⟨fdiv_le_tdiv hfpos,le_refl _⟩

/-- Take operands whose intervals hold zero and keep to the limit of the word, at scales that differ
by no more than the word allows. No difference overflows, and all differences lie in the interval
from opposite bounds. They lie in the interval that is recorded for them exactly when every number
that is subtracted vanishes at the scale of the result, none of them being negative. -/
theorem difference_interval_iff (word : Nat) (maxScale p q : Int) {a b : Interval}
    (hgap : |p-q| ≤ (word : Int)-2) (ha : a.Fits word) (hb : b.Fits word) :
    ∃ c s, additive word maxScale p q a b .minus = (max p q,c,s) ∧
      (∀ x y, a.Contains x → b.Contains y →
        s.NoOverflow word x y ∧ s.deviceMinus word x y = s.minus x y) ∧
      HoldsDifferences word s a b (s.opposite a b) ∧
      (HoldsDifferences word s a b c ↔ b.low = 0 ∧ b.high < shiftFactor (p-q)) := by
  have hword : 1 ≤ word := by
    have := abs_nonneg (p-q)
    omega
  refine ⟨_,_,additive_minus ha hb,fun x y hx hy => ?_,?_,?_⟩
  · have h := alignment_noOverflow hgap ha hb hx hy
    exact ⟨h,deviceMinus_of_noOverflow hword h⟩
  · exact (holdsDifferences_iff hgap ha hb).2 ⟨le_refl _,le_refl _⟩
  · exact (holdsDifferences_iff hgap ha hb).trans (endwise_covers_iff ha hb)

/-- Of two operands between `-1` and `1`, the recorded interval says that all differences are
zero. -/
theorem difference_interval_iff_units :
    additive 16 (-5) (-12) (-12) ⟨-1,1⟩ ⟨-1,1⟩ .minus = (-12,⟨0,0⟩,⟨0,0,0⟩) ∧
      ¬ HoldsDifferences 16 ⟨0,0,0⟩ ⟨-1,1⟩ ⟨-1,1⟩ ⟨0,0⟩ := by
  have hfits : Interval.Fits 16 ⟨-1,1⟩ := ⟨by decide,by decide,by decide,by decide⟩
  have hvalue :
      additive 16 (-5) (-12) (-12) ⟨-1,1⟩ ⟨-1,1⟩ .minus = (-12,⟨0,0⟩,⟨0,0,0⟩) := by decide
  obtain ⟨c,s,heq,-,-,hiff⟩ :=
    difference_interval_iff 16 (-5) (-12) (-12) (by decide) hfits hfits
  rw [hvalue, Prod.mk.injEq, Prod.mk.injEq] at heq
  obtain ⟨-,rfl,rfl⟩ := heq
  exact ⟨hvalue,fun h => absurd (hiff.1 h).1 (by decide)⟩

end Alignment

namespace Interval

def plus (a b : Interval) : Interval := ⟨a.low+b.low,a.high+b.high⟩

/-- The bounds after a shift, rounded down. -/
def floored (a : Interval) (f : Int) : Interval := ⟨a.low.fdiv f,a.high.fdiv f⟩

/-- Whether the interval needs a bit more than the limit of the word has. -/
def carry (word : Nat) (a : Interval) : Int :=
  if limit word+1 ≤ max (a.low.natAbs : Int) a.high.natAbs then 1 else 0

end Interval

namespace AddShifts

def plus (s : AddShifts) (x y : Int) : Int :=
  (x.tdiv (shiftFactor s.left)+y.tdiv (shiftFactor s.right)).tdiv (shiftFactor s.result)

/-- The factors, the divided operands, their sum and the result all fit a word. -/
structure SumFits (word : Nat) (s : AddShifts) (x y : Int) : Prop where
  factors : InWord word (shiftFactor s.left) ∧ InWord word (shiftFactor s.right) ∧
    InWord word (shiftFactor s.result)
  operands : InWord word (x.tdiv (shiftFactor s.left)) ∧ InWord word (y.tdiv (shiftFactor s.right))
  sum : InWord word (x.tdiv (shiftFactor s.left)+y.tdiv (shiftFactor s.right))
  result : InWord word (s.plus x y)

def add (word : Nat) (s : AddShifts) (A B : List Int) : List Int :=
  addMatrices word (shiftFactor s.left) (shiftFactor s.right) (shiftFactor s.result) A B

def endSums (s : AddShifts) (a b : Interval) : Interval :=
  (a.floored (shiftFactor s.left)).plus (b.floored (shiftFactor s.right))

end AddShifts

section Sums

variable {word : Nat} {maxScale p q : Int} {a b c : Interval} {x y f : Int} {s : AddShifts}

theorem floored_tdiv (hhigh : 0 ≤ a.high) (hf : 0 < f) (hx : a.Contains x) :
    (a.floored f).Contains (x.tdiv f) := by
  refine ⟨(fdiv_le_fdiv hf hx.1).trans (fdiv_le_tdiv hf),?_⟩
  rw [floored, fdiv_eq_tdiv hf hhigh]
  exact Int.tdiv_le_tdiv hf hx.2

theorem tdiv_error (hf : 0 < f) (x : Int) : |x-x.tdiv f*f| ≤ f-1 := by
  have hparts := Int.mul_tdiv_add_tmod x f
  have hlow := Int.lt_tmod_of_pos x hf
  have hhigh := Int.tmod_lt_of_pos x hf
  rw [mul_comm] at hparts
  exact abs_le.2 (by omega)

theorem carry_cases (word : Nat) (c : Interval) :
    c.carry word = 0 ∧ (c.low.natAbs : Int) ≤ limit word ∧ (c.high.natAbs : Int) ≤ limit word ∨
      c.carry word = 1 ∧ limit word < max (c.low.natAbs : Int) c.high.natAbs := by
  unfold carry
  split <;> omega

theorem endSums_mem (s : AddShifts) (ha : a.Fits word) (hb : b.Fits word) :
    -(2*limit word) ≤ (s.endSums a b).low ∧ (s.endSums a b).low ≤ 0 ∧
      0 ≤ (s.endSums a b).high ∧ (s.endSums a b).high ≤ 2*limit word := by
  have hleft := ha.fdiv_mem (shiftFactor_pos s.left)
  have hright := hb.fdiv_mem (shiftFactor_pos s.right)
  dsimp only [endSums, Interval.plus, floored]
  omega

theorem carried_fits (hlow : -(2*limit word) ≤ c.low ∧ c.low ≤ 0)
    (hhigh : 0 ≤ c.high ∧ c.high ≤ 2*limit word) :
    (c.floored (shiftFactor (c.carry word))).Fits word := by
  rcases carry_cases word c with ⟨hcarry,h⟩ | ⟨hcarry,h⟩ <;> rw [hcarry]
  · have hone : shiftFactor 0 = 1 := rfl
    constructor <;> simp only [floored, hone, Int.fdiv_one] <;> omega
  · have htwo : shiftFactor 1 = 2 := rfl
    constructor <;>
      simp only [floored, htwo, Int.fdiv_eq_ediv_of_nonneg _ (show (0 : Int) ≤ 2 by decide)] <;>
      omega

/-- The shifts of a sum at scales `p` and `q`. -/
def carriedShifts (word : Nat) (p q : Int) (a b : Interval) : AddShifts :=
  { alignment p q with result := ((alignment p q).endSums a b).carry word }

theorem additive_plus (hmax : max p q < maxScale) (ha : a.Fits word) (hb : b.Fits word) :
    additive word maxScale p q a b .plus = (max p q+(carriedShifts word p q a b).result,
        ((alignment p q).endSums a b).floored (shiftFactor (carriedShifts word p q a b).result),
        carriedShifts word p q a b) := by
  obtain ⟨h1,h2,h3,h4⟩ := endSums_mem (alignment p q) ha hb
  obtain ⟨-,-,hlow,hhigh⟩ := carried_fits ⟨h1,h2⟩ ⟨h3,h4⟩
  obtain ⟨hleft,hright⟩ := alignment_eq p q
  unfold carriedShifts
  by_cases hcarry : limit word+1 ≤ max (((alignment p q).endSums a b).low.natAbs : Int)
    ((alignment p q).endSums a b).high.natAbs
  · rw [carry, if_pos hcarry] at hlow hhigh ⊢
    simp only [endSums, Interval.plus, floored, shiftFactor] at hcarry hlow hhigh ⊢
    simp only [additive, hleft, hright, Additive.apply, decide_eq_true hcarry, decide_eq_true hmax,
      Bool.and_true, if_true, max_eq_left hlow, min_eq_left hhigh]
  · rw [carry, if_neg hcarry] at hlow hhigh ⊢
    simp only [endSums, Interval.plus, floored, shiftFactor] at hcarry hlow hhigh ⊢
    simp only [additive, hleft, hright, Additive.apply, decide_eq_false hcarry, Bool.false_and,
      Bool.false_eq_true, if_false, max_eq_left hlow, min_eq_left hhigh]

theorem plus_mem (ha : a.Fits word) (hb : b.Fits word) (hx : a.Contains x) (hy : b.Contains y)
    (hhigh : 0 ≤ (s.endSums a b).high) :
    (s.endSums a b).Contains (x.tdiv (shiftFactor s.left)+y.tdiv (shiftFactor s.right)) ∧
      ((s.endSums a b).floored (shiftFactor s.result)).Contains (s.plus x y) := by
  have hx := floored_tdiv ha.high_nonneg (shiftFactor_pos s.left) hx
  have hy := floored_tdiv hb.high_nonneg (shiftFactor_pos s.right) hy
  have hsum : (s.endSums a b).Contains (x.tdiv (shiftFactor s.left)+y.tdiv (shiftFactor s.right)) :=
    ⟨add_le_add hx.1 hy.1,add_le_add hx.2 hy.2⟩
  exact ⟨hsum,floored_tdiv hhigh (shiftFactor_pos _) hsum⟩

theorem sum_fits (hgap : |p-q| ≤ (word : Int)-2) (ha : a.Fits word) (hb : b.Fits word)
    (hx : a.Contains x) (hy : b.Contains y) : (carriedShifts word p q a b).SumFits word x y := by
  obtain ⟨hgap1,hgap2⟩ := abs_le.1 hgap
  have hword : 2 ≤ word := by omega
  have hhalf := limit_word hword
  obtain ⟨h1,h2,h3,h4⟩ := endSums_mem (alignment p q) ha hb
  obtain ⟨-,-,h5,h6⟩ := carried_fits ⟨h1,h2⟩ ⟨h3,h4⟩
  obtain ⟨hsum,hresult⟩ := plus_mem (s := carriedShifts word p q a b) ha hb hx hy h3
  have hx := ha.tdiv_mem (shiftFactor_pos (carriedShifts word p q a b).left) hx
  have hy := hb.tdiv_mem (shiftFactor_pos (carriedShifts word p q a b).right) hy
  have hcarry : ((alignment p q).endSums a b).carry word ≤ (word : Int)-2 := by
    rcases carry_cases word ((alignment p q).endSums a b) with ⟨hcarry,-⟩ | ⟨hcarry,hmore⟩
    · omega
    · have hwide : word ≠ 2 := by
        rintro rfl
        have hzero : limit 2 = 0 := rfl
        omega
      omega
  have hin : ∀ {n : Int}, -(2*limit word) ≤ n → n ≤ 2*limit word → InWord word n :=
    fun h h' => ⟨by omega,by omega⟩
  refine ⟨⟨shiftFactor_inWord hword ?_,shiftFactor_inWord hword ?_,shiftFactor_inWord hword hcarry⟩,
    ⟨hin (by omega) (by omega),hin (by omega) (by omega)⟩,hin (h1.trans hsum.1) (hsum.2.trans h4),
    hin ((by omega : _ ≤ -limit word).trans (h5.trans hresult.1))
      ((hresult.2.trans h6).trans (by omega))⟩
  · dsimp only [carriedShifts, alignment]; omega
  · dsimp only [carriedShifts, alignment]; omega

theorem shiftFactor_mul_zpow {n} (hn : 0 ≤ n) (k : Int) : (shiftFactor n : ℚ)*2^k = 2^(k+n) := by
  obtain ⟨n,rfl⟩ := Int.eq_ofNat_of_zero_le hn
  rw [zpow_add₀ two_ne_zero, mul_comm, shiftFactor]
  norm_cast

theorem shiftFactor_toNat_mul_zpow (p q : Int) : (shiftFactor (p-q).toNat : ℚ)*2^q = 2^max p q := by
  rw [shiftFactor_mul_zpow (Int.natCast_nonneg _), show q+((p-q).toNat : Int) = max p q by omega]

theorem abs_mul_le {e n t : ℚ} (ht : 0 < t) (h : |e| ≤ n) : |e*t| ≤ n*t := by
  rw [abs_mul, abs_of_pos ht]
  exact mul_le_mul_of_nonneg_right h ht.le

/-- Read at the scale of the result, a sum is off by less than a unit: one operand is not shifted at
all, the other loses less than a unit of the common scale, and the carry at most one more. -/
theorem sum_error (word : Nat) (p q : Int) (a b : Interval) (x y : Int) :
    |((carriedShifts word p q a b).plus x y : ℚ)*2^(max p q+(carriedShifts word p q a b).result) -
      (x*2^p+y*2^q)| < 2^(max p q+(carriedShifts word p q a b).result) := by
  have hcarry : 0 ≤ (carriedShifts word p q a b).result := by
    rcases carry_cases word ((alignment p q).endSums a b) with ⟨h,-⟩ | ⟨h,-⟩ <;>
      simp [carriedShifts, h]
  have hleft := shiftFactor_toNat_mul_zpow q p
  have hright := shiftFactor_toNat_mul_zpow p q
  rw [max_comm] at hleft
  have hx := tdiv_error (shiftFactor_pos (alignment p q).left) x
  have hy := tdiv_error (shiftFactor_pos (alignment p q).right) y
  have hz := tdiv_error (shiftFactor_pos (carriedShifts word p q a b).result)
    (x.tdiv (shiftFactor (alignment p q).left)+y.tdiv (shiftFactor (alignment p q).right))
  have hone := alignment_one (p := p) (q := q)
  rw [← shiftFactor_mul_zpow hcarry]
  have hplus : (carriedShifts word p q a b).plus x y = (x.tdiv (shiftFactor (alignment p q).left) +
    y.tdiv (shiftFactor (alignment p q).right)).tdiv
      (shiftFactor (carriedShifts word p q a b).result) := rfl
  rw [hplus]
  dsimp only [alignment] at *
  generalize shiftFactor (q-p).toNat = f at *
  generalize shiftFactor (p-q).toNat = g at *
  generalize shiftFactor (carriedShifts word p q a b).result = k at *
  generalize x.tdiv f = u at *
  generalize y.tdiv g = v at *
  generalize (u+v).tdiv k = z at *
  have hp : (0 : ℚ) < 2^p := by positivity
  have hq : (0 : ℚ) < 2^q := by positivity
  have hs : (0 : ℚ) < 2^max p q := by positivity
  have hx := abs_mul_le hp (show |(x-u*f : ℚ)| ≤ f-1 by exact_mod_cast hx)
  have hy := abs_mul_le hq (show |(y-v*g : ℚ)| ≤ g-1 by exact_mod_cast hy)
  have hz := abs_mul_le hs (show |(u+v-z*k : ℚ)| ≤ k-1 by exact_mod_cast hz)
  have hunshifted : (f-1 : ℚ)*2^p+(g-1)*2^q < 2^max p q := by
    rcases hone with rfl | rfl
    · push_cast
      linarith
    · push_cast
      linarith
  have hparts : (z : ℚ)*(k*2^max p q)-(x*2^p+y*2^q) =
      -((u+v-z*k)*2^max p q+(x-u*f)*2^p+(y-v*g)*2^q) := by
    linear_combination -(u : ℚ)*hleft-v*hright
  rw [hparts, abs_neg]
  refine (abs_add_three _ _ _).trans_lt ?_
  linarith

theorem combine_of_fits (hword : 1 ≤ word) (h : s.SumFits word x y) :
    combine word (· + ·) (shiftFactor s.left) (shiftFactor s.right) (shiftFactor s.result) x y =
      s.plus x y := by
  rw [combine, divWord, divWord, divWord, wrap_eq_self hword h.operands.1,
    wrap_eq_self hword h.operands.2, wrap_eq_self hword h.sum]
  exact wrap_eq_self hword h.result

/-- Take operands whose intervals hold zero and keep to the limit of the word, at scales below the
greatest one that differ by no more than the word allows. No sum overflows, all sums lie in the
interval that is recorded for them, which keeps to the limit too, and at the recorded scale every
sum is off by less than a unit. -/
theorem sum_interval (word : Nat) (maxScale p q : Int) {a b : Interval}
    (hgap : |p-q| ≤ (word : Int)-2) (hmax : max p q < maxScale) (ha : a.Fits word)
    (hb : b.Fits word) :
    ∃ r c s, additive word maxScale p q a b .plus = (r,c,s) ∧ c.Fits word ∧
      (∀ A B : List Int, (∀ x ∈ A, a.Contains x) → (∀ y ∈ B, b.Contains y) →
        s.add word A B = List.zipWith s.plus A B) ∧
      ∀ x y, a.Contains x → b.Contains y → s.SumFits word x y ∧ c.Contains (s.plus x y) ∧
        |(s.plus x y : ℚ)*2^r-(x*2^p+y*2^q)| < 2^r := by
  obtain ⟨h1,h2,h3,h4⟩ := endSums_mem (alignment p q) ha hb
  have hword := abs_nonneg (p-q)
  refine ⟨_,_,_,additive_plus hmax ha hb,carried_fits ⟨h1,h2⟩ ⟨h3,h4⟩,fun A B hA hB => ?_,
    fun x y hx hy => ⟨sum_fits hgap ha hb hx hy,?_,sum_error word p q a b x y⟩⟩
  · refine List.ext_getElem (by simp [AddShifts.add, addMatrices]) fun i hi hi' => ?_
    simp only [AddShifts.add, addMatrices, List.getElem_zipWith]
    exact combine_of_fits (by omega)
      (sum_fits hgap ha hb (hA _ (List.getElem_mem _)) (hB _ (List.getElem_mem _)))
  · exact (plus_mem (s := carriedShifts word p q a b) ha hb hx hy h3).2

/-- Two operands at the limit, one of them three scales lower: their sum is carried. -/
theorem sum_interval_limit :
    additive 8 0 (-3) (-6) ⟨-63,63⟩ ⟨-63,63⟩ .plus = (-2,⟨-36,35⟩,⟨0,3,1⟩) ∧
      AddShifts.plus ⟨0,3,1⟩ 63 (-63) = 28 ∧
      |(28 : ℚ)*2^(-2 : ℤ)-(63*2^(-3 : ℤ) + -63*2^(-6 : ℤ))| < 2^(-2 : ℤ) := by
  have hfits : Interval.Fits 8 ⟨-63,63⟩ := ⟨by decide,by decide,by decide,by decide⟩
  have hvalue : additive 8 0 (-3) (-6) ⟨-63,63⟩ ⟨-63,63⟩ .plus =
    (-2,⟨-36,35⟩,⟨0,3,1⟩) := by decide
  obtain ⟨r,c,s,heq,-,-,h⟩ := sum_interval 8 0 (-3) (-6) (by decide) (by decide) hfits hfits
  rw [hvalue, Prod.mk.injEq, Prod.mk.injEq] at heq
  obtain ⟨rfl,rfl,rfl⟩ := heq
  have herror := (h 63 (-63) (by decide) (by decide)).2.2
  have hplus : AddShifts.plus ⟨0,3,1⟩ 63 (-63) = 28 := by decide
  rw [hplus] at herror
  exact ⟨hvalue,hplus,by exact_mod_cast herror⟩

end Sums

end MicroLearn.Lower
