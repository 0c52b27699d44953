import Mathlib
import MicroLearn.Lower.State
import MicroLearn.Model.Matrix

/-!
# Scales from printed ranges

A matrix is quantized at the scale of its range, and the range is printed with six decimals for a
reader who derives the scale once more. The printed range is read back as the rounded one. The two
scales differ by one at most; they agree unless the range rounds to zero or a power of two times the
limit of the word lies between the range and its rounding.
-/

set_option autoImplicit false

namespace MicroLearn.Number

variable {x : ℚ} {places den : Nat}

def signOf (negative : Bool) : ℚ := if negative then -1 else 1

theorem abs_signOf_mul (negative : Bool) (hx : 0 ≤ x) : |signOf negative*x| = x := by
  cases negative <;> simp [signOf, hx]

def decimal? (s : String) : Option ℚ :=
  let (negative,body) := splitSign s.toList
  (readDecimal? body).map fun (c,p) => signOf negative*(c*(10 : ℚ)^p)

theorem digits_toList (n : Nat) : (digits n).toList = Nat.toDigits 10 n := by
  rw [digits, Nat.toString_eq_ofList_toDigits, String.toList_ofList]

theorem digitsValue_append (a b : List Char) :
    digitsValue (a++b) = digitsValue a*10^b.length+digitsValue b := by
  induction b using List.reverseRecOn with
  | nil => simp [digitsValue]
  | append_singleton b c ih =>
    simp only [digitsValue, List.foldl_append, List.foldl_cons, List.foldl_nil] at ih ⊢
    rw [← List.foldl_append, List.foldl_append, ih, List.length_append, List.length_singleton]
    ring

theorem digitsValue_zeros (n : Nat) : digitsValue (List.replicate n '0') = 0 := by
  induction n with
  | zero => rfl
  | succ n ih => rw [List.replicate_succ', digitsValue_append, ih]; rfl

theorem padLeft_digits {r} (hplaces : 0 < places) (hr : r < 10^places) :
    ∃ ds, (padLeft places '0' (digits r)).toList = ds ∧ (∀ c ∈ ds, c.isDigit = true) ∧
      ds.length = places ∧ digitsValue ds = r := by
  have hlength := (Nat.length_toDigits_le_iff (by decide) hplaces).2 hr
  have hlist : (padLeft places '0' (digits r)).toList =
      List.replicate (places-(Nat.toDigits 10 r).length) '0'++Nat.toDigits 10 r := by
    rw [padLeft, String.toList_append, String.toList_ofList, ← String.length_toList, digits_toList]
  refine ⟨_,hlist,?_,?_,?_⟩
  · intro c hc
    rcases List.mem_append.1 hc with hc | hc
    · rw [List.eq_of_mem_replicate hc]
      rfl
    · exact Nat.isDigit_of_mem_toDigits (by decide) (by decide) hc
  · rw [List.length_append, List.length_replicate]
    omega
  · rw [digitsValue_append, digitsValue_zeros, Nat.zero_mul, Nat.zero_add]
    exact Nat.ofDigitChars_ten_toDigits

theorem readDecimal_point {whole fraction} (hne : whole ≠ [])
    (hwhole : ∀ c ∈ whole, c.isDigit = true) (hfraction : ∀ c ∈ fraction, c.isDigit = true) :
    readDecimal? (whole ++ '.'::fraction) =
      some (digitsValue (whole++fraction),-(fraction.length : Int)) := by
  have htake : (whole ++ '.'::fraction).takeWhile Char.isDigit = whole := by
    rw [List.takeWhile_append_of_pos hwhole]
    simp
  have hdrop : (whole ++ '.'::fraction).dropWhile Char.isDigit = '.'::fraction := by
    rw [List.dropWhile_append_of_pos hwhole]
    simp
  have hall : fraction.takeWhile Char.isDigit = fraction := List.takeWhile_eq_self_iff.2 hfraction
  have hnone : fraction.dropWhile Char.isDigit = [] := List.dropWhile_eq_nil_iff.2 hfraction
  simp only [readDecimal?, htake, hdrop, hall, hnone]
  cases whole with
  | nil => exact absurd rfl hne
  | cons c cs => rfl

theorem splitSign_digit {c} (h : c.isDigit = true) (cs : List Char) :
    splitSign (c::cs) = (false,c::cs) := by
  have h1 : c ≠ '-' := by rintro rfl; cases h
  have h2 : c ≠ '+' := by rintro rfl; cases h
  simp [splitSign, h1, h2]

theorem decimal_fixed (negative : Bool) (m : Nat) (e : Int) (hplaces : 0 < places) :
    decimal? ((Binary.finite negative m e).fixed places) = some (signOf negative *
      (roundDiv ((ratio m e).1*tenPow places) (ratio m e).2/10^places)) := by
  obtain ⟨q,hq⟩ : ∃ q, roundDiv ((ratio m e).1*tenPow places) (ratio m e).2 = q := ⟨_,rfl⟩
  obtain ⟨fraction,hfraction,hdigits,hlength,hvalue⟩ :=
    padLeft_digits hplaces (Nat.mod_lt q (Nat.pow_pos (by decide : 0 < 10)))
  have hwhole : ∀ c ∈ Nat.toDigits 10 (q/10^places), c.isDigit = true := fun c =>
    Nat.isDigit_of_mem_toDigits (by decide) (by decide)
  have hbody : ((Binary.finite negative m e).fixed places).toList =
      (if negative then ['-'] else [])++(Nat.toDigits 10 (q/10^places) ++ '.'::fraction) := by
    simp only [Binary.fixed, hq, if_neg hplaces.ne']
    cases negative <;> simp [digits_toList, tenPow, hfraction]
  have hsplit : splitSign ((Binary.finite negative m e).fixed places).toList =
      (negative,Nat.toDigits 10 (q/10^places) ++ '.'::fraction) := by
    rw [hbody]
    cases negative with
    | true => rfl
    | false =>
      cases hds : Nat.toDigits 10 (q/10^places) with
      | nil => exact absurd hds Nat.toDigits_ne_nil
      | cons c cs => exact splitSign_digit (hwhole c (hds ▸ List.mem_cons_self)) _
  have hnumber : digitsValue (Nat.toDigits 10 (q/10^places)++fraction) = q := by
    rw [digitsValue_append, hvalue, hlength]
    exact (congrArg (· * 10^places+_) Nat.ofDigitChars_ten_toDigits).trans (Nat.div_add_mod' q _)
  rw [decimal?, hsplit, hq]
  simp only [readDecimal_point Nat.toDigits_ne_nil hwhole hdigits, hnumber, hlength,
    Option.map_some, zpow_neg, zpow_natCast, div_eq_mul_inv]

theorem roundDiv_bounds (num : Nat) (hden : 0 < den) :
    2*num ≤ 2*(den*roundDiv num den)+den ∧ 2*(den*roundDiv num den) ≤ 2*num+den ∧
      (roundDiv num den < 1 ↔ 2*num ≤ den) := by
  have hsplit := Nat.div_add_mod num den
  have hlt := Nat.mod_lt num hden
  have hpos : 1 ≤ num/den → den ≤ den*(num/den) := Nat.le_mul_of_pos_right den
  simp only [roundDiv]
  generalize num/den = q at *
  have hnext : den*(q+1) = den*q+den := Nat.mul_succ den q
  rcases Nat.eq_zero_or_pos q with rfl | hq
  · split_ifs <;> omega
  · split_ifs <;> omega

theorem roundDiv_rat (num : Nat) (hden : 0 < den) (hx : (num : ℚ)/den = x) :
    2*x ≤ 2*roundDiv num den+1 ∧ 2*(roundDiv num den : ℚ) ≤ 2*x+1 ∧
      (roundDiv num den = 0 ↔ 2*x ≤ 1) := by
  have hd : (0 : ℚ) < den := by exact_mod_cast hden
  have hnum : (num : ℚ) = den*x := by rw [← hx, mul_div_cancel₀ _ hd.ne']
  obtain ⟨hlow,hhigh,hzero⟩ := roundDiv_bounds num hden
  generalize roundDiv num den = q at *
  qify at hlow hhigh hzero
  rw [hnum] at hlow hhigh hzero
  refine ⟨le_of_mul_le_mul_left ?_ hd,le_of_mul_le_mul_left ?_ hd,?_⟩
  · linarith
  · linarith
  · have hcast : (q : ℚ) < 1 ↔ q = 0 := by rw [← Nat.lt_one_iff]; norm_cast
    rw [← hcast, hzero, ← mul_le_mul_iff_right₀ hd (b := 2*x), mul_one, mul_left_comm]

namespace Binary

def value : Binary → ℚ
  | .finite negative m e => signOf negative*(m*(2 : ℚ)^e)
  | _ => 0

def Finite (b : Binary) : Prop := ∃ negative m e, b = .finite negative m e

end Binary

theorem ratio_value (m : Nat) (e : Int) :
    0 < (ratio m e).2 ∧ ((ratio m e).1 : ℚ)/(ratio m e).2 = m*(2 : ℚ)^e := by
  rw [ratio]
  split
  · rename_i h
    obtain ⟨k,rfl⟩ := Int.eq_ofNat_of_zero_le h
    simp [twoPow]
  · rename_i h
    obtain ⟨k,hk⟩ := Int.eq_ofNat_of_zero_le (Int.le_of_lt (Int.neg_pos.2 (Int.not_le.1 h)))
    obtain rfl : e = -k := by omega
    simp [twoPow, div_eq_mul_inv]

/-- What is left of a magnitude after printing: a whole number of units, half a unit off at most,
and nothing if it was half a unit at most. -/
structure Rounds (unit magnitude printed : ℚ) : Prop where
  units : ∃ k : Nat, printed = k*unit
  near : |printed-magnitude| ≤ unit/2
  zero_iff : printed = 0 ↔ magnitude ≤ unit/2

theorem Binary.Finite.printed {b : Binary} (h : b.Finite) (places : Nat) (hplaces : 0 < places) :
    ∃ x, decimal? (b.fixed places) = some x ∧ Rounds (1/10^places) |b.value| |x| := by
  obtain ⟨negative,m,e,rfl⟩ := h
  refine ⟨_,decimal_fixed negative m e hplaces,?_⟩
  obtain ⟨hden,hratio⟩ := ratio_value m e
  have hscaled : (((ratio m e).1*tenPow places : Nat) : ℚ)/(ratio m e).2 =
      m*(2 : ℚ)^e*10^places := by
    rw [Nat.cast_mul, mul_div_right_comm, hratio, show tenPow places = 10^places from rfl,
      Nat.cast_pow, Nat.cast_ofNat]
  obtain ⟨hlow,hhigh,hzero⟩ := roundDiv_rat _ hden hscaled
  have hsize : |(Binary.finite negative m e).value| = m*(2 : ℚ)^e :=
    abs_signOf_mul _ (by positivity)
  rw [abs_signOf_mul _ (by positivity), hsize]
  generalize roundDiv ((ratio m e).1*tenPow places) (ratio m e).2 = q at *
  generalize (m : ℚ)*(2 : ℚ)^e = v at *
  have ht : (0 : ℚ) < 10^places := by positivity
  have hhalf : (1 : ℚ)/10^places/2 = 1/2/10^places := div_right_comm _ _ _
  refine ⟨⟨q,div_eq_mul_one_div _ _⟩,?_,?_⟩
  · have hdiff : q/10^places-v = (q-v*10^places)/10^places := by field_simp
    rw [hdiff, abs_div, abs_of_pos ht, hhalf, div_le_div_iff_of_pos_right ht, abs_le]
    constructor <;> linarith
  · rw [div_eq_zero_iff, or_iff_left ht.ne', Nat.cast_eq_zero, hzero, hhalf, le_div_iff₀ ht]
    constructor <;> intro h <;> linarith

theorem Rounds.max {unit a b y} (hunit : 0 < unit) (hx : Rounds unit a x) (hy : Rounds unit b y) :
    Rounds unit (max a b) (max x y) where
  units := by
    rcases max_choice x y with h | h
    · rw [h]; exact hx.units
    · rw [h]; exact hy.units
  near := (abs_max_sub_max_le_max x y a b).trans (max_le hx.near hy.near)
  zero_iff := by
    obtain ⟨j,hj⟩ := hx.units
    obtain ⟨k,hk⟩ := hy.units
    have hx0 : 0 ≤ x := by rw [hj]; positivity
    have hy0 : 0 ≤ y := by rw [hk]; positivity
    rw [max_le_iff, ← hx.zero_iff, ← hy.zero_iff, ← hx0.ge_iff_eq', ← hy0.ge_iff_eq',
      ← (le_max_of_le_left hx0).ge_iff_eq', max_le_iff]

/-- Numbers are ordered by their values. -/
instance : LT Binary := ⟨fun a b => a.value < b.value⟩

instance : DecidableLT Binary := fun a b => inferInstanceAs (Decidable (a.value < b.value))

end MicroLearn.Number

namespace MicroLearn.Model

open Number

section Ranges

variable {α : Type} {R p : α → α → Prop}

theorem foldl_best [DecidableRel p] (hrefl : ∀ a, R a a) (htrans : ∀ a b c, R a b → R b c → R a c)
    (hpos : ∀ a b, p a b → R a b) {x} {xs} (hneg : (x::xs).Pairwise fun a b => ¬ p b a → R a b) :
    xs.foldl (fun m y => if p y m then y else m) x ∈ x::xs ∧
      ∀ y ∈ x::xs, R (xs.foldl (fun m y => if p y m then y else m) x) y := by
  induction xs generalizing x with
  | nil => simp [hrefl]
  | cons y ys ih =>
    obtain ⟨hx,hys⟩ := List.pairwise_cons.1 hneg
    rw [List.foldl_cons]
    split
    · rename_i hp
      obtain ⟨hmem,hbest⟩ := ih hys
      refine ⟨List.mem_cons_of_mem x hmem,List.forall_mem_cons.2 ⟨?_,hbest⟩⟩
      exact htrans _ y x (hbest y List.mem_cons_self) (hpos y x hp)
    · rename_i hp
      obtain ⟨hmem,hbest⟩ := ih (hneg.sublist ((List.sublist_cons_self y ys).cons_cons x))
      obtain ⟨hfirst,hrest⟩ := List.forall_mem_cons.1 hbest
      refine ⟨?_,List.forall_mem_cons.2 ⟨hfirst,List.forall_mem_cons.2 ⟨?_,hrest⟩⟩⟩
      · rcases List.mem_cons.1 hmem with h | h
        · rw [h]
          exact List.mem_cons_self
        · exact List.mem_cons_of_mem x (List.mem_cons_of_mem y h)
      · exact htrans _ x y hfirst (hx y List.mem_cons_self hp)

/-- A list that is not empty has an element that is best by `R`, and `pick` gives it. -/
def Picks (R : α → α → Prop) (pick : List α → Except Fault α) : Prop :=
  ∀ xs ≠ [], ∃ m ∈ xs, pick xs = .ok m ∧ ∀ y ∈ xs, R m y

theorem picks_foldl [DecidableRel p] {pick} (hrefl : ∀ a, R a a)
    (htrans : ∀ a b c, R a b → R b c → R a c)
    (hpos : ∀ a b, p a b → R a b) (hneg : ∀ a b, ¬ p b a → R a b)
    (hpick : ∀ x xs, pick (x::xs) = .ok (xs.foldl (fun m y => if p y m then y else m) x)) :
    Picks R pick := by
  intro xs hne
  obtain ⟨x,xs,rfl⟩ := List.exists_cons_of_ne_nil hne
  obtain ⟨hmem,hbest⟩ := foldl_best hrefl htrans hpos (List.pairwise_of_forall (l := x::xs) hneg)
  exact ⟨_,hmem,hpick x xs,hbest⟩

section Picking

variable {γ : Type} [LinearOrder γ] [LT α] [DecidableLT α] {value : α → γ}

theorem picks_leastOf (hvalue : ∀ a b : α, a < b ↔ value a < value b) :
    Picks (fun a b : α => value a ≤ value b) leastOf :=
  picks_foldl (p := fun y m => y < m) (fun _ => le_refl _) (fun _ _ _ => le_trans)
    (fun a b h => ((hvalue a b).1 h).le) (fun a b h => not_lt.1 fun h' => h ((hvalue b a).2 h'))
      fun _ _ => rfl

theorem picks_greatestOf (hvalue : ∀ a b : α, a < b ↔ value a < value b) :
    Picks (fun a b : α => value b ≤ value a) greatestOf :=
  picks_foldl (p := fun y m => m < y) (fun _ => le_refl _) (fun _ _ _ h h' => le_trans h' h)
    (fun a b h => ((hvalue b a).1 h).le) (fun a b h => not_lt.1 fun h' => h ((hvalue a b).2 h'))
      fun _ _ => rfl

end Picking

theorem Picks.rows {pick} (hpick : Picks R pick)
    (htrans : ∀ a b c, R a b → R b c → R a c) (M : Rows α) (hM : M ≠ [])
    (hrows : ∀ row ∈ M, row ≠ []) :
    ∃ m ∈ M.flatten, (do pick (← M.mapM pick)) = .ok m ∧ ∀ y ∈ M.flatten, R m y := by
  have hbest : ∃ ms, M.mapM pick = .ok ms ∧ (M ≠ [] → ms ≠ []) ∧ (∀ m ∈ ms, m ∈ M.flatten) ∧
      ∀ y ∈ M.flatten, ∃ m ∈ ms, R m y := by
    clear hM
    induction M with
    | nil => exact ⟨[],rfl,by simp,by simp,by simp⟩
    | cons row M ih =>
      obtain ⟨m,hm,hrow,hbest⟩ := hpick row (hrows row (by simp))
      obtain ⟨ms,hms,-,hmem,hcover⟩ := ih fun row hrow => hrows row (by simp [hrow])
      refine ⟨m::ms,?_,by simp,?_,?_⟩
      · rw [List.mapM_cons, hrow, hms]
        rfl
      · exact List.forall_mem_cons.2 ⟨by simp [hm],fun m hm => by simp [hmem m hm]⟩
      · intro y hy
        rcases List.mem_append.1 hy with hy | hy
        · exact ⟨m,by simp,hbest y hy⟩
        · obtain ⟨k,hk,hR⟩ := hcover y hy
          exact ⟨k,by simp [hk],hR⟩
  obtain ⟨ms,hms,hne,hmem,hcover⟩ := hbest
  obtain ⟨m,hm,hok,hm'⟩ := hpick ms (hne hM)
  refine ⟨m,hmem m hm,by rw [hms]; exact hok,fun y hy => ?_⟩
  obtain ⟨k,hk,hR⟩ := hcover y hy
  exact htrans m k y (hm' k hk) hR

theorem rowsRange_ok {γ : Type} [LinearOrder γ] [LT α] [DecidableLT α] (value : α → γ)
    (hvalue : ∀ a b : α, a < b ↔ value a < value b) (M : Rows α) (hM : M ≠ [])
    (hrows : ∀ row ∈ M, row ≠ []) :
    ∃ low ∈ M.flatten, ∃ high ∈ M.flatten, rowsRange M = .ok (low,high) ∧
      ∀ b ∈ M.flatten, value low ≤ value b ∧ value b ≤ value high := by
  obtain ⟨low,hlow,hleast,hbelow⟩ := (picks_leastOf hvalue).rows (fun _ _ _ => le_trans) M hM hrows
  obtain ⟨high,hhigh,hgreatest,habove⟩ :=
    (picks_greatestOf hvalue).rows (fun _ _ _ h h' => le_trans h' h) M hM hrows
  refine ⟨low,hlow,high,hhigh,?_,fun b hb => ⟨hbelow b hb,habove b hb⟩⟩
  rw [rowsRange, rowsLeast, hleast]
  rw [rowsGreatest, hgreatest]
  rfl

end Ranges

end MicroLearn.Model

namespace MicroLearn.Lower

def reach (word : Nat) (s : ℤ) : ℚ := limit word*(2 : ℚ)^s

/-- The scale of numbers up to `x`: the least at which a word holds them. -/
def IsScale (word : Nat) (x : ℚ) (s : ℤ) : Prop := IsLeast {t | x ≤ reach word t} s

section Scales

variable {word : Nat} {a x unit : ℚ} {s t : ℤ}

theorem limit_pos (hword : 3 ≤ word) : 0 < limit word := by
  have : 2^1 ≤ 2^(word-2) := Nat.pow_le_pow_right (by decide) (by omega)
  rw [limit, show Number.twoPow (word-2) = 2^(word-2) from rfl]
  omega

theorem reach_pos (hword : 3 ≤ word) (s : ℤ) : 0 < reach word s :=
  mul_pos (Int.cast_pos.2 (limit_pos hword)) (zpow_pos two_pos s)

theorem reach_succ (word : Nat) (s : ℤ) : reach word (s+1) = 2*reach word s := by
  rw [reach, reach, zpow_add_one₀ two_ne_zero]
  ring

variable (hword : 3 ≤ word)

include hword

theorem reach_strictMono : StrictMono (reach word) :=
  strictMono_int_of_lt_succ fun s => by
    rw [reach_succ]
    linarith [reach_pos hword s]

theorem IsScale.le_reach_iff (h : IsScale word x s) : x ≤ reach word t ↔ s ≤ t :=
  ⟨fun ht => h.2 ht,fun ht => h.1.trans ((reach_strictMono hword).monotone ht)⟩

theorem exists_isScale_iff : (∃ s, IsScale word x s) ↔ 0 < x := by
  constructor
  · rintro ⟨s,hs⟩
    by_contra hx
    have h := (hs.le_reach_iff hword).1 ((not_lt.1 hx).trans (reach_pos hword (s-1)).le)
    omega
  · intro hx
    have hlimit : (0 : ℚ) < limit word := Int.cast_pos.2 (limit_pos hword)
    obtain ⟨n,hlow,hhigh⟩ := exists_mem_Ioc_zpow (div_pos hx hlimit) (by norm_num : (1 : ℚ) < 2)
    refine ⟨n+1,(div_le_iff₀' hlimit).1 hhigh,fun t ht => ?_⟩
    have hreach : reach word n < reach word t := ((lt_div_iff₀' hlimit).1 hlow).trans_le ht
    exact (reach_strictMono hword).lt_iff_lt.1 hreach

theorem IsScale.le_succ (ha : IsScale word a s) (hx : IsScale word x t) (h : x ≤ 2*a) :
    t ≤ s+1 := by
  have hreach : a ≤ reach word s := ha.1
  rw [← hx.le_reach_iff hword, reach_succ]
  linarith

/-- Let a magnitude be printed. Its scale is that of the printed one exactly when no reach of a word
lies between them, the printed one has a scale exactly when the magnitude is more than half a unit,
and the two scales are neighbours. -/
theorem scale_rounds (hunit : 0 < unit) (ha : 0 < a) (h : Number.Rounds unit a x) :
    ∃ s, IsScale word a s ∧ (IsScale word x s ↔ ∀ t, a ≤ reach word t ↔ x ≤ reach word t) ∧
      ((∃ t, IsScale word x t) ↔ unit/2 < a) ∧ ∀ t, IsScale word x t → |t-s| ≤ 1 := by
  obtain ⟨s,hs⟩ := (exists_isScale_iff hword).2 ha
  obtain ⟨k,hk⟩ := h.units
  have hx0 : 0 ≤ x := by rw [hk]; positivity
  refine ⟨s,hs,⟨fun hx t => ?_,fun hsame => ?_⟩,?_,fun t hx => ?_⟩
  · rw [hs.le_reach_iff hword, hx.le_reach_iff hword]
  · exact ⟨(hsame s).1 hs.1,fun t ht => hs.2 ((hsame t).2 ht)⟩
  · rw [exists_isScale_iff hword, hx0.lt_iff_ne', ne_eq, h.zero_iff, not_le]
  · have hpos : 0 < x := (exists_isScale_iff hword).1 ⟨t,hx⟩
    have hunits : unit ≤ x := by
      rcases Nat.eq_zero_or_pos k with rfl | hk'
      · simp [hk] at hpos
      · rw [hk]
        exact le_mul_of_one_le_left hunit.le (by exact_mod_cast hk')
    obtain ⟨hlow,hhigh⟩ := abs_le.1 h.near
    have hup := hs.le_succ hword hx (by linarith)
    have hdown := hx.le_succ hword hs (by linarith)
    exact abs_le.2 ⟨by omega,by omega⟩

end Scales

end MicroLearn.Lower

namespace MicroLearn.Model

open Number Lower

/-- Take a matrix of finite numbers, not all of them zero, and the range that is printed for it with
six decimals. The scale of the matrix is the scale of what is read back exactly when no reach of a
word lies between the greatest magnitudes of the two ranges. What is read back has a scale exactly
when the greatest magnitude is more than half of the last decimal, and then the two are
neighbours. -/
theorem printed_scale_iff (word : Nat) (hword : 3 ≤ word) (M : Rows Binary)
    (hrows : ∀ row ∈ M, row ≠ []) (hfinite : ∀ row ∈ M, ∀ b ∈ row, b.Finite)
    (hnonzero : ∃ row ∈ M, ∃ b ∈ row, b.value ≠ 0) :
    ∃ low high x y s, rowsRange M = .ok (low,high) ∧
      decimal? (low.fixed 6) = some x ∧ decimal? (high.fixed 6) = some y ∧
      IsScale word (max |low.value| |high.value|) s ∧
      (IsScale word (max |x| |y|) s ↔
        ∀ t, max |low.value| |high.value| ≤ reach word t ↔ max |x| |y| ≤ reach word t) ∧
      ((∃ t, IsScale word (max |x| |y|) t) ↔ 1/2000000 < max |low.value| |high.value|) ∧
      ∀ t, IsScale word (max |x| |y|) t → |t-s| ≤ 1 := by
  obtain ⟨row,hrow,b,hb,hne⟩ := hnonzero
  have hflat : ∀ c ∈ M.flatten, c.Finite := by
    intro c hc
    obtain ⟨row,hrow,hc⟩ := List.mem_flatten.1 hc
    exact hfinite row hrow c hc
  obtain ⟨low,hlow,high,hhigh,hrange,hbounds⟩ :=
    rowsRange_ok Binary.value (fun _ _ => Iff.rfl) M (List.ne_nil_of_mem hrow) hrows
  obtain ⟨x,hx,hroundsx⟩ := (hflat low hlow).printed 6 (by decide)
  obtain ⟨y,hy,hroundsy⟩ := (hflat high hhigh).printed 6 (by decide)
  have hpos : 0 < max |low.value| |high.value| := by
    obtain ⟨hle,hge⟩ := hbounds b (List.mem_flatten.2 ⟨row,hrow,hb⟩)
    exact (abs_pos.2 hne).trans_le (abs_le_max_abs_abs hle hge)
  obtain ⟨s,hs,hsame,hexists,hnear⟩ :=
    scale_rounds hword (by norm_num) hpos (hroundsx.max (by norm_num) hroundsy)
  refine ⟨low,high,x,y,s,hrange,hx,hy,hs,hsame,?_,hnear⟩
  rw [hexists]
  norm_num

/-- The greatest number that 16 bits hold at the scale `-14` is printed as one that they do not
hold. -/
theorem printed_scale_iff_boundary : ∃ low high x y,
    rowsRange [[Binary.finite false 16383 (-14)]] = .ok (low,high) ∧
      decimal? (low.fixed 6) = some x ∧ decimal? (high.fixed 6) = some y ∧
      ∃ s, IsScale 16 (max |low.value| |high.value|) s ∧ ¬ IsScale 16 (max |x| |y|) s := by
  obtain ⟨low,high,x,y,s,hrange,hx,hy,hs,hsame,-,-⟩ :=
    printed_scale_iff 16 (by decide) [[.finite false 16383 (-14)]] (by simp)
      (by simp [Binary.Finite]) (by simp [Binary.value, signOf])
  refine ⟨low,high,x,y,hrange,hx,hy,s,hs,fun hscale => ?_⟩
  have hvalue : rowsRange [[Binary.finite false 16383 (-14)]] =
      .ok (.finite false 16383 (-14),.finite false 16383 (-14)) := rfl
  obtain ⟨rfl,rfl⟩ := Prod.mk.inj (Except.ok.inj (hvalue.symm.trans hrange))
  have hround : roundDiv ((ratio 16383 (-14)).1*tenPow 6) (ratio 16383 (-14)).2 = 999939 := by
    decide
  rw [decimal_fixed _ _ _ (by decide), hround] at hx hy
  obtain rfl := Option.some.inj hx
  obtain rfl := Option.some.inj hy
  have hlimit : limit 16 = 16383 := by decide
  have h := (hsame.1 hscale (-14)).1
  norm_num [Binary.value, signOf, reach, hlimit] at h

end MicroLearn.Model
