import MicroLearn.Proofs.Shifts

/-!
# Styles of a shift to the right

A shift by `n` stands for the quotient by `2 ^ n`, towards zero. The styles that divide or add a
mask give it for every word. Shifting the absolute value gives it for all but the least number of a
register, whose negative does not fit. Shifting the complement rounds down instead.
-/

set_option autoImplicit false

namespace MicroLearn.Code

open Fixed (wrap InWord wrap_eq_self)
open Number (twoPow twoPow_eq)
open ShiftStyle

/-- Arithmetic in signed registers: what does not fit is reduced, a shift to the right keeps the
sign and a division rounds towards zero. -/
structure Machine.Registers (M : Machine) (bits : Nat) : Prop where
  neg : ∀ a, M.unary .neg a = wrap bits (-a)
  add : ∀ a b, M.arith .add a b = wrap bits (a+b)
  div : ∀ a b, M.arith .div a b = wrap bits (a.tdiv b)
  shr : ∀ a b, M.arith .shr a b = a/2^b.toNat
  xor : ∀ a b, M.arith .xor a b = Int.xor a b

def registers (bits : Nat) : Machine where
  unary _ a := wrap bits (-a)
  arith
    | .add, a, b => wrap bits (a+b)
    | .sub, a, b => wrap bits (a-b)
    | .mul, a, b => wrap bits (a*b)
    | .div, a, b => wrap bits (a.tdiv b)
    | .shl, a, b => wrap bits (a*2^b.toNat)
    | .shr, a, b => a/2^b.toNat
    | .and, a, b => Int.land a b
    | .or, a, b => Int.lor a b
    | .xor, a, b => Int.xor a b
  exp _ := 0
  cast _ a := wrap bits a
  routine _ _ m := m

theorem registers_spec (bits : Nat) : (registers bits).Registers bits where
  neg _ := rfl
  add _ _ := rfl
  div _ _ := rfl
  shr _ _ := rfl
  xor _ _ := rfl

/-- What a style makes of a number in a register. -/
def ShiftStyle.shifted (bits n : Nat) (v : Int) : ShiftStyle → Int
  | .absolute => if v = -(twoPow (bits-1)) then twoPow (bits-1-n) else v.tdiv (twoPow n)
  | .complement => v/twoPow n
  | _ => v.tdiv (twoPow n)

/-- When that is the quotient. -/
def ShiftStyle.Exact (bits n : Nat) (v : Int) : ShiftStyle → Prop
  | .absolute => v ≠ -(twoPow (bits-1))
  | .complement => 0 ≤ v ∨ (twoPow n : Int) ∣ v
  | _ => True

theorem tdiv_of_nonpos {v} (h : v ≤ 0) (p : Int) : v.tdiv p = -(-v/p) := by
  rw [← Int.tdiv_eq_ediv_of_nonneg (by omega), ← Int.neg_tdiv, neg_neg]

theorem complement_ediv (v : Int) {p} (hp : 0 < p) : -((-v-1)/p)-1 = v/p := by
  have hrest := Int.emod_nonneg v hp.ne'
  have hlt := Int.emod_lt_of_pos v hp
  have hdiv : (-v-1)/p = -(v/p)-1 :=
    ((Int.ediv_emod_unique (r := p-1-v % p) hp).2
      ⟨by linarith [Int.emod_add_mul_ediv v p],by omega,by omega⟩).1
  omega

theorem mask_ediv (v : Int) {p} (hp : 0 < p) : (v+(p-1))/p = -(-v/p) := by
  rw [← complement_ediv _ hp, show -(v+(p-1))-1 = -v+p*(-1) by ring,
    Int.add_mul_ediv_left _ _ hp.ne']
  ring

theorem xor_neg_one (a : Int) : Int.xor a (-1) = -a-1 := by
  cases a with
  | ofNat a => exact (congrArg Int.negSucc (Nat.xor_zero a)).trans (by simp [Int.negSucc_eq]; ring)
  | negSucc a => exact (congrArg Int.ofNat (Nat.xor_zero a)).trans (by simp)

theorem ifPositive_value (M : Machine) (m : Memory) (e a b : Term) :
    (ifPositive e a b).value M m = if 0 < e.value M m then a.value M m else b.value M m := by
  by_cases h : 0 < e.value M m <;>
    simp [ifPositive, gt, zero, Term.value, Compare.holds, truth, h]

theorem twoPow_pos_int (n : Nat) : (0 : Int) < twoPow n := by exact_mod_cast Number.twoPow_pos n

theorem shifted_eq_tdiv_iff (bits n : Nat) (v : Int) (style : ShiftStyle) :
    style.shifted bits n v = v.tdiv (twoPow n) ↔ style.Exact bits n v := by
  have hpos := twoPow_pos_int n
  cases style with
  | absolute =>
    rw [shifted]
    split
    · rename_i h
      have hneg := Int.tdiv_nonneg (a := -v) (b := twoPow n)
      rw [Int.neg_tdiv] at hneg
      have := twoPow_pos_int (bits-1-n)
      exact ⟨fun h => by omega,fun hne => absurd h hne⟩
    · simpa using ‹_›
  | complement =>
    rw [shifted, Exact, Int.tdiv_eq_ediv, Int.sign_eq_one_of_pos hpos]
    split <;> simp [*]
  | divide | offset | unsupported => simp [shifted, Exact]

variable {M : Machine} {bits n : Nat} {v : Int}

theorem inWord_tdiv (hv : InWord bits v) {p : Int} (hp : 0 < p) : InWord bits (v.tdiv p) := by
  obtain ⟨hlow,hhigh⟩ := hv
  rcases le_total 0 v with h | h
  · have := Int.tdiv_nonneg h hp.le
    have := Int.tdiv_le_self p h
    exact ⟨by omega,by omega⟩
  · have := Int.tdiv_nonneg (a := -v) (by omega) hp.le
    have := Int.tdiv_le_self (a := -v) p (by omega)
    rw [Int.neg_tdiv] at *
    exact ⟨by omega,by omega⟩

theorem absoluteShift_nonpos (hM : M.Registers bits) (hbits : n+2 ≤ bits) (hn : 1 ≤ n)
    (hv : InWord bits v) (h : v ≤ 0) :
    M.unary .neg (M.arith .shr (M.unary .neg v) n) = shifted bits n v .absolute := by
  have hpos := twoPow_pos_int n
  have hsplit : twoPow (bits-1) = twoPow n*twoPow (bits-1-n) := by
    simp only [twoPow_eq, ← pow_add]
    congr 1
    omega
  have hone : 1 < twoPow n := Nat.one_lt_two_pow (by omega)
  have hshr (a : Int) : M.arith .shr a n = a/twoPow n := by simp [hM.shr, twoPow_eq]
  rw [hM.neg, hM.neg, hshr, shifted]
  split
  · rename_i hleast
    have hfix : wrap bits (-v) = v := by
      have := twoPow_pos_int (bits-1)
      have hdouble : twoPow bits = 2*twoPow (bits-1) := Fixed.twoPow_half (by omega)
      rw [hleast, wrap, Int.bmod_def, Int.emod_eq_of_lt (by omega) (by omega)]
      omega
    rw [hfix, hleast, hsplit, Nat.cast_mul, ← mul_neg, Int.mul_ediv_cancel_left _ hpos.ne', neg_neg]
    refine wrap_eq_self (by omega) ⟨by omega,?_⟩
    rw [hsplit]
    exact_mod_cast lt_mul_of_one_lt_left (Number.twoPow_pos _) hone
  · have hmem : InWord bits (-v) := by
      obtain ⟨hlow,hhigh⟩ := hv
      exact ⟨by omega,by omega⟩
    rw [wrap_eq_self (by omega) hmem, ← tdiv_of_nonpos h]
    exact wrap_eq_self (by omega) (inWord_tdiv hv hpos)

theorem scaleDown_shifted {s} {e} {m} {style}
    (hM : M.Registers bits) (hword : s.word ∈ wordSizes) (hshift : s.shift = style)
    (hstyle : style ≠ .unsupported) (hn : 1 ≤ n) (hfits : n+2 ≤ s.word) (hbits : s.word ≤ bits)
    (hv : InWord bits (e.value M m)) :
    ∃ t, scaleDown s e n = .ok t ∧ t.value M m = style.shifted bits n (e.value M m) := by
  have hpos := twoPow_pos_int n
  have hbelow : n < twoPow n := Nat.lt_two_pow_self
  have hmax : (twoPow n : Int) ≤ Number.wordMax s.word := by
    have : twoPow n < twoPow (s.word-1) := Nat.pow_lt_pow_right (by decide) (by omega)
    rw [Number.wordMax]
    omega
  have hliteral {k : Int} (hlow : 0 ≤ k) (hhigh : k ≤ twoPow n) : literal s k = .ok (.int k) := by
    rw [literal, number_of_fits hword hlow (by omega)]
    rfl
  have hexponent := hliteral (k := n) (by omega) (by omega)
  have hshr (a : Int) : M.arith .shr a n = a/twoPow n := by simp [hM.shr, twoPow_eq]
  have hpositive (h : 0 < e.value M m) : M.arith .shr (e.value M m) n =
      (e.value M m).tdiv (twoPow n) := by
    rw [hshr, Int.tdiv_eq_ediv_of_nonneg h.le]
  have hstart : demand (decide ((0 : Int) ≤ n)) = .ok () := by simp [demand]
  have hne : ¬(n : Int) = 0 := by omega
  simp only [scaleDown, hshift, hexponent, hne, Int.toNat_natCast]
  cases style with
  | absolute =>
    refine ⟨_,rfl,?_⟩
    rw [absoluteShift, ifPositive_value]
    split
    · rename_i h
      rw [Term.value, Term.value, hpositive h, shifted,
        if_neg (by have := twoPow_pos_int (bits-1); omega)]
    · exact absoluteShift_nonpos hM (by omega) hn hv (by omega)
  | offset =>
    rw [hliteral (by omega) (by omega)]
    refine ⟨_,rfl,?_⟩
    rw [ifPositive_value]
    split
    · exact hpositive ‹_›
    · have hfits : InWord bits (e.value M m+(twoPow n-1)) := by
        obtain ⟨hlow,-⟩ := hv
        have : twoPow n < twoPow (bits-1) := Nat.pow_lt_pow_right (by decide) (by omega)
        exact ⟨by omega,by omega⟩
      simp only [add, Term.value, hM.add, hshr, wrap_eq_self (show 1 ≤ bits by omega) hfits]
      rw [mask_ediv _ hpos]
      exact (tdiv_of_nonpos (by omega) _).symm
  | divide =>
    rw [hliteral hpos.le le_rfl]
    refine ⟨_,rfl,?_⟩
    rw [div, Term.value, hM.div]
    exact wrap_eq_self (by omega) (inWord_tdiv hv hpos)
  | complement =>
    refine ⟨_,rfl,?_⟩
    rw [ifPositive_value]
    split
    · rw [shifted, ← hshr]
      rfl
    · simp only [Term.value, hM.xor, hshr, xor_neg_one]
      exact complement_ediv _ hpos
  | unsupported => exact absurd rfl hstyle

/-- Every style but that of the absolute value at the least number of a register and that of the
complement at the negative numbers that leave a rest gives the quotient towards zero. -/
theorem shift_styles_agree_iff {s : Settings} {e : Term} {m : Memory} (hM : M.Registers bits)
    (hword : s.word ∈ wordSizes) (hbits : s.word ≤ bits) (hn : 1 ≤ n) (hfits : n+2 ≤ s.word)
    (hv : InWord s.word (e.value M m)) :
    ∀ style : ShiftStyle, style ≠ .unsupported →
      ∃ t, scaleDown { s with shift := style } e n = .ok t ∧
        t.value M m = style.shifted bits n (e.value M m) ∧
        (t.value M m = (e.value M m).tdiv (2^n) ↔ style.Exact bits n (e.value M m)) := by
  intro style hstyle
  have hwide : twoPow (s.word-1) ≤ twoPow (bits-1) :=
    Nat.pow_le_pow_right (by decide) (by omega)
  have hv : InWord bits (e.value M m) := by
    obtain ⟨hlow,hhigh⟩ := hv
    exact ⟨by omega,by omega⟩
  obtain ⟨t,ht,hvalue⟩ :=
    scaleDown_shifted (s := { s with shift := style }) hM hword rfl hstyle hn hfits hbits hv
  refine ⟨t,ht,hvalue,?_⟩
  rw [hvalue, ← shifted_eq_tdiv_iff, twoPow_eq, Nat.cast_pow, Nat.cast_ofNat]

/-- Half of minus one: the complement gives minus one and the other styles zero. -/
theorem shift_styles_agree_iff_half :
    (∃ t, scaleDown ⟨.x86,16,.complement,.table,6⟩ (.int (-1)) 1 = .ok t ∧
      t.value (registers 32) (fun _ _ => 0) = -1) ∧
    ∃ t, scaleDown ⟨.x86,16,.absolute,.table,6⟩ (.int (-1)) 1 = .ok t ∧
      t.value (registers 32) (fun _ _ => 0) = 0 := by
  have h := shift_styles_agree_iff (s := Settings.standard) (e := .int (-1)) (m := fun _ _ => 0)
    (n := 1) (registers_spec 32) (by decide) (by decide) (by decide) (by decide) (by decide)
  obtain ⟨t,ht,hfloor,-⟩ := h .complement (by decide)
  obtain ⟨u,hu,-,hexact⟩ := h .absolute (by decide)
  exact ⟨⟨t,ht,hfloor⟩,⟨u,hu,hexact.2 (by rw [ShiftStyle.Exact]; decide)⟩⟩

end MicroLearn.Code
