import MicroLearn.Proofs.Confined

/-!
# Shifts that can be written

A shift by `n` is written as a division by `2 ^ n`, and every number in the code has to fit a word.
So a shift that would leave nothing of any word cannot be written, although zero would do, and two
tensors whose scales are a word apart cannot be added.
-/

set_option autoImplicit false

namespace MicroLearn.Code

open Number (fitWord twoPow wordMax wordMin)

variable {s : Settings} {n : Nat}

theorem word_of_mem (h : s.word ∈ wordSizes) : 8 ≤ s.word ∧ s.word ≤ 64 := by
  simp only [wordSizes, List.mem_cons, List.not_mem_nil, or_false] at h
  omega

theorem number_of_fits (hword : s.word ∈ wordSizes) {k} (hlow : 0 ≤ k)
    (hhigh : k ≤ wordMax s.word) : number s k = .ok k := by
  have hwide : twoPow (s.word-1) ≤ twoPow (64-1) :=
    Nat.pow_le_pow_right (by decide) (by have := word_of_mem hword; omega)
  rw [wordMax] at hhigh
  simp only [number, List.contains_iff_mem, hword, if_true, fitWord]
  rw [if_neg (by simp only [wordMin, wordMax]; omega),
    if_neg (by simp only [wordMin, wordMax]; omega)]

theorem number_twoPow_iff (hword : s.word ∈ wordSizes) :
    (∃ d, number s (twoPow n) = .ok d) ↔ n+2 ≤ s.word := by
  constructor
  · rintro ⟨d,hd⟩
    by_contra hn
    have hpow : twoPow (s.word-1) ≤ twoPow n :=
      Nat.pow_le_pow_right (by decide) (by omega)
    simp only [number, List.contains_iff_mem, hword, if_true, fitWord] at hd
    split at hd
    · cases hd
    · rw [if_pos (.inr (by rw [wordMax]; omega))] at hd
      cases hd
  · intro hn
    have hpow : twoPow n < twoPow (s.word-1) :=
      Nat.pow_lt_pow_right (by decide) (by omega)
    exact ⟨_,number_of_fits hword (Int.natCast_nonneg _) (by rw [wordMax]; omega)⟩

theorem scaleDown_value {M} (hdiv : ∀ a b, M.arith .div a b = a.tdiv b) {e t}
    (hshift : s.shift = .divide) (h : scaleDown s e n = .ok t) (m : Memory) :
    t.value M m = (e.value M m).tdiv (2^n) := by
  obtain ⟨_,-,h⟩ := bind_ok h
  by_cases hn : n = 0
  · subst hn
    cases h
    simp
  · rw [if_neg (by omega), hshift] at h
    obtain ⟨d,hd,h⟩ := bind_ok h
    cases h
    rw [literal_ok hd, div, Term.value, Term.value, hdiv]
    simp [twoPow]

theorem scaleDown_iff (hword : s.word ∈ wordSizes) (hshift : s.shift = .divide) (e : Term) :
    (∃ t, scaleDown s e n = .ok t) ↔ n+2 ≤ s.word := by
  have hsize := word_of_mem hword
  have hdemand : demand (decide ((0 : Int) ≤ n)) = .ok () := by simp [demand]
  rw [scaleDown, hdemand]
  by_cases hn : n = 0
  · subst hn
    exact ⟨fun _ => by omega,fun _ => ⟨e,rfl⟩⟩
  · rw [← number_twoPow_iff (n := n) hword]
    simp only [Nat.cast_eq_zero, hn, hshift, literal, Int.toNat_natCast]
    cases number s (twoPow n) <;> simp [bind, Except.bind, pure, Except.pure]

end MicroLearn.Code

namespace MicroLearn.Lower

open Code
open Lang (Ty Token)
open Number (fitWord twoPow wordMax wordMin)
open Lowering

variable {cx : Context} {n : Nat}

theorem shiftOperand_iff (hword : cx.settings.word ∈ wordSizes)
    (hshift : cx.settings.shift = .divide) :
    (∃ d, shiftOperand cx.settings n = .ok d) ↔ n+2 ≤ cx.settings.word := by
  have hdemand : demand (decide ((0 : Int) ≤ n)) = .ok () := by simp [demand]
  rw [← number_twoPow_iff hword, shiftOperand, hshift]
  exact Iff.rfl

theorem shiftOperand_ok (hshift : cx.settings.shift = .divide) {n d}
    (h : shiftOperand cx.settings n = .ok d) : d = twoPow n.toNat := by
  obtain ⟨_,-,h⟩ := bind_ok h
  rw [hshift] at h
  exact number_ok h

/-- What is known of a variable. -/
structure State.Knows (st : State) (t : Term) (x : String) (p : Int) (a : Interval) : Prop where
  name : t.varName = .ok x
  scale : st.scales.lookup x = some p
  interval : st.intervals.lookup x = some a

theorem run_step {α β} {m} {f : α → Lowering β} {st st'} {a}
    (h : m st = .ok (a,st')) : (m >>= f) st = f a st' := by
  change (m st >>= fun r => f r.1 r.2) = _
  rw [h]
  rfl

theorem attempt_run {α} {e} {a : α} (st : State) (h : e = .ok a) :
    attempt e st = .ok (a,st) := by rw [h]; rfl

section Knows

variable {st : State} {t : Term} {x : String} {p : Int} {a : Interval}

theorem find_run {β} {table} {v : β} (h : table.lookup x = some v)
    (st : State) : find table x st = .ok (v,st) := by rw [find, h]; rfl

theorem State.Knows.scaleOfTerm (h : st.Knows t x p a) :
    Lowering.scaleOfTerm t st = .ok (p,st) := by
  rw [Lowering.scaleOfTerm, run_step (a := st) rfl, run_step (attempt_run st h.name)]
  exact find_run h.scale st

theorem State.Knows.intervalOfTerm (h : st.Knows t x p a) :
    Lowering.intervalOfTerm t st = .ok (a,st) := by
  rw [Lowering.intervalOfTerm, run_step (a := st) rfl, run_step (attempt_run st h.name)]
  exact find_run h.interval st

theorem State.Knows.look (h : st.Knows t x p a) :
    Lower.look t st = .ok (⟨p,a,st.globals.contains x⟩,st) := by
  rw [Lower.look, run_step h.scaleOfTerm, run_step h.intervalOfTerm, nameOf,
    run_step (attempt_run st h.name)]
  rfl

end Knows

variable {rows cols : Int} {a b : Operand}

theorem additivePlan_iff (hword : cx.settings.word ∈ wordSizes)
    (hshift : cx.settings.shift = .divide) (hdims : cx.literals [rows, cols] = .ok [rows, cols])
    (how : Additive) : (∃ c, additivePlan cx (.tensor [rows, cols]) a b how = .ok c) ↔
      (a.scale-b.scale).natAbs+2 ≤ cx.settings.word := by
  obtain ⟨k,hk⟩ : ∃ k, k = (additive cx.settings.word cx.maxScale a.scale b.scale a.interval
    b.interval how).2.2 := ⟨_,rfl⟩
  have hplan : (∃ c, additivePlan cx (.tensor [rows, cols]) a b how = .ok c) ↔
      ∃ ks, cx.shifts [k.left, k.right, k.result] = .ok ks := by
    constructor
    · rintro ⟨c,h⟩
      obtain ⟨_,-,h⟩ := bind_ok h
      obtain ⟨_,-,h⟩ := bind_ok h
      obtain ⟨ks,hks,-⟩ := bind_ok h
      exact ⟨ks,hk ▸ hks⟩
    · rintro ⟨ks,hks⟩
      rw [hk] at hks
      simp [additivePlan, Ty.shape, demand, hks, hdims, bind, Except.bind, pure, Except.pure]
  have hfits : ∀ n : Int, 0 ≤ n →
      ((∃ d, shiftOperand cx.settings n = .ok d) ↔ n.toNat+2 ≤ cx.settings.word) := by
    intro n hn
    rw [← shiftOperand_iff hword hshift, Int.toNat_of_nonneg hn]
  have hsize := word_of_mem hword
  simp only [hplan, hk, Context.shifts, Model.mapM_ok_iff, List.forall_mem_cons, List.not_mem_nil,
    false_implies, implies_true, and_true, additive]
  rw [hfits _ (by split <;> omega), hfits _ (by split <;> omega), hfits _ (by split <;> omega)]
  split <;> split <;> omega

theorem store_succeeds (c : Plan Routine) (type : Ty) (operands : List Term) (text : String)
    (st : State) : ∃ r, c.store type operands text st = .ok r := by
  unfold Plan.store
  cases c.routine.room with
  | none => exact ⟨_,rfl⟩
  | some n => exact ⟨_,rfl⟩

section StoreTwo

variable {st : State} {ea eb : Term} {x y : String} {p q : Int} {i j : Interval}
    (ha : st.Knows ea x p i)
  (hb : st.Knows eb y q j) {type : Ty} {sign : String} {plan : Operand → Operand →
    Except Fault (Plan Routine)}
include ha hb

theorem storeTwo_run : storeTwo type sign ea eb plan st =
    plan ⟨p,i,st.globals.contains x⟩ ⟨q,j,st.globals.contains y⟩ >>= fun c =>
      c.store type (c.routine.order ea eb) (x++sign++y) st := by
  rw [storeTwo, nameOf, nameOf, ha.name, hb.name]
  change (planTwo ea eb plan st >>= _) = _
  rw [planTwo, run_step ha.look, run_step hb.look]
  cases plan ⟨p,i,st.globals.contains x⟩ ⟨q,j,st.globals.contains y⟩ <;> rfl

theorem storeTwo_ok {r} (h : storeTwo type sign ea eb plan st = .ok r) :
    ∃ c, plan ⟨p,i,st.globals.contains x⟩ ⟨q,j,st.globals.contains y⟩ = .ok c ∧
      c.store type (c.routine.order ea eb) (x++sign++y) st = .ok r :=
  bind_ok (storeTwo_run ha hb ▸ h)

variable (type sign plan) in
theorem storeTwo_iff : (∃ r, storeTwo type sign ea eb plan st = .ok r) ↔
    ∃ c, plan ⟨p,i,st.globals.contains x⟩ ⟨q,j,st.globals.contains y⟩ = .ok c := by
  constructor
  · rintro ⟨r,h⟩
    obtain ⟨c,hc,-⟩ := storeTwo_ok ha hb h
    exact ⟨c,hc⟩
  · rintro ⟨c,hc⟩
    rw [storeTwo_run ha hb, hc]
    exact store_succeeds c ..

end StoreTwo

/-- Under divisions, a shift by `n` can be written exactly if `n` leaves two bits of the word. Then
the number for the library is `2 ^ n`, and the term divides towards zero. So two tensors are added
exactly if their scales are no further apart than that. -/
theorem shifts_written_iff {cx : Context} (hword : cx.settings.word ∈ wordSizes)
    (hshift : cx.settings.shift = .divide) :
    (∀ n : Nat, ((∃ d, shiftOperand cx.settings n = .ok d) ↔ n+2 ≤ cx.settings.word) ∧
      ∀ d, shiftOperand cx.settings n = .ok d → ∀ x : Int, x.tdiv d = x.tdiv (2^n)) ∧
    (∀ (n : Nat) (e : Term), ((∃ t, scaleDown cx.settings e n = .ok t) ↔ n+2 ≤ cx.settings.word) ∧
      ∀ t, scaleDown cx.settings e n = .ok t → ∀ (M : Machine) (m : Memory),
        (∀ a b, M.arith .div a b = a.tdiv b) → t.value M m = (e.value M m).tdiv (2^n)) ∧
    ∀ (st : State) (ea eb : Term) (x y : String) (p q : Int) (i j : Interval) (rows cols : Int)
      (op : Token), st.Knows ea x p i → st.Knows eb y q j → op = .plus ∨ op = .minus →
      cx.literals [rows, cols] = .ok [rows, cols] →
      ((∃ r, lowerAdditive cx (.tensor [rows, cols]) op ea eb st = .ok r) ↔
        (p-q).natAbs+2 ≤ cx.settings.word) := by
  refine ⟨fun n => ⟨shiftOperand_iff hword hshift,?_⟩,fun n e => ⟨scaleDown_iff hword hshift e,?_⟩,
    ?_⟩
  · intro d hd x
    rw [shiftOperand_ok hshift hd]
    simp [Number.twoPow]
  · intro t ht M m hdiv
    exact scaleDown_value hdiv hshift ht m
  · intro st ea eb x y p q i j rows cols op ha hb hop hdims
    rcases hop with rfl | rfl
    · exact (storeTwo_iff ha hb _ _ _).trans (additivePlan_iff hword hshift hdims .plus)
    · exact (storeTwo_iff ha hb _ _ _).trans (additivePlan_iff hword hshift hdims .minus)

def distantScales : State where
  scales := [("a",0), ("b",-15)]
  intervals := [("a",⟨-8,8⟩), ("b",⟨-8,8⟩)]

/-- In a word of 16 bits a shift by 14 can be written and one by 15 cannot, and no two tensors with
scales 0 and -15 can be added. -/
theorem shifts_written_iff_sixteen : ∃ cx : Context, cx.settings = .standard ∧
    (∃ d, shiftOperand cx.settings 14 = .ok d) ∧ ¬ (∃ d, shiftOperand cx.settings 15 = .ok d) ∧
    (¬ ∃ t, scaleDown cx.settings (plain "a") 15 = .ok t) ∧
    ¬ ∃ r, lowerAdditive cx (.tensor [2, 2]) .plus (plain "a") (plain "b") distantScales =
      .ok r := by
  obtain ⟨hoperand,hterm,hsum⟩ := @shifts_written_iff ⟨.standard,-5,none⟩ (by decide) rfl
  refine ⟨⟨.standard,-5,none⟩,rfl,(hoperand 14).1.2 (by decide),?_,?_,?_⟩
  · exact fun h => absurd ((hoperand 15).1.1 h) (by decide)
  · exact fun h => absurd ((hterm 15 (plain "a")).1.1 h) (by decide)
  · exact fun h => absurd ((hsum distantScales (plain "a") (plain "b") "a" "b" 0 (-15) ⟨-8,8⟩ ⟨-8,8⟩
      2 2 .plus ⟨rfl,rfl,rfl⟩ ⟨rfl,rfl,rfl⟩ (.inl rfl) rfl).1 h) (by decide)

end MicroLearn.Lower
