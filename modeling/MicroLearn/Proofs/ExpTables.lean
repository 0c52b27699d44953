import MicroLearn.Proofs.Declarations
import MicroLearn.Proofs.Shifts

/-!
# Tables of the exponential

The offset of an argument is shifted to the top of a word, and the two halves of its high bits are
the places in the two tables. How far it can be shifted is found by halving the greatest offset
until nothing is left of it, which never happens to a negative number.
-/

set_option autoImplicit false

namespace MicroLearn.Lower

open Code
open Lang (Ty Token)
open Lowering

variable {word bits : Nat} {n shl p : Int} {r : ExpRange}

/-- Halving, rounded down, reaches zero after so many turns. -/
inductive Halves : Int → Nat → Prop
  | zero : Halves 0 0
  | half {n k} (h : n ≠ 0) (next : Halves (n/2) k) : Halves n (k+1)

theorem Halves.nonneg {k} (h : Halves n k) : 0 ≤ n := by
  induction h with
  | zero => exact le_refl 0
  | half _ _ ih => omega

theorem halves_log2 (n : Nat) (h : n ≠ 0) : Halves n (n.log2+1) := by
  induction n using Nat.strongRecOn with
  | ind n ih =>
    refine .half (by omega) ?_
    rw [Nat.log2_def]
    split
    · exact_mod_cast ih (n/2) (by omega) (by omega)
    · obtain rfl : n = 1 := by omega
      exact .zero

theorem halves_iff (h : n ≠ 0) : (∃ k, Halves n k) ↔ 0 < n := by
  constructor
  · rintro ⟨k,hk⟩
    exact lt_of_le_of_ne hk.nonneg h.symm
  · intro hn
    lift n to Nat using hn.le
    exact ⟨_,halves_log2 n (by omega)⟩

theorem headroom_endless_iff (hn : n ≠ 0) : headroom word bits n = .error .endless ↔ ¬ 0 < n := by
  unfold headroom
  split
  · contradiction
  · split <;> simp <;> omega

/-- The step comes to an end, be it with a fault. -/
class Settles {α : Type} (e : Except Fault α) : Prop where
  ends : e ≠ .error .endless

class Ending {α : Type} (m : Lowering α) : Prop where
  ends : ∀ s, Settles (m s)

theorem Ending.not_endless {α} {m : Lowering α} (h : Ending m) (st : State) :
    m st ≠ .error .endless := (h.ends st).ends

section Ending

variable {α β : Type}

instance (a : α) : Settles (pure a : Except Fault α) := ⟨nofun⟩

instance (e : Except Fault α) (f : α → Except Fault β) [he : Settles e] [hf : ∀ a, Settles (f a)] :
    Settles (e >>= f) where
  ends := by
    cases e with
    | error x => exact fun h => he.ends (congrArg _ (Except.error.inj h))
    | ok a => exact (hf a).ends

instance (c : Prop) [Decidable c] (a b : Except Fault α) [ha : Settles a] [hb : Settles b] :
    Settles (if c then a else b) := by split <;> assumption

instance (xs : List α) (f : α → Except Fault β) [hf : ∀ a, Settles (f a)] :
    Settles (xs.mapM f) := by
  induction xs with
  | nil => rw [List.mapM_nil]; infer_instance
  | cons x xs ih => rw [List.mapM_cons]; infer_instance

instance (c : Bool) : Settles (demand c) := by cases c <;> exact ⟨by simp [demand]⟩

instance (t : Term) : Settles t.varName := by cases t <;> exact ⟨by simp [Term.varName]⟩

instance (t : Ty) : Settles t.shape := by cases t <;> exact ⟨by simp [Ty.shape]⟩

instance (s : Settings) (n : Int) : Settles (Code.number s n) := by
  unfold Code.number Number.fitWord
  repeat' split
  all_goals exact ⟨by simp⟩

instance (x : Float) : Settles (Number.integerPart x) := by
  unfold Number.integerPart
  split <;> exact ⟨by simp⟩

instance (x : Float) : Settles (Number.integerAbove x) := by
  unfold Number.integerAbove
  split <;> exact ⟨by simp⟩

instance (n : Int) : Settles (Number.doubleOfInt n) := by
  unfold Number.doubleOfInt
  split <;> exact ⟨by simp⟩

instance (s : Settings) (n : Int) : Settles (literal s n) := by unfold literal; infer_instance

instance (s : Settings) (e : Term) (n : Int) : Settles (shiftLeft s e n) := by
  unfold shiftLeft; infer_instance

instance (s : Settings) (e : Term) (n : Int) : Settles (shiftRight s e n) := by
  unfold shiftRight; infer_instance

instance (w : Nat) (x : Float) : Settles (scaleOf w x) := by unfold scaleOf; infer_instance

instance (x : Float) (p : Int) : Settles (atScale x p) := by unfold atScale; infer_instance

instance (top : Float) (p : Int) (a : Interval) : Settles (intervalForExp top p a) := by
  unfold intervalForExp intervalOf; infer_instance

instance (p : Int) (f : Float → Float) (n : Nat) : Settles (tabulate p f n) := by
  unfold tabulate expEntry; infer_instance

instance (a : α) : Ending (pure a : Lowering α) := ⟨fun _ => ⟨nofun⟩⟩

instance (e : Except Fault α) [he : Settles e] : Ending (attempt e) where
  ends s := by
    cases e with
    | error x => exact ⟨fun h => he.ends (congrArg _ (Except.error.inj h))⟩
    | ok a => exact ⟨nofun⟩

instance : Ending (get : Lowering State) := ⟨fun _ => ⟨nofun⟩⟩

instance (f : State → State) : Ending (modify f : Lowering Unit) := ⟨fun _ => ⟨nofun⟩⟩

instance (m : Lowering α) (f : α → Lowering β) [hm : Ending m] [hf : ∀ a, Ending (f a)] :
    Ending (m >>= f) where
  ends s := by
    have := hm.ends s
    have := fun p : α × State => (hf p.1).ends p.2
    exact inferInstanceAs (Settles (m s >>= fun p => f p.1 p.2))

theorem Ending.andThen {m} {f : α → Lowering β} [Ending m] (hf : ∀ a, Ending (f a)) :
    Ending (m >>= f) := inferInstance

instance : Ending freshVar := ⟨fun _ => ⟨nofun⟩⟩

instance (cx : Context) (n : Int) : Ending (number cx n) := by unfold number; infer_instance

instance (t : Term) : Ending (nameOf t) := by unfold nameOf; infer_instance

instance (t : Ty) : Ending (shapeOf t) := by unfold shapeOf; infer_instance

instance (name : String) (t : Ty) : Ending (declare name t) := by unfold declare; infer_instance

instance (t : Term) (type : Ty) (p : Int) (a : Interval) : Ending (record t type p a) := by
  unfold record setScale setInterval; infer_instance

end Ending

theorem expTable_settles (hspan : span r p = .ok n) (h : Settles (headroom word bits n)) :
    Settles (expTable word bits r p) := by
  rw [expTable, hspan]
  change Settles (headroom word bits n >>= _)
  infer_instance

section Compile

variable {cx : Context} {source : Ty} {e : Term} {least most : Int}

instance findTable_ending [h : Settles (expTable cx.settings.word cx.settings.expBits r p)] :
    Ending (findTable cx r p) := by
  refine .andThen fun s => ?_
  split
  · infer_instance
  · unfold setTable
    infer_instance

/-- A range of known ends on a tensor of known scale: the exponential by tables is lowered to an
end, be it a fault, exactly when the halving ends. -/
theorem lowerTableExp_endless_iff {st} {x} {a} (he : st.Knows e x p a)
    (hlow : atScale r.low p = .ok least) (hhigh : atScale r.high p = .ok most)
    (hspan : span r p = .ok n) : lowerTableExp cx r source e st = .error .endless ↔
      headroom cx.settings.word cx.settings.expBits n = .error .endless := by
  rw [lowerTableExp, run_step he.scaleOfTerm, run_step he.intervalOfTerm,
    run_step (attempt_run st hlow), run_step (attempt_run st hhigh),
    run_step (attempt_run st hspan)]
  cases hroom : headroom cx.settings.word cx.settings.expBits n with
  | error f =>
    change Except.error f = .error .endless ↔ _
    simp
  | ok shl =>
    refine iff_of_false ?_ (by simp)
    rw [run_step (attempt_run st rfl)]
    have hsettles : Settles (headroom cx.settings.word cx.settings.expBits n) := by
      rw [hroom]
      exact ⟨by simp⟩
    have := expTable_settles hspan hsettles
    refine Ending.not_endless ?_ st
    refine .andThen fun input => .andThen fun i => .andThen fun j => .andThen fun out => ?_
    refine .andThen fun mask => .andThen fun _ => ?_
    refine .andThen fun p1 => .andThen fun p2 => ?_
    infer_instance

/-- For a range whose offsets are not all equal at the scale, halving ends exactly if the ends of
the range are not crossed. So do the filling of the tables and, on a tensor of that scale, the
lowering of an exponential. -/
theorem table_exp_ends_iff (cx : Context) (hspan : span r p = .ok n) (hn : n ≠ 0) :
    ((∃ k, Halves n k) ↔ 0 < n) ∧
    (headroom cx.settings.word cx.settings.expBits n ≠ .error .endless ↔ 0 < n) ∧
    (expTable cx.settings.word cx.settings.expBits r p ≠ .error .endless ↔ 0 < n) ∧
    ∀ (source : Ty) (e : Term) (st : State) (x : String) (a : Interval) (least most : Int),
      st.Knows e x p a → atScale r.low p = .ok least → atScale r.high p = .ok most →
      (lowerTableExp cx r source e st ≠ .error .endless ↔ 0 < n) := by
  have hroom : headroom cx.settings.word cx.settings.expBits n = .error .endless ↔ ¬ 0 < n :=
    headroom_endless_iff hn
  refine ⟨halves_iff hn,by rw [ne_eq, hroom, not_not],?_,?_⟩
  · constructor
    · intro h
      by_contra hneg
      refine h ?_
      rw [expTable, hspan]
      change (headroom cx.settings.word cx.settings.expBits n >>= _) = _
      rw [hroom.2 hneg]
      rfl
    · intro hpos
      exact (expTable_settles hspan ⟨fun h => hroom.1 h hpos⟩).ends
  · intro source e st x a least most he hlow hhigh
    rw [ne_eq, lowerTableExp_endless_iff he hlow hhigh hspan, hroom, not_not]

/-- The profile of a run that takes no exponential. -/
def unseen : String :=
  let row := "340282346638528859811704183484516925440.000000, " ++
    "-340282346638528859811704183484516925440.000000\n"
  row++row

/-- The range of such a run and its ends at a scale. -/
def unseenAt (p : Int) : Except Fault (Int × Int × Int) := do
  let r ← expRangeOfProfile (some unseen)
  return (← span r p,← atScale r.low p,← atScale r.high p)

theorem table_exp_ends_iff_unseen : ∃ r, expRangeOfProfile (some unseen) = .ok r ∧
    expTable 16 6 r (-10) = .error .endless ∧
    lowerTableExp ⟨.standard,-5,some unseen⟩ r (.tensor [1, 1]) (plain "x")
      { scales := [("x",-10)], intervals := [("x",⟨-8,8⟩)] } = .error .endless := by
  have h : unseenAt (-10) = .ok (-696898245915707104894370167776290663301120,
    348449122957853552447185083888145331650560,-348449122957853552447185083888145331650560) := by
    decide +kernel
  obtain ⟨r,hr,h⟩ := bind_ok h
  obtain ⟨n,hspan,h⟩ := bind_ok h
  obtain ⟨least,hlow,h⟩ := bind_ok h
  obtain ⟨most,hhigh,h⟩ := bind_ok h
  obtain ⟨rfl,rfl,rfl⟩ : n = _ ∧ least = _ ∧ most = _ := by simpa using Except.ok.inj h
  obtain ⟨-,-,htable,hlower⟩ := table_exp_ends_iff ⟨.standard,-5,some unseen⟩ hspan (by decide)
  refine ⟨r,hr,?_,?_⟩
  · exact not_not.1 fun h => absurd (htable.1 h) (by decide)
  · exact not_not.1 fun h => absurd ((hlower _ _ _ "x" _ _ _ ⟨rfl,rfl,rfl⟩ hlow hhigh).1 h)
      (by decide)

end Compile

end MicroLearn.Lower
