import Mathlib.Data.List.Induction
import Mathlib.Logic.Function.Basic
import MicroLearn.Code.Term

/-!
# Running code

What the code of a device does with its variables. The arithmetic of the device and
the routines of its library are parameters; of a routine it is only fixed which of
its arguments it writes. Marks among the instructions say where a name is bound to a
place and where it is used, and a run leaves a trace of marks and writes.
-/

set_option autoImplicit false

open List (append_assoc filter_append)

namespace MicroLearn.Code

open Term
open Function (update update_of_ne)

abbrev Memory := String → List Int → Int

inductive Operand where
  | number (n : Int)
  | place (name : String) (index : List Int)

structure Machine where
  unary : Unary → Int → Int
  arith : Arith → Int → Int → Int
  exp : Int → Int
  cast : String → Int → Int
  /-- what a routine leaves in the variables it writes -/
  routine : String → List Operand → Memory → Memory

def Compare.holds : Compare → Int → Int → Bool
  | .lt, a, b => a < b
  | .le, a, b => a ≤ b
  | .gt, a, b => b < a
  | .ge, a, b => b ≤ a
  | .eq, a, b => a = b
  | .ne, a, b => a ≠ b

def Logic.holds : Logic → Int → Int → Bool
  | .and, a, b => a ≠ 0 && b ≠ 0
  | .or, a, b => a ≠ 0 || b ≠ 0

def truth (b : Bool) : Int := if b then 1 else 0

mutual

def Term.value (M : Machine) (m : Memory) : Term → Int
  | .int n => n
  | .var name index _ => m name (Term.values M m index)
  | .bool b => truth b
  | .unary op e => M.unary op (e.value M m)
  | .arith a op b => M.arith op (a.value M m) (b.value M m)
  | .logic a op b => truth (op.holds (a.value M m) (b.value M m))
  | .compare a op b => truth (op.holds (a.value M m) (b.value M m))
  | .select c a b => if c.value M m = 0 then b.value M m else a.value M m
  | .exp e => M.exp (e.value M m)
  | .cast type e => M.cast type (e.value M m)

def Term.values (M : Machine) (m : Memory) : List Term → List Int
  | [] => []
  | t::ts => t.value M m::Term.values M m ts

end

def Term.contents (M : Machine) (m : Memory) : Term → List Int → Int
  | .var name index _, more => m name (Term.values M m index++more)
  | t, _ => t.value M m

def Term.root? : Term → Option String
  | .var name _ _ => some name
  | _ => none

def Term.store (M : Machine) (m : Memory) (n : Int) : Term → Memory
  | .var name index _ =>
    update m name (update (m name) (Term.values M m index) n)
  | _ => m

def Term.wipe (m : Memory) : Term → Memory
  | .var name _ _ => update m name fun _ => 0
  | _ => m

def Term.operand (M : Machine) (m : Memory) : Term → Operand
  | .var name index _ => .place name (Term.values M m index)
  | t => .number (t.value M m)

def inPlace : List String := ["Relu2D", "Relu4D", "TanH", "AddOrSubCir2D", "AddOrSubCir4D"]

/-- The routines that are given room for intermediate sums behind their result. -/
def withScratch : List String := ["MatMulNN", "MatMulNC", "MatMulCN", "MatMulCC", "Conv"]

/-- The variables a call writes: the first one, or those its arguments end with. -/
def outputs (f : String) (args : List Term) : List String :=
  let names := args.filterMap root?
  if f ∈ inPlace then names.take 1
  else names.drop (names.length-if f ∈ withScratch then 2 else 1)

def Machine.call (M : Machine) (f : String) (args : List Term) (m : Memory) : Memory := fun x =>
  if x ∈ outputs f args then M.routine f (args.map (Term.operand M m)) m x else m x

theorem store_of_ne (M : Machine) (m : Memory) (n : Int) (t : Term) {x}
    (h : x ∉ t.root?.toList) : t.store M m n x = m x := by
  cases t with
  | var name index inFlash => exact update_of_ne (by simpa [root?] using h) _ _
  | _ => rfl

theorem wipe_of_ne (m : Memory) (t : Term) {x} (h : x ∉ t.root?.toList) : t.wipe m x = m x := by
  cases t with
  | var name index inFlash => exact update_of_ne (by simpa [root?] using h) _ _
  | _ => rfl

def Instr.silent : Instr → Bool
  | .output _ | .outputScaled _ _ | .comment _ => true
  | _ => false

inductive Step where
  | instr (i : Instr)
  /-- here the name is bound to what lies in a place -/
  | bound (v : String) (t : Term)
  /-- here the name is used, and what lies in the place is read -/
  | used (v : String) (t : Term)
  /-- a counting loop with marks in its body -/
  | loop (iterator : Term) (start : Int) (c : Term) (body : List Step)

mutual

def Step.erase : Step → List Instr
  | .instr i => [i]
  | .bound _ _ => []
  | .used _ _ => []
  | .loop iterator start c body => [.count iterator start c (Step.eraseAll body)]

def Step.eraseAll : List Step → List Instr
  | [] => []
  | s::ss => s.erase++Step.eraseAll ss

end

/-- What a run does, one after the other. Marks carry the memory of the moment. -/
inductive Event where
  | bound (v : String) (t : Term) (m : Memory)
  | used (v : String) (t : Term) (m : Memory)
  | wrote (x : String)

def wrote (names : List String) : List Event := names.map .wrote

/-- `Exec M steps m trace m'`: from the memory `m` the steps run to their end, leave the trace and
the memory `m'`. -/
inductive Exec (M : Machine) : List Step → Memory → List Event → Memory → Prop
  | nil {m} : Exec M [] m [] m
  | bound {v t rest m m' tr}
      (next : Exec M rest m tr m') : Exec M (.bound v t::rest) m (.bound v t m::tr) m'
  | used {v t rest m m' tr} (next : Exec M rest m tr m') :
      Exec M (.used v t::rest) m (.used v t m::tr) m'
  | silent {i rest m m' tr} (quiet : i.silent = true) (next : Exec M rest m tr m') :
      Exec M (.instr i::rest) m tr m'
  | assign {target value rest m m' tr}
      (next : Exec M rest (target.store M m (value.value M m)) tr m') :
      Exec M (.instr (.assign target value)::rest) m (wrote target.root?.toList++tr) m'
  | call {f args rest m m' tr} (next : Exec M rest (M.call f args m) tr m') :
      Exec M (.instr (.call f args)::rest) m (wrote (outputs f args)++tr) m'
  | clear {e cells rest m m' tr} (next : Exec M rest (e.wipe m) tr m') :
      Exec M (.instr (.clear e cells)::rest) m (wrote e.root?.toList++tr) m'
  | branch {c yes no rest m m' tr}
      (next : Exec M ((if c.value M m = 0 then no else yes).map .instr++rest) m tr m') :
      Exec M (.instr (.branch c yes no)::rest) m tr m'
  | block {body rest m m' tr} (next : Exec M (body.map .instr++rest) m tr m') :
      Exec M (.instr (.block body)::rest) m tr m'
  | whileDone {c body rest m m' tr} (stop : c.value M m = 0) (next : Exec M rest m tr m') :
      Exec M (.instr (.repeatWhile c body)::rest) m tr m'
  | whileMore {c body rest m m' tr} (go : c.value M m ≠ 0)
      (next : Exec M (body.map .instr ++ .instr (.repeatWhile c body)::rest) m tr m') :
      Exec M (.instr (.repeatWhile c body)::rest) m tr m'
  | count {iterator start c body rest m m' tr}
      (next : Exec M (.loop iterator start c (body.map .instr)::rest) m tr m') :
      Exec M (.instr (.count iterator start c body)::rest) m tr m'
  | loopDone {iterator start c body rest m m' tr} (stop : c.value M (iterator.store M m start) = 0)
      (next : Exec M rest (iterator.store M m start) tr m') :
      Exec M (.loop iterator start c body::rest) m (wrote iterator.root?.toList++tr) m'
  | loopMore {iterator start c body rest m m₁ m₂ tr₁ tr₂}
      (go : c.value M (iterator.store M m start) ≠ 0)
      (turn : Exec M body (iterator.store M m start) tr₁ m₁)
      (next : Exec M (.loop iterator (iterator.value M m₁+1) c body::rest) m₁ tr₂ m₂) :
      Exec M (.loop iterator start c body::rest) m (wrote iterator.root?.toList++(tr₁++tr₂)) m₂

variable {M : Machine}

theorem Exec.append {a b m m1 m2 tr1 tr2}
    (ha : Exec M a m tr1 m1) (hb : Exec M b m1 tr2 m2) : Exec M (a++b) m (tr1++tr2) m2 := by
  induction ha with
  | nil => exact hb
  | bound _ ih => exact .bound (ih hb)
  | used _ ih => exact .used (ih hb)
  | silent quiet _ ih => exact .silent quiet (ih hb)
  | assign _ ih => rw [append_assoc]; exact .assign (ih hb)
  | call _ ih => rw [append_assoc]; exact .call (ih hb)
  | clear _ ih => rw [append_assoc]; exact .clear (ih hb)
  | branch _ ih => exact .branch (by simpa using ih hb)
  | block _ ih => exact .block (by simpa using ih hb)
  | whileDone stop _ ih => exact .whileDone stop (ih hb)
  | whileMore go _ ih => exact .whileMore go (by simpa using ih hb)
  | count _ ih => exact .count (ih hb)
  | loopDone stop _ ih => rw [append_assoc]; exact .loopDone stop (ih hb)
  | loopMore go turn _ _ ih =>
    rw [append_assoc, append_assoc]
    exact .loopMore go turn (ih hb)

theorem Exec.deterministic {steps m m1 m2 tr1 tr2}
    (h1 : Exec M steps m tr1 m1) (h2 : Exec M steps m tr2 m2) : tr1 = tr2 ∧ m1 = m2 := by
  induction h1 generalizing tr2 m2 with
  | nil => cases h2; exact ⟨rfl,rfl⟩
  | silent quiet _ ih =>
    cases h2 with
    | silent _ next => exact ih next
    | _ => simp [Instr.silent] at quiet
  | bound _ ih | used _ ih =>
    cases h2
    rename_i next
    obtain ⟨rfl,rfl⟩ := ih next
    exact ⟨rfl,rfl⟩
  | assign _ ih | call _ ih | clear _ ih | branch _ ih | block _ ih | count _ ih =>
    cases h2 with
    | silent quiet _ => simp [Instr.silent] at quiet
    | _ =>
      rename_i next
      obtain ⟨rfl,rfl⟩ := ih next
      exact ⟨rfl,rfl⟩
  | whileDone stop _ ih =>
    cases h2 with
    | silent quiet _ => simp [Instr.silent] at quiet
    | whileDone _ next => exact ih next
    | whileMore go _ => exact absurd stop go
  | whileMore go _ ih =>
    cases h2 with
    | silent quiet _ => simp [Instr.silent] at quiet
    | whileDone stop _ => exact absurd stop go
    | whileMore _ next => exact ih next
  | loopDone stop _ ih =>
    cases h2 with
    | loopDone _ next => obtain ⟨rfl,rfl⟩ := ih next; exact ⟨rfl,rfl⟩
    | loopMore go _ _ => exact absurd stop go
  | loopMore go _ _ iht ih =>
    cases h2 with
    | loopDone stop _ => exact absurd stop go
    | loopMore _ turn next =>
      obtain ⟨rfl,rfl⟩ := iht turn
      obtain ⟨rfl,rfl⟩ := ih next
      exact ⟨rfl,rfl⟩

theorem eraseAll_append (a b : List Step) :
    Step.eraseAll (a++b) = Step.eraseAll a++Step.eraseAll b := by
  induction a with
  | nil => rfl
  | cons s a ih => simp [Step.eraseAll, ih]

theorem eraseAll_instr (code : List Instr) : Step.eraseAll (code.map .instr) = code := by
  induction code with
  | nil => rfl
  | cons i code ih => simp [Step.eraseAll, Step.erase, ih]

def Event.isWrite : Event → Bool
  | .wrote _ => true
  | _ => false

theorem filter_wrote (names : List String) : (wrote names).filter Event.isWrite = wrote names := by
  simp [wrote, Event.isWrite]

theorem Exec.erase {steps m m' tr} (h : Exec M steps m tr m') :
    Exec M ((Step.eraseAll steps).map .instr) m (tr.filter Event.isWrite) m' := by
  induction h with
  | nil => exact .nil
  | bound _ ih | used _ ih => exact ih
  | silent quiet _ ih => exact .silent quiet ih
  | assign _ ih => rw [filter_append, filter_wrote]; exact .assign ih
  | call _ ih => rw [filter_append, filter_wrote]; exact .call ih
  | clear _ ih => rw [filter_append, filter_wrote]; exact .clear ih
  | branch _ ih =>
    exact .branch (by simpa [eraseAll_append, eraseAll_instr] using ih)
  | block _ ih =>
    exact .block (by simpa [eraseAll_append, eraseAll_instr] using ih)
  | whileDone stop _ ih => exact .whileDone stop ih
  | whileMore go _ ih =>
    rw [eraseAll_append, eraseAll_instr, List.map_append] at ih
    exact .whileMore go ih
  | count _ ih =>
    cases ih with
    | silent quiet _ => simp [Instr.silent] at quiet
    | count next =>
      rw [eraseAll_instr] at next
      exact .count next
  | loopDone stop _ ih =>
    rw [filter_append, filter_wrote]
    exact .count (.loopDone stop ih)
  | loopMore go _ _ iht ih =>
    rw [filter_append, filter_append, filter_wrote]
    cases ih with
    | silent quiet _ => simp [Instr.silent] at quiet
    | count next => exact .count (.loopMore go iht next)

variable {tr : List Event} {steps : List Step}

/-- The trace leads from one memory to the other, and its marks carry the memories on the way. -/
def Coherent : List Event → Memory → Memory → Prop
  | [], m, m' => m = m'
  | .bound _ _ m₁::tr, m, m' => m₁ = m ∧ Coherent tr m m'
  | .used _ _ m₁::tr, m, m' => m₁ = m ∧ Coherent tr m m'
  | .wrote x::tr, m, m' => ∃ m₁ : Memory, (∀ y, y ≠ x → m₁ y = m y) ∧ Coherent tr m₁ m'

theorem coherent_append {a b m m'} :
    Coherent (a++b) m m' ↔ ∃ m1, Coherent a m m1 ∧ Coherent b m1 m' := by
  induction a generalizing m with
  | nil => simp [Coherent]
  | cons e a ih =>
    cases e with
    | bound v t m1 | used v t m1 => simp [Coherent, ih, and_assoc]
    | wrote x =>
      simp only [List.cons_append, Coherent, ih]
      constructor
      · rintro ⟨m1,hm,m2,ha,hb⟩
        exact ⟨m2,⟨m1,hm,ha⟩,hb⟩
      · rintro ⟨m2,⟨m1,hm,ha⟩,hb⟩
        exact ⟨m1,hm,m2,ha,hb⟩

theorem coherent_wrote {names m m'} (h : ∀ x, x ∉ names → m' x = m x) :
    Coherent (wrote names) m m' := by
  induction names generalizing m with
  | nil => exact funext fun x => (h x (by simp)).symm
  | cons x names ih =>
    refine ⟨update m x (m' x),fun y hy => update_of_ne hy _ _,ih ?_⟩
    intro y hy
    by_cases hyx : y = x
    · simp [hyx]
    · rw [update_of_ne hyx]
      exact h y (by simp [hyx, hy])

theorem coherent_frame {m m' x} (h : Coherent tr m m') (hx : .wrote x ∉ tr) : m' x = m x := by
  induction tr generalizing m with
  | nil => rw [h]
  | cons e tr ih =>
    have hx' : .wrote x ∉ tr := fun hmem => hx (List.mem_cons_of_mem _ hmem)
    cases e with
    | bound v t m1 | used v t m1 => exact ih h.2 hx'
    | wrote y =>
      obtain ⟨m1,hm,htr⟩ := h
      rw [ih htr hx', hm x (by rintro rfl; exact hx List.mem_cons_self)]

theorem Exec.coherent {M m m'} (h : Exec M steps m tr m') : Coherent tr m m' := by
  induction h with
  | nil => rfl
  | bound _ ih | used _ ih => exact ⟨rfl,ih⟩
  | silent _ _ ih | branch _ ih | block _ ih | whileDone _ _ ih | whileMore _ _ ih | count _ ih =>
      exact ih
  | assign _ ih | loopDone _ _ ih =>
    exact coherent_append.2 ⟨_,coherent_wrote fun x hx => store_of_ne M _ _ _ hx,ih⟩
  | call _ ih => exact coherent_append.2 ⟨_,coherent_wrote fun x hx => if_neg hx,ih⟩
  | clear _ ih => exact coherent_append.2 ⟨_,coherent_wrote fun x hx => wipe_of_ne _ _ hx,ih⟩
  | loopMore _ _ _ iht ih =>
    have hturns := coherent_append.2 ⟨_,iht,ih⟩
    exact coherent_append.2 ⟨_,coherent_wrote fun x hx => store_of_ne M _ _ _ hx,hturns⟩

section Congruence

variable {M : Machine} {m m' : Memory}

mutual

theorem Term.value_congr :
    ∀ t : Term, (∀ x, t.mentions x = true → m x = m' x) → t.value M m = t.value M m'
  | .int _, _ => rfl
  | .bool _, _ => rfl
  | .var name index _, h => by
    simp only [mentions, Bool.or_eq_true, beq_iff_eq] at h
    simp only [Term.value]
    rw [h name (.inl rfl), values_congr index fun x hx => h x (.inr hx)]
  | .unary _ e, h | .exp e, h | .cast _ e, h => by
    simp only [Term.value, value_congr e h]
  | .arith a _ b, h | .logic a _ b, h | .compare a _ b, h => by
    simp only [mentions, Bool.or_eq_true] at h
    simp only [Term.value, value_congr a fun x hx => h x (.inl hx),
      value_congr b fun x hx => h x (.inr hx)]
  | .select c a b, h => by
    simp only [mentions, Bool.or_eq_true] at h
    simp only [Term.value, value_congr c fun x hx => h x (.inl (.inl hx)),
      value_congr a fun x hx => h x (.inl (.inr hx)),
      value_congr b fun x hx => h x (.inr hx)]

theorem Term.values_congr : ∀ ts : List Term, (∀ x, Term.anyMentions x ts = true → m x = m' x) →
    Term.values M m ts = Term.values M m' ts
  | [], _ => rfl
  | t::ts, h => by
    simp only [Term.anyMentions, Bool.or_eq_true] at h
    simp only [Term.values, value_congr t fun x hx => h x (.inl hx),
      values_congr ts fun x hx => h x (.inr hx)]

end

theorem Term.contents_congr (t : Term) (h : ∀ x, t.mentions x = true → m x = m' x) :
    t.contents M m = t.contents M m' := by
  cases t with
  | var name index inFlash =>
    simp only [mentions, Bool.or_eq_true, beq_iff_eq] at h
    funext more
    simp only [Term.contents]
    rw [h name (.inl rfl), values_congr index fun x hx => h x (.inr hx)]
  | _ => exact funext fun _ => value_congr _ h

end Congruence

/-- From its last binding on, the name `v` has been bound to the place `t`, and since then the
events in `mid` have happened. -/
def BoundSince (v : String) (t : Term) (mid : List Event) (m : Memory) (tr : List Event) : Prop :=
  ∃ before, tr = before ++ .bound v t m::mid ∧ ∀ t' m', .bound v t' m' ∉ mid

theorem boundSince_snoc {v t mid m e} :
    BoundSince v t mid m (tr++[e]) ↔ (mid = [] ∧ e = .bound v t m) ∨
        ∃ mid', mid = mid'++[e] ∧ (∀ t' m', e ≠ .bound v t' m') ∧ BoundSince v t mid' m tr := by
  constructor
  · rintro ⟨before,htr,hlast⟩
    rcases List.eq_nil_or_concat mid with rfl | ⟨mid',e',rfl⟩
    · obtain ⟨-,he⟩ := List.append_inj' htr rfl
      exact .inl ⟨rfl,by simpa using he⟩
    · rw [List.concat_eq_append, ← List.cons_append, ← append_assoc] at htr
      obtain ⟨rfl,he⟩ := List.append_inj' htr rfl
      obtain rfl : e = e' := by simpa using he
      rw [List.concat_eq_append] at hlast ⊢
      exact .inr ⟨mid',rfl,fun t' m' h => hlast t' m' (by simp [h]),before,rfl,
        fun t' m' h => hlast t' m' (by simp [h])⟩
  · rintro (⟨rfl,rfl⟩ | ⟨mid',rfl,he,before,rfl,hlast⟩)
    · exact ⟨tr,rfl,by simp⟩
    · refine ⟨before,by simp,fun t' m' h => ?_⟩
      rcases List.mem_append.1 h with h | h
      · exact hlast t' m' h
      · exact he t' m' (List.mem_singleton.1 h).symm

/-- Every use of a name reads the place the name was bound to, and no variable has been written
since on which that place, or what lies in it, depends. -/
def Undisturbed (tr : List Event) : Prop :=
  ∀ before v t m rest, tr = before ++ .used v t m::rest →
    ∃ mid m₀, BoundSince v t mid m₀ before ∧ ∀ x, .wrote x ∈ mid → t.mentions x = false

def KeepsValues (M : Machine) (tr : List Event) : Prop :=
  ∀ before v t m rest, tr = before ++ .used v t m::rest →
    ∃ t₀ mid m₀, BoundSince v t₀ mid m₀ before ∧ t.contents M m = t₀.contents M m₀

theorem Exec.keepsValues {M m m'} (h : Exec M steps m tr m') (hu : Undisturbed tr) :
    KeepsValues M tr := by
  intro before v t m1 rest htr
  obtain ⟨mid,m0,⟨earlier,hbefore,hlast⟩,hmid⟩ := hu before v t m1 rest htr
  refine ⟨t,mid,m0,⟨earlier,hbefore,hlast⟩,Term.contents_congr t fun x hx => ?_⟩
  have hc := h.coherent
  rw [htr, hbefore, append_assoc] at hc
  obtain ⟨_,-,rfl,hc⟩ := coherent_append.1 hc
  obtain ⟨m2,hframe,rfl,-⟩ := coherent_append.1 hc
  refine coherent_frame hframe fun hw => ?_
  rw [hmid x hw] at hx
  cases hx

/-- What is known at a point of a trace: the place of every name, whether something was written
there since, and whether all uses so far were as they should be. -/
structure Watch where
  place : String → Option Term
  spoiled : String → Prop
  clean : Prop

variable (w : Watch)

namespace Watch

def start : Watch := ⟨fun _ => none,fun _ => False,True⟩

def step : Event → Watch
  | .bound v t _ =>
    { w with
      place := update w.place v (some t)
      spoiled := fun u => u ≠ v ∧ w.spoiled u }
  | .used v t _ => { w with clean := w.clean ∧ w.place v = some t ∧ ¬ w.spoiled v }
  | .wrote x =>
    { w with spoiled := fun u => w.spoiled u ∨ ∃ t, w.place u = some t ∧ t.mentions x = true }

def after (tr : List Event) : Watch := tr.foldl step w

@[simp] theorem after_nil : w.after [] = w := rfl

@[simp] theorem after_cons (e : Event) (tr : List Event) : w.after (e::tr) = (w.step e).after tr :=
  rfl

theorem after_append (a b : List Event) : w.after (a++b) = (w.after a).after b :=
  List.foldl_append

theorem after_writes {tr} (h : ∀ e ∈ tr, ∃ x, e = .wrote x) :
    (w.after tr).place = w.place ∧ (w.after tr).clean = w.clean ∧ ∀ u, (w.after tr).spoiled u ↔
      w.spoiled u ∨ ∃ x t, .wrote x ∈ tr ∧ w.place u = some t ∧ t.mentions x = true := by
  induction tr generalizing w with
  | nil => simp
  | cons e tr ih =>
    obtain ⟨y,rfl⟩ := h e List.mem_cons_self
    obtain ⟨hplace,hclean,hspoiled⟩ :=
      ih (w.step (.wrote y)) fun e he => h e (List.mem_cons_of_mem _ he)
    refine ⟨hplace,hclean,fun u => ?_⟩
    rw [after_cons, hspoiled u]
    simp only [List.mem_cons, Event.wrote.injEq]
    constructor
    · rintro ((hu | ⟨t,ht,hm⟩) | ⟨x,t,hx,ht,hm⟩)
      · exact .inl hu
      · exact .inr ⟨y,t,.inl rfl,ht,hm⟩
      · exact .inr ⟨x,t,.inr hx,ht,hm⟩
    · rintro (hu | ⟨x,t, rfl | hx, ht,hm⟩)
      · exact .inl (.inl hu)
      · exact .inl (.inr ⟨t,ht,hm⟩)
      · exact .inr ⟨x,t,hx,ht,hm⟩

theorem after_uses (uses : List (String × Term)) (m : Memory) :
    (w.after (uses.map fun p => .used p.1 p.2 m)).place = w.place ∧
      (w.after (uses.map fun p => .used p.1 p.2 m)).spoiled = w.spoiled ∧
      ((w.after (uses.map fun p => .used p.1 p.2 m)).clean ↔
        w.clean ∧ ∀ p ∈ uses, w.place p.1 = some p.2 ∧ ¬ w.spoiled p.1) := by
  induction uses generalizing w with
  | nil => simp
  | cons p uses ih =>
    obtain ⟨hplace,hspoiled,hclean⟩ := ih (w.step (.used p.1 p.2 m))
    refine ⟨hplace,hspoiled,hclean.trans ?_⟩
    simp only [step, List.forall_mem_cons]
    tauto

variable (tr : List Event)

/-- The place of a name is that of its last binding, and the name is spoiled by what was written
there since. -/
theorem after_start (v : String) :
    (∀ t, (start.after tr).place v = some t ↔ ∃ mid m, BoundSince v t mid m tr) ∧
      ∀ t mid m, BoundSince v t mid m tr →
        ((start.after tr).spoiled v ↔ ∃ x, .wrote x ∈ mid ∧ t.mentions x = true) := by
  induction tr using List.reverseRecOn with
  | nil => simp [start, BoundSince]
  | append_singleton tr e ih =>
    obtain ⟨hplace,hspoiled⟩ := ih
    rw [after_append]
    by_cases hv : ∃ t0 m0, e = .bound v t0 m0
    · obtain ⟨t0,m0,rfl⟩ := hv
      simp only [boundSince_snoc]
      refine ⟨fun t => ?_,fun t mid m h => ?_⟩
      · simp [step]
      · rcases h with ⟨rfl,-⟩ | ⟨mid',-,hne,-⟩
        · simp [step]
        · exact absurd rfl (hne t0 m0)
    · have hne : ∀ t' m', e ≠ .bound v t' m' := fun t' m' h => hv ⟨t',m',h⟩
      have hsame : ((start.after tr).step e).place v = (start.after tr).place v := by
        cases e with
        | bound u t0 m0 =>
          refine update_of_ne ?_ _ _
          rintro rfl
          exact hne t0 m0 rfl
        | used u t0 m0 => rfl
        | wrote x => rfl
      refine ⟨fun t => ?_,fun t mid m h => ?_⟩
      · rw [after_cons, after_nil, hsame, hplace]
        simp only [boundSince_snoc, hne t, and_false, false_or]
        exact ⟨fun ⟨mid,m,h⟩ => ⟨_,m,mid,rfl,hne,h⟩,fun ⟨_,m,mid,_,_,h⟩ => ⟨mid,m,h⟩⟩
      · obtain ⟨rfl,he⟩ | ⟨mid',rfl,-,hmid⟩ := boundSince_snoc.1 h
        · exact absurd he (hne t m)
        have ht : (start.after tr).place v = some t := (hplace t).2 ⟨mid',m,hmid⟩
        have hs := hspoiled t mid' m hmid
        cases e with
        | bound u t0 m0 =>
          have huv : v ≠ u := by rintro rfl; exact hne t0 m0 rfl
          simp [step, huv, hs]
        | used u t0 m0 => simp [step, hs]
        | wrote x => simp [step, ht, hs]

theorem clean_after :
    (w.after tr).clean ↔ w.clean ∧ ∀ before v t m rest, tr = before ++ .used v t m::rest →
      (w.after before).place v = some t ∧ ¬ (w.after before).spoiled v := by
  induction tr generalizing w with
  | nil => simp
  | cons e tr ih =>
    rw [after_cons, ih]
    constructor
    · rintro ⟨hc,hall⟩
      refine ⟨?_,fun before v t m rest h => ?_⟩
      · cases e with
        | bound v t m | wrote x => exact hc
        | used v t m => exact hc.1
      · cases before with
        | nil =>
          obtain ⟨rfl,rfl⟩ := List.cons.inj h
          exact hc.2
        | cons e' before =>
          obtain ⟨rfl,htail⟩ := List.cons.inj h
          exact hall before v t m rest htail
    · rintro ⟨hc,hall⟩
      refine ⟨?_,fun before v t m rest h => hall (e::before) v t m rest (by rw [h]; rfl)⟩
      cases e with
      | bound v t m | wrote x => exact hc
      | used v t m => exact ⟨hc,hall [] v t m tr rfl⟩

/-- The watch stays clean exactly along the traces in which no use is disturbed. -/
theorem clean_iff : (start.after tr).clean ↔ Undisturbed tr := by
  rw [clean_after, start, true_and]
  refine forall₅_congr fun before v t m rest => imp_congr Iff.rfl ?_
  obtain ⟨hplace,hspoiled⟩ := after_start before v
  constructor
  · rintro ⟨hp,hs⟩
    obtain ⟨mid,m0,hb⟩ := (hplace t).1 hp
    refine ⟨mid,m0,hb,fun x hx => ?_⟩
    by_contra hm
    exact hs ((hspoiled t mid m0 hb).2 ⟨x,hx,by simpa using hm⟩)
  · rintro ⟨mid,m0,hb,hmid⟩
    refine ⟨(hplace t).2 ⟨mid,m0,hb⟩,fun hs => ?_⟩
    obtain ⟨x,hx,hm⟩ := (hspoiled t mid m0 hb).1 hs
    rw [hmid x hx] at hm
    cases hm

end Watch

end MicroLearn.Code
