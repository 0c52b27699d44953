import Mathlib
import MicroLearn.Lower.Program
import MicroLearn.Proofs.Substitution
import MicroLearn.Proofs.Word

/-!
# Code that keeps to its own variables

An operation is lowered to code that writes variables of its own only, and whose loops count
up to fixed bounds. Such code runs to its end from every memory.
-/

set_option autoImplicit false

namespace MicroLearn.Code

open Instr

theorem bind_ok {α β : Type} {x} {f : α → Except Fault β} {b}
    (h : x >>= f = .ok b) : ∃ a, x = .ok a ∧ f a = .ok b := by
  cases x with
  | error e => cases h
  | ok a => exact ⟨a,rfl,h⟩

theorem demand_ok {c u} (h : demand c = .ok u) : c = true := by
  cases c with
  | true => rfl
  | false => cases h

theorem number_ok {s n k} (h : number s n = .ok k) : k = n := by
  unfold number Number.fitWord at h
  split at h
  · split at h
    · cases h
    · split at h
      · cases h
      · exact (Except.ok.inj h).symm
  · cases h

theorem literal_ok {s} {n} {t} (h : literal s n = .ok t) : t = .int n := by
  obtain ⟨k,hk,h⟩ := bind_ok h
  rw [← number_ok hk]
  exact (Except.ok.inj h).symm

theorem literal_bind {β} {s} {n} {f} {b : β} (h : literal s n >>= f = .ok b) :
    f (.int n) = .ok b := by
  obtain ⟨t,ht,h⟩ := bind_ok h
  rwa [literal_ok ht] at h

def nested : List (Term × Int) → List Instr → List Instr
  | [], body => body
  | (i,n)::counted, body => [.count i 0 (lt i (.int n)) (nested counted body)]

theorem nest_ok {s shape iterators body code} (h : nest s shape iterators body = .ok code) :
    code = nested (iterators.zip shape) body := by
  induction shape generalizing iterators code with
  | nil =>
    obtain rfl : body = code := by simpa [nest] using h
    rw [List.zip_nil_right, nested]
  | cons n shape ih =>
    cases iterators with
    | nil =>
      obtain ⟨_,-,h⟩ := bind_ok h
      cases h
    | cons i iterators =>
      obtain ⟨inner,hinner,h⟩ := bind_ok h
      obtain rfl := ih hinner
      cases literal_bind h
      rfl

/-- The term is a variable among `P`, and not one of a loop: `β` has the bounds of those. -/
def Term.Target (P : String → Prop) (β : String → Option Int) (t : Term) : Prop :=
  ∃ x, t.root? = some x ∧ P x ∧ β x = none

mutual

/-- The instruction writes only variables among `P`, and its loops count up to the bound that `β`
has for their variables. -/
def Instr.Confined (P : String → Prop) (β : String → Option Int) : Instr → Prop
  | .assign target _ => target.Target P β
  | .branch _ yes no => ConfinedAll P β yes ∧ ConfinedAll P β no
  | .count iterator _ c body => ∃ x n, iterator = plain x ∧ c = lt (plain x) (.int n) ∧ P x ∧
      β x = some n ∧ ConfinedAll P β body
  | .repeatWhile _ _ => False
  | .call f args => ∀ x ∈ outputs f args, P x ∧ β x = none
  | .clear e _ => e.Target P β
  | .output _ => True
  | .outputScaled _ _ => True
  | .comment _ => True
  | .block body => ConfinedAll P β body

def Instr.ConfinedAll (P : String → Prop) (β : String → Option Int) : List Instr → Prop
  | [] => True
  | i::is => i.Confined P β ∧ ConfinedAll P β is

end

section Confined

variable {P : String → Prop} {β : String → Option Int}
variable {code : List Instr} {r : Replacement} {x : String}

theorem confinedAll_iff : ConfinedAll P β code ↔ ∀ i ∈ code, i.Confined P β := by
  induction code with
  | nil => simp [ConfinedAll]
  | cons i code ih => simp [ConfinedAll, ih]

def renamed (x : String) : Replacement → String → String
  | .var name _ _, y => if y = x then name else y
  | .int _, y => y

theorem root_subst (hr : r.isInt = false) (x : String) (t : Term) :
    (t.subst x r).root? = t.root?.map (renamed x r) := by
  cases t with
  | var y index inFlash =>
    cases r with
    | var name own flash =>
      by_cases hy : y = x <;> simp [Term.subst, Term.root?, renamed, Replacement.at, hy]
    | int n => cases hr
  | _ => rfl

theorem roots_subst (hr : r.isInt = false) (x : String) (args : List Term) :
    (args.map (Term.subst x r)).filterMap Term.root? =
      (args.filterMap Term.root?).map (renamed x r) := by
  rw [List.filterMap_map, List.map_filterMap]
  exact congrArg (List.filterMap · args) (funext fun t => root_subst hr x t)

theorem outputs_subst (hr : r.isInt = false) (x f : String) (args : List Term) :
    outputs f (args.map (Term.subst x r)) = (outputs f args).map (renamed x r) := by
  simp only [outputs, roots_subst hr, List.length_map]
  split
  · rw [List.map_take]
  · rw [List.map_drop]

theorem renamed_of_ne {y} (h : y ≠ x) : renamed x r y = y := by
  cases r with
  | var name own flash => exact if_neg h
  | int n => rfl

theorem Term.Target.subst (hr : r.isInt = false) (hx : ¬ P x)
    {t : Term} (h : t.Target P β) : (t.subst x r).Target P β := by
  obtain ⟨y,hy,hP,hβ⟩ := h
  have hyx : y ≠ x := by rintro rfl; exact hx hP
  exact ⟨y,by rw [root_subst hr, hy, Option.map_some, renamed_of_ne hyx],hP,hβ⟩

mutual

theorem Instr.Confined.subst {r : Replacement} (hr : r.isInt = false) {x : String} (hx : ¬ P x) :
    ∀ i : Instr, i.Confined P β → (i.subst x r).Confined P β
  | .assign _ _, h => Term.Target.subst hr hx h
  | .branch _ yes no, h =>
    ⟨ConfinedAll.subst hr hx yes h.1,ConfinedAll.subst hr hx no h.2⟩
  | .count _ _ _ body, ⟨y,n,hi,hc,hP,hβ,hbody⟩ => by
    have hyx : y ≠ x := by rintro rfl; exact hx hP
    refine ⟨y,n,hi,?_,hP,hβ,ConfinedAll.subst hr hx body hbody⟩
    simp [hc, lt, plain, Term.subst, hyx, Term.substAll]
  | .repeatWhile _ _, h => h
  | .call f args, h => by
    intro y hy
    rw [substArgs_eq_map hr, outputs_subst hr] at hy
    obtain ⟨z,hz,rfl⟩ := List.mem_map.1 hy
    have hzx : z ≠ x := by rintro rfl; exact hx (h z hz).1
    rw [renamed_of_ne hzx]
    exact h z hz
  | .clear _ _, h => Term.Target.subst hr hx h
  | .output _, _ | .outputScaled _ _, _ | .comment _, _ => trivial
  | .block body, h => ConfinedAll.subst hr hx body h

theorem Instr.ConfinedAll.subst {r} (hr : r.isInt = false) {x}
    (hx : ¬ P x) : ∀ is : List Instr, ConfinedAll P β is → ConfinedAll P β (Instr.substAll x r is)
  | [], _ => trivial
  | i::is, h => ⟨Confined.subst hr hx i h.1,ConfinedAll.subst hr hx is h.2⟩

end

theorem confinedAll_resolve {θ} (hθ : θ.Plain) (hP : ∀ x ∈ θ.names, ¬ P x)
    (h : ConfinedAll P β code) : ConfinedAll P β (code.map (Instr.resolve θ)) := by
  induction θ generalizing code with
  | nil => simpa using h
  | cons p θ ih =>
    obtain ⟨hp,hθ⟩ := List.forall_mem_cons.1 hθ
    obtain ⟨hx,hP⟩ := List.forall_mem_cons.1 hP
    have := ih hθ hP (ConfinedAll.subst hp hx code h)
    rw [instr_substAll_eq_map, List.map_map] at this
    exact this

theorem nested_confined {counted} (hbody : ConfinedAll P β code)
    (hβ : ∀ p ∈ counted, ∃ x, p.1 = plain x ∧ P x ∧ β x = some p.2) :
    ConfinedAll P β (nested counted code) := by
  induction counted with
  | nil => exact hbody
  | cons p counted ih =>
    obtain ⟨⟨x,hi,hP,hx⟩,hβ⟩ := List.forall_mem_cons.1 hβ
    exact ⟨⟨x,p.2,hi,by rw [hi],hP,hx,ih hβ⟩,trivial⟩

end Confined

def Counted (β : String → Option Int) (m m' : Memory) : Prop :=
  ∀ x n, β x = some n → m' x [] = m x [] ∨ n ≤ m' x []

theorem Counted.refl (β : String → Option Int) (m : Memory) : Counted β m m :=
  fun _ _ _ => .inl rfl

theorem Counted.trans {β m1 m2 m3} (h1 : Counted β m1 m2) (h2 : Counted β m2 m3) :
    Counted β m1 m3 := by
  intro x n hx
  rcases h2 x n hx with h | h
  · rw [h]
    exact h1 x n hx
  · exact .inr h

section Runs

variable (M : Machine) {P : String → Prop} {β : String → Option Int}

/-- The code runs to its end, writes only variables among `P`, and counts as `β` says. -/
def Runs (P : String → Prop) (β : String → Option Int) (steps : List Step) : Prop :=
  ∀ m, ∃ tr m', Exec M steps m tr m' ∧ (∀ e ∈ tr, ∃ x, P x ∧ e = .wrote x) ∧ Counted β m m'

theorem Runs.append {a b} (ha : Runs M P β a) (hb : Runs M P β b) : Runs M P β (a++b) := by
  intro m
  obtain ⟨tr1,m1,hrun1,hP1,hc1⟩ := ha m
  obtain ⟨tr2,m2,hrun2,hP2,hc2⟩ := hb m1
  refine ⟨tr1++tr2,m2,hrun1.append hrun2,fun e he => ?_,hc1.trans hc2⟩
  rcases List.mem_append.1 he with he | he
  · exact hP1 e he
  · exact hP2 e he

theorem Term.Target.not_counted {t : Term} (ht : t.Target P β) {y k} (hy : β y = some k) :
    y ∉ t.root?.toList := by
  obtain ⟨x,hroot,-,hβ⟩ := ht
  rw [hroot]
  rintro hmem
  obtain rfl : y = x := by simpa using hmem
  rw [hβ] at hy
  cases hy

theorem loop_runs {body x n} (hbody : Runs M P β body) (hP : P x)
    (hx : β x = some n) (start : Int) (m : Memory) : ∃ tr m',
      Exec M [.loop (plain x) start (lt (plain x) (.int n)) body] m tr m' ∧
        (∀ e ∈ tr, ∃ y, P y ∧ e = .wrote y) ∧ (∀ y k, y ≠ x → β y = some k →
          m' y [] = m y [] ∨ k ≤ m' y []) ∧ n ≤ m' x [] := by
  generalize hk : (n-start).toNat = k
  induction k using Nat.strongRecOn generalizing start m with
  | ind k ih =>
    have hset : (plain x).store M m start x [] = start := by
      simp [plain, Term.store, Term.values]
    have hother : ∀ y, y ≠ x → (plain x).store M m start y = m y := fun y hy =>
      store_of_ne M m start (plain x) (by simpa [plain, Term.root?] using hy)
    have htest : (lt (plain x) (.int n)).value M ((plain x).store M m start) =
        truth (decide (start < n)) := by
      change truth (decide ((plain x).store M m start x [] < n)) = _
      rw [hset]
    by_cases hlt : start < n
    · obtain ⟨tr1,m1,hrun1,hP1,hc1⟩ := hbody ((plain x).store M m start)
      have hgrow : start ≤ m1 x [] := by
        rcases hc1 x n hx with h | h
        · omega
        · omega
      obtain ⟨tr2,m2,hrun2,hP2,hc2,hn⟩ :=
        ih (n-(m1 x []+1)).toNat (by omega) (m1 x []+1) m1 rfl
      refine ⟨_,m2,.loopMore ?_ hrun1 hrun2,?_,?_,hn⟩
      · rw [htest]
        simp [truth, hlt]
      · intro e he
        simp only [wrote, plain, Term.root?, Option.toList_some, List.map_cons, List.map_nil,
          List.cons_append, List.nil_append, List.mem_cons, List.mem_append] at he
        rcases he with rfl | he | he
        · exact ⟨x,hP,rfl⟩
        · exact hP1 e he
        · exact hP2 e he
      · intro y j hy hβ
        rcases hc2 y j hy hβ with h | h
        · rw [h, ← hother y hy]
          exact hc1 y j hβ
        · exact .inr h
    · refine ⟨_,_,.loopDone ?_ .nil,?_,fun y j hy _ => .inl ?_,?_⟩
      · rw [htest]
        simp [truth, hlt]
      · intro e he
        exact ⟨x,hP,by simpa [wrote, plain, Term.root?] using he⟩
      · rw [hother y hy]
      · omega

mutual

theorem confined_runs : ∀ i : Instr, i.Confined P β → Runs M P β [.instr i]
  | .assign target value, ht => fun m => by
    refine ⟨_,_,.assign .nil,fun e he => ?_,fun y k hy => .inl ?_⟩
    · obtain ⟨x,hroot,hP,-⟩ := ht
      exact ⟨x,hP,by simpa [wrote, hroot] using he⟩
    · rw [store_of_ne M m _ target (ht.not_counted hy)]
  | .branch c yes no, h => fun m => by
    have hchosen : Runs M P β ((if c.value M m = 0 then no else yes).map .instr) := by
      split
      · exact confinedAll_runs no h.2
      · exact confinedAll_runs yes h.1
    obtain ⟨tr,m',hrun,hrest⟩ := hchosen m
    exact ⟨tr,m',.branch (by simpa using hrun),hrest⟩
  | .count iterator start c body, ⟨x,n,hi,hc,hP,hβ,hbody⟩ => fun m => by
    obtain ⟨tr,m',hrun,htr,hc',hn⟩ :=
      loop_runs M (confinedAll_runs body hbody) hP hβ start m
    refine ⟨tr,m',.count (by rw [hi, hc]; exact hrun),htr,fun y k hy => ?_⟩
    by_cases hyx : y = x
    · subst hyx
      obtain rfl : n = k := by simpa [hβ] using hy
      exact .inr hn
    · exact hc' y k hyx hy
  | .repeatWhile _ _, h => False.elim h
  | .call f args, h => fun m => by
    refine ⟨_,_,.call .nil,fun e he => ?_,fun x n hx => .inl ?_⟩
    · obtain ⟨x,hx,rfl⟩ : ∃ x ∈ outputs f args, Event.wrote x = e := by
        simpa [wrote] using he
      exact ⟨x,(h x hx).1,rfl⟩
    · have hout : x ∉ outputs f args := fun hmem => by
        rw [(h x hmem).2] at hx
        cases hx
      rw [Machine.call, if_neg hout]
  | .clear t cells, ht => fun m => by
    refine ⟨_,_,.clear .nil,fun e he => ?_,fun y k hy => .inl ?_⟩
    · obtain ⟨x,hroot,hP,-⟩ := ht
      exact ⟨x,hP,by simpa [wrote, hroot] using he⟩
    · rw [wipe_of_ne m t (ht.not_counted hy)]
  | .output _, _ | .outputScaled _ _, _ | .comment _, _ =>
    fun m => ⟨[],m,.silent rfl .nil,by simp,.refl β m⟩
  | .block body, h => fun m => by
    obtain ⟨tr,m',hrun,hrest⟩ := confinedAll_runs body h m
    exact ⟨tr,m',.block (by simpa using hrun),hrest⟩

theorem confinedAll_runs : ∀ code : List Instr, ConfinedAll P β code → Runs M P β (code.map .instr)
  | [], _ => fun m => ⟨[],m,.nil,by simp,.refl β m⟩
  | i::code, h => Runs.append M (confined_runs i h.1) (confinedAll_runs code h.2)

end

end Runs

end MicroLearn.Code

namespace MicroLearn.Lower

open Code
open Lang (Ty Token)
open Lowering

variable {m n : Nat} {x : String} {α : Type} {s s' : State}

theorem variableName_inj (h : variableName m = variableName n) : m = n :=
  Nat.repr_inj.1 ((String.append_right_inj "tmp").1 h)

theorem variableName_eq : variableName m = variableName n ↔ m = n := ⟨variableName_inj,congrArg _⟩

theorem iteratorName_inj (h : iteratorName m = iteratorName n) : m = n :=
  Nat.repr_inj.1 ((String.append_right_inj "i").1 h)

theorem variableName_ne_iteratorName (m n : Nat) : variableName m ≠ iteratorName n := by
  intro h
  have hlist := congrArg String.toList h
  simp [variableName, iteratorName] at hlist

def Generated (x : String) : Prop := ∃ n, x = variableName n ∨ x = iteratorName n

/-- Made while the counters went from `v` and `i` to `v'` and `i'`. -/
def Made (v i v' i' : Nat) (x : String) : Prop :=
  (∃ n, v ≤ n ∧ n < v' ∧ x = variableName n) ∨ ∃ n, i ≤ n ∧ n < i' ∧ x = iteratorName n

theorem Made.generated {v i v' i'} (h : Made v i v' i' x) : Generated x := by
  rcases h with ⟨n,-,-,h⟩ | ⟨n,-,-,h⟩
  · exact ⟨n,.inl h⟩
  · exact ⟨n,.inr h⟩

theorem run_bind {β} {m} {f : α → Lowering β} {b} :
    (m >>= f) s = .ok (b,s') ↔ ∃ a s1, m s = .ok (a,s1) ∧ f a s1 = .ok (b,s') := by
  change (m s >>= fun p => f p.1 p.2) = .ok (b,s') ↔ _
  cases m s with
  | error e =>
    constructor
    · intro h; cases h
    · rintro ⟨a,s1,h,-⟩; cases h
  | ok p =>
    constructor
    · intro h; exact ⟨p.1,p.2,rfl,h⟩
    · rintro ⟨a,s1,h,hf⟩; cases h; exact hf

theorem run_pure {a b} : (pure a : Lowering α) s = .ok (b,s') ↔ b = a ∧ s' = s := by
  change Except.ok (a,s) = .ok (b,s') ↔ _
  simp [eq_comm]

def row (name : Nat → String) (start count : Nat) : List String :=
  (List.range' start count).map name

@[simp] theorem length_row (name : Nat → String) (start count : Nat) :
    (row name start count).length = count := by simp [row]

theorem row_succ (name : Nat → String) (start count : Nat) :
    row name start (count+1) = name start::row name (start+1) count := by
  simp [row, List.range'_succ]

theorem mem_row {name start count} :
    x ∈ row name start count ↔ ∃ n, start ≤ n ∧ n < start+count ∧ x = name n := by
  simp [row, and_assoc, eq_comm]

variable {v i v' n : Nat} {P : String → Prop} {β : String → Option Int} {x : String}
  {shape : List Int} {code : List Instr} {α : Type} {xs : List α}

section Outputs

variable {f : String} (hf : f ∉ inPlace) {before after : List Term}
    (hafter : after.filterMap Term.root? = [])

include hf hafter

theorem outputs_last (hs : f ∉ withScratch) (x : String) :
    outputs f (before++plain x::after) = [x] := by
  simp [outputs, hf, hs, hafter, plain, Term.root?]

theorem outputs_last_two (hs : f ∈ withScratch) (x y : String) :
    outputs f (before++plain x::plain y::after) = [x, y] := by
  simp [outputs, hf, hs, hafter, plain, Term.root?]

end Outputs

/-- The operation makes a variable for its result, and its code writes only what it has made. -/
structure Own (v i v' i' : Nat) (r : Lowered) : Prop where
  vars : v ≤ v'
  iterators : i ≤ i'
  out : ∃ n inFlash, v ≤ n ∧ n < v' ∧ r.2 = .var (variableName n) [] inFlash
  code : ∃ β, Instr.ConfinedAll (Made v i v' i') β r.1

theorem made_var {i'} (h : v ≤ n) (h' : n < v') : Made v i v' i' (variableName n) :=
  .inl ⟨n,h,h',rfl⟩

theorem made_first {i'} : Made v i (v+1) i' (variableName v) :=
  made_var (Nat.le_refl v) (Nat.lt_succ_self v)

theorem target_at (hP : P x)
    (hβ : β x = none) (index : List Term) : ((plain x).at index).Target P β := ⟨x,rfl,hP,hβ⟩

theorem call_confined {f} (hf : f ∉ inPlace) (hs : f ∉ withScratch) (before : List Term)
    {after} (hafter : after.filterMap Term.root? = [])
    (hP : P x) : (Instr.call f (before++plain x::after)).Confined P fun _ => none := by
  intro y hy
  rw [outputs_last hf hafter hs, List.mem_singleton] at hy
  exact ⟨hy ▸ hP,rfl⟩

def bounds (i : Nat) : List Int → String → Option Int
  | [], _ => none
  | n::shape, x => if x = iteratorName i then some n else bounds (i+1) shape x

theorem bounds_variableName (i n : Nat) (shape : List Int) :
    bounds i shape (variableName n) = none := by
  induction shape generalizing i with
  | nil => rfl
  | cons k shape ih => rw [bounds, if_neg (variableName_ne_iteratorName n i), ih]

theorem bounds_iterator {p}
    (h : p ∈ ((row iteratorName i shape.length).map plain).zip shape) : ∃ k, i ≤ k ∧
      k < i+shape.length ∧
      p.1 = plain (iteratorName k) ∧ bounds i shape (iteratorName k) = some p.2 := by
  induction shape generalizing i with
  | nil => simp at h
  | cons n shape ih =>
    rw [List.length_cons, row_succ, List.map_cons, List.zip_cons_cons, List.mem_cons] at h
    rcases h with rfl | h
    · exact ⟨i,Nat.le_refl i,by simp,rfl,if_pos rfl⟩
    · obtain ⟨k,hk,hk',hp,hb⟩ := ih h
      refine ⟨k,by omega,by simp only [List.length_cons]; omega,hp,?_⟩
      rw [bounds, if_neg, hb]
      intro heq
      have := iteratorName_inj heq
      omega

theorem loops_confined (cx : Context) {iterators dims body}
    (hpairs : ∀ p ∈ iterators.zip dims, p ∈ ((row iteratorName i shape.length).map plain).zip shape)
    (hbody : Instr.ConfinedAll (Made v i v' (i+shape.length)) (bounds i shape) body)
    (h : nest cx.settings dims iterators body = .ok code) :
    Instr.ConfinedAll (Made v i v' (i+shape.length)) (bounds i shape) code := by
  rw [nest_ok h]
  refine nested_confined hbody fun p hp => ?_
  obtain ⟨k,hk,hk',hterm,hb⟩ := bounds_iterator (hpairs p hp)
  exact ⟨iteratorName k,hterm,.inr ⟨k,hk,hk',rfl⟩,hb⟩

theorem target_variable (hn : v ≤ n) (hn' : n < v')
    (index : List Term) : ((plain (variableName n)).at index).Target
      (Made v i v' (i+shape.length)) (bounds i shape) :=
  target_at (made_var hn hn') (bounds_variableName i n shape) index

theorem pick_ok {o} {x} : pick xs o = .ok x ↔
    ∃ k : Nat, (k : Int) = (if o-1 < 0 then o-1+xs.length else o-1) ∧ xs[k]? = some x := by
  simp only [pick]
  generalize (if o-1 < 0 then o-1+(xs.length : Int) else o-1) = k
  by_cases hk : k < 0
  · rw [if_pos hk]
    refine ⟨by simp,?_⟩
    omega
  · have hj : ∀ j : Nat, (j : Int) = k ↔ j = k.toNat := by omega
    simp only [if_neg hk, hj, exists_eq_left]
    cases xs[k.toNat]? <;> simp

theorem pickAll_ok {order} {ys} :
    pickAll xs order = .ok ys ↔ List.Forall₂ (fun o y => pick xs o = .ok y) order ys :=
  Model.mapM_ok

theorem pickAll_mem {β} {ys} (hlen : xs.length = ys.length)
    {order} {as} {bs : List β} (ha : pickAll xs order = .ok as)
    (hb : pickAll ys order = .ok bs) : ∀ p ∈ as.zip bs, p ∈ xs.zip ys := by
  rw [pickAll_ok] at ha hb
  induction ha generalizing bs with
  | nil => simp
  | @cons o x order as hx _ ih =>
    cases hb with
    | @cons _ y _ bs hy hb =>
      intro p hp
      rcases List.mem_cons.1 hp with rfl | hp
      · obtain ⟨k,hk,hxk⟩ := pick_ok.1 hx
        obtain ⟨j,hj,hyj⟩ := pick_ok.1 hy
        obtain rfl : k = j := by rw [hlen] at hk; omega
        exact List.mem_of_getElem? (List.getElem?_zip_eq_some.2 ⟨hxk,hyj⟩)
      · exact ih hb p hp

theorem stepIndices_confined (cx : Context) {step ts} (hstep : Instr.ConfinedAll P β step)
    (hts : ∀ p ∈ ts, p.1.Target P β) (h : stepIndices cx.settings step ts = .ok code) :
    Instr.ConfinedAll P β code := by
  induction ts generalizing step with
  | nil =>
    cases h
    exact hstep
  | cons p ts ih =>
    obtain ⟨ht,hts⟩ := List.forall_mem_cons.1 hts
    refine ih ?_ hts (literal_bind h)
    exact ⟨ht,⟨⟨ht,hstep⟩,trivial⟩,trivial⟩

end MicroLearn.Lower
