import MicroLearn.Proofs.Closed

/-!
# The declarations that lowering makes

Lowering declares the variables it makes and a few others, and never takes a declaration
back. `Ends` tells what a lowering that ends has added, step by step.
-/

set_option autoImplicit false

namespace MicroLearn.Lower

open Code
open Lang (Ty Token Expr)
open Lowering

theorem lookup_put {α β} [BEq α] [LawfulBEq α] (k x : α) (v : β) (l : List (α × β)) :
    (put k v l).lookup x = if x == k then some v else l.lookup x := by
  induction l with
  | nil => cases h : x == k <;> simp [put, List.lookup, h]
  | cons p l ih =>
    obtain ⟨k',v'⟩ := p
    by_cases hk : k' = k
    · subst hk
      by_cases hx : x = k'
      · simp [put, hx]
      · simp [put, List.lookup_cons, beq_eq_false_iff_ne.2 hx]
    · by_cases hx : x = k'
      · subst hx
        simp [put, hk]
      · simp [put, hk, List.lookup_cons, beq_eq_false_iff_ne.2 hx, ih]

theorem lookup_put_self {α β} [BEq α] [LawfulBEq α] {k} {v} {l : List (α × β)} :
    (put k v l).lookup k = some v := by simp [lookup_put]

theorem lookup_put_of_ne {α β} [BEq α] [LawfulBEq α] {k x} {v} {l : List (α × β)}
    (h : x ≠ k) : (put k v l).lookup x = l.lookup x := by simp [lookup_put, h]

def puts {α β : Type} [BEq α] (new l : List (α × β)) : List (α × β) :=
  new.foldl (fun l p => put p.1 p.2 l) l

theorem lookup_puts_of_notMem {α β} [BEq α] [LawfulBEq α] {x new}
    (h : ∀ p ∈ new, x ≠ p.1) (l : List (α × β)) : (puts new l).lookup x = l.lookup x := by
  induction new generalizing l with
  | nil => rfl
  | cons p new ih =>
    rw [List.forall_mem_cons] at h
    change (puts new (put p.1 p.2 l)).lookup x = _
    rw [ih h.2, lookup_put, beq_eq_false_iff_ne.2 h.1]
    rfl

theorem lookup_puts_isSome {α β} [BEq α] [LawfulBEq α] {x} {new l : List (α × β)}
    (h : (∃ p ∈ new, x = p.1) ∨ ∃ v, l.lookup x = some v) : ∃ v,
        (puts new l).lookup x = some v := by
  induction new generalizing l with
  | nil => simpa [puts] using h
  | cons p new ih =>
    refine ih ?_
    rw [lookup_put]
    by_cases hx : x = p.1
    · exact .inr ⟨p.2,by simp [hx]⟩
    · simpa [hx] using h

structure Book where
  types : List (String × Ty)
  tables : List (Int × ExpTable)
  nextVar : Nat

def State.book (s : State) : Book := ⟨s.types,s.tables,s.nextVar⟩

def Defined (b : Book) (x : String) : Prop :=
  (∃ t, b.types.lookup x = some t) ∨
    ∃ p t, b.tables.lookup p = some t ∧ (x = (tableNames p).1 ∨ x = (tableNames p).2)

def SparseName (x : String) : Prop :=
  ∃ y i v, sparseNames y = .ok (i,v) ∧ (x = i ∨ x = v)

theorem sparseName_ne_variableName {x} (h : SparseName x) (n : Nat) : x ≠ variableName n := by
  obtain ⟨y,i,v,hnames,hx⟩ := h
  unfold sparseNames at hnames
  split at hnames
  · cases hnames
    rintro rfl
    rcases hx with hx | hx <;>
    · have hlist := congrArg String.toList hx
      simp [variableName] at hlist
  · cases hnames

/-- A name that the binders of a program must not have: those of the variables that lowering makes,
of the arrays of sparse matrices and of the tables of the exponential. -/
def Reserved (x : String) : Prop :=
  Generated x ∨ SparseName x ∨ ∃ p, x = (tableNames p).1 ∨ x = (tableNames p).2

theorem short_not_reserved {x} (h : x.toList.length < 3 ∧ x.toList.head? ≠ some 'i') :
    ¬ Reserved x := by
  obtain ⟨hlength,hhead⟩ := h
  rintro (⟨n, rfl | rfl⟩ | ⟨y,i,w,hnames,hx⟩ | ⟨p, rfl | rfl⟩)
  · simp [variableName] at hlength
    omega
  · simp [iteratorName] at hhead
  · unfold sparseNames at hnames
    split at hnames
    · cases hnames
      rcases hx with rfl | rfl <;> simp at hlength
    · cases hnames
  all_goals
    simp [tableNames] at hlength
    omega

/-- Declarations have been added, for variables that were made meanwhile, for sparse matrices and
for the names in `B`. All other declarations are as they were. -/
structure Extends (B : List String) (b b' : Book) : Prop where
  vars : b.nextVar ≤ b'.nextVar
  defined : ∀ x, Defined b x → Defined b' x
  kept : ∀ x, x ∉ B → ¬ SparseName x → (∀ n, b.nextVar ≤ n → n < b'.nextVar → x ≠ variableName n) →
      b'.types.lookup x = b.types.lookup x

theorem Extends.refl (B : List String) (b : Book) : Extends B b b :=
  ⟨Nat.le_refl _,fun _ => id,fun _ _ _ _ => rfl⟩

theorem Extends.trans {B B1 B2 b b1 b2} (h1 : Extends B1 b b1)
    (h2 : Extends B2 b1 b2) (hB : ∀ x, x ∈ B1 ∨ x ∈ B2 → x ∈ B) : Extends B b b2 where
  vars := h1.vars.trans h2.vars
  defined x hx := h2.defined x (h1.defined x hx)
  kept x hx hsparse hnew := by
    have hx1 : x ∉ B1 := fun h => hx (hB x (.inl h))
    have hx2 : x ∉ B2 := fun h => hx (hB x (.inr h))
    have hv1 := h1.vars
    have hv2 := h2.vars
    rw [h2.kept x hx2 hsparse fun n hn hn' => hnew n (by omega) hn',
      h1.kept x hx1 hsparse fun n hn hn' => hnew n hn (by omega)]

/-- The declarations, and how many loops have been made. -/
structure Tally extends Book where
  nextIterator : Nat

instance : Coe Tally Book := ⟨Tally.toBook⟩

def State.tally (s : State) : Tally := ⟨s.book,s.nextIterator⟩

/-- What a lowering that starts with these declarations and counters makes true of those it ends
with and of its result. -/
def Ends (b : Tally) {α : Type} (m : Lowering α) (Q : Tally → α → Prop) : Prop :=
  ∀ s a s', s.tally = b → m s = .ok (a,s') → Q s'.tally a

/-- Lowering steps that declare and make nothing. -/
class Neutral {α : Type} (m : Lowering α) : Prop where
  same : ∀ s a s', m s = .ok (a,s') → s'.tally = s.tally

section Neutral

variable {α β : Type}

instance (a : α) : Neutral (pure a : Lowering α) where
  same s b s' h := by rw [(run_pure.1 h).2]

instance (f : Fault) : Neutral (fail f : Lowering α) where
  same _ _ _ h := by cases h

instance (e : Except Fault α) : Neutral (attempt e) where
  same s a s' h := by
    cases e with
    | error e => cases h
    | ok b => cases h; rfl

instance : Neutral (get : Lowering State) where
  same s a s' h := by cases h; rfl

instance neutral_bind (m : Lowering α) (f : α → Lowering β) [hm : Neutral m]
    [hf : ∀ a, Neutral (f a)] : Neutral (m >>= f) where
  same s b s' h := by
    obtain ⟨a,s₁,h₁,h₂⟩ := run_bind.1 h
    rw [(hf a).same s₁ b s' h₂, hm.same s a s₁ h₁]

instance (name : String) (p : Int) : Neutral (setScale name p) where
  same s a s' h := by cases h; rfl

instance (name : String) (a : Interval) : Neutral (setInterval name a) where
  same s a s' h := by cases h; rfl

instance (name : String) (n : Int) : Neutral (setConstant name n) where
  same s a s' h := by cases h; rfl

instance (r : ExpRange) : Neutral (setRange r) where
  same s a s' h := by cases h; rfl

instance (names : List String) : Neutral (addGlobals names) where
  same s a s' h := by cases h; rfl

instance (table : List (String × β)) (name : String) : Neutral (find table name) := by
  unfold find
  split <;> infer_instance

instance (c : Bool) : Neutral (require c) := by unfold require; infer_instance

instance (t : Term) : Neutral (nameOf t) := by unfold nameOf; infer_instance

instance (t : Ty) : Neutral (shapeOf t) := by unfold shapeOf; infer_instance

instance (ts : List Term) : Neutral (firstOf ts) := by unfold firstOf; split <;> infer_instance

instance (t : Ty) : Neutral (testShape t) := by unfold testShape; split <;> infer_instance

instance (t : Term) : Neutral (scaleOfTerm t) := by unfold scaleOfTerm; infer_instance

instance (t : Term) : Neutral (intervalOfTerm t) := by unfold intervalOfTerm; infer_instance

instance (t : Term) : Neutral (look t) := by unfold look; infer_instance

instance {ρ : Type} (e : Term) (plan : Operand → Except Fault (Plan ρ)) :
    Neutral (planOne e plan) := by unfold planOne; infer_instance

instance {ρ : Type} (ea eb : Term) (plan : Operand → Operand → Except Fault (Plan ρ)) :
    Neutral (planTwo ea eb plan) := by unfold planTwo; infer_instance

instance (cx : Context) : Neutral (expRange cx) :=
  @neutral_bind _ _ _ _ inferInstance fun s => by split <;> infer_instance

instance (cx : Context) (op : Token) : Neutral (prepare cx op) := by
  unfold prepare
  split
  all_goals first
    | infer_instance
    | exact @neutral_bind _ _ _ _ inferInstance fun _ => by split <;> infer_instance

instance {γ δ : Type} (xs : List γ) (f : γ → Lowering δ) [hf : ∀ a, Neutral (f a)] :
    Neutral (xs.mapM f) := by
  induction xs with
  | nil => rw [List.mapM_nil]; infer_instance
  | cons x xs ih => rw [List.mapM_cons]; infer_instance

end Neutral

section Calculus

variable {b : Tally} {types : List (String × Ty)} {tables : List (Int × ExpTable)} {v i : Nat}
  {α β : Type} {Q : Tally → β → Prop}
variable {m : Lowering α} {f : Term → Lowering β} {t : Ty} {x : String} {p : Int}

theorem ends_bind {f} (h : Ends b m fun b' a => Ends b' (f a) Q) : Ends b (m >>= f) Q := by
  intro s c s' hs hrun
  obtain ⟨a,s1,hm,hf⟩ := run_bind.1 hrun
  exact h s a s1 hs hm s1 c s' rfl hf

theorem Ends.imp {Q' m} (h : Ends b m Q) (hQ : ∀ b' a, Q b' a → Q' b' a) : Ends b m Q' :=
  fun s a s' hs hrun => hQ _ a (h s a s' hs hrun)

theorem ends_pure {c} (h : Q b c) : Ends b (pure c) Q := by
  intro s a s' hs hrun
  obtain ⟨rfl,rfl⟩ := run_pure.1 hrun
  rw [hs]
  exact h

theorem ends_fail {f} : Ends b (fail f) Q := by
  intro s a s' _ hrun
  cases hrun

theorem ends_neutral [h : Neutral m] {f} (hf : ∀ a, Ends b (f a) Q) : Ends b (m >>= f) Q := by
  refine ends_bind fun s a s' hs hrun => ?_
  rw [h.same s a s' hrun, hs]
  exact hf a

theorem ends_attempt {e} {f : α → Lowering β}
    (h : ∀ a, e = .ok a → Ends b (f a) Q) : Ends b (attempt e >>= f) Q := by
  cases e with
  | error e =>
    refine ends_bind fun s a s' _ hrun => ?_
    cases hrun
  | ok a =>
    refine ends_bind fun s a' s' hs hrun => ?_
    obtain ⟨rfl,rfl⟩ : a = a' ∧ s = s' := by
      simpa [attempt, StateT.lift, bind, Except.bind, pure, Except.pure] using hrun
    rw [hs]
    exact h a rfl

theorem ends_freshVar (h : Ends ⟨⟨types,tables,v+1⟩,i⟩ (f (plain (variableName v))) Q) :
    Ends ⟨⟨types,tables,v⟩,i⟩ (freshVar >>= f) Q := by
  refine ends_bind fun s a s' hs hrun => ?_
  obtain ⟨rfl,rfl⟩ : plain (variableName s.nextVar) = a ∧
      { s with nextVar := s.nextVar+1 } = s' := by
    simpa using Except.ok.inj hrun
  cases hs
  exact h

theorem ends_freshIterator {b} (h : Ends ⟨b,i+1⟩ (f (plain (iteratorName i))) Q) :
    Ends ⟨b,i⟩ (freshIterator >>= f) Q := by
  refine ends_bind fun s a s' hs hrun => ?_
  obtain ⟨rfl,rfl⟩ : plain (iteratorName s.nextIterator) = a ∧
      { s with nextIterator := s.nextIterator+1 } = s' := by
    simpa using Except.ok.inj hrun
  cases hs
  exact h

theorem ends_freshVars {n f}
    (h : Ends ⟨⟨types,tables,v+n⟩,i⟩ (f ((row variableName v n).map plain)) Q) :
    Ends ⟨⟨types,tables,v⟩,i⟩ (freshVars n >>= f) Q := by
  induction n generalizing v f with
  | zero => exact h
  | succ n ih =>
    rw [freshVars, bind_assoc]
    refine ends_freshVar ?_
    rw [bind_assoc]
    refine ih ?_
    rw [Nat.add_right_comm]
    rwa [row_succ] at h

theorem ends_freshIterators {b n f} (h : Ends ⟨b,i+n⟩ (f ((row iteratorName i n).map plain)) Q) :
    Ends ⟨b,i⟩ (freshIterators n >>= f) Q := by
  induction n generalizing i f with
  | zero => exact h
  | succ n ih =>
    rw [freshIterators, bind_assoc]
    refine ends_freshIterator ?_
    rw [bind_assoc]
    refine ih ?_
    rw [Nat.add_right_comm]
    rwa [row_succ] at h

theorem ends_declare {name f} (h : Ends ⟨⟨put name t types,tables,v⟩,i⟩ (f ()) Q) :
    Ends ⟨⟨types,tables,v⟩,i⟩ (declare name t >>= f) Q := by
  refine ends_bind fun s a s' hs hrun => ?_
  obtain rfl : { s with types := put name t s.types } = s' := by
    simpa using Except.ok.inj hrun
  cases hs
  exact h

theorem ends_record {a} {f} (h : Ends ⟨⟨put x t types,tables,v⟩,i⟩ (f ()) Q) :
    Ends ⟨⟨types,tables,v⟩,i⟩ (record (plain x) t p a >>= f) Q := by
  rw [record, bind_assoc]
  refine ends_attempt fun name hname => ?_
  cases hname
  rw [bind_assoc]
  refine ends_declare ?_
  rw [bind_assoc]
  exact ends_neutral fun _ => ends_neutral fun _ => h

theorem ends_nameOf {t} {f} (h : ∀ x, t.varName = .ok x → Ends b (f x) Q) :
    Ends b (nameOf t >>= f) Q :=
  ends_attempt h

theorem ends_nameOf_plain {f} (h : Ends b (f x) Q) : Ends b (nameOf (plain x) >>= f) Q := by
  refine ends_nameOf fun y hy => ?_
  cases hy
  exact h

theorem ends_declareAll {names : List String} {f}
    (h : Ends ⟨⟨puts (names.map fun x => (x,t)) types,tables,v⟩,i⟩ (f ⟨⟩) Q) :
    Ends ⟨⟨types,tables,v⟩,i⟩ ((forIn (names.map plain) PUnit.unit fun w _ => do
      let x ← nameOf w
      declare x t
      pure (ForInStep.yield PUnit.unit)) >>= f) Q := by
  induction names generalizing types with
  | nil => exact h
  | cons x names ih =>
    rw [List.map_cons, List.forIn_cons, bind_assoc, bind_assoc]
    refine ends_nameOf_plain ?_
    rw [bind_assoc]
    refine ends_declare ?_
    exact ih h

variable {cx : Context}

theorem ends_number {n} (h : Ends b (f (.int n)) Q) : Ends b (number cx n >>= f) Q := by
  refine ends_attempt fun t ht => ?_
  rw [literal_ok ht]
  exact h

theorem ends_numbers {ns f} (h : Ends b (f (ns.map .int)) Q) : Ends b (numbers cx ns >>= f) Q := by
  induction ns generalizing f with
  | nil => exact h
  | cons n ns ih =>
    rw [numbers, bind_assoc]
    refine ends_number ?_
    rw [bind_assoc]
    refine ih ?_
    exact h

theorem ends_factor {n} (h : ∀ k, Ends b (f (.int k)) Q) : Ends b (factor cx n >>= f) Q := by
  unfold factor
  split
  · exact ends_number (h _)
  · exact ends_number (h _)

theorem ends_firstOf {ts} (h : ∀ t ∈ ts, Ends b (f t) Q) : Ends b (firstOf ts >>= f) Q := by
  cases ts with
  | nil => exact ends_bind ends_fail
  | cons t ts =>
    exact h t List.mem_cons_self

theorem ends_findTable {r f}
    (h : ∀ more, (∀ q t, tables.lookup q = some t → ∃ t', more.lookup q = some t') →
      (∃ t, more.lookup p = some t) → Ends ⟨⟨types,more,v⟩,i⟩ (f ()) Q) :
    Ends ⟨⟨types,tables,v⟩,i⟩ (findTable cx r p >>= f) Q := by
  refine ends_bind fun s a s' hs hrun => ?_
  obtain ⟨s0,s1,hget,hrun⟩ := run_bind.1 hrun
  obtain ⟨rfl,rfl⟩ : s = s0 ∧ s = s1 := by cases hget; exact ⟨rfl,rfl⟩
  cases hs
  cases hp : s.tables.lookup p with
  | some t =>
    simp only [hp] at hrun
    obtain ⟨rfl,rfl⟩ := run_pure.1 hrun
    exact h s'.tables (fun q t hq => ⟨t,hq⟩) ⟨t,hp⟩
  | none =>
    simp only [hp] at hrun
    obtain ⟨t,s2,ht,hrun⟩ := run_bind.1 hrun
    have htally := Neutral.same s t s2 ht
    obtain rfl : { s2 with tables := put p t s2.tables } = s' := by
      simpa using Except.ok.inj hrun
    simp only [State.tally, State.book, Tally.mk.injEq, Book.mk.injEq] at htally
    obtain ⟨⟨htypes,htables,hvars⟩,hiterators⟩ := htally
    have hgoal := h (put p t s.tables) ?_ ⟨t,by simp [lookup_put]⟩
    · simpa [State.tally, State.book, htables, htypes, hvars, hiterators] using hgoal
    · intro q u hq
      by_cases hqp : q = p
      · exact ⟨t,by simp [lookup_put, hqp]⟩
      · exact ⟨u,by simpa [lookup_put, hqp] using hq⟩

end Calculus

section Bindings

variable {cx : Context} {types : List (String × Ty)} {tables : List (Int × ExpTable)} {n i : Nat}
  {b : Tally} {β : Type} {Q : Tally → β → Prop} {v : String} {d : Expr Ty}
variable {type : Ty} {e : Expr Ty} {value : Term} {f : Term → Lowering β}

theorem lower_bind_int {v d} (h : d.note = .int) : lower cx (.bind type v d e) = do
      let (codeD,value) ← lower cx d
      declare v .int
      let (codeE,result) ← lower cx e
      return (codeD++[.assign (plain v) value]++codeE,result) := by
  rw [lower]
  simp only [h]

theorem lower_bind_tensor {v d} (h : d.note ≠ .int) : lower cx (.bind type v d e) = do
      let (codeD,value) ← lower cx d
      let value ← bindTensor v d value
      let (codeE,result) ← lower cx e
      let r ← replacementOf value
      return (codeD++Instr.substAll v r codeE,result.subst v r) := by
  refine bind_congr fun r => ?_
  dsimp only
  split
  · exact absurd (by assumption) h
  · rfl

theorem ends_lowerDecl {low high f}
    (h : Ends ⟨⟨types,tables,n+1⟩,i⟩ (f ([],.var (variableName n) [] true)) Q) :
    Ends ⟨⟨types,tables,n⟩,i⟩ (lowerDecl cx low high >>= f) Q := by
  unfold lowerDecl
  simp only [bind_assoc]
  refine ends_neutral fun p => ends_neutral fun a => ends_freshVar (ends_nameOf_plain ?_)
  refine ends_neutral fun _ => ends_neutral fun _ => ?_
  exact h

theorem ends_bindTensor_model (hd : d.isDecl = true)
    (h : Ends ⟨⟨put v d.note types,tables,n⟩,i⟩ (f (.var v [] true)) Q) :
    Ends ⟨⟨types,tables,n⟩,i⟩ (bindTensor v d value >>= f) Q := by
  unfold bindTensor
  simp only [bind_assoc, hd, if_true]
  refine ends_neutral fun p => ends_neutral fun _ => ends_neutral fun a => ends_neutral fun _ => ?_
  refine ends_neutral fun _ => ends_declare ?_
  exact h

theorem ends_bindTensor (hd : d.isDecl = false)
    (h : Ends b (f value) Q) : Ends b (bindTensor v d value >>= f) Q := by
  unfold bindTensor
  simp only [bind_assoc, hd]
  exact ends_neutral fun p => ends_neutral fun _ => ends_neutral fun a => ends_neutral fun _ => h

theorem ends_replacementOf {t f}
    (h : ∀ r, t.replacement? = some r → Ends b (f r) Q) : Ends b (replacementOf t >>= f) Q := by
  unfold replacementOf
  split
  · rename_i r hr
    exact h r hr
  · exact ends_bind ends_fail

end Bindings

end MicroLearn.Lower
