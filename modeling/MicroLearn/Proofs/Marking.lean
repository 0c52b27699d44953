import MicroLearn.Proofs.ClosedOperations
import MicroLearn.Proofs.Typing

/-!
# Lowering with marks

The same lowering, with a mark in the code where a name is bound to a tensor and where the
tensor is read. A name is not read where it stands in the program, but where the operation
it is an operand of is carried out. Until then the use is pending, and what is pending
for an operand may stay so for the result: `Reading` says which operations do that.
-/

set_option autoImplicit false

namespace MicroLearn.Lower

open Code
open Lang (Ty Expr Token)
open Lowering
open Step

/-- What an operation does with its operands. -/
inductive Reading where
  /-- hands its operand on -/
  | passed
  /-- becomes a term that still reads them -/
  | carried
  /-- takes a part of the first, whose place the others tell -/
  | indexed
  /-- reads them and makes a new result -/
  | consumed
  /-- reads the second, and of the first only the indices: its entries are in arrays of their own -/
  | sparse
  /-- overwrites the first while it reads the others -/
  | updated
  /-- hands them to a function of this name -/
  | called (f : String)

def unaryReading (type : Ty) (op : Token) : Reading :=
  if op = .plus then .passed else if type = .int then .carried else .consumed

def productReading (type : Ty) (op : Token) : Reading :=
  match op with
  | .times => if type = .int then .carried else .consumed
  | .sparseTimes => .sparse
  | .addBias | .subtractBias => .updated
  | _ => .consumed

def plainReading (type : Ty) : Reading := if type = .int then .carried else .consumed

def applyReading (op : Token) : Reading :=
  match op with
  | .relu | .tanh => .updated
  | _ => .consumed

def Carries (ts : List Term) (t : Term) : Prop :=
  ∀ θ : Renaming, θ.Plain → ∀ x, (t.resolve θ).mentions x = ts.any fun u => (u.resolve θ).mentions x

variable (how : Reading)

def Reading.Fulfils (ts : List Term) (v i v' i' : Nat) (r : Lowered) : Prop :=
  match how, ts with
  | .passed, [t] => v' = v ∧ i' = i ∧ r = ([],t)
  | .carried, ts => v' = v ∧ i' = i ∧ r.1 = [] ∧ Carries ts r.2
  | .indexed, [e, k] => v' = v ∧ i' = i ∧ r = ([],e.at [k])
  | .consumed, _ => Own v i v' i' r
  | .sparse, _ => Own v i v' i' r
  | .updated, t::_ => v' = v ∧ i' = i ∧ ∃ c f rest, f ∈ inPlace ∧
      r = ([.comment c, .call f (t.inMemory::rest)],t.inMemory)
  | .called f, ts => v' = v+1 ∧ i' = i ∧ ∃ (c : String) (ns : List Int), r =
      ([.comment c, .call f (ts++plain (variableName v)::ns.map .int)],plain (variableName v))
  | _, _ => False

/-- The arrays in the code of an operation: those of the matrix in a sparse product. -/
def Reading.Spells (ts : List Term) (arrays : List (List String)) : Prop :=
  match how, ts with
  | .sparse, t::_ => ∃ x index value, t.varName = .ok x ∧ sparseNames x = .ok (index,value) ∧
      arrays = [[index, value]]
  | .called f, _ => f ≠ "SparseMatMul" → arrays = []
  | _, _ => arrays = []

/-- What is declared after an operation, and that its code is closed. -/
def Reading.Leaves (ts : List Term) (type : Ty) (b b' : Tally) (r : Lowered) : Prop :=
  match how with
  | .consumed | .sparse | .called _ => Makes ts type b b' r
  | _ => b' = b ∧ ∀ K : String → Prop, (∀ t ∈ ts, t.Within K) → Instr.ClosedAll Iterates K r.1

structure Reading.Meets (ts : List Term) (type : Ty) (b b' : Tally) (r : Lowered) : Prop where
  fulfils : how.Fulfils ts b.nextVar b.nextIterator b'.nextVar b'.nextIterator r
  spells : how.Spells ts (Instr.arraysAll r.1)
  leaves : how.Leaves ts type b b' r

section Fulfils

variable {b : Tally} {ts : List Term} {type : Ty} {m : Lowering Lowered}

theorem Produces.meets {b' r} (h : Produces ts type [] b b' r) :
    Reading.consumed.Meets ts type b b' r := ⟨h.own,h.arrays,h.toMakes⟩

theorem produces_meets (h : Ends b m (Produces ts type [] b)) :
    Ends b m (Reading.consumed.Meets ts type b) := h.imp fun _ _ hr => hr.meets

theorem reuses_meets {t} (h : Ends b m (Reuses t (t::ts) b)) :
    Ends b m (Reading.updated.Meets (t::ts) type b) :=
  h.imp fun _ _ hr => ⟨⟨by rw [hr.same],by rw [hr.same],hr.call⟩,hr.arrays,hr.same,hr.code⟩

theorem carried_meets {t} (h : Carries ts t) : Reading.carried.Meets ts type b b ([],t) :=
  ⟨⟨rfl,rfl,rfl,h⟩,rfl,rfl,fun _ _ => trivial⟩

variable (cx : Context) (ta tb type : Ty) (op : Token) (e ea eb : Term)

theorem unary_meets :
    Ends b (lowerUnary cx type op e) ((unaryReading type op).Meets [e] type b) := by
  unfold unaryReading
  by_cases hop : op = .plus
  · subst hop
    exact ends_pure ⟨⟨rfl,rfl,rfl⟩,rfl,rfl,fun _ _ => trivial⟩
  rw [if_neg hop]
  by_cases htype : type = .int
  · subst htype
    unfold lowerUnary
    rw [if_neg (by simpa using hop)]
    refine ends_neutral fun _ => ends_pure (carried_meets fun θ _ x => ?_)
    simp [negate, Term.mentions]
  · rw [if_neg htype]
    exact produces_meets (lowerUnary_produces cx type e op hop htype)

theorem product_meets : Ends b (lowerProduct cx ta tb type op ea eb)
    ((productReading type op).Meets [ea, eb] type b) := by
  unfold lowerProduct productReading
  split
  · by_cases htype : type = .int
    · subst htype
      refine ends_pure (carried_meets fun θ _ x => ?_)
      simp [mul, Term.mentions]
    · rw [if_neg htype]
      split
      · exact absurd rfl htype
      · exact produces_meets (storeTwo_produces _ ea eb _ _)
      · exact produces_meets (storeTwo_produces _ ea eb _ _)
      · exact produces_meets (storeTwo_produces _ ea eb _ _)
  · refine (lowerSparseProduct_produces cx ta tb type ea eb).imp fun _ _ h => ?_
    obtain ⟨x,index,value,hx,hnames,h⟩ := h
    exact ⟨h.own,⟨x,index,value,hx,hnames,h.arrays⟩,h.toMakes⟩
  · exact produces_meets (storeTwo_produces _ ea eb _ _)
  · exact produces_meets (storeTwo_produces _ ea eb _ _)
  · exact reuses_meets (lowerBias_reuses cx type ea eb .addBias)
  · exact reuses_meets (lowerBias_reuses cx type ea eb .subtractBias)
  · exact ends_fail

theorem additive_meets : Ends b (lowerAdditive cx type op ea eb)
    ((plainReading type).Meets [ea, eb] type b) := by
  unfold plainReading
  by_cases htype : type = .int
  · subst htype
    refine ends_neutral fun ⟨how,arith⟩ => ends_pure (carried_meets fun θ _ x => ?_)
    simp [Term.mentions]
  · rw [if_neg htype]
    exact produces_meets (lowerAdditive_produces cx type ea eb op htype)

theorem apply_meets (htype : Lang.applyTy op ta = .ok type) :
    Ends b (lowerApply cx ta type op e) ((applyReading op).Meets [e] type b) := by
  rcases Lang.applyTy_ok htype with ⟨rfl, rfl | rfl | rfl⟩ | ⟨rfl, rfl | rfl⟩
  · exact reuses_meets (lowerRelu_reuses cx _ e)
  · unfold lowerApply
    dsimp only
    split
    · exact produces_meets (lowerLibraryExp_produces cx _ e)
    · exact ends_neutral fun r => produces_meets (lowerTableExp_produces cx _ e r)
    · exact ends_fail
  · exact reuses_meets (lowerTanh_reuses cx _ e)
  · exact produces_meets (lowerArgmax_produces cx ta e)
  · exact produces_meets (lowerSign_produces ta e)

theorem mentions_at_zeros {θ} (hθ : θ.Plain) (t : Term) (n : Nat) (x : String) :
    ((t.at (List.replicate n (.int 0))).resolve θ).mentions x = (t.resolve θ).mentions x := by
  cases t with
  | var name index inFlash =>
    obtain ⟨name',index',inFlash',h⟩ := resolve_isVar hθ name index inFlash
    rw [resolve_at hθ, h, mentions_at]
    have hzeros : Term.anyMentions x ((List.replicate n (Term.int 0)).map (Term.resolve θ)) =
        false := by
      induction n with
      | zero => rfl
      | succ n ih => simpa [List.replicate_succ, Term.anyMentions, Term.mentions] using ih
    rw [hzeros, Bool.or_false]
  | _ => rfl

theorem cond_meets (ec : Term) : Ends b (lowerCond cx tb ta ec ea eb)
    ((plainReading ta).Meets [ec, ea, eb] ta b) := by
  unfold plainReading
  by_cases htype : ta = .int
  · subst htype
    refine ends_neutral fun shape => ends_pure (carried_meets fun θ hθ x => ?_)
    simp [ifPositive, gt, zero, Term.mentions, mentions_at_zeros hθ, Bool.or_assoc]
  · rw [if_neg htype]
    exact produces_meets (lowerCond_produces cx ta tb ea eb ec htype)

end Fulfils

/-- The uses that are not yet made: of the value itself, and of what its indices read. -/
structure Pending (α : Type) where
  self : List α := []
  inner : List α := []

def Pending.all {α : Type} (p : Pending α) : List α := p.self++p.inner

def Pending.map {α β : Type} (f : α → β) (p : Pending α) : Pending β :=
  ⟨p.self.map f,p.inner.map f⟩

namespace Reading

variable {α : Type}

def uses : Reading → List (Pending α) → List α
  | .consumed, ps | .updated, ps | .called _, ps => ps.flatMap Pending.all
  | .sparse, p::ps => p.inner++ps.flatMap Pending.all
  | _, _ => []

def rereads : Reading → List (Pending α) → List α
  | .updated, _::ps => ps.flatMap Pending.all
  | _, _ => []

def keeps : Reading → List (Pending α) → Pending α
  | .passed, p::_ => p
  | .carried, ps => { inner := ps.flatMap Pending.all }
  | .indexed, p::ps => { self := p.self, inner := p.inner++ps.flatMap Pending.all }
  | .updated, p::_ => { inner := p.inner }
  | _, _ => {}

end Reading

/-- The marked code of an expression, the term that holds its value, and the uses that are made
when this term is read, each with the place that is read. -/
structure Marked where
  steps : List Step
  term : Term
  pending : Pending (String × Term) := {}

def marks (uses : List (String × Term)) : List Step := uses.map fun p => .used p.1 p.2

def Marked.operate (xs : List Marked) (own : Lowered) : Marked where
  steps := xs.flatMap Marked.steps++marks (how.uses (xs.map Marked.pending)) ++
    own.1.map .instr++marks (how.rereads (xs.map Marked.pending))
  term := own.2
  pending := how.keeps (xs.map Marked.pending)

def SumLoop.marked (s : SumLoop) (v : String) (x : Marked) : List Step :=
  [.instr (.clear s.out s.cells), .instr (.assign (plain v) s.first),
    .loop s.iterator 0 (lt s.iterator s.turns) (x.steps++marks x.pending.all ++
      s.adds.map .instr++[.instr (increment (plain v))])]

mutual

def mark (cx : Context) : Expr Ty → Lowering Marked
  | .int _ v => do return { steps := [], term := ← number cx v }
  | .real type v => do return .operate .consumed [] (← lowerReal cx type v)
  | .name type id => do
    let t := .var id [] ((← get).globals.contains id)
    return ⟨[],t,if type = .int then {} else { self := [(id,plain id)] }⟩
  | .decl _ _ low high => do return .operate .consumed [] (← lowerDecl cx low high)
  | .transpose type e => do
    let x ← mark cx e
    return .operate .consumed [x] (← lowerTranspose cx type x.term)
  | .reshape type e _ order => do
    let x ← mark cx e
    return .operate .consumed [x] (← lowerReshape cx e.note type order x.term)
  | .maxpool type e stride => do
    let x ← mark cx e
    return .operate .consumed [x] (← lowerMaxpool cx e.note type stride x.term)
  | .index _ e i => do
    let x ← mark cx e
    let y ← mark cx i
    return .operate .indexed [x, y] ([],x.term.at [y.term])
  | .call type f args => do
    let xs ← markAll cx args
    return .operate (.called f) xs (← lowerCall cx type f (xs.map Marked.term))
  | .unary type op e => do
    let x ← mark cx e
    return .operate (unaryReading type op) [x] (← lowerUnary cx type op x.term)
  | .product type op a b => do
    let x ← mark cx a
    let y ← mark cx b
    return .operate (productReading type op) [x, y]
      (← lowerProduct cx a.note b.note type op x.term y.term)
  | .additive type op a b => do
    let x ← mark cx a
    let y ← mark cx b
    return .operate (plainReading type) [x, y] (← lowerAdditive cx type op x.term y.term)
  | .apply type op e => do
    prepare cx op
    let x ← mark cx e
    return .operate (applyReading op) [x] (← lowerApply cx e.note type op x.term)
  | .sum type v first last e => do
    declare v .int
    let x ← mark cx e
    let s ← lowerSum cx type first last x.term
    return { steps := s.marked v x, term := s.out }
  | .cond _ e t f => do
    let x ← mark cx e
    let y ← mark cx t
    let z ← mark cx f
    return .operate (plainReading t.note) [x, y, z]
      (← lowerCond cx e.note t.note x.term y.term z.term)
  | .bind _ v d e => do
    let x ← mark cx d
    match d.note with
    | .int =>
      declare v .int
      let y ← mark cx e
      return { y with
        steps := x.steps++marks x.pending.all++[.instr (.assign (plain v) x.term)]++y.steps }
    | _ =>
      let value ← bindTensor v d x.term
      let y ← mark cx e
      let r ← replacementOf value
      let place (p : String × Term) := (p.1,p.2.subst v r)
      return ⟨x.steps++marks x.pending.all++[.bound v value.inMemory] ++
        Step.substAll v r y.steps,y.term.subst v r,y.pending.map place⟩

def markAll (cx : Context) : List (Expr Ty) → Lowering (List Marked)
  | [] => return []
  | e::es => do
    let x ← mark cx e
    return x::(← markAll cx es)

end

/-- The marked code of a whole program: at its end the result is read. -/
def markProgram (cx : Context) (e : Expr Ty) : Lowering (List Step × Term) := do
  let x ← mark cx e
  return (x.steps++marks x.pending.all,x.term)

theorem eraseAll_marks (uses : List (String × Term)) : eraseAll (marks uses) = [] := by
  induction uses with
  | nil => rfl
  | cons p uses ih => exact ih

def Marked.erase (x : Marked) : Lowered := (eraseAll x.steps,x.term)

@[simp] theorem eraseAll_operate (xs : List Marked) (own : Lowered) :
    eraseAll (Marked.operate how xs own).steps = eraseAll (xs.flatMap Marked.steps)++own.1 := by
  simp [Marked.operate, eraseAll_append, eraseAll_marks, eraseAll_instr]

@[simp] theorem term_operate (xs : List Marked) (own : Lowered) :
    (Marked.operate how xs own).term = own.2 := rfl

theorem eraseAll_marked (s : SumLoop) (v : String) (x : Marked) :
    eraseAll (s.marked v x) = s.around v (eraseAll x.steps) := by
  simp [SumLoop.marked, SumLoop.around, eraseAll, erase, eraseAll_append, eraseAll_marks,
    eraseAll_instr]

mutual

theorem lower_eq_erase (cx : Context) : ∀ e : Expr Ty, lower cx e = Marked.erase <$> mark cx e
  | .int .. | .real .. | .name .. | .decl .. => by simp [lower, mark, Marked.erase, eraseAll]
  | .transpose _ e | .reshape _ e _ _ | .maxpool _ e _ | .unary _ _ e | .apply _ _ e => by
    simp [lower, mark, lower_eq_erase cx e, Marked.erase, Lowered.after]
  | .index _ a b | .product _ _ a b | .additive _ _ a b => by
    simp [lower, mark, lower_eq_erase cx a, lower_eq_erase cx b, Marked.erase, eraseAll_append,
      Lowered.after]
  | .call type f args => by
    simp [lower, mark, lowerAll_eq_erase cx args, Marked.erase, Lowered.after]
  | .sum type v first last e => by
    simp [lower, mark, lower_eq_erase cx e, Marked.erase, eraseAll_marked]
  | .cond _ e t f => by
    simp [lower, mark, lower_eq_erase cx e, lower_eq_erase cx t, lower_eq_erase cx f,
      Marked.erase, eraseAll_append, Lowered.after]
  | .bind _ v d e => by
    simp only [lower, mark, lower_eq_erase cx d, lower_eq_erase cx e, bind_map_left, map_bind]
    refine bind_congr fun x => ?_
    cases d.note with
    | int => simp [Marked.erase, eraseAll_append, eraseAll_marks, eraseAll, erase]
    | _ =>
      simp [Marked.erase, eraseAll_append, eraseAll_marks, eraseAll, erase, eraseAll_substAll]

theorem lowerAll_eq_erase (cx : Context) : ∀ es : List (Expr Ty), lowerAll cx es =
    (fun xs => (eraseAll (xs.flatMap Marked.steps),xs.map Marked.term)) <$> markAll cx es
  | [] => by simp [lowerAll, markAll, eraseAll]
  | e::es => by
    simp [lowerAll, markAll, lower_eq_erase cx e, lowerAll_eq_erase cx es, Marked.erase,
      eraseAll_append]

end

end MicroLearn.Lower
