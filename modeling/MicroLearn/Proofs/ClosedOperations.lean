import MicroLearn.Proofs.Declarations

/-!
# What an operation leaves

An operation declares the variables it makes, the one of its result with the type of the
result. Its code writes only these, and names only these, the variables of its operands and its
own loops. Where a sparse matrix is multiplied, the code names the arrays of the matrix.
-/

set_option autoImplicit false

open Nat (le_add_right lt_succ_self)
open List (forall_mem_cons forall_mem_map mem_cons)

namespace MicroLearn.Code

open Instr

mutual

/-- The arrays that stand for matrices in sparse products, by their names. -/
def Instr.arrays : Instr → List (List String)
  | .call f args => if f = "SparseMatMul" then [(args.filterMap Term.root?).take 2] else []
  | .branch _ yes no => arraysAll yes++arraysAll no
  | .count _ _ _ body | .repeatWhile _ body | .block body => arraysAll body
  | _ => []

def Instr.arraysAll : List Instr → List (List String)
  | [] => []
  | i::is => i.arrays++arraysAll is

end

theorem arraysAll_append (a b : List Instr) :
    arraysAll (a++b) = arraysAll a++arraysAll b := by
  induction a with
  | nil => rfl
  | cons i a ih => rw [List.cons_append, arraysAll, arraysAll, ih, List.append_assoc]

theorem arrays_call {f} (hf : f ≠ "SparseMatMul") (c : String) (args : List Term) :
    arraysAll [.comment c, .call f args] = [] := by
  simp [arraysAll, arrays, hf]

theorem arrays_nested (counted : List (Term × Int)) (body : List Instr) :
    arraysAll (nested counted body) = arraysAll body := by
  induction counted with
  | nil => rfl
  | cons p counted ih => simpa [nested, arraysAll, arrays] using ih

end MicroLearn.Code

namespace MicroLearn.Lower

open Code
open Lang (Ty Token)
open Lowering
open Instr

def Iterates (x : String) : Prop := ∃ i, x = iteratorName i

/-- The operation has put its result into a new variable of the given type, and its code is closed
as soon as its operands and all that has been declared are known. -/
structure Makes (ts : List Term) (type : Ty) (b b' : Tally) (r : Lowered) : Prop where
  extended : Extends [] b b'
  out : ∃ n, n < b'.nextVar ∧ r.2 = plain (variableName n) ∧
    b'.types.lookup (variableName n) = some type
  code : ∀ K : String → Prop, (∀ x, Defined b' x → K x) → (∀ t ∈ ts, t.Within K) →
    ClosedAll Iterates K r.1

/-- Besides, it writes nothing but what it has made, and the arrays are all that are used. -/
structure Produces (ts : List Term) (type : Ty) (arrays : List (List String)) (b b' : Tally)
    (r : Lowered) : Prop extends Makes ts type b b' r where
  own : Own b.nextVar b.nextIterator b'.nextVar b'.nextIterator r
  arrays : arraysAll r.1 = arrays

theorem extends_puts {types} (new : List (String × Ty)) {tables more v k}
    (htables : ∀ q t, tables.lookup q = some t → ∃ t', more.lookup q = some t')
    (hnew : ∀ p ∈ new, (∃ n, v ≤ n ∧ n < v+k ∧ p.1 = variableName n) ∨ SparseName p.1) :
    Extends [] ⟨types,tables,v⟩ ⟨puts new types,more,v+k⟩ where
  vars := le_add_right _ _
  defined x hx := by
    rcases hx with hx | ⟨p,t,hp,hx⟩
    · exact .inl (lookup_puts_isSome (.inr hx))
    · obtain ⟨t',ht'⟩ := htables p t hp
      exact .inr ⟨p,t',ht',hx⟩
  kept x _ hsparse hmade := by
    refine lookup_puts_of_notMem (fun p hp heq => ?_) types
    rcases hnew p hp with ⟨n,hn,hn',hp⟩ | hp
    · exact hmade n hn hn' (heq.trans hp)
    · exact hsparse (heq ▸ hp)

section Makes

variable {types : List (String × Ty)} {tables : List (Int × ExpTable)} {v i j : Nat}
  {ts : List Term} {type : Ty} {code : List Instr} {arrays : List (List String)}

theorem Makes.of_puts (new : List (String × Ty)) {more k n}
    (htables : ∀ q t, tables.lookup q = some t → ∃ t', more.lookup q = some t')
    (hnew : ∀ p ∈ new, (∃ n, v ≤ n ∧ n < v+k ∧ p.1 = variableName n) ∨ SparseName p.1)
    (hn : n < v+k) (hout : (puts new types).lookup (variableName n) = some type)
    (hcode : ∀ K : String → Prop, (∀ p ∈ new, K p.1) →
      (∀ q t, more.lookup q = some t → K (tableNames q).1 ∧ K (tableNames q).2) →
      (∀ t ∈ ts, t.Within K) → ClosedAll Iterates K code) :
    Makes ts type ⟨⟨types,tables,v⟩,i⟩ ⟨⟨puts new types,more,v+k⟩,j⟩
      (code,plain (variableName n)) where
  extended := extends_puts new htables hnew
  out := ⟨n,hn,rfl,hout⟩
  code K hK hts := by
    refine hcode K (fun p hp => hK _ (.inl (lookup_puts_isSome (.inl ⟨p,hp,rfl⟩)))) ?_ hts
    intro q t hq
    exact ⟨hK _ (.inr ⟨q,t,hq,.inl rfl⟩),hK _ (.inr ⟨q,t,hq,.inr rfl⟩)⟩

theorem Makes.of_one (hcode : ∀ K : String → Prop, K (variableName v) →
    (∀ t ∈ ts, t.Within K) → ClosedAll Iterates K code) :
    Makes ts type ⟨⟨types,tables,v⟩,i⟩ ⟨⟨put (variableName v) type types,tables,v+1⟩,j⟩
      (code,plain (variableName v)) := by
  refine .of_puts [(variableName v,type)] (fun q t h => ⟨t,h⟩) ?_ (lt_succ_self _) ?_
    fun K hK _ hts => hcode K (hK _ (List.mem_singleton.2 rfl)) hts
  · intro p hp
    obtain rfl := List.mem_singleton.1 hp
    exact .inl ⟨v,le_refl _,lt_succ_self _,rfl⟩
  · simp [puts, lookup_put]

theorem Own.of_code {v' n} (hn : v ≤ n) (hn' : n < v') (hi : i ≤ j)
    (β : String → Option Int) (h : ConfinedAll (Made v i v' j) β code) :
    Own v i v' j (code,plain (variableName n)) :=
  ⟨by omega,hi,⟨n,false,hn,hn',rfl⟩,β,h⟩

theorem Produces.of_one (β : String → Option Int) (hcode : ∀ K : String → Prop, K (variableName v) →
      (∀ t ∈ ts, t.Within K) → ClosedAll Iterates K code) (hi : i ≤ j)
    (hwrites : ConfinedAll (Made v i (v+1) j) β code)
    (harrays : arraysAll code = arrays) : Produces ts type arrays ⟨⟨types,tables,v⟩,i⟩
      ⟨⟨put (variableName v) type types,tables,v+1⟩,j⟩ (code,plain (variableName v)) :=
  ⟨.of_one hcode,.of_code (le_refl v) (lt_succ_self v) hi β hwrites,harrays⟩

section Calls

variable {c f : String} (before : List Term) {ns : List Int}
  (hbefore : ∀ K : String → Prop, (∀ t ∈ ts, t.Within K) → ∀ t ∈ before, t.Within K)

theorem numbers_root (ns : List Int) : (ns.map Term.int).filterMap Term.root? = [] := by
  simp [Term.root?]

include hbefore

theorem call_closed {K} (made : List String) (hmade : ∀ x ∈ made, K x)
    (hts : ∀ t ∈ ts, t.Within K) :
    ClosedAll Iterates K [.comment c, .call f (before++(made.map plain++ns.map .int))] := by
  refine ⟨trivial,fun t ht => ?_,trivial⟩
  rcases List.mem_append.1 ht with ht | ht
  · exact hbefore K hts t ht
  rcases List.mem_append.1 ht with ht | ht
  · obtain ⟨x,hx,rfl⟩ := List.mem_map.1 ht
    exact within_plain.2 (hmade x hx)
  · obtain ⟨n,-,rfl⟩ := List.mem_map.1 ht
    exact within_int n

theorem Produces.of_call (ns : List Int) (hf : f ∉ "SparseMatMul"::(inPlace++withScratch)) :
    Produces ts type [] ⟨⟨types,tables,v⟩,i⟩ ⟨⟨put (variableName v) type types,tables,v+1⟩,i⟩
      ([.comment c, .call f (before++plain (variableName v)::ns.map .int)],
          plain (variableName v)) := by
  simp only [mem_cons, List.mem_append, not_or] at hf
  refine .of_one (fun _ => none) (fun K hout hts => ?_) (le_refl i) ⟨trivial,?_,trivial⟩
    (arrays_call hf.1 c _)
  · exact call_closed before hbefore [variableName v] (by simpa using hout) hts
  · exact call_confined hf.2.1 hf.2.2 before (numbers_root ns) made_first

theorem Produces.of_call_with_scratch {scratch} (hf : f ∉ "SparseMatMul"::inPlace)
    (hs : f ∈ withScratch) : Produces ts type [] ⟨⟨types,tables,v⟩,i⟩ ⟨⟨put (variableName v) scratch
        (put (variableName (v+1)) type types),tables,v+1+1⟩,i⟩
      ([.comment c, .call f
        (before++plain (variableName (v+1))::plain (variableName v)::ns.map .int)],
        plain (variableName (v+1))) := by
  simp only [mem_cons, not_or] at hf
  refine ⟨.of_puts [(variableName (v+1),type), (variableName v,scratch)] (k := 2)
    (fun q t h => ⟨t,h⟩) ?_ (lt_succ_self _) ?_ fun K hK _ hts => ?_,
    .of_code (Nat.le_succ v) (lt_succ_self _) (le_refl i) (fun _ => none)
      ⟨trivial,fun x hx => ⟨?_,rfl⟩,trivial⟩,arrays_call hf.1 c _⟩
  · intro p hp
    rcases List.mem_pair.1 hp with rfl | rfl
    · exact .inl ⟨v+1,by omega,by omega,rfl⟩
    · exact .inl ⟨v,by omega,by omega,rfl⟩
  · simp [puts, lookup_put, variableName_eq]
  · exact call_closed before hbefore [variableName (v+1), variableName v] (by simpa using hK) hts
  · rw [outputs_last_two hf.2 (numbers_root ns) hs, List.mem_pair] at hx
    rcases hx with rfl | rfl
    · exact made_var (Nat.le_succ v) (lt_succ_self (v+1))
    · exact made_var (le_refl v) (Nat.lt_succ_of_lt (lt_succ_self v))

end Calls

end Makes

section Operations

variable {b : Tally} (cx : Context) (ta tb type : Ty) (e ea eb : Term)
variable {K : String → Prop} {t : Term} {shape order : List Int} {loops step : List Instr}
  {α β : Type} {b' : Tally} {r : Lowered} {xs ys : List α} {y : α}

theorem lowerReal_produces (x : Float) : Ends b (lowerReal cx type x) (Produces [] type [] b) := by
  obtain ⟨⟨types,tables,v⟩,i⟩ := b
  refine ends_neutral fun p => ends_neutral fun a => ends_neutral fun n => ends_freshVar ?_
  refine ends_nameOf_plain (ends_record (ends_neutral fun _ => ends_pure ?_))
  exact .of_one (fun _ => none) (fun K _ _ => trivial) (le_refl i) trivial rfl

theorem lowerDecl_leaves (low high : Float) : Ends b (lowerDecl cx low high)
    fun b' r => Own b.nextVar b.nextIterator b'.nextVar b'.nextIterator r ∧ arraysAll r.1 = [] := by
  obtain ⟨⟨types,tables,v⟩,i⟩ := b
  rw [← bind_pure (lowerDecl cx low high)]
  refine ends_lowerDecl (ends_pure ⟨⟨Nat.le_succ v,le_refl i,?_,fun _ => none,trivial⟩,rfl⟩)
  exact ⟨v,true,le_refl v,lt_succ_self v,rfl⟩

theorem Routine.name_of_room {r : Routine} (h : r.room = none) :
    r.name ∉ "SparseMatMul"::(inPlace++withScratch) := by
  cases r with
  | matrixProduct | convolution => cases h
  | _ => simp [Routine.name, inPlace, withScratch]

theorem Routine.name_of_summands {r : Routine} {n} (h : r.room = some n) :
    r.name ∉ "SparseMatMul"::inPlace ∧ r.name ∈ withScratch := by
  cases r with
  | matrixProduct a b n =>
    clear h
    revert a b
    show ∀ a b, "MatMul"++variant a++variant b ∉ "SparseMatMul"::inPlace ∧
      "MatMul"++variant a++variant b ∈ withScratch
    decide
  | convolution n => simp [Routine.name, inPlace, withScratch]
  | _ => cases h

theorem Plan.store_produces (c : Plan Routine) {ts operands}
    (hoperands : ∀ t ∈ operands, t ∈ ts) (text : String) :
    Ends b (c.store type operands text) (Produces ts type [] b) := by
  have hbefore : ∀ K : String → Prop, (∀ t ∈ ts, t.Within K) →
      ∀ t ∈ operands.map Term.inMemory, t.Within K := by
    intro K hts t ht
    obtain ⟨u,hu,rfl⟩ := List.mem_map.1 ht
    exact within_inMemory.2 (hts u (hoperands u hu))
  unfold Plan.store
  cases hroom : c.routine.room with
  | none =>
    refine ends_freshVar (ends_record (ends_pure ?_))
    exact .of_call _ hbefore _ (Routine.name_of_room hroom)
  | some n =>
    obtain ⟨hplain,hscratch⟩ := Routine.name_of_summands hroom
    refine ends_freshVar (ends_freshVar (ends_record (ends_nameOf_plain (ends_declare ?_))))
    exact ends_pure (.of_call_with_scratch _ hbefore hplain hscratch)

theorem mem_order {r : Routine} : t ∈ r.order ea eb ↔ t = ea ∨ t = eb := by
  unfold Routine.order
  split
  · simp [or_comm]
  · simp

theorem storeTwo_produces (sign : String) (plan : Operand → Operand → Except Fault (Plan Routine)) :
    Ends b (storeTwo type sign ea eb plan) (Produces [ea, eb] type [] b) :=
  ends_neutral fun c => ends_neutral fun _ => ends_neutral fun _ =>
    c.store_produces type (fun _ ht => by simpa using (mem_order ea eb).1 ht) _

theorem lowerTranspose_produces : Ends b (lowerTranspose cx type e) (Produces [e] type [] b) :=
  ends_neutral fun c => ends_neutral fun _ => c.store_produces type (fun _ ht => ht) _

theorem lowerMaxpool_produces (stride : Int) :
    Ends b (lowerMaxpool cx ta type stride e) (Produces [e] type [] b) :=
  ends_neutral fun c => ends_neutral fun _ => c.store_produces type (fun _ ht => ht) _

theorem lowerCall_makes (f : String) (args : List Term) : Ends b (lowerCall cx type f args)
    fun b' r => Makes args type b b' r ∧ b'.nextVar = b.nextVar+1 ∧
      b'.nextIterator = b.nextIterator ∧ (∃ s, type = .tensor s) ∧ ∃ (c : String) (ns : List Int),
        r = ([.comment c, .call f (args++plain (variableName b.nextVar)::ns.map .int)],
          plain (variableName b.nextVar)) := by
  obtain ⟨⟨types,tables,v⟩,i⟩ := b
  refine ends_freshVar (ends_attempt fun shape hshape =>
    ends_numbers (ends_neutral fun names => ?_))
  have htype : ∃ s, type = .tensor s := by
    cases type with
    | tensor s => exact ⟨s,rfl⟩
    | _ => cases hshape
  refine ends_neutral fun first => ends_nameOf_plain (ends_declare (ends_nameOf_plain ?_))
  refine ends_neutral fun p => ends_neutral fun _ => ends_nameOf_plain ?_
  refine ends_neutral fun a => ends_neutral fun _ => ends_pure ⟨.of_one fun K hout hts => ?_,rfl,
    rfl,htype,f++"("++Text.join ", " names++")",shape,by simp⟩
  rw [List.append_assoc]
  exact call_closed args (fun _ h => h) [variableName v] (by simpa using hout) hts

theorem lowerArgmax_produces : Ends b (lowerArgmax cx ta e) (Produces [e] .int [] b) := by
  refine ends_neutral fun shape => ends_neutral fun _ => ends_freshVar (ends_neutral fun name => ?_)
  refine ends_numbers (ends_nameOf_plain (ends_declare (ends_pure ?_)))
  exact .of_call (e.inMemory::shape.map .int) (by simp) [] (by decide)

theorem cell_within (h : t.Within K) (shape : List Int) :
    (t.at (shape.map fun _ => zero)).Within K := by
  refine h.at fun u hu => ?_
  obtain ⟨n,-,rfl⟩ := List.mem_map.1 hu
  exact within_int 0

theorem lowerSign_produces : Ends b (lowerSign ta e) (Produces [e] .int [] b) := by
  obtain ⟨⟨types,tables,v⟩,i⟩ := b
  refine ends_freshVar (ends_neutral fun shape => ends_neutral fun name => ?_)
  refine ends_nameOf_plain (ends_declare (ends_pure ?_))
  refine .of_one (fun _ => none) (fun K hout hts => ?_) (le_refl i)
    ⟨trivial,target_at made_first rfl [],trivial⟩ rfl
  have he := cell_within (hts e (by simp)) shape
  refine ⟨trivial,⟨within_plain.2 hout,?_⟩,trivial⟩
  simpa [ifPositive, gt, zero, one] using he

theorem lowerLibraryExp_produces : Ends b (lowerLibraryExp cx ta e) (Produces [e] ta [] b) := by
  obtain ⟨⟨types,tables,v⟩,i⟩ := b
  refine ends_neutral fun p => ends_neutral fun _ => ends_freshVar (ends_neutral fun q => ?_)
  refine ends_neutral fun a => ends_factor fun down => ends_factor fun up => ?_
  refine ends_neutral fun shape => ends_neutral fun name => ends_record (ends_pure ?_)
  refine .of_one (fun _ => none) (fun K hout hts => ?_) (le_refl i)
    ⟨trivial,target_at made_first rfl _,trivial⟩ rfl
  have he := cell_within (hts e (by simp)) shape
  refine ⟨trivial,⟨cell_within (within_plain.2 hout) shape,?_⟩,trivial⟩
  simpa [integerCast, mul, div, castToReal] using he

theorem lowerTableExp_produces (r : ExpRange) :
    Ends b (lowerTableExp cx r ta e) (Produces [e] ta [] b) := by
  obtain ⟨⟨types,tables,v⟩,i⟩ := b
  refine ends_neutral fun p => ends_neutral fun _ => ends_neutral fun least => ?_
  refine ends_neutral fun most => ends_neutral fun width => ends_neutral fun shl => ?_
  refine ends_freshVar (ends_freshVar (ends_freshVar (ends_freshVar (ends_number ?_))))
  refine ends_findTable fun tables hgrown htable => ?_
  rcases hnames : tableNames p with ⟨tableA,tableB⟩
  refine ends_neutral fun p1 => ends_neutral fun p2 => ?_
  refine ends_neutral fun shape => ends_number (ends_attempt fun offset hoffset => ?_)
  refine ends_attempt fun high hhigh => ends_attempt fun low hlow => ?_
  refine ends_attempt fun left hleft => ends_attempt fun right hright => ?_
  refine ends_neutral fun a => ends_neutral fun name => ends_record ?_
  refine ends_nameOf_plain (ends_declare (ends_nameOf_plain (ends_declare ?_)))
  refine ends_nameOf_plain (ends_declare (ends_pure ?_))
  refine ⟨.of_puts [(variableName (v+3),ta), (variableName v,.int),
    (variableName (v+1),.int), (variableName (v+2),.int)] (k := 4) hgrown ?_
    (lt_succ_self _) ?_ fun K hK htables hts => ?_,?_,rfl⟩
  · intro q hq
    simp only [mem_cons, List.not_mem_nil, or_false] at hq
    rcases hq with rfl | rfl | rfl | rfl
    · exact .inl ⟨v+3,by omega,by omega,rfl⟩
    · exact .inl ⟨v,by omega,by omega,rfl⟩
    · exact .inl ⟨v+1,by omega,by omega,rfl⟩
    · exact .inl ⟨v+2,by omega,by omega,rfl⟩
  · simp [puts, lookup_put, variableName_eq, Nat.add_assoc]
  · simp only [forall_mem_cons, List.not_mem_nil, false_implies, implies_true, and_true] at hK
    obtain ⟨hout,hinput,hi,hj⟩ := hK
    obtain ⟨t,ht⟩ := htable
    obtain ⟨hA,hB⟩ := htables p t ht
    rw [hnames] at hA hB
    have he := cell_within (hts e (by simp)) shape
    have hargument : (negate (e.at (shape.map fun _ => zero))).Within K := within_unary.2 he
    have hoff := shiftLeft_within hoffset (within_arith.2 ⟨hargument,within_int _⟩)
    have hhi := shiftRight_within hhigh (within_plain.2 hinput)
    have hlo := shiftRight_within hlow (within_plain.2 hinput)
    have hl := shiftRight_within hleft (within_var.2 ⟨hA,by simpa using hi⟩)
    have hr := shiftRight_within hright (within_var.2 ⟨hB,by simpa using hj⟩)
    refine ⟨trivial,⟨?_,?_,?_⟩,⟨cell_within (within_plain.2 hout) shape,?_⟩,trivial⟩
    · exact within_compare.2 ⟨hargument,within_int _⟩
    · exact ⟨⟨within_plain.2 hi,within_int 0⟩,⟨within_plain.2 hj,within_int 0⟩,trivial⟩
    · exact ⟨⟨within_plain.2 hinput,hoff⟩,⟨within_plain.2 hi,within_arith.2 ⟨hhi,within_int _⟩⟩,
        ⟨within_plain.2 hj,within_arith.2 ⟨hlo,within_int _⟩⟩,trivial⟩
    · exact within_arith.2 ⟨hl,hr⟩
  · have made : ∀ k < 4, ∀ index, ((plain (variableName (v+k))).at index).Target
        (Made v i (v+4) i) fun _ => none := fun k hk index =>
      target_at (made_var (by omega) (by omega)) rfl index
    refine .of_code (le_add_right v 3) (lt_succ_self (v+3)) (le_refl i) (fun _ => none) ?_
    exact ⟨trivial,⟨⟨made 1 (by omega) [],made 2 (by omega) [],trivial⟩,made 0 (by omega) [],
      made 1 (by omega) [],made 2 (by omega) [],trivial⟩,made 3 (by omega) _,trivial⟩

theorem lowerSparseProduct_produces : Ends b (lowerSparseProduct cx ta tb type ea eb)
    fun b' r => ∃ x index value, ea.varName = .ok x ∧ sparseNames x = .ok (index,value) ∧
      Produces [ea, eb] type [[index, value]] b b' r := by
  obtain ⟨⟨types,tables,v⟩,i⟩ := b
  refine ends_neutral fun inner => ends_neutral fun c => ends_freshVar ?_
  refine ends_nameOf fun nameA hname => ?_
  refine ends_neutral fun nameB => ends_attempt fun ⟨indexName,valueName⟩ hnames => ?_
  refine ends_neutral fun shape => ends_record (ends_declare (ends_declare ?_))
  refine ends_neutral fun _ => ends_pure ?_
  have hindex : SparseName indexName := ⟨nameA,indexName,valueName,hnames,.inl rfl⟩
  have hvalue : SparseName valueName := ⟨nameA,indexName,valueName,hnames,.inr rfl⟩
  refine ⟨nameA,indexName,valueName,hname,hnames,.of_puts [(variableName v,type),
    (indexName,.tensor [100]), (valueName,.tensor [100])] (k := 1) (fun q t h => ⟨t,h⟩) ?_
    (lt_succ_self _) ?_ fun K hK _ hts => ?_,.of_code (le_refl v) (lt_succ_self v)
    (le_refl i) (fun _ => none) ⟨trivial,target_at made_first rfl [],?_,trivial⟩,?_⟩
  · intro q hq
    simp only [mem_cons, List.not_mem_nil, or_false] at hq
    rcases hq with rfl | rfl | rfl
    · exact .inl ⟨v,by omega,by omega,rfl⟩
    · exact .inr hindex
    · exact .inr hvalue
  · have hi := (sparseName_ne_variableName hindex v).symm
    have hv := (sparseName_ne_variableName hvalue v).symm
    simp [puts, lookup_put, hi, hv]
  · simp only [forall_mem_cons] at hK hts
    obtain ⟨hout,hi,hv⟩ := hK
    obtain ⟨ha,hb⟩ := hts
    refine ⟨trivial,within_plain.2 hout,?_,trivial⟩
    cases ea with
    | var y index inFlash =>
      rw [within_var] at ha
      simpa [Closed, hout, hi, hv, hb] using ha.2
    | _ => simp [Closed, hout, hi, hv, hb]
  · exact call_confined (by decide) (by decide) [_, _, eb.inMemory] (numbers_root _) made_first
  · simp [arraysAll, arrays, Term.root?]

theorem lowerAdditive_produces (op : Token) (h : type ≠ .int) :
    Ends b (lowerAdditive cx type op ea eb) (Produces [ea, eb] type [] b) := by
  refine ends_neutral fun ⟨how,arith⟩ => ?_
  cases type with
  | int => exact absurd rfl h
  | _ => exact storeTwo_produces _ ea eb _ _

theorem at_iterators (h : t.Within K) (names : List String) :
    (t.at (names.map plain)).Within fun y => K y ∨ y ∈ names := by
  refine Term.Within.at (h.mono fun _ => .inl) fun u hu => ?_
  obtain ⟨x,hx,rfl⟩ := List.mem_map.1 hu
  exact within_plain.2 (.inr hx)

theorem Produces.of_loops {types tables v i ts target value}
    (h : nest cx.settings shape ((row iteratorName i shape.length).map plain)
      [.assign target value] = .ok loops)
    (htarget : target = (plain (variableName v)).at ((row iteratorName i shape.length).map plain))
    (hvalue : ∀ K : String → Prop, K (variableName v) → (∀ t ∈ ts, t.Within K) →
      value.Within fun y => K y ∨ y ∈ row iteratorName i shape.length) :
    Produces ts type [] ⟨⟨types,tables,v⟩,i⟩
      ⟨⟨put (variableName v) type types,tables,v+1⟩,i+shape.length⟩
      (loops,plain (variableName v)) := by
  subst htarget
  have hwrites : ConfinedAll (Made v i (v+1) (i+shape.length)) (bounds i shape) loops := by
    refine loops_confined cx (fun p hp => hp) ?_ h
    exact ⟨target_variable (le_refl v) (lt_succ_self v) _,trivial⟩
  refine .of_one (bounds i shape) (fun K hout hts => ?_) (le_add_right i _) hwrites
    (by rw [nest_ok h, arrays_nested]; rfl)
  refine nest_closed h (length_row _ _ _) (fun x hx => ?_)
    ⟨⟨at_iterators (within_plain.2 hout) _,hvalue K hout hts⟩,trivial⟩
  obtain ⟨n,-,-,hn⟩ := mem_row.1 hx
  exact ⟨n,hn⟩

theorem lowerUnary_produces (op : Token) (hop : op ≠ .plus) (h : type ≠ .int) :
    Ends b (lowerUnary cx type op e) (Produces [e] type [] b) := by
  unfold lowerUnary
  rw [if_neg (by simpa using hop)]
  refine ends_neutral fun _ => ?_
  split
  · exact absurd rfl h
  refine ends_freshVar (ends_neutral fun shape => ends_freshIterators (ends_neutral fun p => ?_))
  refine ends_neutral fun a => ends_attempt fun loops hloops => ends_record (ends_pure ?_)
  refine .of_loops cx _ hloops rfl fun K _ hts => ?_
  exact within_unary.2 (at_iterators (hts e (by simp)) _)

theorem lowerCond_produces (ec : Term) (h : ta ≠ .int) :
    Ends b (lowerCond cx tb ta ec ea eb) (Produces [ec, ea, eb] ta [] b) := by
  obtain ⟨⟨types,tables,v⟩,i⟩ := b
  refine ends_neutral fun testShape => ?_
  split
  · exact absurd rfl h
  refine ends_freshVar (ends_neutral fun shape => ends_freshIterators (ends_neutral fun pa => ?_))
  refine ends_neutral fun pb => ends_neutral fun ia => ends_neutral fun ib => ?_
  refine ends_attempt fun valueA hvalueA => ends_attempt fun valueB hvalueB => ?_
  refine ends_attempt fun loops hloops => ends_record (ends_pure ?_)
  refine .of_loops cx _ hloops rfl fun K _ hts => ?_
  have htest := (cell_within (hts ec (by simp)) testShape).mono
    fun y => Or.inl (b := y ∈ row iteratorName i shape.length)
  have hA := scaleDown_within hvalueA (at_iterators (hts ea (by simp)) _)
  have hB := scaleDown_within hvalueB (at_iterators (hts eb (by simp)) _)
  exact within_select.2 ⟨within_compare.2 ⟨htest,within_int 0⟩,hA,hB⟩

theorem pickAll_map_ok {f} {ys : List β} (h : pickAll (xs.map f) order = .ok ys) :
    ∃ picked, pickAll xs order = .ok picked ∧ picked.map f = ys := by
  rw [pickAll_ok] at h
  induction h with
  | nil => exact ⟨[],rfl,rfl⟩
  | cons hy _ ih =>
    obtain ⟨picked,hpicked,rfl⟩ := ih
    obtain ⟨k,hk,hy⟩ := pick_ok.1 hy
    rw [List.length_map] at hk
    rw [List.getElem?_map, Option.map_eq_some_iff] at hy
    obtain ⟨x,hx,rfl⟩ := hy
    exact ⟨x::picked,pickAll_ok.2 (.cons (pick_ok.2 ⟨k,hk,hx⟩) (pickAll_ok.1 hpicked)),rfl⟩

theorem mem_pickAll (h : pickAll xs order = .ok ys) : y ∈ ys ↔ ∃ o ∈ order, pick xs o = .ok y := by
  rw [pickAll_ok] at h
  induction h with
  | nil => simp
  | cons hx _ ih => simp [ih, hx, eq_comm]

theorem mem_of_mem_pickAll (h : pickAll xs order = .ok ys) (hy : y ∈ ys) : y ∈ xs := by
  obtain ⟨o,-,hpick⟩ := (mem_pickAll h).1 hy
  obtain ⟨k,-,hk⟩ := pick_ok.1 hpick
  exact List.mem_of_getElem? hk

def Visits (order : List Int) (dims : Nat) : Prop := ∀ k < dims, (k : Int)+1 ∈ order

theorem Visits.mem_iff (hvisits : Visits order xs.length) (h : pickAll xs order = .ok ys) {x} :
    x ∈ ys ↔ x ∈ xs := by
  constructor
  · exact mem_of_mem_pickAll h
  · intro hx
    obtain ⟨k,hk,rfl⟩ := List.getElem_of_mem hx
    refine (mem_pickAll h).2 ⟨(k : Int)+1,hvisits k hk,?_⟩
    exact pick_ok.2 ⟨k,by rw [if_neg (by omega)]; omega,List.getElem?_eq_getElem hk⟩

theorem stepIndices_arrays {code ts} (h : stepIndices cx.settings step ts = .ok code) :
    arraysAll code = arraysAll step := by
  induction ts generalizing step with
  | nil =>
    cases h
    rfl
  | cons p ts ih =>
    simpa [arraysAll, arrays, increment, setZero] using ih (literal_bind h)

theorem stepIndices_closed {code ts}
    (h : stepIndices cx.settings step ts = .ok code) (hts : ∀ p ∈ ts, p.1.Within K)
    (hstep : ClosedAll Iterates K step) : ClosedAll Iterates K code := by
  induction ts generalizing step with
  | nil =>
    cases h
    exact hstep
  | cons p ts ih =>
    obtain ⟨ht,hts⟩ := List.forall_mem_cons.1 hts
    refine ih (literal_bind h) hts ⟨?_,⟨?_,?_,trivial⟩,trivial⟩
    · exact ⟨ht,within_arith.2 ⟨ht,within_int 1⟩⟩
    · exact within_compare.2 ⟨ht,within_int p.2⟩
    · exact ⟨⟨ht,within_int 0⟩,hstep⟩

theorem reshape_closed {inShape loopShape outShape}
    {reads writes : List String} {loopReads} {out first : Term}
    (hvisits : Visits order reads.length)
    (hreads : ∀ x ∈ reads, Iterates x) (hfirst : first ∈ writes.map plain)
    (hstep : stepIndices cx.settings [increment first] ((writes.map plain).zip outShape).tail =
      .ok step) (hshape : pickAll inShape order = .ok loopShape)
    (hloopReads : pickAll (reads.map plain) order = .ok loopReads)
    (hloops : nest cx.settings loopShape loopReads
      (.assign (out.at (writes.map plain)) (e.at (reads.map plain))::step) = .ok loops)
    (hout : out.Within K) (he : e.Within K) (hwrites : ∀ x ∈ writes, K x) :
    ClosedAll Iterates K loops := by
  obtain ⟨names,hpicked,rfl⟩ := pickAll_map_ok hloopReads
  have hnames : ∀ x, x ∈ names ↔ x ∈ reads := fun x => hvisits.mem_iff hpicked
  have hcells : ∀ t ∈ writes.map plain, t.Within fun y => K y ∨ y ∈ names := by
    rw [forall_mem_map]
    exact fun x hx => within_plain.2 (.inl (hwrites x hx))
  have hcount : names.length = loopShape.length := by
    rw [← (pickAll_ok.1 hpicked).length_eq, (pickAll_ok.1 hshape).length_eq]
  refine nest_closed hloops hcount (fun x hx => hreads x ((hnames x).1 hx)) ⟨⟨?_,?_⟩,?_⟩
  · exact Term.Within.at (hout.mono fun _ => .inl) hcells
  · exact (at_iterators he reads).mono fun y => Or.imp_right (hnames y).2
  · refine stepIndices_closed cx hstep (fun p hp => ?_) ⟨?_,trivial⟩
    · exact hcells p.1 (List.of_mem_zip (List.mem_of_mem_tail hp)).1
    · have := hcells first hfirst
      exact ⟨this,within_arith.2 ⟨this,within_int 1⟩⟩

/-- A reshape along an order that leaves out a dimension has code that is not closed. -/
theorem lowerReshape_leaves (order : List Int) : Ends b (lowerReshape cx ta type order e)
    fun b' r => Own b.nextVar b.nextIterator b'.nextVar b'.nextIterator r ∧ arraysAll r.1 = [] ∧
        ((∀ s, ta.shape = .ok s → Visits order s.length) → Makes [e] type b b' r) := by
  obtain ⟨⟨types,tables,v⟩,i⟩ := b
  refine ends_neutral fun p => ends_neutral fun a => ends_attempt fun inShape hin => ?_
  refine ends_neutral fun outShape => ends_freshVar ?_
  refine ends_freshIterators (ends_freshVars ?_)
  rw [Nat.add_assoc]
  refine ends_firstOf fun first hfirst => ends_attempt fun step hstep => ?_
  refine ends_attempt fun loopShape hshape => ends_attempt fun loopReads hloopReads => ?_
  refine ends_attempt fun loops hloops => ends_neutral fun name => ends_record ?_
  refine ends_declareAll (ends_pure ⟨?_,?_,fun horder => ?_⟩)
  · have hwrites : ∀ w ∈ (row variableName (v+1) outShape.length).map plain, w.Target
        (Made v i (v+(1+outShape.length)) (i+inShape.length)) (bounds i inShape) := by
      intro w hw
      obtain ⟨x,hx,rfl⟩ := List.mem_map.1 hw
      obtain ⟨n,hn,hn',rfl⟩ := mem_row.1 hx
      exact target_variable (by omega) (by omega) []
    have hloops' : ConfinedAll (Made v i (v+(1+outShape.length)) (i+inShape.length))
        (bounds i inShape) loops := by
      refine loops_confined cx (pickAll_mem (by simp) hloopReads hshape) ?_ hloops
      refine ⟨target_variable (le_refl v) (by omega) _,?_⟩
      refine stepIndices_confined cx ?_ (fun p hp => hwrites p.1 ?_) hstep
      · exact ⟨hwrites first hfirst,trivial⟩
      · exact (List.of_mem_zip (List.mem_of_mem_tail hp)).1
    have hv : v < v+(1+outShape.length) := by omega
    refine .of_code (le_refl v) hv (le_add_right _ _) (bounds i inShape) ?_
    rw [confinedAll_iff] at hloops' ⊢
    intro j hj
    rcases List.mem_append.1 hj with hj | hj
    · rcases List.mem_append.1 hj with hj | hj
      · obtain rfl := List.mem_singleton.1 hj
        trivial
      · obtain ⟨w,hw,rfl⟩ := List.mem_map.1 hj
        exact hwrites w hw
    · exact hloops' j hj
  · have hzeros : ∀ ws : List Term, arraysAll (ws.map fun w => .assign w zero) = [] := by
      intro ws
      induction ws with
      | nil => rfl
      | cons w ws ih => exact ih
    rw [arraysAll_append, arraysAll_append, hzeros, nest_ok hloops, arrays_nested]
    simpa [arraysAll, arrays, increment] using stepIndices_arrays cx hstep
  · have hwrites : ∀ x ∈ row variableName (v+1) outShape.length,
        ∃ n, v+1 ≤ n ∧ n < v+(1+outShape.length) ∧ x = variableName n := by
      intro x hx
      obtain ⟨n,hn,hn',rfl⟩ := mem_row.1 hx
      exact ⟨n,hn,by omega,rfl⟩
    generalize row variableName (v+1) outShape.length = writes at *
    refine .of_puts ((variableName v,type)::writes.map fun x => (x,.int))
      (fun q t h => ⟨t,h⟩) ?_ (by omega) ?_ fun K hK _ hts => ?_
    · rw [forall_mem_cons, forall_mem_map]
      refine ⟨.inl ⟨v,by omega,by omega,rfl⟩,fun x hx => ?_⟩
      obtain ⟨n,hn,hn',rfl⟩ := hwrites x hx
      exact .inl ⟨n,by omega,hn',rfl⟩
    · change (puts (writes.map fun x => (x,.int)) (put (variableName v) type types)).lookup _ = _
      rw [lookup_puts_of_notMem, lookup_put, beq_self_eq_true]
      · rfl
      · rw [forall_mem_map]
        intro x hx heq
        obtain ⟨n,hn,-,rfl⟩ := hwrites x hx
        have := variableName_inj heq
        omega
    · rw [forall_mem_cons, forall_mem_map] at hK
      obtain ⟨hout,hK⟩ := hK
      have hvisits : Visits order (row iteratorName i inShape.length).length := by
        rw [length_row]
        exact horder inShape hin
      have hreads : ∀ x ∈ row iteratorName i inShape.length, Iterates x := fun x hx => by
        obtain ⟨n,-,-,hn⟩ := mem_row.1 hx
        exact ⟨n,hn⟩
      rw [closedAll_append, closedAll_append]
      refine ⟨⟨⟨trivial,trivial⟩,?_⟩,reshape_closed cx e hvisits hreads hfirst hstep hshape
        hloopReads hloops (within_plain.2 hout) (hts e (by simp)) hK⟩
      rw [closedAll_iff, forall_mem_map, forall_mem_map]
      exact fun x hx => ⟨within_plain.2 (hK x hx),within_int 0⟩

/-- The operation works on the variable of an operand, which is also its result. -/
structure Reuses (t : Term) (ts : List Term) (b b' : Tally) (r : Lowered) : Prop where
  same : b' = b
  call : ∃ c f rest, f ∈ inPlace ∧ r = ([.comment c, .call f (t.inMemory::rest)],t.inMemory)
  code : ∀ K : String → Prop, (∀ u ∈ ts, u.Within K) → ClosedAll Iterates K r.1

theorem Reuses.arrays {ts} (h : Reuses t ts b b' r) : arraysAll r.1 = [] := by
  obtain ⟨c,f,rest,hf,rfl⟩ := h.call
  refine arrays_call ?_ c _
  rintro rfl
  revert hf
  decide

theorem Plan.overwrite_reuses (c : Plan Update) (others : List Term) (text : String) :
    Ends b (c.overwrite e others text) (Reuses e (e::others) b) := by
  refine ends_neutral fun _ => ends_neutral fun _ => ends_neutral fun _ => ends_pure ?_
  refine ⟨rfl,⟨_,_,_,?_,rfl⟩,fun K hts => ⟨trivial,?_,trivial⟩⟩
  · cases c.routine with
    | bias wide => cases wide <;> decide
    | relu wide => cases wide <;> decide
    | tanh => decide
  · have hflags : ∀ t ∈ c.routine.flags, t.Within K := by
      cases c.routine <;> simp [Update.flags]
    rw [forall_mem_cons] at hts
    refine List.forall_mem_cons.2 ⟨within_inMemory.2 hts.1,fun t ht => ?_⟩
    simp only [List.mem_append, List.mem_map] at ht
    rcases ht with (⟨u,hu,rfl⟩ | ⟨n,-,rfl⟩) | ht
    · exact within_inMemory.2 (hts.2 u hu)
    · exact within_int n
    · exact hflags t ht

theorem lowerBias_reuses (op : Token) :
    Ends b (lowerBias cx type op ea eb) (Reuses ea [ea, eb] b) :=
  ends_neutral fun _ => ends_neutral fun c => ends_neutral fun _ => ends_neutral fun _ =>
    c.overwrite_reuses ea [eb] _

theorem lowerRelu_reuses : Ends b (lowerRelu cx type e) (Reuses e [e] b) :=
  ends_neutral fun c => ends_neutral fun _ => c.overwrite_reuses e [] _

theorem lowerTanh_reuses : Ends b (lowerTanh cx ta e) (Reuses e [e] b) :=
  ends_neutral fun c => ends_neutral fun _ => c.overwrite_reuses e [] _

/-- The result and the loop of a sum are made for it, and the summand is added to the result. -/
structure Sums (t : Term) (type : Ty) (turns : Int) (b b' : Tally) (s : SumLoop) : Prop where
  vars : b'.nextVar = b.nextVar+1
  iterators : b.nextIterator+1 ≤ b'.nextIterator
  iterator : s.iterator = plain (iteratorName b.nextIterator)
  out : s.out = plain (variableName b.nextVar)
  first : ∃ n, s.first = .int n
  turns : s.turns = .int turns
  adds : Produces [t] type [] ⟨b.toBook,b.nextIterator+1⟩ b' (s.adds,plain (variableName b.nextVar))

theorem lowerSum_sums (first last : Int) :
    Ends b (lowerSum cx type first last e) (Sums e type (last-first) b) := by
  refine ends_freshVar (ends_freshIterator (ends_neutral fun shape => ends_freshIterators ?_))
  refine ends_neutral fun p => ends_neutral fun ⟨p,halving,_⟩ => ends_neutral fun a => ?_
  refine ends_attempt fun value hvalue => ends_attempt fun loops hloops => ?_
  refine ends_number (ends_number (ends_record (ends_pure ?_)))
  refine ⟨rfl,le_add_right _ _,rfl,rfl,⟨first,rfl⟩,rfl,?_⟩
  refine .of_loops cx _ hloops rfl fun K hout hts => ?_
  have hadd := scaleDown_within hvalue (at_iterators (hts e (by simp)) _)
  exact within_arith.2 ⟨at_iterators (within_plain.2 hout) _,hadd⟩

end Operations

end MicroLearn.Lower
