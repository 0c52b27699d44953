import MicroLearn.Lower.State

/-!
# Lowering programs

Every expression becomes instructions that compute it and a term that holds its
value. Tensors end up in variables, integers may stay terms. A name that is bound
to a tensor is replaced by the variable that holds it.
-/

set_option autoImplicit false

namespace MicroLearn.Lower

open Lang (Ty Expr Token)
open Code
open Lowering

abbrev Lowered := List Instr × Term

variable (cx : Context)

def number (n : Int) : Lowering Term := attempt (literal cx.settings n)

def numbers (cx : Context) : List Int → Lowering (List Term)
  | [] => return []
  | n::ns => do
    let t ← number cx n
    return t::(← numbers cx ns)

def require (condition : Bool) : Lowering Unit := attempt (demand condition)

def nameOf (t : Term) : Lowering String := attempt t.varName

def shapeOf (t : Ty) : Lowering (List Int) := attempt t.shape

def firstOf : List Term → Lowering Term
  | t::_ => return t
  | [] => fail .outOfRange

def look (t : Term) : Lowering Operand := do
  let p ← scaleOfTerm t
  let a ← intervalOfTerm t
  let name ← nameOf t
  return ⟨p,a,(← get).globals.contains name⟩

def Plan.store (c : Plan Routine) (type : Ty) (operands : List Term) (text : String) :
    Lowering Lowered := do
  let before := operands.map Term.inMemory
  let after := c.numbers.map Term.int
  match c.routine.room with
  | none =>
    let out ← freshVar
    record out type c.scale c.interval
    return ([.comment text, .call c.routine.name (before++out::after)],out)
  | some n =>
    let sum ← freshVar
    let out ← freshVar
    record out type c.scale c.interval
    declare (← nameOf sum) (.tensor [n])
    return ([.comment text, .call c.routine.name (before++out::sum::after)],out)

def Plan.overwrite (c : Plan Update) (e : Term) (others : List Term) (text : String) :
    Lowering Lowered := do
  let name ← nameOf e
  setScale name c.scale
  setInterval name c.interval
  return ([.comment text, .call c.routine.name
    (e.inMemory::(others.map Term.inMemory++c.numbers.map .int++c.routine.flags))],e.inMemory)

def planOne {ρ : Type} (e : Term) (plan : Operand → Except Fault (Plan ρ)) :
    Lowering (Plan ρ) := do
  attempt (plan (← look e))

def planTwo {ρ : Type} (ea eb : Term) (plan : Operand → Operand → Except Fault (Plan ρ)) :
    Lowering (Plan ρ) := do
  let a ← look ea
  let b ← look eb
  attempt (plan a b)

variable (type : Ty)

def storeTwo (sign : String) (ea eb : Term)
    (plan : Operand → Operand → Except Fault (Plan Routine)) : Lowering Lowered := do
  let c ← planTwo ea eb plan
  let text := (← nameOf ea)++sign++(← nameOf eb)
  c.store type (c.routine.order ea eb) text

def testShape : Ty → Lowering (List Int)
  | .int => return []
  | t => shapeOf t

def lowerReal (v : Float) : Lowering Lowered := do
  let p ← attempt (scaleOf cx.settings.word (Number.magnitude v))
  let a ← attempt (intervalOf p v v)
  let n ← attempt (atScale v p)
  let out ← freshVar
  let name ← nameOf out
  record out type p a
  setConstant name n
  return ([],out)

def lowerDecl (low high : Float) : Lowering Lowered := do
  let greatest := Number.greater (Number.magnitude low) (Number.magnitude high)
  let p ← attempt (scaleOf cx.settings.word greatest)
  let a ← attempt (intervalOf p low high)
  let out ← freshVar
  let name ← nameOf out
  setScale name p
  setInterval name a
  return ([],.var name [] true)

def lowerTranspose (e : Term) : Lowering Lowered := do
  let c ← planOne e (transposePlan cx type)
  c.store type [e] ((← nameOf e)++"^T")

/-- Steps the target indices of a reshape to the next element in row-major order: each index that
reaches the end of its dimension goes back to zero and moves the one before it. -/
def stepIndices (s : Settings) : List Instr → List (Term × Int) → Except Fault (List Instr)
  | step, [] => .ok step
  | step, (i,n)::rest => do
    let n ← literal s n
    stepIndices s [increment i, .branch (eq i n) (setZero i::step) []] rest

/-- Picks the dimension with a number that counts from one, or backwards from the last below one. -/
def pick {α : Type} (xs : List α) (order : Int) : Except Fault α :=
  let k := order-1
  let k := if k < 0 then k+xs.length else k
  if k < 0 then .error .outOfRange
  else match xs[k.toNat]? with
    | some x => .ok x
    | none => .error .outOfRange

def pickAll {α : Type} (xs : List α) (order : List Int) : Except Fault (List α) :=
  order.mapM (pick xs)

def lowerReshape (source type : Ty) (order : List Int) (e : Term) :
    Lowering Lowered := do
  let p ← scaleOfTerm e
  let a ← intervalOfTerm e
  let inShape ← shapeOf source
  let outShape ← shapeOf type
  let out ← freshVar
  let reads ← freshIterators inShape.length
  let writes ← freshVars outShape.length
  let start := writes.map fun w => Instr.assign w zero
  let first ← firstOf writes
  let step ← attempt (stepIndices cx.settings [increment first] (writes.zip outShape).tail)
  let loopShape ← attempt (pickAll inShape order)
  let loopReads ← attempt (pickAll reads order)
  let copy := Instr.assign (out.at writes) (e.at reads)
  let loops ← attempt (nest cx.settings loopShape loopReads (copy::step))
  let name ← nameOf e
  let comment := "reshape("++name++", "++Text.join ", " (outShape.map toString)++")"
  record out type p a
  for w in writes do
    declare (← nameOf w) .int
  return ([.comment comment]++start++loops,out)

def lowerMaxpool (source type : Ty) (stride : Int) (e : Term) :
    Lowering Lowered := do
  let c ← planOne e fun a => maxpoolPlan cx source a stride
  c.store type [e] ("maxpool("++(← nameOf e)++", "++toString stride++")")

/-- A call of a function that is not known here: it gets the arguments, the result and its
dimensions. -/
def lowerCall (f : String) (args : List Term) : Lowering Lowered := do
  let out ← freshVar
  let dims ← numbers cx (← shapeOf type)
  let names ← args.mapM nameOf
  let first ← firstOf args
  declare (← nameOf out) type
  setScale (← nameOf out) (← scaleOfTerm first)
  setInterval (← nameOf out) (← intervalOfTerm first)
  return ([.comment (f++"("++Text.join ", " names++")"),
    .call f (args++[out]++dims)],out)

def lowerUnary (op : Token) (e : Term) : Lowering Lowered := do
  if op == .plus then return ([],e)
  require (op == .minus)
  match type with
  | .int => return ([],negate e)
  | _ =>
    let out ← freshVar
    let shape ← shapeOf type
    let iterators ← freshIterators shape.length
    let p ← scaleOfTerm e
    let a ← intervalOfTerm e
    let loops ← attempt
      (nest cx.settings shape iterators [.assign (out.at iterators) (negate (e.at iterators))])
    record out type p ⟨-a.high,-a.low⟩
    return (loops,out)

def sparseNames (name : String) : Except Fault (String × String) :=
  match name.toList with
  | c::_ => .ok (String.singleton c++"idx",String.singleton c++"val")
  | [] => .error .outOfRange

def lowerSparseProduct (ta tb type : Ty) (ea eb : Term) : Lowering Lowered := do
  let inner ← attempt (columnOf ta tb)
  let c ← planTwo ea eb fun a b => sparsePlan cx a b inner
  let out ← freshVar
  let nameA ← nameOf ea
  let nameB ← nameOf eb
  let (indexName,valueName) ← attempt (sparseNames nameA)
  let index := match ea with
    | .var _ index _ => index
    | _ => []
  let outShape ← shapeOf type
  record out type c.scale c.interval
  declare indexName (.tensor [100])
  declare valueName (.tensor [100])
  addGlobals [indexName, valueName]
  return ([.comment (nameA++" |*| "++nameB),
    .clear out (Lang.volume outShape),
    .call "SparseMatMul" ([.var indexName index false, .var valueName index false,
      eb.inMemory]++out::c.numbers.map .int)],out)

def lowerBias (op : Token) (ea eb : Term) : Lowering Lowered := do
  require (op == .addBias)
  let c ← planTwo ea eb (biasPlan cx type)
  c.overwrite ea [eb] ((← nameOf ea)++" <+> "++(← nameOf eb))

def lowerProduct (ta tb type : Ty) (op : Token) (ea eb : Term) :
    Lowering Lowered := do
  match op with
  | .times =>
    match type, ta, tb with
    | .int, _, _ => return ([],mul ea eb)
    | _, .tensor [], _ => storeTwo type " * " ea eb (scalarPlan cx ta tb)
    | _, _, .tensor [] => storeTwo type " * " ea eb (scalarPlan cx ta tb)
    | _, _, _ => storeTwo type " * " ea eb (matrixPlan cx ta tb)
  | .sparseTimes => lowerSparseProduct cx ta tb type ea eb
  | .pointwiseTimes => storeTwo type " <*> " ea eb (pointwisePlan cx type)
  | .convolve => storeTwo type " # " ea eb (convolutionPlan cx ta tb)
  | .addBias | .subtractBias => lowerBias cx type op ea eb
  | _ => fail .requirement

def additiveOf : Token → Except Fault (Additive × Arith)
  | .plus => .ok (.plus,.add)
  | .minus => .ok (.minus,.sub)
  | _ => .error .unassigned

def lowerAdditive (op : Token) (ea eb : Term) : Lowering Lowered := do
  let (how,arith) ← attempt (additiveOf op)
  match type with
  | .int => return ([],.arith ea arith eb)
  | _ =>
    let sign := " "++arith.text++" "
    storeTwo type sign ea eb fun a b => additivePlan cx type a b how

def lowerRelu (e : Term) : Lowering Lowered := do
  let c ← planOne e (reluPlan cx type)
  c.overwrite e [] ("relu("++(← nameOf e)++")")

def expRange : Lowering ExpRange := do
  match (← get).range with
  | some r => return r
  | none =>
    let r ← attempt (expRangeOfProfile cx.profile)
    setRange r
    return r

/-- A factor `2 ^ n` of the code; below one it is cut to zero. -/
def factor (n : Int) : Lowering Term :=
  if 0 ≤ n then number cx (Number.twoPow n.toNat) else number cx 0

def libraryArgument : Float := 0.1

def lowerLibraryExp (source : Ty) (e : Term) : Lowering Lowered := do
  let p ← scaleOfTerm e
  let _ ← intervalOfTerm e
  let greatest := Number.exponential (-libraryArgument)
  let out ← freshVar
  let q ← attempt (scaleOf cx.settings.word greatest)
  let a ← attempt (intervalOf q greatest greatest)
  let down ← factor cx (-p)
  let up ← factor cx (-q)
  let zeros := (← shapeOf source).map fun _ => zero
  let value := integerCast (mul (.exp (div (castToReal (e.at zeros)) down)) up)
  let name ← nameOf e
  record out source q a
  return ([.comment ("exp("++name++")"), .assign (out.at zeros) value],out)

def findTable (r : ExpRange) (p : Int) : Lowering Unit := do
  match (← get).tables.lookup p with
  | some _ => return ()
  | none =>
    let t ← attempt (expTable cx.settings.word cx.settings.expBits r p)
    setTable p t

def lowerTableExp (r : ExpRange) (source : Ty) (e : Term) : Lowering Lowered := do
  let word := cx.settings.word
  let bits := cx.settings.expBits
  let p ← scaleOfTerm e
  let _ ← intervalOfTerm e
  let least ← attempt (atScale r.low p)
  let most ← attempt (atScale r.high p)
  let shl ← attempt (headroom word bits (← attempt (span r p)))
  let input ← freshVar
  let i ← freshVar
  let j ← freshVar
  let out ← freshVar
  let mask ← number cx (Number.twoPow bits-1)
  let shrI : Int := (word : Int)-bits
  let shrJ : Int := (word : Int)-2*bits
  findTable cx r p
  let (tableA,tableB) := tableNames p
  let p1 ← attempt (scaleOf word 1.0)
  let p2 ← attempt (scaleOf word (Number.exponential (-r.low)))
  let (s1,s2) := shiftsForMul word cx.maxScale p1 p2
  let zeros := (← shapeOf source).map fun _ => zero
  let argument := negate (e.at zeros)
  let leastTerm ← number cx least
  let offset ← attempt (shiftLeft cx.settings (sub argument leastTerm) shl)
  let high ← attempt (shiftRight cx.settings input shrI)
  let low ← attempt (shiftRight cx.settings input shrJ)
  let choose := Instr.branch (lt argument leastTerm)
    [.assign i zero, .assign j zero]
    [.assign input offset, .assign i (bitwiseAnd high mask), .assign j (bitwiseAnd low mask)]
  let left ← attempt (shiftRight cx.settings (.var tableA [i] true) s1)
  let right ← attempt (shiftRight cx.settings (.var tableB [j] true) s2)
  let q := scaleForMul p1 s1 p2 s2
  let a ← attempt (intervalForExp r.high q ⟨-least,-most⟩)
  let name ← nameOf e
  record out source q a
  declare (← nameOf input) .int
  declare (← nameOf i) .int
  declare (← nameOf j) .int
  return ([.comment ("exp("++name++")"), choose,
    .assign (out.at zeros) (mul left right)],out)

def lowerArgmax (source : Ty) (e : Term) : Lowering Lowered := do
  let shape ← shapeOf source
  require (shape.length == 2)
  let out ← freshVar
  let name ← nameOf e
  let dims ← numbers cx shape
  declare (← nameOf out) .int
  return ([.comment ("argmax("++name++")"),
    .call "ArgMax" (e.inMemory::dims++[out])],out)

def lowerSign (source : Ty) (e : Term) : Lowering Lowered := do
  let out ← freshVar
  let zeros := (← shapeOf source).map fun _ => zero
  let name ← nameOf e
  declare (← nameOf out) .int
  return ([.comment ("sgn("++name++")"),
    .assign out (ifPositive (e.at zeros) one zero)],out)

def lowerTanh (source : Ty) (e : Term) : Lowering Lowered := do
  let c ← planOne e (tanhPlan cx source)
  c.overwrite e [] ("tanh("++(← nameOf e)++")")

/-- What has to be known before the argument of a function is lowered: the range of exponents,
and that there is such a function. -/
def prepare (op : Token) : Lowering Unit :=
  match op with
  | .relu | .argmax | .sgn | .tanh => return ()
  | .exp => do
    let _ ← expRange cx
    match cx.settings.exp with
    | .library | .table => return ()
    | .unsupported => fail .requirement
  | _ => fail .requirement

def lowerApply (source type : Ty) (op : Token) (e : Term) : Lowering Lowered :=
  match op with
  | .relu => lowerRelu cx type e
  | .exp =>
    match cx.settings.exp with
    | .library => lowerLibraryExp cx source e
    | .table => do lowerTableExp cx (← expRange cx) source e
    | .unsupported => fail .requirement
  | .argmax => lowerArgmax cx source e
  | .sgn => lowerSign source e
  | .tanh => lowerTanh cx source e
  | _ => fail .requirement

/-- The loop of a sum: its result, the variable that counts its turns, the terms of the first
index and of the number of turns, and the code that adds a summand to the result. -/
structure SumLoop where
  out : Term
  cells : Int
  iterator : Term
  first : Term
  turns : Term
  adds : List Instr

def SumLoop.around (s : SumLoop) (v : String) (code : List Instr) : List Instr :=
  [.clear s.out s.cells, .assign (plain v) s.first,
    .count s.iterator 0 (lt s.iterator s.turns) (code++s.adds++[increment (plain v)])]

def lowerSum (first last : Int) (e : Term) : Lowering SumLoop := do
  let out ← freshVar
  let iterator ← freshIterator
  let shape ← shapeOf type
  let iterators ← freshIterators shape.length
  let (p,halving,_) ← attempt (scaleForTreeSum cx.maxScale (← scaleOfTerm e) (last-first))
  let a := intervalForTreeSum cx.settings.word (← intervalOfTerm e) (last-first)
  let value ← attempt (scaleDown cx.settings (e.at iterators) halving)
  let cell := out.at iterators
  let loops ← attempt (nest cx.settings shape iterators [.assign cell (add cell value)])
  let start ← number cx first
  let turns ← number cx (last-first)
  record out type p a
  return ⟨out,Lang.volume shape,iterator,start,turns,loops⟩

def lowerCond (te ta : Ty) (ec ea eb : Term) : Lowering Lowered := do
  let test := ec.at ((← testShape te).map fun _ => zero)
  match ta with
  | .int => return ([],ifPositive test ea eb)
  | _ =>
    let out ← freshVar
    let shape ← shapeOf ta
    let iterators ← freshIterators shape.length
    let pa ← scaleOfTerm ea
    let pb ← scaleOfTerm eb
    let ia ← intervalOfTerm ea
    let ib ← intervalOfTerm eb
    let left := if pb ≤ pa then 0 else pb-pa
    let right := if pb ≤ pa then pa-pb else 0
    let down (n k : Int) : Int := n.fdiv (Number.twoPow k.toNat)
    let a : Interval := ⟨min (down ia.low left) (down ib.low right),
      max (down ia.high left) (down ib.high right)⟩
    let valueA ← attempt (scaleDown cx.settings (ea.at iterators) left)
    let valueB ← attempt (scaleDown cx.settings (eb.at iterators) right)
    let loops ← attempt (nest cx.settings shape iterators
      [.assign (out.at iterators) (ifPositive test valueA valueB)])
    record out ta (max pa pb) a
    return (loops,out)

/-- Gives a name to the tensor a term holds, and tells what the name stands for. A tensor of the
model is found under the name itself. -/
def bindTensor (v : String) (d : Expr Ty) (value : Term) : Lowering Term := do
  setScale v (← scaleOfTerm value)
  setInterval v (← intervalOfTerm value)
  if d.isDecl then
    addGlobals [v]
    declare v d.note
    return .var v [] true
  return value

def replacementOf (t : Term) : Lowering Replacement :=
  match t.replacement? with
  | some r => return r
  | none => fail .requirement

def Lowered.after (code : List Instr) (own : Lowered) : Lowered := (code++own.1,own.2)

mutual

def lower (cx : Context) : Expr Ty → Lowering Lowered
  | .int _ v => do return ([],← number cx v)
  | .real type v => lowerReal cx type v
  | .name _ id => do return ([],.var id [] ((← get).globals.contains id))
  | .decl _ _ low high => lowerDecl cx low high
  | .transpose type e => do
    let (code,t) ← lower cx e
    return .after code (← lowerTranspose cx type t)
  | .reshape type e _ order => do
    let (code,t) ← lower cx e
    return .after code (← lowerReshape cx e.note type order t)
  | .maxpool type e stride => do
    let (code,t) ← lower cx e
    return .after code (← lowerMaxpool cx e.note type stride t)
  | .index _ e i => do
    let (codeE,e) ← lower cx e
    let (codeI,i) ← lower cx i
    return (codeE++codeI,e.at [i])
  | .call type f args => do
    let (code,ts) ← lowerAll cx args
    return .after code (← lowerCall cx type f ts)
  | .unary type op e => do
    let (code,t) ← lower cx e
    return .after code (← lowerUnary cx type op t)
  | .product type op a b => do
    let (codeA,ea) ← lower cx a
    let (codeB,eb) ← lower cx b
    return .after (codeA++codeB) (← lowerProduct cx a.note b.note type op ea eb)
  | .additive type op a b => do
    let (codeA,ea) ← lower cx a
    let (codeB,eb) ← lower cx b
    return .after (codeA++codeB) (← lowerAdditive cx type op ea eb)
  | .apply type op e => do
    prepare cx op
    let (code,t) ← lower cx e
    return .after code (← lowerApply cx e.note type op t)
  | .sum type v first last e => do
    declare v .int
    let (code,t) ← lower cx e
    let s ← lowerSum cx type first last t
    return (s.around v code,s.out)
  | .cond _ e t f => do
    let (codeE,test) ← lower cx e
    let (codeA,ea) ← lower cx t
    let (codeB,eb) ← lower cx f
    return .after (codeE++codeA++codeB) (← lowerCond cx e.note t.note test ea eb)
  | .bind _ v d e => do
    let (codeD,value) ← lower cx d
    match d.note with
    | .int =>
      declare v .int
      let (codeE,result) ← lower cx e
      return (codeD++[.assign (plain v) value]++codeE,result)
    | _ =>
      let value ← bindTensor v d value
      let (codeE,result) ← lower cx e
      let r ← replacementOf value
      return (codeD++Instr.substAll v r codeE,result.subst v r)

def lowerAll (cx : Context) : List (Expr Ty) → Lowering (List Instr × List Term)
  | [] => return ([],[])
  | e::es => do
    let (code,t) ← lower cx e
    let (codes,ts) ← lowerAll cx es
    return (code++codes,t::ts)

end

end MicroLearn.Lower
