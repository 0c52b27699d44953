import MicroLearn.Code.Print

/-!
# What lowering keeps

A tensor of reals is held as integers times a power of two, its scale. This is the
bookkeeping: the scale a range needs, what each operation does to scales and to the
intervals in which the integers lie, and the declarations, scales, intervals and
constants found so far, each in the order in which they were first made.
-/

set_option autoImplicit false

namespace MicroLearn.Lower

open Number

structure Interval where
  low : Int
  high : Int
  deriving Repr, DecidableEq, Inhabited

def limit (word : Nat) : Int := Number.twoPow (word-2)-1

/-- The scale at which numbers up to `x` fill the word, as the doubles give it. -/
def scaleOf (word : Nat) (x : Float) : Except Fault Int :=
  integerAbove (logTwo x-logTwo (floatOfInt (limit word)))

def atScale (x : Float) (scale : Int) : Except Fault Int :=
  integerPart (scaleBinary x (-scale))

def intervalOf (scale : Int) (low high : Float) : Except Fault Interval := do
  let low ← atScale low scale
  return ⟨low,← atScale high scale⟩

def shifted (n : Int) (count : Int) : Except Fault Int :=
  if count < 0 then .error (.value "negative shift count")
  else .ok (n.fdiv (Number.twoPow count.toNat))

def scaleForMul (p1 shr1 p2 shr2 : Int) : Int := (p1+shr1)+(p2+shr2)

def intervalForMul (a : Interval) (shr1 : Int) (b : Interval) (shr2 : Int) :
    Except Fault Interval := do
  let m1 ← shifted a.low shr1
  let M1 ← shifted a.high shr1
  let m2 ← shifted b.low shr2
  let M2 ← shifted b.high shr2
  let low := min (min (m1*m2) (m1*M2)) (min (M1*m2) (M1*M2))
  let high := max (max (m1*m2) (m1*M2)) (max (M1*m2) (M1*M2))
  return ⟨low,high⟩

/-- The shifts of the two factors: half the word each, or less where the product would pass the
greatest scale. -/
def shiftsForMul (word : Nat) (maxScale p1 p2 : Int) : Int × Int :=
  let half : Int := ((word : Int)-2).fdiv 2
  let result := (p1+half)+(p2+half)
  if result < maxScale then (half,half)
  else
    let save : Int := (((result.natAbs : Int)-(maxScale.natAbs : Int)).natAbs : Int)
    let save1 := save.fdiv 2
    let save2 := save-save1
    (max (half-save1) 0,max (half-save2) 0)

/-- How many levels a tree over `n` numbers has, as the doubles give it. -/
def treeLevels (n : Int) : Except Fault Int := do
  integerAbove (logTwo (← doubleOfInt n))

/-- The scale of a sum of `n` numbers, and how many of its levels halve and how many do not. -/
def scaleForTreeSum (maxScale p n : Int) : Except Fault (Int × Int × Int) := do
  let levels ← treeLevels n
  let result := if maxScale ≤ p then p else min (p+levels) maxScale
  let halving := result-p
  demand (0 ≤ halving)
  let plain := levels-halving
  demand (0 ≤ plain)
  return (result,halving,plain)

def intervalForTreeSum (word : Nat) (a : Interval) (n : Int) : Interval :=
  ⟨max (n*a.low) (-limit word),min (n*a.high) (limit word)⟩

inductive Additive where
  | plus | minus
  deriving Repr, DecidableEq, Inhabited

def Additive.apply : Additive → Int → Int → Int
  | .plus, a, b => a+b
  | .minus, a, b => a-b

structure AddShifts where
  left : Int
  right : Int
  result : Int
  deriving Repr, DecidableEq, Inhabited

/-- Brings two summands to the greater scale, and one scale further if the sum would not fit. -/
def additive (word : Nat) (maxScale p1 p2 : Int) (a b : Interval) (op : Additive) :
    Int × Interval × AddShifts :=
  let left := if p2 ≤ p1 then 0 else p2-p1
  let right := if p2 ≤ p1 then p1-p2 else 0
  let p := max p1 p2
  let down (n k : Int) : Int := n.fdiv (Number.twoPow k.toNat)
  let m := op.apply (down a.low left) (down b.low right)
  let M := op.apply (down a.high left) (down b.high right)
  let carry := decide ((limit word+1) ≤ max (m.natAbs : Int) (M.natAbs : Int)) &&
    decide (p < maxScale)
  let k := if carry then 1 else 0
  (p+k,⟨max (down m k) (-limit word),min (down M k) (limit word)⟩,⟨left,right,k⟩)

def intervalForTanh (a bound : Interval) : Interval :=
  ⟨min a.low bound.low,min a.high bound.high⟩

/-- The number a library call takes for a shift by `n`. -/
def shiftOperand (s : Code.Settings) (n : Int) : Except Fault Int := do
  demand (0 ≤ n)
  match s.shift with
  | .absolute | .offset => Code.number s n
  | .divide => Code.number s (Number.twoPow n.toNat)
  | _ => .error .requirement

structure ExpRange where
  low : Float
  high : Float
  deriving Inhabited

structure ExpTable where
  high : List Int
  low : List Int
  deriving Repr, DecidableEq, Inhabited

/-- The two tables of a scale by name. Only the size of the scale enters the names. -/
def tableNames (scale : Int) : String × String :=
  let stem := "EXP"++toString scale.natAbs
  (stem++"A",stem++"B")

variable (word expBits : Nat)

/-- How far an offset up to `n` can be shifted left in the word. Halving a negative number never
reaches zero. -/
def headroom (n : Int) : Except Fault Int :=
  if n = 0 then .error .requirement
  else if n < 0 then .error .endless
  else .ok (min ((word : Int)-((n.toNat.log2 : Int)+1)) ((word : Int)-2*expBits))

def span (r : ExpRange) (scale : Int) : Except Fault Int := atScale (r.high-r.low) scale

def reachable (n shl : Int) : Except Fault Int := do
  let n ← shifted n ((word : Int)-shl-expBits)
  return n.emod (Number.twoPow expBits)+1

def expEntry (scale : Int) (x : Float) : Except Fault Int := atScale (exponential (-x)) scale

def tabulate (scale : Int) (argument : Float → Float) (count : Nat) : Except Fault (List Int) :=
  (List.range count).mapM fun (i : Nat) => expEntry scale (argument (floatOfInt i))

/-- How far the cells of the two tables are apart, as powers of two of the scale. -/
def tableSteps (shl : Int) : Int × Int :=
  ((word : Int)-shl-expBits,(word : Int)-shl-expBits-expBits)

def expTable (r : ExpRange) (scale : Int) : Except Fault ExpTable := do
  let shl ← headroom word expBits (← span r scale)
  let count := Number.twoPow expBits
  let (alpha,beta) := tableSteps word expBits shl
  let highScale ← scaleOf word 1.0
  let highStep := scaleBinary 1.0 (alpha+scale)
  let high ← tabulate highScale (fun i => i*highStep) count
  let lowScale ← scaleOf word (exponential (-r.low))
  let lowStep := scaleBinary 1.0 (beta+scale)
  let low ← tabulate lowScale (fun i => r.low+i*lowStep) count
  return ⟨high,low⟩

/-- The interval of the exponential over an interval of its argument, whose greatest value `top` is
known. -/
def intervalForExp (top : Float) (scale : Int) (a : Interval) : Except Fault Interval := do
  let most := scaleBinary top (-scale)
  demand (floatOfInt a.low < most)
  let high : Float ← if most < floatOfInt a.high then pure most else doubleOfInt a.high
  let low ← doubleOfInt a.low
  intervalOf scale (exponential (scaleBinary low scale)) (exponential (scaleBinary high scale))

open Lang (Ty)
open Code

def put {α β : Type} [BEq α] (k : α) (v : β) : List (α × β) → List (α × β)
  | [] => [(k,v)]
  | (k',v')::rest => if k' == k then (k',v)::rest else (k',v')::put k v rest

structure State where
  types : List (String × Ty) := []
  scales : List (String × Int) := []
  intervals : List (String × Interval) := []
  constants : List (String × Int) := []
  tables : List (Int × ExpTable) := []
  globals : List String := []
  nextVar : Nat := 0
  nextIterator : Nat := 0
  range : Option ExpRange := none
  deriving Inhabited

structure Context where
  settings : Settings
  maxScale : Int
  profile : Option String

abbrev Lowering := StateT State (Except Fault)

def variableName (n : Nat) : String := "tmp"++toString n

def iteratorName (n : Nat) : String := "i"++toString n

namespace Lowering

def fail {α : Type} (f : Fault) : Lowering α := StateT.lift (.error f)

def attempt {α : Type} (e : Except Fault α) : Lowering α := StateT.lift e

def freshVar : Lowering Term := do
  let s ← get
  set { s with nextVar := s.nextVar+1 }
  return plain (variableName s.nextVar)

def freshIterator : Lowering Term := do
  let s ← get
  set { s with nextIterator := s.nextIterator+1 }
  return plain (iteratorName s.nextIterator)

def freshVars : Nat → Lowering (List Term)
  | 0 => return []
  | n+1 => do
    let v ← freshVar
    return v::(← freshVars n)

def freshIterators : Nat → Lowering (List Term)
  | 0 => return []
  | n+1 => do
    let v ← freshIterator
    return v::(← freshIterators n)

def find {β : Type} (table : List (String × β)) (name : String) : Lowering β :=
  match table.lookup name with
  | some v => return v
  | none => fail (.unknownName name)

def scaleOfTerm (t : Term) : Lowering Int := do
  find (← get).scales (← attempt t.varName)

def intervalOfTerm (t : Term) : Lowering Interval := do
  find (← get).intervals (← attempt t.varName)

def declare (name : String) (t : Ty) : Lowering Unit :=
  modify fun s => { s with types := put name t s.types }

def setScale (name : String) (p : Int) : Lowering Unit :=
  modify fun s => { s with scales := put name p s.scales }

def setInterval (name : String) (a : Interval) : Lowering Unit :=
  modify fun s => { s with intervals := put name a s.intervals }

def setConstant (name : String) (n : Int) : Lowering Unit :=
  modify fun s => { s with constants := put name n s.constants }

def setTable (scale : Int) (t : ExpTable) : Lowering Unit :=
  modify fun s => { s with tables := put scale t s.tables }

def setRange (r : ExpRange) : Lowering Unit :=
  modify fun s => { s with range := some r }

def addGlobals (names : List String) : Lowering Unit :=
  modify fun s => { s with globals := s.globals++names }

def record (t : Term) (type : Ty) (p : Int) (a : Interval) : Lowering Unit := do
  let name ← attempt t.varName
  declare name type
  setScale name p
  setInterval name a

end Lowering

def profileRows (text : String) : Except Fault (List (List Float)) :=
  (Text.lines text).mapM fun line => (Text.fields ", " (Text.trim line)).mapM Lang.readReal

def pairOf : Option (List Float) → Except Fault (Float × Float)
  | none => .error .outOfRange
  | some [a, b] => .ok (a,b)
  | some row => .error (if row.length < 2 then .tooFewValues 2 row.length else .tooManyValues 2)

def maxScaleOfProfile (word : Nat) (profile : Option String) : Except Fault Int :=
  match profile with
  | none => .error .requirement
  | some text => do
    let rows ← profileRows text
    let (low,high) ← pairOf rows[0]?
    scaleOf word (Number.greater (Number.magnitude low) (Number.magnitude high))

def expRangeOfProfile (profile : Option String) : Except Fault ExpRange :=
  match profile with
  | none => .error .missingFile
  | some text => do
    let rows ← profileRows text
    let (low,high) ← pairOf rows[1]?
    return ⟨low,high⟩

open Lang (Ty twoOf fourOf)

structure Operand where
  scale : Int
  interval : Interval
  inModel : Bool

inductive Routine where
  | transpose
  | maxpool
  | scalarProduct (scalarFirst : Bool)
  | matrixProduct (inModelA inModelB : Bool) (summands : Int)
  | pointwiseProduct
  | convolution (summands : Int)
  | sum
  | difference

/-- The letter of the product's variant: whether an operand is a tensor of the model. -/
def variant (inModel : Bool) : String := if inModel then "C" else "N"

def Routine.name : Routine → String
  | .transpose => "Transpose"
  | .maxpool => "Maxpool"
  | .scalarProduct _ => "ScalarMul"
  | .matrixProduct a b _ => "MatMul"++variant a++variant b
  | .pointwiseProduct => "MulCir"
  | .convolution _ => "Conv"
  | .sum => "MatAdd"
  | .difference => "MatSub"

def Routine.room : Routine → Option Int
  | .matrixProduct _ _ n | .convolution n => some n
  | _ => none

def Routine.order {α : Type} (r : Routine) (a b : α) : List α :=
  match r with
  | .scalarProduct false => [b, a]
  | _ => [a, b]

inductive Update where
  | bias (wide : Bool)
  | relu (wide : Bool)
  | tanh

def Update.name : Update → String
  | .bias wide => if wide then "AddOrSubCir4D" else "AddOrSubCir2D"
  | .relu wide => if wide then "Relu4D" else "Relu2D"
  | .tanh => "TanH"

def Update.flags : Update → List Term
  | .bias _ => [.bool true]
  | _ => []

structure Plan (ρ : Type) where
  routine : ρ
  numbers : List Int
  scale : Int
  interval : Interval

def Context.literals (cx : Context) (ns : List Int) : Except Fault (List Int) :=
  ns.mapM (number cx.settings)

def Context.shifts (cx : Context) (ns : List Int) : Except Fault (List Int) :=
  ns.mapM (shiftOperand cx.settings)

def isWide (shape : List Int) : Except Fault Bool :=
  if shape.length == 4 then .ok true
  else if shape.length == 2 then .ok false
  else .error .requirement

variable (cx : Context) (ta tb type : Ty) (a b : Operand)

def transposePlan : Except Fault (Plan Routine) := do
  let (rows,cols) ← twoOf (← type.shape)
  return ⟨.transpose,← cx.literals [rows, cols],a.scale,a.interval⟩

def maxpoolPlan (stride : Int) : Except Fault (Plan Routine) := do
  let (n,h,w,c) ← fourOf (← ta.shape)
  return ⟨.maxpool,← cx.literals [n, h, w, c, stride],a.scale,a.interval⟩

structure Multiplied where
  left : Int
  right : Int
  scale : Int
  interval : Interval

def multiplied : Except Fault Multiplied := do
  let (left,right) := shiftsForMul cx.settings.word cx.maxScale a.scale b.scale
  let interval ← intervalForMul a.interval left b.interval right
  return ⟨left,right,scaleForMul a.scale left b.scale right,interval⟩

def scalarPlan : Except Fault (Plan Routine) := do
  let m ← multiplied cx a b
  let shapeA ← ta.shape
  let shapeB ← tb.shape
  let scalarFirst := shapeA.isEmpty
  let (rows,cols) ← twoOf (if scalarFirst then shapeB else shapeA)
  let shifts ← cx.shifts (if scalarFirst then [m.left, m.right] else [m.right, m.left])
  let dims ← cx.literals [rows, cols]
  return ⟨.scalarProduct scalarFirst,dims++shifts,m.scale,m.interval⟩

def matrixPlan : Except Fault (Plan Routine) := do
  let (rows,_) ← twoOf (← ta.shape)
  let (inner,cols) ← twoOf (← tb.shape)
  let m ← multiplied cx a b
  let (p,halving,level) ← scaleForTreeSum cx.maxScale m.scale inner
  let shifts ← cx.shifts [m.left, m.right]
  let dims ← cx.literals [rows, inner, cols]
  let heights ← cx.literals [halving, level]
  return ⟨.matrixProduct a.inModel b.inModel inner,dims++shifts++heights,p,
    intervalForTreeSum cx.settings.word m.interval inner⟩

def pointwisePlan : Except Fault (Plan Routine) := do
  let shape ← type.shape
  demand (shape.length == 2)
  let m ← multiplied cx a b
  let shifts ← cx.shifts [m.left, m.right]
  return ⟨.pointwiseProduct,(← cx.literals shape)++shifts,m.scale,m.interval⟩

def convolutionPlan : Except Fault (Plan Routine) := do
  let (n,h,w,_) ← fourOf (← ta.shape)
  let (hf,wf,ci,co) ← fourOf (← tb.shape)
  let m ← multiplied cx a b
  let count := hf*wf*ci
  let (p,halving,level) ← scaleForTreeSum cx.maxScale m.scale count
  let shifts ← cx.shifts [m.left, m.right]
  let dims ← cx.literals [n, h, w, ci, hf, wf, co]
  let heights ← cx.literals [halving, level]
  return ⟨.convolution count,dims++shifts++heights,p,
    intervalForTreeSum cx.settings.word m.interval count⟩

def columnOf : Except Fault Int := do
  let _ ← twoOf (← ta.shape)
  let (inner,cols) ← twoOf (← tb.shape)
  demand (cols == 1)
  return inner

def sparsePlan (inner : Int) : Except Fault (Plan Unit) := do
  let m ← multiplied cx a b
  let (p,halving,_) ← scaleForTreeSum cx.maxScale m.scale inner
  let shifts ← cx.shifts [m.left, m.right, halving]
  return ⟨(),(← cx.literals [inner])++shifts,p,
    intervalForTreeSum cx.settings.word m.interval inner⟩

def additivePlan (op : Additive) : Except Fault (Plan Routine) := do
  let (p,interval,k) :=
    additive cx.settings.word cx.maxScale a.scale b.scale a.interval b.interval op
  let shape ← type.shape
  demand (shape.length == 2)
  let shifts ← cx.shifts [k.left, k.right, k.result]
  let routine := match op with
    | .plus => .sum
    | .minus => .difference
  return ⟨routine,(← cx.literals shape)++shifts,p,interval⟩

def biasPlan : Except Fault (Plan Update) := do
  let (p,interval,k) :=
    additive cx.settings.word cx.maxScale a.scale b.scale a.interval b.interval .plus
  let shifts ← cx.shifts [k.left, k.right, k.result]
  let shape ← type.shape
  let wide ← isWide shape
  return ⟨.bias wide,(← cx.literals shape)++shifts,p,interval⟩

def reluPlan : Except Fault (Plan Update) := do
  let shape ← type.shape
  let wide ← isWide shape
  return ⟨.relu wide,← cx.literals shape,a.scale,
    ⟨max a.interval.low 0,max a.interval.high 0⟩⟩

def tanhLimit : Float := 1.0

def tanhPlan : Except Fault (Plan Update) := do
  let shape ← ta.shape
  let _ ← twoOf shape
  let bound ← atScale tanhLimit a.scale
  demand (bound < Number.wordMax cx.settings.word)
  let bound ← number cx.settings bound
  let reach ← intervalOf a.scale tanhLimit tanhLimit
  return ⟨.tanh,(← cx.literals shape)++[bound],a.scale,intervalForTanh a.interval reach⟩

end MicroLearn.Lower
