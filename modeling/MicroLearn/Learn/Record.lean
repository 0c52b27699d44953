import MicroLearn.Model.Matrix
import MicroLearn.Tensor.Basic

/-!
# Around a training run

Learning rates, the order of tree weights, and what a run leaves beside its model.
-/

set_option autoImplicit false

namespace MicroLearn.Learn

open Number

section

variable {α : Type}

def risingMagnitudes [LT α] [DecidableLT α] (abs : α → α) (xs : List α) : List α :=
  (xs.map abs).mergeSort fun a b => !decide (b < a)

def cutBelow [LT α] [DecidableLT α] [Zero α] (abs : α → α) (threshold : α) (xs : List α) : List α :=
  xs.map fun x => if abs x < threshold then 0 else x

def thresholdAt [LT α] [DecidableLT α] [Zero α] (abs : α → α) (rank : Nat) (xs : List α) : List α :=
  match (risingMagnitudes abs xs)[rank]? with
  | some threshold => cutBelow abs threshold xs
  | none => xs

/-- Keeps the weights from a rank on; an undefined one among them keeps them all. -/
def keepFrom [LT α] [DecidableLT α] [Zero α] (abs : α → α) (isUndefined : α → Bool)
    (rank : Nat → Except Fault Nat) (xs : List α) : Except Fault (List α) := do
  if xs.isEmpty then return []
  let rank ← rank xs.length
  if xs.any isUndefined then return xs
  return thresholdAt abs rank xs

/-- Numbers that weights, and shares of them, can be. -/
class Weight (α : Type) where
  count : Int → α
  above : α → Except Fault Int
  ceil : α → α
  abs : α → α
  isUndefined : α → Bool

variable [Weight α] [LT α] [DecidableLT α] [Mul α]

/-- The place of the threshold among `n` magnitudes for a share of weights to keep, given as the
share to drop. -/
def thresholdRank [LE α] [DecidableLE α] [OfNat α 0] [OfNat α 1] (dropped : α) (n : Nat) :
    Except Fault Nat := do
  if 0 ≤ dropped ∧ dropped ≤ 1 then
    let k ← Weight.above (Weight.count (n-1)*dropped)
    return k.toNat
  else .error (.value "Percentiles must be in the range [0, 100]")

def keepLargest [LE α] [DecidableLE α] [Zero α] [One α] [Sub α] [Div α] [OfNat α 100] (share : α)
    (xs : List α) : Except Fault (List α) :=
  keepFrom Weight.abs Weight.isUndefined (thresholdRank ((1-share)*100/100)) xs

def sparseCount [OfScientific α] (params : Nat) (share : α) : Option α :=
  if share < 0.5 then some (Weight.ceil (Weight.count params*share)) else none

end

def isUndefined (x : Float) : Bool := !(x == x)

instance : Weight Float :=
  ⟨floatOfInt,integerAbove,Float.ceil,magnitude,isUndefined⟩

def thresholdRankSingle (share : Float) (n : Nat) : Except Fault Nat := do
  let dropped := ((1.0-share)*100.0).toFloat32/100.0
  if 0.0 ≤ dropped && dropped ≤ 1.0 then
    let k ← integerAbove ((Float32.ofNat (n-1))*dropped).toFloat
    return k.toNat
  else .error (.value "Percentiles must be in the range [0, 100]")

def hardThresholdSingle (share : Float) (xs : List Float) : Except Fault (List Float) :=
  keepFrom magnitude isUndefined (thresholdRankSingle share) xs

/-- Copies the elements of a tensor that stand where another is not zero; where that one has fewer
dimensions, whole parts are copied. -/
def restrictTo (source target : Tensor Float) : Except Fault (Tensor Float) := do
  if target.rank < source.rank then .error .outOfRange
  let width := shapeSize (target.shape.drop source.rank)
  let starts ← (List.range source.data.size).filterMapM fun k => do
    if source.data.getD k 0.0 == 0.0 then return none
    else return some (← Tensor.ravel target.shape (Tensor.unravel source.shape k))
  let places := starts.flatMap fun s => (List.range width).map (s + ·)
  return ⟨target.shape,places.foldl
    (fun out k => out.setIfInBounds k (target.data.getD k 0.0))
      (Array.replicate target.data.size 0.0)⟩

structure SizeEstimate where
  count : Cell
  bytes : Cell
  sparse : Bool

def estimateSize (shape : List Nat) (share : Float) (bytesPerWeight : Nat) : SizeEstimate :=
  let params := shapeSize shape
  match sparseCount params share with
  | some kept => ⟨.real kept,.real (kept*2.0*floatOfInt bytesPerWeight),true⟩
  | none => ⟨.int params,.int (params*bytesPerWeight),false⟩

def partsOf (matrices : List (Tensor Float)) (shares : List Float) :
    Except Fault (List (Tensor Float × Float)) :=
  matrices.zipIdx.mapM fun (t,i) =>
    match shares[i]? with
    | none => .error .outOfRange
    | some s => do
      demand (t.rank == 2)
      demand (decide (0.0 ≤ s) && decide (s ≤ 1.0))
      return (t,s)

def expectedSize (bytesPerWeight : Nat) (parts : List (Tensor Float × Float)) : SizeEstimate :=
  match parts.map fun (t,s) => estimateSize t.shape s bytesPerWeight with
  | [] => ⟨.real 0.0,.real 0.0,false⟩
  | e::es => es.foldl (fun a b => ⟨a.count+b.count,a.bytes+b.bytes, a.sparse || b.sparse⟩) e

def actualSize (bytesPerWeight : Nat) (parts : List (Tensor Float × Float)) : SizeEstimate :=
  parts.foldl (fun a (t,s) =>
    let kept := (t.data.toList.filter fun x => x != 0.0).length
    let bytes := if s ≤ 0.5 then kept*2*bytesPerWeight else t.data.size*bytesPerWeight
    ⟨a.count+.int kept,a.bytes+.int bytes, a.sparse || decide (s < 0.5)⟩) ⟨.int 0,.int 0,false⟩

def decayedEpochs (reset epoch : Int) : Int := if reset < epoch then epoch-reset else epoch

def resettingRates (gamma : Float) (reset : Int) (bases : List Float) (epoch : Int) :
    Except Fault (List Float) :=
  let n := decayedEpochs reset epoch
  if gamma == 0.0 && decide (n < 0) && !bases.isEmpty then .error .zeroDivision
  else .ok (bases.map fun b => b*gamma.pow (floatOfInt n))

open Model (Rows)

def groupByClass {α : Type} [Zero α] (classes nodes : Nat) (m : Rows α) :
    Except Fault (Rows α) := do
  let sources := (List.range classes).flatMap fun i => (List.range nodes).map fun j => j*classes+i
  let rows ← sources.zipIdx.mapM fun (s,k) =>
    match m[s]? with
    | some row => if k < m.length then .ok row else .error .outOfRange
    | none => .error .outOfRange
  return rows++(m.drop rows.length).map fun row => row.map fun _ => 0

def commandText (words : List String) : String := "python "++Text.join " " words

def numberLine (xs : List Float) : String := Text.join "\t" (xs.map (scientificText 18))++"\n"

/-- A line for each row; the entries of a single dimension stand on lines of their own. -/
def numberLines (t : Tensor Float) : Except Fault String :=
  match t.toList?, t.toRows? with
  | some xs, _ => .ok (String.join (xs.map fun x => numberLine [x]))
  | _, some rows => .ok (String.join (rows.map numberLine))
  | none, none => .error
      (.value ("Expected 1D or 2D array, got "++toString t.rank++"D array instead"))

def confusion (classes : Nat) (predicted target : List Int) : Except Fault (Rows Nat) := do
  let pairs ← predicted.zipIdx.mapM fun (p,i) => do
    let row ← place classes p
    match target[i]? with
    | some t => return (row,← place classes t)
    | none => .error .outOfRange
  return (List.range classes).map fun i => (List.range classes).map fun j => pairs.count (i,j)

section

variable {α : Type} [Zero α] [Add α]

def total (xs : List α) : α := xs.foldl (· + ·) 0

def rowSums (m : Rows α) : List α := m.map total

def columnSums (m : Rows α) : List α :=
  m.tail.foldl (fun sums row => sums.zipWith (· + ·) row) (m.headD [])

variable [One α] [Mul α] [Div α] [BEq α]

def tally : Nat → α
  | 0 => 0
  | n+1 => tally n+1

/-- Each diagonal entry as a part of its total, or `dflt` where the total is zero. -/
def diagonalShares (m : Rows α) (totals : List α) (dflt : α) : Except Fault (List α) :=
  totals.zipIdx.mapM fun (x,i) => do
    if x == 0 then return dflt
    else return (← Model.entry m i i)/x

def orOne (x : α) : α := if x == 0 then 1 else x

def classScores (m : Rows α) (label : Int) : Except Fault (α × α) := do
  let row ← place m.length label
  let cols := columnSums m
  let col ← place cols.length label
  let hit ← Model.entry m row col
  return (hit/orOne ((rowSums m).getD row 0),hit/orOne (cols.getD col 0))

def macroScores (m : Rows α) : Except Fault (α × α) := do
  let precision ← diagonalShares m (rowSums m) 0
  let recalls ← diagonalShares m (columnSums m) 0
  return (total precision/tally precision.length,total recalls/tally recalls.length)

def diagonal (m : Rows α) : Except Fault (List α) :=
  (List.range m.length).mapM fun i => Model.entry m i i

def microScores (m : Rows α) : Except Fault (α × α) := do
  let hits := total (← diagonal m)
  return (hits/total (rowSums m),hits/total (columnSums m))

def harmonic (p r : α) : α := p*r*(1+1)/orOne (p+r)

def fScores (m : Rows α) : Except Fault (α × α) := do
  let precision ← diagonalShares m (rowSums m) 0
  let recalls ← diagonalShares m (columnSums m) 0
  let each ← precision.zipIdx.mapM fun (p,i) =>
    match recalls[i]? with
    | some r => .ok (harmonic p r)
    | none => .error .outOfRange
  let hits := total (← (List.range precision.length).mapM fun i => Model.entry m i i)
  let p := hits/total (rowSums m)
  let r := hits/total (columnSums m)
  return (total each/tally precision.length,(1+1)*p*r/orOne (p+r))

end

def padLeft (width : Nat) (s : String) : String :=
  String.ofList (List.replicate (width-s.length) ' ')++s

def shareText (x : Float) : String :=
  if x == -1.0 then padLeft 7 "nan" else fixedText 5 x

def ruleText (classes : Nat) : String :=
  "|------|"++String.join (List.replicate classes "-------|")++"---------|\n"

def tableText (m : Rows Float) : Except Fault String := do
  let classes := m.length
  let precision ← diagonalShares m (rowSums m) (-1.0)
  let recalls ← diagonalShares m (columnSums m) (-1.0)
  let head := "|True->|" ++
    String.join ((List.range classes).map fun i => padLeft 7 (toString i)++"|")++"Precision|\n"
  let lines ← m.zipIdx.mapM fun (row,i) => do
    let cells ← row.mapM fun x => do return padLeft 7 (toString (← integerPart x))++"|"
    return "|"++padLeft 6 (toString i)++"|"++String.join cells++"  " ++
      shareText (precision.getD i 0.0)++"|\n"
  return head++ruleText classes++String.join lines++ruleText classes++"|Recall|" ++
    String.join (recalls.map fun x => shareText x++"|")++"         |\n"

section

variable {α : Type}

def levelFactor [Add α] [Mul α] [Div α] [OfNat α 1] [OfNat α 2] (maxLevel limit : α) : α :=
  (2*maxLevel+1)/(2*limit)

def clampLevel [Add α] [Neg α] [OfNat α 1] [LT α] [DecidableLT α] (maxLevel x : α) : α :=
  let y := if maxLevel < x then maxLevel else x
  if y < -maxLevel then -(maxLevel+1) else y

def level [Add α] [Neg α] [Mul α] [OfNat α 1] [LT α] [DecidableLT α] (round : α → α)
    (maxLevel factor weight : α) : α :=
  clampLevel maxLevel (round (factor*weight))

end

def greaterEntry (a b : Float) : Float := if a > b || a.isNaN then a else b

def lesserEntry (a b : Float) : Float := if a < b || a.isNaN then a else b

/-- Joins lanes by halves; the first half is the second operand. -/
def joinLanes (f : Float → Float → Float) : Nat → List Float → Float
  | 0, xs => xs.headD 0.0
  | fuel+1, xs =>
    match xs with
    | [x] => x
    | [x, y] => f x y
    | _ =>
      let half := xs.length/2
      joinLanes f fuel ((xs.drop half).zipWith f (xs.take half))

def compareLanes (f : Float → Float → Float) :
    Nat → List Float → List Float → List Float × List Float
  | 0, acc, xs => (acc,xs)
  | fuel+1, acc, xs =>
    if xs.length < 8 then (acc,xs)
    else compareLanes f fuel (acc.zipWith f (xs.take 8)) (xs.drop 8)

/-- An extreme of a sequence. Which of two zeros of different sign is taken depends on the order of
comparison: in eight lanes as far as these go, then one after the other. -/
def extreme (f : Float → Float → Float) : List Float → Option Float
  | [] => none
  | x::rest =>
    if rest.length < 8 then some (rest.foldl f x)
    else
      let (acc,left) := compareLanes f rest.length (List.replicate 8 x) rest
      some (left.foldl f (joinLanes f 3 acc))

def greatestOf (xs : List Float) : Option Float := extreme greaterEntry xs

def leastOfReals (xs : List Float) : Option Float := extreme lesserEntry xs

def emptyGreatest : Fault :=
  .value "zero-size array to reduction operation maximum which has no identity"

def extremes (t : Tensor Float) : Except Fault (Float × Float) :=
  match leastOfReals t.data.toList, greatestOf t.data.toList with
  | some a, some b => .ok (a,b)
  | _, _ => .error emptyGreatest

def greatestLimit (limits : List Float) : Except Fault Float :=
  match greatestOf limits with
  | some x => .ok x
  | none => .error emptyGreatest

inductive Stored where
  | int8 | int16 | int32 | int64 | float64
  deriving Repr, DecidableEq

def Stored.name : Stored → String
  | .int8 => "int8"
  | .int16 => "int16"
  | .int32 => "int32"
  | .int64 => "int64"
  | .float64 => "float64"

inductive StoredData where
  | ints (t : Tensor Int)
  | reals (t : Tensor Float)

structure StoredArray where
  name : String
  type : Stored
  data : StoredData

def Stored.ofLevel (maxLevel : Int) : Stored :=
  if maxLevel ≤ 127 then .int8 else if maxLevel ≤ 32767 then .int16 else .int32

def Stored.bits : Stored → Nat
  | .int8 => 8
  | .int16 => 16
  | .int32 => 32
  | .int64 | .float64 => 64

structure Weights where
  name : String
  value : Tensor Float
  whole : Bool

def Weights.amount (w : Weights) (x : Float) : String :=
  if w.whole then toString (signedWord 32 x) else floatText x

def Weights.rangeLine (w : Weights) (r : Float × Float) : String :=
  w.name++" has max: "++w.amount r.2++" min: "++w.amount r.1

def Weights.limit (w : Weights) : Except Fault (Float × String) := do
  let r ← extremes w.value
  let a := r.2.abs
  let b := r.1.abs
  return (if a ≥ b || a.isNaN then a else b,w.rangeLine r)

def Weights.levels (w : Weights) (maxLevel : Int) (factor : Float) : Except Fault StoredArray := do
  if w.value.shape.isEmpty then .error .outOfRange
  let m := floatOfInt maxLevel
  let type := Stored.ofLevel maxLevel
  return ⟨"q"++w.name,type,.ints (w.value.map fun x =>
    signedWord type.bits (level roundEven m factor x))⟩

def logistic (x : Float) : Float := 1.0/(1.0+(-x).exp)

def Weights.scalarLevels (w : Weights) (scale : Int) : StoredArray :=
  ⟨"q"++w.name,.int32,.ints (w.value.map fun x =>
    signedWord 32 (roundEven (floatOfInt scale*logistic x)))⟩

def factorArray (factor : Float) : StoredArray :=
  ⟨"paramScaleFactor.npy",.int32,.ints (.scalar (signedWord 32 factor))⟩

structure QuantizedModel where
  folder : String
  arrays : List StoredArray
  lines : List String

def startsWithOneOf (starts : List String) (s : String) : Bool :=
  starts.any fun p => p.toList.isPrefixOf s.toList

def isArrayFile (w : Weights) : Bool := w.name.endsWith "npy"

def treeFolder (flavour : String) : String := "Quantized"++flavour++"BonsaiModel"

def quantizeTree (flavour : String) (maxLevel : Int) (model : List Weights) :
    Except Fault QuantizedModel := do
  let params := model.filter fun w => isArrayFile w &&
    !startsWithOneOf ["mean", "std", "hyperParam"] w.name
  let limits ← params.mapM Weights.limit
  let limit ← greatestLimit (limits.map (·.1))
  let factor := roundEven (levelFactor (floatOfInt maxLevel) limit)
  let levels ← params.mapM fun w => w.levels maxLevel factor
  return ⟨treeFolder flavour,factorArray factor::levels,limits.map (·.2)⟩

/-- Quantises a cell: its own arrays, those of its classifier with a factor that is not rounded, and
its scalars. -/
def quantizeCell (maxLevel scale : Int) (model : List Weights) : Except Fault QuantizedModel := do
  let files := model.filter isArrayFile
  let own (w : Weights) := startsWithOneOf ["W", "U", "B"] w.name
  let last (w : Weights) := startsWithOneOf ["FC"] w.name
  let statistic (w : Weights) := startsWithOneOf ["mean", "std"] w.name
  let params := files.filter own
  let classifier := files.filter last
  let scalars := files.filter fun w => !own w && !last w && !statistic w
  let limits ← params.mapM Weights.limit
  let lastLimits ← classifier.mapM Weights.limit
  let limit ← greatestLimit (limits.map (·.1))
  let lastLimit ← greatestLimit (lastLimits.map (·.1))
  let m := floatOfInt maxLevel
  let factor := roundEven (levelFactor m limit)
  let lastFactor := levelFactor m lastLimit
  let levels ← params.mapM fun w => w.levels maxLevel factor
  let lastLevels ← classifier.mapM fun w => w.levels maxLevel lastFactor
  return ⟨"QuantizedModel",factorArray factor ::
    ⟨"classifierScaleFactor.npy",.float64,.reals (.scalar lastFactor)⟩ ::
    ⟨"scalarScaleFactor.npy",.int64,.ints (.scalar scale)⟩ ::
    (scalars.map fun w => w.scalarLevels scale)++lastLevels++levels,
    limits.map (·.2)++lastLimits.map (·.2)⟩

end MicroLearn.Learn
