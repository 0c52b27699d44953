import MicroLearn.Bench.GraphModel
import MicroLearn.Bench.Recurrent

/-!
# Functions on the bench

What can be called without a part: activations, losses, thresholds, sizes, and
the conditions of weighted distances.
-/

set_option autoImplicit false

namespace MicroLearn.Bench

def newOneClass (kind : Kind) (a : Arguments) : Bench Nat := do
  let names := ["model", "optimizer", "weight", "radius", "gamma", "device"]
  let vs ← a.bind (names.map fun name => ⟨name,none⟩)
  build kind (names.zip vs)

def forwardModel (model x : Value) : Bench Grid := do
  let m ← partOf model
  match (← partAt m).kind with
  | .linear => forwardLinear m x
  | .classifier => do gridOf (← forwardClassifier m x)
  | _ => fail .missingField

def labelScores (model loader : Value) (bend : Float → Float) : Bench (List (Float × Float)) := do
  let batches ← itemsOf loader
  let parts ← batches.mapM fun b => do
    match ← itemsOf b with
    | [data, target, _] => do
      let _ ← heldPlace data
      let _ ← heldPlace target
      let t := (← gridOf target).body.squeeze
      let logits ← forwardModel model data
      let scores ← match logits.shape with
        | [_, 1] => pure logits.entries
        | _::_::_ =>
          fail (.value "cannot select an axis to squeeze out which has size not equal to one")
        | _ => fail .badAxis
      if t.rank = 0 then fail .wrongKind
      return t.data.toList.zip (scores.map bend)
    | vs => if vs.length < 3 then fail (.tooFewValues 3 vs.length) else fail (.tooManyValues 3)
  let all := parts.flatten
  if all.isEmpty then fail (.tooFewValues 2 0)
  return all

def askScore (name : String) (args : List Value) (named : List (String × Value)) (usual : Value) :
    Bench Value := do
  modify fun s => { s with scoreCalls := s.scoreCalls++[.list (.text name::args++[.record named])] }
  return ((← get).scores.lookup name).getD usual

def vectorValue (xs : List Float) : Value := .grid (.real (.vector xs))

def lowFifth (xs : List Float) : Float :=
  let sorted := xs.mergeSort fun a b => a ≤ b
  let place := Nat.toFloat (xs.length-1)*(20.0/100.0)
  let low := (wholeOf place).toNat
  let t := place-Nat.toFloat low
  let a := sorted.getD low 0.0
  let b := sorted.getD (low+1) a
  if 0.5 ≤ t then b-(b-a)*(1.0-t) else a+(b-a)*t

def testOneClass (p : Nat) (loader metric : Value) : Bench Value := do
  let model ← fieldOf p "model"
  setField (← partOf model) "training" (.truth false)
  let pairs ← labelScores model loader id
  let labels := vectorValue (pairs.map (·.1))
  let scores := pairs.map (·.2)
  match metric with
  | .text "F1" => do
    let bound := lowFifth scores
    let marks := Value.grid (.ofInts (scores.map fun x => if bound ≤ x then 1 else 0))
    let half := Value.real 0.5
    let answer ← askScore "precision_recall_fscore_support" [labels, marks]
      [("average",.text "binary")]
      (.list [half, half, half, .none])
    match ← itemsOf answer with
    | [_, _, f, _] => pure f
    | vs => if vs.length < 4 then fail (.tooFewValues 4 vs.length) else fail (.tooManyValues 4)
  | .text "AUC" => askScore "roc_auc_score" [labels, vectorValue scores] [] (.real 0.5)
  | _ => fail .unassigned

def testLimited (p : Nat) (loader area : Value) : Bench Value := do
  let pairs ← labelScores (← fieldOf p "model") loader sigmoid
  let labels := pairs.map (·.1)
  let of := fun (mark : Float) => vectorValue ((pairs.filter fun q => q.1 == mark).map (·.2))
  let auc ← if ← holds area then
      askScore "roc_auc_score" [vectorValue labels, vectorValue (pairs.map (·.2))] [] (.real 0.5)
    else pure (.int (-1))
  return .tuple [auc, of 1.0, of 0.0]

def callOneClass (p : Nat) (method : String) (a : Arguments) : Bench Value := do
  match method, (← partAt p).kind with
  | "test", .oneClassTrainer =>
    a.take ["loader", "metric"] fun l m => testOneClass p l m
  | "test", _ =>
    a.take ["loader", given "area" (.truth true)] fun l m => testLimited p l m
  | _, _ => fail .missingField

def precisionRecall (positive far close : List Float) (share : Float) :
    Except Fault (Float × Float) := do
  let negative := (far++close).mergeSort fun a b => a ≤ b
  let n := Nat.toFloat negative.length
  let at' ← place negative.length (wholeOf ((1.0-share)*n))
  let bound := negative.getD at' 0.0
  let hits := Nat.toFloat (positive.filter fun x => bound < x).length
  let misses := Number.floatOfInt (wholeOf (share*n))
  return (hits/(hits+misses),hits/Nat.toFloat positive.length)

end MicroLearn.Bench

namespace MicroLearn.Net

abbrev Reals := Tensor Float

def square (t : Reals) : Reals := t.map fun x => x*x

def sumAll (t : Reals) : Float := t.data.toList.foldl (· + ·) 0.0

def tiny : Float := 1e-10

def weightedLengths (weights diff : Reals) : Except Fault (List Float) := do
  let t ← weights.zip (· * ·) (square diff)
  match t.shape with
  | _::_::_ => return t.parts.map fun p => Float.sqrt (sumAll p)
  | _ => throw .badAxis

def shellMark (radius outer length : Float) : Float :=
  if outer < length then 2.0 else if length < radius then 1.0 else 0.0

def innerCost (lam weights diff : Reals) : Except Fault Float := do
  let top ← (← (square diff).zip (· * ·) (square lam)).zip (· * ·) (square weights)
  let bottom := (← lam.zip (· * ·) weights).map fun x => (1.0+x)*(1.0+x)+tiny
  return sumAll (← top.zip (· / ·) bottom)

def outerCost (nu weights diff : Reals) : Except Fault Float := do
  let top ← (square diff).zip (· * ·) (square weights)
  let bottom := (← nu.zip (· + ·) weights).map fun x => x*x+tiny
  return sumAll (← top.zip (· / ·) bottom)

def innerReach (lam weights diff : Reals) : Except Fault Float := do
  let bottom := (← lam.zip (· * ·) weights).map fun x => (1.0+x)*(1.0+x)+tiny
  let top ← (square diff).zip (· * ·) weights
  return sumAll (← top.zip (· / ·) bottom)

def outerReach (nu weights diff : Reals) : Except Fault Float := do
  let bottom := (← nu.zip (· + ·) weights).map fun x => x*x+tiny
  let scaled ← weights.zip (· * ·) (square nu)
  let top ← (square diff).zip (· * ·) scaled
  return sumAll (← top.zip (· / ·) bottom)

def outerLimit (weights lengths : Reals) (radius gamma : Float) : Except Fault Reals := do
  let alpha := lengths.map fun d => gamma*radius/d
  match weights.toRows? with
  | none => throw .badAxis
  | some rows =>
    let largest := rows.map fun r => r.tail.foldl (fun m x => if m < x then x else m) (r.headD 0.0)
    (alpha.map fun a => a/(1.0-a)).zip (· * ·) (.vector largest)

end MicroLearn.Net

namespace MicroLearn.Bench

def bendTensor (unknown : Fault) (x bend : Value) : Bench Value := do
  match bend with
  | .constant v => pure v
  | _ => do
    let f ← bendOf unknown bend
    tensor (.real ((← gridOf x).body.map f))

def shareEstimate (x share bytes : Value) : Bench Value := do
  return estimateValue (Learn.estimateSize (← gridOf x).shape (← realOf share) (← natOf bytes))

def meet (f : Tensor Float → Tensor Float → Tensor Float → Except Fault Float) (a b c : Value) :
    Bench Float := do
  settle (f (← gridOf a).body (← gridOf b).body (← gridOf c).body)

def boundedCost (keeps : Bool) (cost : Bench Float) : Bench Value := do
  if keeps then return .real (← cost) else return .real (1.0/0.0)

def squareOf (x : Float) : Float := x*x

def callFunction (name : String) (a : Arguments) : Bench Value := do
  match name with
  | "bend" => a.take ["x", "bend"] fun x b => bendTensor Net.Activation.unknown x b
  | "graphBend" => a.take ["x", "bend"] fun x b => bendTensor .wrongKind x b
  | "graphHinge" => a.take ["logits", "labels", "batch_th"] fun x y n => graphHinge x y n
  | "meanDistance" =>
    a.take ["logits", "labels"] fun x y => do meanDistance (← gridOf x).body (← gridOf y).body
  | "hingeLoss" => a.take ["logits", "labels"] fun x y => do return .real (← hingeLoss x y)
  | "binaryHinge" => a.take ["logits", "labels"] fun x y => do return .real (← binaryHinge x y)
  | "threshold" => a.take ["x", "share"] fun x s => do thresholdInPlace x (← realOf s)
  | "restrict" => a.take ["target", "support"] fun t s => restrictInPlace s t
  | "restrictTo" => a.take ["support", "target"] fun s t => restrictInPlace s t
  | "estimateSize" => a.take ["x", "share", given "bytes" (.int 4)] fun x s b => shareEstimate x s b
  | "countWeights" => a.take ["x", "sparse"] fun x s => do
      let p ← heldPlace x
      return .int (countWeights (← heldGrid p) (← holds s))
  | "precisionRecall" => a.take ["positive", "far", "close", "share"] fun p f c s => do
      let (precision,reached) ← settle (precisionRecall (← gridOf p).entries (← gridOf f).entries
        (← gridOf c).entries (← realOf s))
      return .tuple [.real precision, .real reached]
  | "weightedLengths" => a.take ["weights", "diff", "radius", "device", "gamma"] fun w d r _ g => do
      let lengths ← settle (Net.weightedLengths (← gridOf w).body (← gridOf d).body)
      let radius ← realOf r
      let outer := (← realOf g)*radius
      let marks := lengths.map (Net.shellMark radius outer)
      return .tuple [← tensorOf ⟨[marks.length, 1],marks.toArray⟩, ← tensorOf (.vector lengths)]
  | "innerCost" =>
    a.take ["multiplier", "weights", "diff", "radius", "device"]
        fun l w d _ _ => do return .real (← meet Net.innerCost l w d)
  | "outerCost" =>
    a.take ["multiplier", "weights", "diff", "radius", "device",
        "gamma"] fun l w d _ _ _ => do return .real (← meet Net.outerCost l w d)
  | "innerBound" => a.take ["multiplier", "weights", "diff", "radius", "device"] fun l w d r _ => do
      let reach ← meet Net.innerReach l w d
      boundedCost (squareOf (← realOf r) < reach) (meet Net.innerCost l w d)
  | "outerBound" =>
    a.take ["multiplier", "weights", "diff", "radius", "device",
        "gamma"] fun l w d r _ g => do
      let reach ← meet Net.outerReach l w d
      boundedCost (reach < squareOf ((← realOf g)*(← realOf r))) (meet Net.outerCost l w d)
  | "outerLimit" => a.take ["weights", "lengths", "radius", "gamma"] fun w l r g => do
      tensorOf (← settle (Net.outerLimit (← gridOf w).body (← gridOf l).body (← realOf r)
        (← realOf g)))
  | _ => fail .missingField

end MicroLearn.Bench
