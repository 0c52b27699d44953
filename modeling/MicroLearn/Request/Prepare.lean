import MicroLearn.Request.Learn
import MicroLearn.Request.Options
import MicroLearn.Config.Settings
import MicroLearn.Learn.Prepare

/-!
# Requests about what surrounds training

Data preparation, quantisation of stored models and training configurations.
-/

set_option autoImplicit false

namespace MicroLearn.Request

open Learn
open Text (Json)

def valueOf : Json → Options.Value
  | .str s => .text s
  | .int n => .int n
  | .float x => .real x
  | .bool b => .bool b
  | _ => .absent

def encTargets (whole : Bool) : Targets → Json
  | .oneHot rows => encFloatRows 9 rows
  | .places labels => .arr (labels.map fun n => .arr [.int n])
  | .values labels =>
    .arr (labels.map fun x => .arr [if whole then .int (wholePart x) else rounded 9 x])

variable (req : Json)

def preparationFor : Option Preparation :=
  let flags := items req "args"
  match str req "helper", flags with
  | "regressionTree", [] => some ⟨true,true,false⟩
  | "regressionTree", [j] =>
    let x := match j with
      | .bool b => if b then 1.0 else 0.0
      | j => asFloat j
    some ⟨true,true,x == 1.0⟩
  | "tree", [] => some ⟨true,true,false⟩
  | "cell", [] | "batchCell", [] => some ⟨false,false,false⟩
  | _, _ => none

def prepared (full : Bool) (p : Option Preparation) : Answer :=
  resultOf do
    let p ← match p with
      | some p => pure p
      | none => .error .wrongKind
    let train := field req "train"
    let test := field req "test"
    let d ← if isWhole train && isWhole test then prepare p (intTensorOf train) (intTensorOf test)
      else prepare p (tensorOf train) (tensorOf test)
    let parts := [encNat d.dimension, .int d.classes, encFloatRows 9 d.train,
      encTargets (isWhole train) d.trainTargets, encFloatRows 9 d.test,
      encTargets (isWhole test) d.testTargets]
    return .arr (if full then parts++[encFloats 9 d.means, encFloats 9 d.deviations] else parts)

def bagged : Answer :=
  let s : Bag.Signal := {}
  let n := nat req "n"
  let seed := int req "seed"
  let entry (i t f : Nat) : Int := ((((i*s.steps+t)*s.features+f : Nat) : Int)*seed) % 101
  let signals := (List.range n).map fun i =>
    (List.range s.steps).map fun t => (List.range s.features).map fun f => entry i t f
  let length := int req "len"
  let stride := int req "stride"
  let zero : Zero Int := ⟨0⟩
  let result := do
    let y := tensorOf (field req "Y")
    let scores ← Tensor.need y.toRows?
    @Bag.bags Int Float zero inferInstance inferInstance inferInstance inferInstance s length stride
      signals scores
  match result with
  | .error f => .fault f
  | .ok out =>
    let filled := Bag.overhangs s.steps length.toNat stride.toNat
    let num (x : Int) : Json := if filled then rounded 12 (Number.floatOfInt x) else .int x
    let each (f : List (List Int) → Int) : Json :=
      .arr (out.map fun (bag,_) => .arr (bag.map fun w => num (f w)))
    let instances := (out.head?.map fun b => b.1.length).getD 0
    .ofFields [
      ("shapeX",.arr [encNat out.length, encNat instances, encNat length.toNat, encNat s.features]),
      ("shapeY",.arr [encNat out.length, encNat instances, encNat s.classes]),
      ("sums",each fun w => Number.total (w.map Number.total)),
      ("first",each fun w => (w.headD []).headD 0),
      ("last",each fun w => (w.getLastD []).getLastD 0),
      ("labels",.arr (out.map fun (_,labels) =>
        .arr (labels.map fun row => encNat (Fixed.argmax row))))]

def checkKinds : List (String × Options.Kind) := [
  ("positiveInt",.positiveInt), ("nonNegativeInt",.nonNegativeInt), ("positiveReal",.positiveReal),
  ("nonNegativeReal",.nonNegativeReal), ("truth",.truth)]

def preparationCall : Answer :=
  let args := items req "args"
  let arg (k : Nat) := args.getD k .null
  let fn := str req "fn"
  match checkKinds.lookup fn with
  | some kind => resultOf ((kind.check (valueOf (arg 0))).map encValue)
  | none =>
    match fn with
    | "prepare" => prepared req true (preparationFor req)
    | "prepareRows" => prepared req false (some ⟨false,false,false⟩)
    | "modelSize" => resultOf do
      let parts ← partsOf ((asList (arg 0)).map tensorOf) ((asList (arg 1)).map asFloat)
      let bytes := if isNull (arg 3) then 4 else asNat (arg 3)
      let expected := isNull (arg 2) || asBool (arg 2)
      return encSize (if expected then expectedSize bytes parts else actualSize bytes parts)
    | "width" => resultOf (.ok (.arr [.null, .null, encValue (valueOf (arg 0))]))
    | "labelRows" => resultOf do
      let labels ← match (tensorOf (arg 0)).toList? with
        | some xs => pure xs
        | none => .error .outOfRange
      let least := if isNull (arg 2) then none else some (asInt (arg 2))
      return encFloatRows 12 (← toOneHot labels (asInt (arg 1)) least)
    | "oneHot" => resultOf do
      return encFloatRows 12 (← labelRows (intTensorOf (arg 0)).data.toList (asInt (arg 1)))
    | "bags" => bagged req
    | "command" => resultOf (.ok (.str (commandText ((asList (arg 0)).map asStr))))
    | "statistics" => resultOf do
      return .arr [.str (← numberLines (tensorOf (arg 0))), .str (← numberLines (tensorOf (arg 1)))]
    | _ => .fault .missingField

def encStored : StoredData → Json
  | .ints t => nested Json.int t.shape t.data.toList
  | .reals t => encTensor 9 t

def quantized : Answer :=
  let model : List Weights := (entries (field req "npy")).map fun (name,j) =>
    ⟨name,tensorOf j,isWhole j⟩
  let args := items req "args"
  let argOr (k : Nat) (n : Int) : Int := (args[k]?.map asInt).getD n
  let maxLevel := argOr 0 127
  let result := match str req "which" with
    | "cell" => quantizeCell maxLevel (argOr 1 1000) model
    | flavour => quantizeTree flavour maxLevel model
  match result with
  | .error f => .fault f
  | .ok q =>
    let byName (a b : StoredArray) : Bool := decide (a.name ≤ b.name)
    .ofFields [("dir",.str q.folder),
      ("files",.arr ((q.arrays.mergeSort byName).map fun a =>
        .arr [.str a.name, .str a.type.name, encStored a.data])),
      ("ranges",.arr ((q.lines.mergeSort fun a b => decide (a ≤ b)).map .str))]

def configStep : Json → Config.Step
  | .arr [.str "set", name, v] => .set (asStr name) v
  | .arr [.str "merge", data] => .merge data
  | .arr [.str "load", content] => .load (asStr content)
  | _ => .save

def configured : Answer :=
  let (fields,outcomes) := Config.run ((items req "steps").map configStep) Config.fresh
  .record [
    ("steps",.list (outcomes.map fun
      | .done => .data (.str "ok")
      | .saved text => .text text
      | .failed f => .quiet f)),
    ("final",.data (shownValue (Config.toJson fields)))] none

end MicroLearn.Request
