import MicroLearn.Request.Basic
import MicroLearn.Bag.Policy

/-!
# Requests about training

Thresholds, scores, learning rates and the labels of bags.
-/

set_option autoImplicit false

namespace MicroLearn.Request

open Text (Json)

def arrayData (j : Json) : Json :=
  match j with
  | .obj _ => field j "data"
  | _ => j

def isWhole (j : Json) : Bool := (str j "dtype").contains "int"

def tensorOf (j : Json) : Tensor Float :=
  let data := arrayData j
  ⟨shapeOf data,((leaves data).map asFloat).toArray⟩

def intTensorOf (j : Json) : Tensor Int :=
  let data := arrayData j
  ⟨shapeOf data,((leaves data).map asInt).toArray⟩

def nested {α : Type} (enc : α → Json) : List Nat → List α → Json
  | [], x::_ => enc x
  | [], [] => .null
  | n::rest, xs =>
    let width := shapeSize rest
    .arr ((List.range n).map fun i => nested enc rest ((xs.drop (i*width)).take width))

def encTensor (digits : Nat) (t : Tensor Float) : Json :=
  nested (rounded digits) t.shape t.data.toList

def encFloats (digits : Nat) (xs : List Float) : Json := .arr (xs.map (rounded digits))

def encFloatRows (digits : Nat) (m : List (List Float)) : Json := .arr (m.map (encFloats digits))

def resultOf (r : Except Fault Json) : Answer :=
  match r with
  | .ok j => .record [("result",.data j)] none
  | .error f => .fault f

def encPair (p : Float × Float) : Json := encFloats 12 [p.1, p.2]

def encSize (e : Learn.SizeEstimate) : Json :=
  .arr [encCell e.count, encCell e.bytes, .bool e.sparse]

def trainingCall (req : Json) : Answer :=
  let args := items req "args"
  let arg (k : Nat) := args.getD k .null
  let tensor (k : Nat) := tensorOf (arg k)
  let scores (f : List (List Float) → Except Fault (Float × Float)) : Answer :=
    resultOf <| match (tensor 0).toRows? with
      | some m => (f m).map encPair
      | none => .error .badAxis
  match str req "fn" with
  | "threshold" => resultOf do
    let t := tensor 0
    let out ← Learn.keepLargest (asFloat (arg 1)) t.data.toList
    return encTensor 12 ⟨t.shape,out.toArray⟩
  | "restrictTo" => resultOf (do return encTensor 12 (← Learn.restrictTo (tensor 0) (tensor 1)))
  | "size" =>
    resultOf (.ok (encSize (Learn.estimateSize (tensor 0).shape (asFloat (arg 1))
      (if isNull (arg 2) then 4 else asNat (arg 2)))))
  | "confusion" => resultOf do
    let predicted ← Tensor.need (intTensorOf (arg 0)).toList?
    let target ← Tensor.need (intTensorOf (arg 1)).toList?
    if !predicted.isEmpty && !(isWhole (arg 0) && isWhole (arg 1)) then .error .outOfRange
    let n := asInt (arg 2)
    if n < 0 then .error (.value "negative dimensions are not allowed")
    return .arr ((← Learn.confusion n.toNat predicted target).map fun row =>
      encFloats 12 (row.map fun (n : Nat) => Number.floatOfInt n))
  | "table" =>
    match Tensor.need (tensor 0).toRows? >>= fun m => do
      demand (m.all fun row => row.length == m.length)
      Learn.tableText m with
    | .ok text => .ofFields [("result",.null), ("stdout",.str text)]
    | .error f => .fault f
  | "classScores" => resultOf <| match (tensor 0).toRows? with
    | some m => (Learn.classScores m (if isNull (arg 1) then 1 else asInt (arg 1))).map encPair
    | none => .error .outOfRange
  | "macroScores" => scores Learn.macroScores
  | "microScores" => scores Learn.microScores
  | "fScores" => scores Learn.fScores
  | "groupByClass" => resultOf do
    let m ← Tensor.need (tensor 0).toRows?
    return encFloatRows 12 (← Learn.groupByClass (asNat (arg 1)) (asNat (arg 2)) m)
  | _ => .fault .missingField

def rates (req : Json) : Answer :=
  let one (epoch : Json) : Answer :=
    match str req "cls" with
    | "resetting" =>
      .settle ((Learn.resettingRates (asFloat (field req "gamma")) (int req "reset_epoch")
        ((asList (field req "base_lrs")).map asFloat) (asInt epoch)).map (encFloats 12))
    | _ => .fault .undefinedName
  .record [("lrs",.list ((items req "epochs").map one))] none

def policyOf (step : Json) : Option (Bag.Policy Float) :=
  let kw := field step "kwargs"
  match str step "policy" with
  | "top-k" => some (.topRuns (intOr 1 kw "k"))
  | "prune-ends" =>
    some (.pruneEnds ⟨asFloat (field kw "minNegativeProb"),intOr 3 kw "updatesPerCall",
      intOr 3 kw "maxAllowedUpdates"⟩)
  | _ => none

def wholePart (x : Float) : Int := (Number.Binary.ofFloat x).truncate.getD 0

def labelSteps (whole : Bool) (classes : Nat) (bagLabels : Tensor Int) :
    List Json → Tensor Float → List Answer
  | [], _ => []
  | step::rest, labels =>
    let result := do
      match policyOf step with
      | some p => Bag.update p classes labels (tensorOf (field step "softmaxOut")) bagLabels
      | none => .error .requirement
    match result with
    | .error f => .fault f::labelSteps whole classes bagLabels rest labels
    | .ok new =>
      let shown : Json :=
        if flag step "argmax" then
          .arr (new.map fun bag => .arr (bag.map fun row => encNat (Fixed.argmax row)))
        else if whole then .arr
          (new.map fun bag => .arr (bag.map fun row => encInts (row.map wholePart)))
        else .arr (new.map (encFloatRows 12))
      .data shown::labelSteps whole classes bagLabels
        rest ⟨labels.shape,new.flatten.flatten.toArray⟩

def bagCall (req : Json) : Answer :=
  match str req "fn" with
  | "update" =>
    .record [("steps",.list (labelSteps (isWhole (field req "Y")) (nat req "numClasses")
      (intTensorOf (field req "bagLabel"))
      (items req "steps") (tensorOf (field req "Y"))))] none
  | "predict" => resultOf do
    let bags ← Tensor.need (intTensorOf (field req "Y")).toRows?
    let out ← Bag.predictions (nat req "numClass") (int req "minSubsequenceLen") bags
    return .arr (out.map encNat)
  | "runs" => resultOf do
    let t := intTensorOf (field req "Y")
    match t.toRows? with
    | some bags => return .arr (bags.map fun b =>
        encFloats 12 ((Bag.runs (int req "val") b).map fun (n : Nat) => Number.floatOfInt n))
    | none => if t.data.isEmpty then return .arr [] else .error .wrongKind
  | "instances" =>
    let kw := field req "kwargs"
    let policy := if str req "policy" == "index" then Bag.atStep (int kw "index") else Bag.lastStep
    let result := do
      match field? kw "keep_prob" with
      | some p => demand (asFloat p == 1.0)
      | none => pure ()
      Bag.instancePredictions policy ((items req "batches").map tensorOf)
    match result with
    | .ok out =>
      .ofFields [("predictions",.arr (out.map fun bag =>
          encFloats 12 (bag.map fun (p : Nat × Int) => Number.floatOfInt p.1))),
        ("steps",.arr (out.map fun bag =>
          encFloats 12 (bag.map fun (p : Nat × Int) => Number.floatOfInt p.2)))]
    | .error f => .fault f
  | _ => .fault .missingField

end MicroLearn.Request
