import MicroLearn.Bench.Recurrent
import MicroLearn.Bench.TreeTrainer

/-!
# Training in even batches on the bench

Prototypes and networks over bricks are trained on batches whose sizes differ by
one at most. Every so many batches the loss and the accuracy are shown, every so
many epochs the accuracy on other samples.
-/

set_option autoImplicit false

namespace MicroLearn.Bench

def lossKinds : List String := ["l2", "xentropy"]

def announceLoss : Value → Bench Unit
  | .text "l2" => say "Using L2 (MSE) loss\n"
  | .text "xentropy" => say "Using x-entropy loss\n"
  | _ => fail .requirement

def lengthOf (g : Grid) : Nat :=
  match g.shape with
  | n::_ => n
  | [] => 1

def checkScores (logits labels : Value) : Bench Unit := do
  let x ← gridOf logits
  let y ← gridOf labels
  require (lengthOf x == lengthOf y && y.rank == 2 && x.rank == 2)

def batchLoss (kind logits labels : Value) : Bench Float := do
  checkScores logits labels
  match kind with
  | .text "l2" => meanSquaredError logits labels
  | _ => pure 1.0

def countRight (predictions labels : Grid) : Bench (Float × Nat) := do
  require (predictions.rank == 1 && labels.rank == 1 && lengthOf predictions == lengthOf labels)
  let right := List.zipWith (fun a b => if a == b then (1.0 : Float) else 0.0)
    predictions.entries labels.entries
  return (Net.total right,right.length)

def accuracyPair (predictions labels : Value) : Bench Value := do
  let (right,n) ← countRight (← gridOf predictions) (← gridOf labels)
  return .tuple [.real (right/Nat.toFloat n), .real right]

def bestGrid (v : Value) : Bench Grid := do
  let g ← gridOf v
  match g.rank with
  | 2 => return .ofInts (bestPlaces (← rowsOf (.grid g)))
  | _ => fail .badAxis

structure EvenRun where
  batchSize : Value
  epochs : Value
  printStep : Value
  valStep : Value
  lastShown : Bool
  trainCount : Nat
  valCount : Nat
  trainBatch : (place parts : Nat) → Bench (Value × Value)
  valBatch : (place parts : Nat) → Bench (Value × Value)
  forward : Value → Bench Value
  loss : Value → Value → Bench Float
  afterEpoch : Bench Unit

def EvenRun.go (r : EvenRun) : Bench Unit := do
  let size ← natOf r.batchSize
  let parts := Train.batchCount r.trainCount size
  let valParts := Train.batchCount r.valCount size
  if parts = 0 || valParts = 0 then fail (.value "number sections must be larger than 0.")
  let epochs ← natOf r.epochs
  for epoch in List.range epochs do
    for i in List.range parts do
      let (x,y) ← r.trainBatch i parts
      let logits ← r.forward x
      let loss ← r.loss logits y
      let (right,n) ← countRight (← bestGrid logits) (← bestGrid y)
      let step ← intOf r.printStep
      if step = 0 then fail .zeroDivision
      if (i : Int) % step = 0 then
        say ("Epoch "++toString epoch++" batch "++toString i++" loss "++fixedFigure 6 loss ++
          " acc "++fixedFigure 6 (right/Nat.toFloat n)++"\n")
    r.afterEpoch
    let step ← intOf r.valStep
    if step = 0 then fail .zeroDivision
    if ((epoch : Int)+1) % step = 0 || (r.lastShown && epoch+1 == epochs) then
      let mut total := 0.0
      for i in List.range valParts do
        let (x,y) ← r.valBatch i valParts
        let logits ← r.forward x
        let (right,_) ← countRight (← bestGrid logits) (← bestGrid y)
        total := total+right
      say ("Validation accuracy: "++fixedFigure 6 (total/Nat.toFloat r.valCount)++"\n")

def evenPart (g : Grid) (place parts : Nat) : Value :=
  let chosen := (Train.evenBatches parts g.body.parts).getD place []
  .grid ⟨g.element,.ofParts (g.shape.drop 1) chosen⟩

def newPrototypeTrainer (a : Arguments) : Bench Nat := do
  a.take ["model", "lW", "lB", "lZ", "sW", "sB",
      "sZ", "rate", given "lossKind" (.text "l2"), given "device" .none]
      fun model lW lB lZ sW sB sZ rate kind device => do
    let whole ← [sW, sB, sZ].allM fun s => do return (← realOf s) == 1.0
    let p ← build .prototypeTrainer [("model",model), ("lW",lW), ("lB",lB), ("lZ",lZ), ("sW",sW),
      ("sB",sB), ("sZ",sZ), ("rate",rate), ("sparse",.truth (!whole)), ("W_th",.none),
      ("B_th",.none), ("Z_th",.none), ("lossKind",kind)]
    let _ ← partOf model
    announceLoss kind
    for s in [sW, sB, sZ] do require (← isShare s)
    setField p "device" (deviceOf device)
    return p

def prototypeLoss (p : Nat) (logits labels : Value) : Bench Float := do
  checkScores logits labels
  let m ← partIn p "model"
  let part := fun (weight matrix : String) => do
    return (← realAt p weight)*(← squaredNormOf (← fieldOf m matrix))
  let w ← part "lW" "W"
  let b ← part "lB" "B"
  let z ← part "lZ" "Z"
  return (← batchLoss (← fieldOf p "lossKind") logits labels)+(w+b+z)

def thresholdPrototypes (p : Nat) : Bench Unit := do
  let m ← partIn p "model"
  let cut ← ["W", "B", "Z"].mapM fun name => do
    let v ← fieldOf m name
    return (v,← thresholdInPlace v (← realOf (← fieldOf p ("s"++name))))
  for (v,c) in cut do copyInto v c

def requireTable (v : Value) (cols : Value) : Bench Unit := do
  let g ← gridOf v
  require (g.rank == 2)
  require (Int.ofNat (g.shape.getD 1 0) == (← intOf cols))

def requirePositive (v : Value) : Bench Unit := do require (decide (1.0 ≤ (← realOf v)))

def trainPrototypes (p : Nat) (batchSize epochs xTrain xVal yTrain yVal printStep valStep : Value) :
    Bench Unit := do
  let m ← partIn p "model"
  let inputs ← fieldOf m "inputs"
  let labels ← fieldOf m "labels"
  requirePositive batchSize
  requirePositive epochs
  for x in [xTrain, xVal] do requireTable x inputs
  for y in [yTrain, yVal] do requireTable y labels
  let x ← gridOf xTrain
  let y ← gridOf yTrain
  let xv ← gridOf xVal
  let yv ← gridOf yVal
  let run : EvenRun := {
    batchSize, epochs, printStep, valStep
    lastShown := false
    trainCount := lengthOf x
    valCount := lengthOf xv
    trainBatch := fun i n => pure (evenPart x i n,evenPart y i n)
    valBatch := fun i n => pure (evenPart xv i n,evenPart yv i n)
    forward := fun v => callPrototypes m "forward" ⟨[v],[]⟩
    loss := prototypeLoss p
    afterEpoch := do if isTrue (← fieldOf p "sparse") then thresholdPrototypes p }
  run.go

def callPrototypeTrainer (p : Nat) (method : String) (a : Arguments) : Bench Value := do
  match method with
  | "loss" => a.take ["logits", "labels"] fun x y => do return .real (← prototypeLoss p x y)
  | "accuracy" => a.take ["predictions", "labels"] fun x y => accuracyPair x y
  | "threshold" => silent (thresholdPrototypes p)
  | "train" =>
    a.run ["batchSize", "epochs", "xTrain", "xVal", "yTrain",
        "yVal", given "printStep" (.int 10), given "valStep" (.int 1)] (trainPrototypes p)
  | _ => fail .missingField

def newBrickTrainer (a : Arguments) : Bench Nat := do
  a.take ["model", "rate", given "lossKind" (.text "l2"), given "device" .none]
      fun model rate kind device => do
    let _ ← partOf model
    let p ← build .brickTrainer [("model",model), ("rate",rate), ("lossKind",kind)]
    announceLoss kind
    setField p "device" (deviceOf device)
    return p

def evenColumns (g : Grid) (place parts : Nat) : Value :=
  match evenPart ⟨g.element,g.body.permute [1, 0, 2]⟩ place parts with
  | .grid h => .grid ⟨h.element,h.body.permute [1, 0, 2]⟩
  | v => v

def trainBricks (p : Nat)
    (brick batchSize epochs xTrain xVal yTrain yVal printStep valStep : Value) : Bench Unit := do
  let m ← partIn p "model"
  let labels ← fieldOf m "outputs"
  requirePositive batchSize
  requirePositive epochs
  for x in [xTrain, xVal] do require ((← gridOf x).rank == 3)
  for y in [yTrain, yVal] do requireTable y labels
  let x ← gridOf xTrain
  let y ← gridOf yTrain
  let xv ← gridOf xVal
  let yv ← gridOf yVal
  let run : EvenRun := {
    batchSize, epochs, printStep, valStep
    lastShown := true
    trainCount := x.shape.getD 1 0
    valCount := xv.shape.getD 1 0
    trainBatch := fun i n => pure (evenColumns x i n,evenPart y i n)
    valBatch := fun i n => pure (evenColumns xv i n,evenPart yv i n)
    forward := fun v => do forwardBricks m (← tensor (← gridOf v)) brick
    loss := fun x y => do batchLoss (← fieldOf p "lossKind") x y
    afterEpoch := pure () }
  run.go

def callBrickTrainer (p : Nat) (method : String) (a : Arguments) : Bench Value := do
  match method with
  | "loss" =>
    a.take ["logits", "labels"]
      fun x y => do return .real (← batchLoss (← fieldOf p "lossKind") x y)
  | "accuracy" => a.take ["predictions", "labels"] fun x y => accuracyPair x y
  | "train" =>
    a.run ["brick", "batchSize", "epochs", "xTrain", "xVal",
        "yTrain", "yVal", given "printStep" (.int 10), given "valStep" (.int 1)]
        (trainBricks p)
  | _ => fail .missingField

end MicroLearn.Bench
