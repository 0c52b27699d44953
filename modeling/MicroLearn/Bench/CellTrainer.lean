import MicroLearn.Bench.Recurrent
import MicroLearn.Bench.TreeTrainer

/-!
# Training recurrent cells on the bench

The trainer puts a linear classifier on the last state of a cell and runs the
schedule of sparse training on the cell's matrices.
-/

set_option autoImplicit false

namespace MicroLearn.Bench

open Net (CellKind)

def newCellTrainer (a : Arguments) : Bench Nat := do
  a.take ["cell", "classes", given "sW" (.real 1.0), given "sU" (.real 1.0),
      given "rate" (.real 0.01), given "output" .none, given "device" .none,
      given "batchFirst" (.truth false)] fun cell classes sW sU rate output device batchFirst => do
    let c ← partOf cell
    let p ← build .cellTrainer [("cell",cell), ("batchFirst",batchFirst), ("sW",sW), ("sU",sU),
      ("classes",classes), ("inputs",← fieldOf c "inputSize"), ("device",deviceOf device),
      ("rate",rate)]
    setField p "output" (← outputOf output false)
    setField p "dense" (.truth (← [sW, sU].allM isWhole))
    for s in [sW, sU] do require (← isShare s)
    let counts ← itemsAt c "counts"
    setField p "counts" (.list counts)
    let w ← natOf (← itemAt counts 0)
    let u ← natOf (← itemAt counts 1)
    setField p "matrixCount" (.int (w+u : Nat))
    setField p "run" (.part (← newRun ⟨[cell],[("batchFirst",batchFirst)]⟩))
    let hidden ← natAt c "hiddenSize"
    let n ← natOf classes
    setField p "FC" (← drawTensor 1.0 [hidden, n])
    setField p "FCbias" (← drawTensor 1.0 [n])
    setField p "params" (.list (← cellVars c))
    return p

variable (p : Nat)

def fastCell : Bench Nat := do partIn p "cell"

def classify (states : Grid) : Bench Grid := do
  let weights ← rowsAt p "FC"
  let bias ← gridIn p "FCbias"
  let width := (states.shape.getLast?).getD 0
  if states.rank = 0 then fail Net.tooFewAxes
  if width != weights.length then fail (Net.innerMismatch weights.length width)
  let rows := Net.groups width (states.entries.length/width) states.entries
  let out := rows.map fun h => Net.plus (Net.rowTimes h weights) bias.entries
  let classes := (weights.head?.map List.length).getD 0
  return .real ⟨states.shape.dropLast++[classes],out.flatten.toArray⟩

def logitsOf (x : Value) : Bench (Grid × Grid) := do
  let answer ← forwardRun (← partIn p "run") x .none .none
  let states ← match answer with
    | .tuple (h::_) => gridOf h
    | v => gridOf v
  let logits ← classify p (← lastPart states)
  let lasts ← states.parts.mapM lastPart
  return (logits,.real (.ofParts (states.shape.drop 2) (lasts.map (·.body))))

def fastLoss (labels : Value) : Bench Float := do
  let _ ← rowsOf labels
  return 1.0

def fastAccuracy (logits labels : Value) : Bench Float := do
  return agreement (bestPlaces (← rowsOf logits)) (bestPlaces (← rowsOf labels))

def fastCounts : Bench (Nat × Nat) := do
  let w ← natOf (← itemAt (← itemsAt p "counts") 0)
  return (w,← natAt p "matrixCount")

def thresholdFast : Bench Unit := do
  setField p "cut" (.list [])
  let params ← itemsAt p "params"
  let (w,n) ← fastCounts p
  let cut ← (List.range n).mapM fun i => do
    let share ← realOf (← fieldOf p (if i < w then "sW" else "sU"))
    let v ← itemAt params i
    return (v,← thresholdInPlace v share)
  for (v,c) in cut do copyInto v c
  setField p "cut" (.list (← cut.mapM fun (_,c) => copyOf c))

def restrictFast : Bench Unit := do
  setField p "restricted" (.list [])
  let params ← itemsAt p "params"
  let (_,n) ← fastCounts p
  let new ← (List.range n).mapM fun i => do
    let cut ← itemsAt p "cut"
    let v ← itemAt params i
    return (v,← restrictInPlace (← itemAt cut i) v)
  setField p "restricted" (.list (new.map (·.2)))
  for (v,r) in new do shareBuffer (← heldPlace v) (← heldPlace r)

def fastSize : Bench Learn.SizeEstimate := do
  let params ← itemsAt p "params"
  let (w,n) ← fastCounts p
  let parts ← params.zipIdx.mapM fun (v,i) => do
    let share ← if i < w then realAt p "sW" else if i < n then realAt p "sU" else pure 1.0
    estimateOf v share
  let fc ← estimateOf (← fieldOf p "FC") 1.0
  let bias ← estimateOf (← fieldOf p "FCbias") 1.0
  return (parts++[fc, bias]).foldl addEstimates noWeights

def savedNames (letter : String) (count : Nat) (ranked : Bool) : List String :=
  let numbered := fun (n : Nat) => (List.range n).map fun i => letter++toString (i+1)
  if count = 1 then [letter]
  else if ranked && 2 < count then letter::numbered (count-1)
  else numbered count

def savedRest : CellKind → List String
  | .fastGated => ["Bg", "Bh", "zeta", "nu"]
  | .fast => ["B", "alpha", "beta"]
  | .updateGated => ["Bg", "Bh"]
  | .gated => ["Br", "Bg", "Bh"]
  | .longShort => ["Bf", "Bi", "Bc", "Bo"]

def savedAll : Bench (List String) := do
  let c ← fastCell p
  let (w,n) ← fastCounts p
  let ranked := fun (name : String) => do return !(← fieldOf c name).isNone
  return savedNames "W" w (← ranked "inputRank")++savedNames "U" (n-w) (← ranked "stateRank") ++
    savedRest (← cellKindOf c)

def saveFast (folder : String) : Bench Unit := do
  let params ← itemsAt p "params"
  let save := fun (name : String) (v : Value) => do
    writeFile (folder++"/"++name++".npy") (.grid (← gridOf v))
  for (name,i) in (← savedAll p).zipIdx do save name (← itemAt params i)
  save "FC" (← fieldOf p "FC")
  save "FCbias" (← fieldOf p "FCbias")

structure FastRun where
  accuracy : Float := 0.0
  loss : Float := 0.0
  order : List Nat := []
  best : Number.Cell := .int (-10000)
  bestEpoch : Option Nat := none
  last : Option Number.Cell := none

abbrev FastTraining := StateT FastRun Bench

def inSequences (g : Grid) (times inputs : Nat) : Bench (Tensor Float) := do
  let step := times*inputs
  if step = 0 || g.entries.length % step != 0 then
    fail (cannotReshape g.entries.length [times, inputs])
  return ⟨[g.entries.length/step, times, inputs],g.body.data⟩

def timeMajor (g : Grid) (times inputs : Nat) : Bench Grid := do
  return ⟨g.element,(← inSequences g times inputs).permute [1, 0, 2]⟩

structure FastJob where
  results : String
  folder : String
  out : Value
  dense : Bool
  examples : Nat
  size : Nat
  epochs : Nat
  samples : Tensor Float
  labels : Grid
  test : Grid

variable (t : FastJob)

namespace FastJob

def perEpoch : Nat := Train.batchCount t.examples t.size

def phases : Train.Phases := .ofTotal t.dense (t.perEpoch*t.epochs) 15

end FastJob

def startFast (batchSize epochs xTrain xTest yTrain : Value) (dataFolder folder : Value) :
    Bench FastJob := do
  let c ← fastCell p
  let family := CellNames.family (← cellKindOf c)
  let results := (← textOf dataFolder)++"/"++family++"Results_pytorch.txt"
  openAtEnd results
  let x ← gridOf xTrain
  let xv ← gridOf xTest
  let y ← gridOf yTrain
  let size ← natOf batchSize
  if size = 0 then fail .zeroDivision
  let count ← natOf epochs
  let dense := isTrue (← fieldOf p "dense")
  let inputs ← natOf (← fieldOf p "inputs")
  let times := (xv.shape.getD 1 0)/inputs
  setField p "times" (.int times)
  let test ← timeMajor xv times inputs
  let train ← timeMajor x times inputs
  let out ← fieldOf p "output"
  let folder ← textOf folder
  return ⟨results,folder,out,dense,x.shape.headD 0,size,count,train.body.permute [1, 0, 2],y,test⟩

/-- Tests the cell behind an epoch: the loss, the accuracy, and whether it is to be saved. It never
is before the weights have been cut. -/
def testFast (yTest : Value) (epoch : Nat) (done : Bool) :
    FastTraining (Float × Float × Bool) := do
  if t.perEpoch = 0 then fail .zeroDivision
  let n := Nat.toFloat t.perEpoch
  let r ← get
  emit t.out ("Train Loss: "++figureText (r.loss/n)++" Train Accuracy: " ++
    figureText (r.accuracy/n)++"\n")
  let (logits,_) ← logitsOf p (.grid t.test)
  let loss ← fastLoss yTest
  let accuracy ← fastAccuracy (.grid logits) yTest
  let better := done && !((Number.Cell.real accuracy).isBelow (← get).best)
  if !done then modify fun r => { r with best := .int (-10000), bestEpoch := some epoch }
  if better then modify fun r => { r with best := .real accuracy, bestEpoch := some epoch }
  return (loss,accuracy,better)

def fastWork (yTest decayStep decayRate : Value) : Train.Work FastTraining where
  openEpoch epoch := do
    emit t.out ("\nEpoch Number: "++toString epoch++"\n")
    let step ← natOf decayStep
    if step = 0 then fail .zeroDivision
    if epoch % step = 0 && epoch != 0 then
      setField p "rate" (.real ((← realOf (← fieldOf p "rate"))*(← realOf decayRate)))
    let order ← shuffle (List.range (t.samples.shape.headD 0))
    modify fun r => { r with accuracy := 0.0, loss := 0.0, order := order }
  batch _ index counter := do
    if counter = 0 then emit t.out (banner " Dense Training Phase Started ")
    let places := Train.batchAt t.size index (← get).order
    let batchX ← settle (t.samples.pick places)
    let batchY ← settle (t.labels.body.pick places)
    let labels := Value.grid ⟨t.labels.element,batchY⟩
    let (logits,_) ← logitsOf p (.grid (.real (batchX.permute [1, 0, 2])))
    let loss ← fastLoss labels
    let accuracy ← fastAccuracy (.grid logits) labels
    modify fun r => { r with accuracy := r.accuracy+accuracy, loss := r.loss+loss }
  threshold isFirst := do
    thresholdFast p
    if isFirst then emit t.out (banner " IHT Phase Started ")
  retrain opens := do
    restrictFast p
    if opens then emit t.out (banner " Sprase Retraining Phase Started ")
  closeEpoch epoch done := do
    let (loss,accuracy,better) ← testFast p t yTest epoch done
    if better then saveFast p t.folder
    modify fun r => { r with last := some (.real accuracy) }
    emit t.out ("Test Loss: "++figureText loss++" Test Accuracy: "++figureText accuracy++"\n")
    flush t.out

def finishFast (r : FastRun) : Bench Unit := do
  let epoch ← assigned r.bestEpoch
  let last ← assigned r.last
  emit t.out ("\nMaximum Test accuracy at compressed model size(including early stopping): " ++
    cellText r.best++" at Epoch: "++toString (epoch+1)++"\nFinal Test Accuracy: " ++
    cellText last++"\n")
  let e ← fastSize p
  emit t.out (sizeLine "\n\nNon-Zeros: " e)
  closeRun t.out t.results t.folder (resultLine "MaxTestAcc: " r.best epoch t.epochs e t.folder)

def trainFast (batchSize epochs xTrain xTest yTrain yTest decayStep decayRate : Value)
    (dataFolder folder : Value) : Bench Unit := do
  let t ← startFast p batchSize epochs xTrain xTest yTrain dataFolder folder
  let (_,r) ← ((fastWork p t yTest decayStep decayRate).train t.phases t.perEpoch t.epochs).run {}
  finishFast p t r

def callCellTrainer (method : String) (a : Arguments) : Bench Value := do
  match method with
  | "classify" => a.take ["states"] fun x => do tensor (← classify p (← gridOf x))
  | "logits" => a.take ["input"] fun x => do
      let (logits,lasts) ← logitsOf p x
      return .tuple [← tensor logits, ← tensor lasts]
  | "loss" => a.take ["logits", "labels"] fun _ y => do return .real (← fastLoss y)
  | "accuracy" => a.take ["logits", "labels"] fun x y => do return .real (← fastAccuracy x y)
  | "check" => do
    for s in ["sW", "sU"] do require (← isShare (← fieldOf p s))
    return .none
  | "threshold" => silent (thresholdFast p)
  | "restrict" => silent (restrictFast p)
  | "size" => do return estimateValue (← fastSize p)
  | "save" => a.take ["folder"] fun d => do silent (saveFast p (← textOf d))
  | "train" =>
    a.run ["batchSize", "epochs", "xTrain", "xTest", "yTrain",
        "yTest", "decayStep", "decayRate", "dataFolder", "folder"] (trainFast p)
  | _ => fail .missingField

end MicroLearn.Bench
