import MicroLearn.Bench.CellTrainer
import MicroLearn.Bench.GraphTrainer

/-!
# Training graph cells on the bench

The trainer of a graph cell keeps the cell's variables in a list, the matrices
first, and works through a session like the other trainers of graphs.
-/

set_option autoImplicit false

namespace MicroLearn.Bench

variable (p : Nat)

def fastInputs : Bench (List Value) := do itemsAt p "paramPlaceholders"

def fastInputNames (w n : Nat) : List String :=
  (List.range n).map fun i => (if i < w then "Wth_" else "Uth_")++toString i

def fastAssignments : Bench (List Value) := do
  let params ← itemsAt p "params"
  let (_,n) ← fastCounts p
  (List.range n).mapM fun i => do assignment (← itemAt params i)

def prepareFastThreshold : Bench Unit := do
  let (w,n) ← fastCounts p
  setField p "paramPlaceholders" (.list (← (fastInputNames w n).mapM placeholder))
  setField p "htOps" (.list (← fastAssignments p))
  setField p "hardThresholdGroup" (← newOperation)

def prepareFastRetrain : Bench Unit := do
  let _ ← fastInputs p
  setField p "stOps" (.list (← fastAssignments p))
  setField p "sparseRetrainGroup" (← newOperation)

def feedFast (session : Value) (group : String) (matrices : List Value) : Bench Unit := do
  let inputs ← fastInputs p
  let feeds ← matrices.zipIdx.mapM fun (v,i) => do return (← itemAt inputs i,v)
  let _ ← ask session (← fieldOf p group) (some feeds)

def thresholdGraphFast (session : Value) : Bench Unit := do
  setField p "cut" (.list [])
  let params ← itemsAt p "params"
  let (w,n) ← fastCounts p
  let cut ← (List.range n).mapM fun i => do
    let now ← evalOf (← itemAt params i)
    let share ← realOf (← fieldOf p (if i < w then "sW" else "sU"))
    return Value.grid (← thresholdGrid share (.grid now))
  setField p "cut" (.list cut)
  feedFast p session "hardThresholdGroup" cut

def restrictGraphFast (session : Value) : Bench Unit := do
  setField p "restricted" (.list [])
  let (_,n) ← fastCounts p
  let new ← (List.range n).mapM fun i => do
    let cut ← itemsAt p "cut"
    let c ← gridOf (← itemAt cut i)
    let now ← evalOf (← itemAt (← itemsAt p "params") i)
    return Value.grid (.real (← settle (Learn.restrictTo c.body now.body)))
  setField p "restricted" (.list new)
  feedFast p session "sparseRetrainGroup" new

def classifyGraph (states : Value) : Bench Value := do
  let c ← fastCell p
  let hidden ← natAt c "hiddenSize"
  let classes ← natAt p "classes"
  setField p "FC" (← graphMatrix "FC" .none (drawTensor 1.0 [hidden, classes]))
  setField p "FCbias" (← graphMatrix "FCbias" .none (drawTensor 1.0 [classes]))
  tensor (← classify p (← gridOf states))

def graphFastAccuracy (predictions labels : Value) : Bench Value := do
  let found := Grid.ofInts (bestPlaces (← rowsOf predictions))
  let right := Grid.ofInts (bestPlaces (← rowsOf labels))
  let equal ← settle (found.body.zip (fun x y => if x == y then (1.0 : Float) else 0.0) right.body)
  return .tuple [← tensor ⟨.truth,equal⟩, ← tensor
    (.scalar (Net.mean Nat.toFloat equal.data.toList))]

def trainGraphFast (batchSize epochs session xTrain xTest yTrain yTest decayStep decayRate
    dataFolder folder : Value) : Bench Unit := do
  let c ← fastCell p
  let results := (← textOf dataFolder)++"/"++CellNames.family (← cellKindOf c)++"Results.txt"
  openAtEnd results
  let size ← natOf batchSize
  if size = 0 then fail .zeroDivision
  let count ← natOf epochs
  let y ← gridOf yTrain
  let raw ← gridOf xTrain
  let dense := isTrue (← fieldOf p "dense")
  let times ← natAt p "times"
  let inputs ← natAt p "inputs"
  let xv ← inSequences (← gridOf xTest) times inputs
  let x ← inSequences raw times inputs
  setField p "history" (.list [])
  let out ← fieldOf p "output"
  let folder ← textOf folder
  let t : FastJob := ⟨results,folder,out,dense,raw.shape.headD 0,size,count,x,y,.real xv⟩
  let work : Train.Work FastTraining := { fastWork p t yTest decayStep decayRate with
    batch := fun _ index counter => do
      if counter = 0 then emit out (banner " Dense Training Phase Started ")
      let places := Train.batchAt size index (← get).order
      let batchX ← settle (x.pick places)
      let batchY ← settle (y.body.pick places)
      let wanted ← fieldsOf p ["trainOp", "lossOp", "accuracy"]
      let feeds := [(← fieldOf p "X",Value.grid (.real batchX)),
        (← fieldOf p "Y",.grid ⟨y.element,batchY⟩), (← fieldOf p "lr",← fieldOf p "rate")]
      match ← unpack 3 (← ask session wanted (some feeds)) with
      | [_, loss, accuracy] => do
        let a ← realOf accuracy
        let l ← realOf loss
        modify fun r => { r with accuracy := r.accuracy+a, loss := r.loss+l }
      | _ => fail .wrongKind
    threshold := fun isFirst => do
      thresholdGraphFast p session
      if isFirst then emit out (banner " IHT Phase Started ")
    retrain := fun opens => do
      restrictGraphFast p session
      if opens then emit out (banner " Sprase Retraining Phase Started ")
    closeEpoch := fun epoch done => do
      if t.perEpoch = 0 then fail .zeroDivision
      let n := Nat.toFloat t.perEpoch
      let r ← get
      emit out ("Train Loss: "++figureText (r.loss/n)++" Train Accuracy: " ++
        figureText (r.accuracy/n)++"\n")
      let feeds := [(← fieldOf p "X",Value.grid (.real xv)), (← fieldOf p "Y",yTest)]
      match ← unpack 2 (← ask session (← fieldsOf p ["accuracy", "lossOp"]) (some feeds)) with
      | [accuracy, loss] => do
        let history ← itemsAt p "history"
        setField p "history" (.list (history++[.record [("epoch",.int epoch),
          ("trainAcc",.real (r.accuracy/n)), ("trainLoss",.real (r.loss/n)), ("testAcc",accuracy),
          ("testLoss",loss)]]))
        let found ← cellOf accuracy
        if !done then
          modify fun r => { r with best := .int (-10000), bestEpoch := some epoch }
        else if !(found.isBelow (← get).best) then
          modify fun r => { r with best := found, bestEpoch := some epoch }
          saveFast p folder
        modify fun r => { r with last := some found }
        emit out ("Test Loss: "++cellText (← cellOf loss)++" Test Accuracy: "++cellText found++"\n")
        flush out
      | _ => fail .wrongKind }
  let (_,r) ← (work.train t.phases t.perEpoch count).run {}
  finishFast p t r

def callGraphCellTrainer (method : String) (a : Arguments) : Bench Value := do
  let withSession := fun (act : Value → Bench Unit) => do
    a.take ["session"] fun s => do
      act s
      return Value.none
  match method with
  | "check" => do
    for s in ["sW", "sU"] do require (← isShare (← fieldOf p s))
    return .none
  | "classify" => a.take ["states"] fun x => classifyGraph p x
  | "lossNode" => a.take ["logits", "Y"] fun _ _ => tensor (.scalar 1.0)
  | "trainNode" => a.take ["loss", "lr"] fun _ _ => newOperation
  | "measure" => a.take ["predictions", "Y"] fun x y => graphFastAccuracy x y
  | "prepareFastThreshold" => silent (prepareFastThreshold p)
  | "prepareFastRetrain" => silent (prepareFastRetrain p)
  | "threshold" => withSession (thresholdGraphFast p)
  | "restrict" => withSession (restrictGraphFast p)
  | "size" => do return estimateValue (← fastSize p)
  | "save" => a.take ["folder"] fun d => do silent (saveFast p (← textOf d))
  | "train" =>
    a.run ["batchSize", "epochs", "session", "xTrain", "xTest",
        "yTrain", "yTest", "decayStep", "decayRate", "dataFolder",
        "folder"] (trainGraphFast p)
  | "accuracyLog" => fieldOf p "history"
  | _ => fail .missingField

end MicroLearn.Bench
