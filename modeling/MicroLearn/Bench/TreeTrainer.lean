import MicroLearn.Bench.Cell
import MicroLearn.Train.Schedule

/-!
# Training trees on the bench

The trainer of a tree weighs its matrices, thresholds them, restricts them to
what was kept, writes them to files and runs the schedule of sparse training.
The step of the optimizer changes nothing here.
-/

set_option autoImplicit false

namespace MicroLearn.Bench

open Number

/-- A number written in the shortest of two ways, with at most six figures. -/
def shortFigure (x : Float) : String :=
  let t := generalText 6 x
  if t.any fun c => c == '.' || c == 'e' then figureText ((readFloat? t).getD x) else t

def fixedFigure (decimals : Nat) (x : Float) : String :=
  figureText ((readFloat? (fixedText decimals x)).getD x)

def banner (text : String) : String :=
  let stars := String.ofList (List.replicate 20 '*')
  "\n"++stars++text++stars++"\n\n"

def tableText (rows : List (List Float)) : String :=
  String.join (rows.map fun r => "\t".intercalate (r.map figureText)++"\n")

def kilobytes (c : Cell) : String := figureText (c.toFloat/1024.0)

def treeMatrices : List String := ["W", "V", "Z", "T"]

def isShare (v : Value) : Bench Bool := do
  let x ← realOf v
  return 0.0 ≤ x && x ≤ 1.0

def isWhole (v : Value) : Bench Bool := do return (← realOf v) > 0.99

def outputOf (v : Value) (announce : Bool) : Bench Value :=
  match v with
  | .none => pure .screen
  | .text path => do
    if announce then say ("Outfile :  "++path++"\n")
    openFresh path
  | _ => fail .wrongKind

def deviceOf (v : Value) : Value := if v.isNone then .text "cpu" else v

def newTreeTrainer (a : Arguments) : Bench Nat := do
  a.take ["model", "lW", "lT", "lV", "lZ", "sW",
      "sT", "sV", "sZ", "rate", given "hinge" (.truth false),
      given "output" .none, given "device" .none]
      fun model lW lT lV lZ sW sT sV sZ rate hinge output device => do
    let p ← build .treeTrainer [("model",model), ("lW",lW), ("lV",lV), ("lT",lT), ("lZ",lZ),
      ("sW",sW), ("sV",sV), ("sT",sT), ("sZ",sZ), ("device",deviceOf device), ("hinge",hinge)]
    setField p "output" (← outputOf output true)
    setField p "rate" rate
    for s in [sW, sV, sZ, sT] do require (← isShare s)
    let _ ← partOf model
    setField p "dense" (.truth (← [sW, sV, sZ, sT].allM isWhole))
    return p

variable (p : Nat)

def treeOf : Bench Nat := do partIn p "model"

def treeLoss (logits labels : Value) : Bench (Float × Float × Float) := do
  let m ← treeOf p
  let part := fun (weight matrix : String) => do
    return (← realAt p weight)*(← squaredNormOf (← fieldOf m matrix))
  let z ← part "lZ" "Z"
  let w ← part "lW" "W"
  let v ← part "lV" "V"
  let t ← part "lT" "T"
  let size := 0.5*(z+w+v+t)
  let margin ← if 2 < (← natAt m "classes") then
      if isTrue (← fieldOf p "hinge") then hingeLoss logits labels
      else do
        let _ ← rowsOf labels
        pure 1.0
    else binaryHinge logits labels
  return (margin+size,margin,size)

def treeAccuracy (logits labels : Value) : Bench Float := do
  let m ← treeOf p
  if 2 < (← natAt m "classes") then
    return agreement (bestPlaces (← rowsOf logits)) (bestPlaces (← rowsOf labels))
  else
    let scores ← rowsOf logits
    let right := (← gridOf labels).entries.map fun x => (wholeOf x).toNat
    let found := scores.map fun row => Fixed.argmax (row.map (fun _ => (0.0 : Float))++row)
    return agreement right found

def thresholdTree : Bench Unit := do
  let m ← treeOf p
  let cut ← treeMatrices.mapM fun name => do
    let v ← fieldOf m name
    let share ← realOf (← fieldOf p ("s"++name))
    return (name,v,← thresholdInPlace v share)
  for (_,v,c) in cut do copyInto v c
  for (name,_,c) in cut do setField p ("cut"++name) (← copyOf c)

def restrictTree : Bench Unit := do
  let m ← treeOf p
  let vs ← treeMatrices.mapM (fieldOf m)
  let new ← (treeMatrices.zip vs).mapM fun (name,v) => do
    return (v,← restrictInPlace (← fieldOf p ("cut"++name)) v)
  for (v,n) in new do shareBuffer (← heldPlace v) (← heldPlace n)

def treeSize : Bench Learn.SizeEstimate := do
  let m ← treeOf p
  let part := fun (name : String) => do
    estimateOf (← fieldOf m name) (← realOf (← fieldOf p ("s"++name)))
  let z ← part "Z"
  let w ← part "W"
  let v ← part "V"
  let t ← part "T"
  return ⟨z.count+t.count+v.count+w.count,z.bytes+w.bytes+v.bytes+t.bytes,
    w.sparse || v.sparse || t.sparse || z.sparse⟩

def settingNames : List (String × String) :=
  [("dataDim","inputs"), ("projDim","width"), ("numClasses","classes"), ("depth","depth"),
    ("sigma","sigma")]

def saveTree (m : Nat) (folder : String) : Bench Unit := do
  for name in ["W", "V", "T", "Z"] do
    writeFile (folder++"/"++name++".npy") (.grid (← gridIn m name))
  let settings ← settingNames.mapM fun (k,f) => do return (k,← fieldOf m f)
  writeFile (folder++"/hyperParam.npy") (.record settings)

def saveTreeTexts (m : Nat) (folder : String) : Bench Unit := do
  let home := folder++"/SeeDot/"
  if !(← get).folders.contains (tidy folder) then
    say ("Creation of the directory "++home++" failed\n")
    fail .missingFile
  makeFolder home
  let s ← treeSizes m
  for name in ["W", "V"] do
    let rows ← settle (Learn.groupByClass s.classes s.nodes (← rowsAt m name))
    writeFile (home++name) (.text (tableText rows))
  for name in ["T", "Z"] do
    writeFile (home++name) (.text (tableText (← rowsAt m name)))
  writeFile (home++"Sigma") (.text (tableText [[← realAt m "sigma"]]))

/-- The saved settings are of a kind that is not read back. -/
def loadTree (folder : String) : Bench Value := do
  for name in ["W", "V", "T", "Z", "hyperParam"] do
    let _ ← readFile (folder++"/"++name++".npy")
  fail (.value "Object arrays cannot be loaded when allow_pickle=False")

structure TreeRun where
  sharpness : Cell := .int 1
  inPhase : Nat := 0
  accuracy : Cell := .real 0.0
  loss : Cell := .real 0.0
  best : Cell
  bestEpoch : Option Nat := none
  last : Option Cell := none

structure TreeBatches where
  samples : Nat
  size : Nat
  epochs : Nat

namespace TreeBatches

def total (b : TreeBatches) : Float := Nat.toFloat b.samples/Nat.toFloat b.size*Nat.toFloat b.epochs

def perEpoch (b : TreeBatches) : Nat := (wholeOf (Nat.toFloat b.samples/Nat.toFloat b.size)).toNat

def phases (b : TreeBatches) (dense : Bool) (classes : Nat) : Train.Phases :=
  ⟨dense,(wholeOf (b.total/3.0)).toNat,(wholeOf (2.0*b.total/3.0)).toNat,
    if 2 < classes then 15 else 5⟩

end TreeBatches

/-- The sharpness that spreads the routes of some projected samples, growing with the batches of the
phase up to a bound. -/
def spreadSharpness (routes projected : List (List Float)) (inPhase : Nat) (total : Float) : Cell :=
  let spread := Net.total (routes.map fun t =>
    Net.total (projected.map fun z => magnitude (Model.dot t z)))
  let inner := routes.length
  let start := if inner = 0 then 0.1 else 0.1/(spread/Nat.toFloat (100*inner))
  let x := start*Float.pow 2.0 (Nat.toFloat inPhase/(total/30.0))
  if x < 1000.0 then .real x else .int 1000

def opensPhase (p : Train.Phases) (counter : Nat) : Bool :=
  counter == 0 || counter == p.first || counter == p.second

def batchValue (g : Grid) (size place : Nat) : Value :=
  .grid ⟨g.element,g.body.range (place*size) ((place+1)*size)⟩

def inClassRows (m : Nat) (v : Value) : Bench Value := do
  let g ← gridOf v
  let classes ← natAt m "classes"
  return .grid ⟨g.element,← settle (g.body.inRows classes)⟩

def resultLine (title : String) (best : Cell) (epoch epochs : Nat) (e : Learn.SizeEstimate)
    (folder : String) : String :=
  title++cellText best++" at Epoch(totalEpochs): "++toString (epoch+1)++"("++toString epochs ++
    ") ModelSize: "++kilobytes e.bytes++" KB hasSparse: "++truthText e.sparse ++
    " Param Directory: "++tidy folder++"\n"

def sizeLine (title : String) (e : Learn.SizeEstimate) : String :=
  title++cellText e.count++" Model Size: "++kilobytes e.bytes++" KB hasSparse: " ++
    truthText e.sparse++"\n\n"

def closeRun (out : Value) (results folder line : String) : Bench Unit := do
  appendFile results line
  say ("The Model Directory: "++folder++"\n\n")
  flush out
  close out

abbrev TreeTraining := StateT TreeRun Bench

def assigned {α : Type} : Option α → Bench α
  | some x => pure x
  | none => fail .unassigned

/-- The routing of a batch: dull where a phase opens, else spread anew every hundred batches. -/
def setSharpness (b : TreeBatches) (phases : Train.Phases) (counter : Nat)
    (projectSome : Bench (List (List Float) × List (List Float))) : TreeTraining Unit := do
  if opensPhase phases counter && !phases.dense then
    modify fun r => { r with sharpness := .int 1, inPhase := 0 }
  else if (← get).inPhase % 100 == 0 then
    let (routes,projected) ← projectSome
    modify fun r => { r with sharpness := spreadSharpness routes projected r.inPhase b.total }
  modify fun r => { r with inPhase := r.inPhase+1 }

structure TreeJob where
  tree : Nat
  results : String
  folder : String
  out : Value
  dense : Bool
  classes : Nat
  batches : TreeBatches
  samples : Grid
  labels : Grid

variable (t : TreeJob)

def TreeJob.phases : Train.Phases := t.batches.phases t.dense t.classes

def startTree (batchSize epochs xTrain yTrain : Value) (dataFolder folder : Value) :
    Bench TreeJob := do
  let m ← treeOf p
  let results := (← textOf dataFolder)++"/PyTorchBonsaiResults.txt"
  openAtEnd results
  let x ← gridOf xTrain
  let y ← gridOf yTrain
  let size ← natOf batchSize
  if size = 0 then fail .zeroDivision
  let count ← natOf epochs
  let classes ← natOf (← fieldOf m "classes")
  let dense := isTrue (← fieldOf p "dense")
  setField p "sharpness" (.int 1)
  let out ← fieldOf p "output"
  let folder ← textOf folder
  return ⟨m,results,folder,out,dense,classes,⟨x.shape.headD 0,size,count⟩,x,y⟩

def keepSharpness : TreeTraining Unit := do setField p "sharpness" (.ofCell (← get).sharpness)

/-- Tests the tree behind an epoch: the losses, the accuracy, and whether it is to be saved. It
never is before the weights have been cut. -/
def testTree (xTest yTest : Value) (epoch : Nat) (done : Bool) :
    TreeTraining ((Float × Float × Float) × Cell × Bool) := do
  if t.batches.perEpoch = 0 then fail .zeroDivision
  let n := Nat.toFloat t.batches.perEpoch
  let r ← get
  emit t.out ("\nClassification Train Loss: "++figureText (r.loss.toFloat/n) ++
    "\nTraining accuracy (Classification): "++figureText (r.accuracy.toFloat/n)++"\n")
  setField p "sharpness" (.real 1e9)
  let answer ← forwardTree t.tree xTest (.real 1e9)
  let logits ← itemAt (← itemsOf answer) 0
  let losses ← treeLoss p logits yTest
  let accuracy := Cell.real (← treeAccuracy p logits yTest)
  let better := done && !(accuracy.isBelow (← get).best)
  if !done then modify fun r => { r with best := .int (-10000), bestEpoch := some epoch }
  if better then modify fun r => { r with best := accuracy, bestEpoch := some epoch }
  return (losses,accuracy,better)

def treeWork (xTest yTest : Value) : Train.Work TreeTraining where
  openEpoch epoch := do
    emit t.out ("\nEpoch Number: "++toString epoch++"\n")
    modify fun r => { r with accuracy := .real 0.0, loss := .real 0.0 }
  batch _ index counter := do
    if counter = 0 then emit t.out (banner " Dense Training Phase Started ")
    setSharpness t.batches t.phases counter do
      let places ← drawPlaces t.batches.samples 100
      let some' ← settle (t.samples.body.pick places)
      let tree ← netTree t.tree
      return (tree.routes,(some'.toRows?.getD []).map tree.project)
    keepSharpness p
    let batchX := batchValue t.samples t.batches.size index
    let batchY ← inClassRows t.tree (batchValue t.labels t.batches.size index)
    let answer ← forwardTree t.tree batchX (.ofCell (← get).sharpness)
    let logits ← itemAt (← itemsOf answer) 0
    let (loss,_,_) ← treeLoss p logits batchY
    let accuracy ← treeAccuracy p logits batchY
    modify fun r => { r with accuracy := r.accuracy+.real accuracy, loss := r.loss+.real loss }
  threshold isFirst := do
    thresholdTree p
    if isFirst then emit t.out (banner " IHT Phase Started ")
  retrain opens := do
    restrictTree p
    if opens then emit t.out (banner " Sparse Retraining Phase Started ")
  closeEpoch epoch done := do
    let (losses,accuracy,better) ← testTree p t xTest yTest epoch done
    if better then
      saveTree t.tree t.folder
      saveTreeTexts t.tree t.folder
    modify fun r => { r with last := some accuracy }
    emit t.out ("Test accuracy "++shortFigure accuracy.toFloat++"\n")
    emit t.out ("MarginLoss + RegLoss: "++figureText losses.2.1++" + " ++
      figureText losses.2.2++" = "++figureText losses.1++"\n\n")
    flush t.out
    keepSharpness p

def reportTree (r : TreeRun) (title final measure : String) : Bench Unit := do
  let e ← treeSize p
  emit t.out (sizeLine "\nNon-Zero : " e)
  let epoch ← assigned r.bestEpoch
  let last ← assigned r.last
  emit t.out ("For "++title++" at compressed model size(including early stopping): " ++
    cellText r.best++" at Epoch: "++toString (epoch+1)++"\nFinal Test "++final++": " ++
    cellText last++"\n")
  closeRun t.out t.results t.folder
    (resultLine (measure++": ") r.best epoch t.batches.epochs e t.folder)

def finishTree (r : TreeRun) : Bench Unit := do
  setField p "sharpness" (.real 1e9)
  reportTree p t r "Classification, Maximum Test accuracy" "Accuracy" "MaxTestAcc"

def trainTree (batchSize epochs : Value) (xTrain xTest yTrain yTest : Value)
    (dataFolder folder : Value) : Bench Unit := do
  let t ← startTree p batchSize epochs xTrain yTrain dataFolder folder
  let run := (treeWork p t xTest yTest).train t.phases t.batches.perEpoch t.batches.epochs
  let (_,r) ← run.run { best := .int (-10000) }
  finishTree p t r

def callTreeTrainer (method : String) (a : Arguments) : Bench Value := do
  match method with
  | "loss" => a.take ["logits", "labels"] fun x y => do
      let (l,m,s) ← treeLoss p x y
      return .tuple [.real l, .real m, .real s]
  | "accuracy" => a.take ["logits", "labels"] fun x y => do return .real (← treeAccuracy p x y)
  | "threshold" => silent (thresholdTree p)
  | "restrict" => silent (restrictTree p)
  | "check" => do
    for s in ["sW", "sV", "sZ", "sT"] do require (← isShare (← fieldOf p s))
    return .none
  | "save" => a.take ["folder"] fun d => do silent (saveTree (← treeOf p) (← textOf d))
  | "saveTexts" => a.take ["folder"] fun d => do silent (saveTreeTexts (← treeOf p) (← textOf d))
  | "load" => a.take ["folder"] fun d => do loadTree (← textOf d)
  | "size" => do return estimateValue (← treeSize p)
  | "train" =>
    a.run ["batchSize", "epochs", "xTrain", "xTest", "yTrain",
        "yTest", "dataFolder", "folder"] (trainTree p)
  | _ => fail .missingField

end MicroLearn.Bench
