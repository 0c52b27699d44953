import MicroLearn.Bag.Policy
import MicroLearn.Bench.BagNetwork
import MicroLearn.Bench.GraphTrainer

/-!
# Training over bags on the bench

The trainer of bags runs batches through a session until the data comes to its
end. The driver goes through rounds: it trains, saves the model, loads the best
one into a new session and updates the labels of the instances.
-/

set_option autoImplicit false

namespace MicroLearn.Bench

def trainerScope : String := "EMI/Trainer/"

def bagLosses : List String := ["xentropy", "l2"]

def trainerNodes : List String :=
  ["lossOp", "trainOp", "softmaxPredictions", "accTilda", "equalTilda", "lossIndicatorTensor",
    "lossIndicatorPlaceholder", "lossIndicatorAssignOp"]

def isOneOf (names : List String) : Value → Bool
  | .text t => names.contains t
  | _ => false

def newBagTrainer (a : Arguments) : Bench Nat := do
  a.take ["times", "outputs", given "graph" .none, given "stepSize" (.real 0.001),
      given "lossKind" (.text "l2"), given "optimizer" (.text "Adam"),
      given "automode" (.truth true)]
      fun t o g step loss optimizer auto => do
    let p ← build .bagTrainer ([("times",t), ("outputs",o), ("graph",g), ("stepSize",step),
      ("lossKind",loss), ("optimizer",optimizer), ("automode",auto), ("valid",.truth false),
      ("created",.truth false)]++trainerNodes.map (fun name => (name,Value.none)) ++
      [("supportedLosses",.list (bagLosses.map .text)),
        ("supportedOptimizers",.list [.text "Adam"]), ("scope",.text trainerScope)])
    require (isOneOf bagLosses loss)
    require (isOneOf ["Adam"] optimizer)
    return p

def checkBags (p : Nat) (predicted target : Value) : Bench Unit := do
  let x ← gridOf predicted
  let y ← gridOf target
  let sized := fun (g : Grid) (i : Nat) (field : String) => do
    return (← sizeAt g i) == (← intAt p field)
  require (x.rank == 4)
  require (← sized x 3 "outputs")
  require (← sized x 2 "times")
  require ((← sizeAt x 1) == (← sizeAt y 1))
  require (y.rank == 3)
  require (← sized y 2 "outputs")
  setField p "valid" (.truth true)

def restoreTrainer (p : Nat) : Bench Unit := do
  require (isFalse (← fieldOf p "created"))
  let graph ← fieldOf p "graph"
  let train ← latestCollection "EMI-train-op"
  setField p "trainOp" (.list train)
  let loss ← latestCollection "EMI-loss-op"
  setField p "lossOp" (.list loss)
  require (train.length == 1 && loss.length == 1)
  setField p "trainOp" (← onlyOne train)
  setField p "lossOp" (← onlyOne loss)
  for (field,name) in [("lossIndicatorTensor","loss-indicator:0"),
      ("lossIndicatorPlaceholder","loss-indicator-placeholder:0"),
      ("lossIndicatorAssignOp","loss-indicator-assign-op:0"),
      ("softmaxPredictions","softmaxed-prediction:0"), ("accTilda","acc-tilda:0"),
      ("equalTilda","equal-tilda:0")] do
    setField p field (← tensorNamed graph (trainerScope++name))
  setFields p [("created",.truth true), ("valid",.truth true)]

def reattachTrainer (p : Nat) (graph : Value) : Bench Unit := do
  setFields p [("created",.truth false), ("lossOp",.none), ("trainOp",.none),
    ("lossIndicatorTensor",.none), ("softmaxPredictions",.none), ("accTilda",.none),
    ("graph",graph), ("valid",.truth true)]
  restoreTrainer p

def attachTrainer (p : Nat) (predicted target : Value) : Bench Value := do
  if ← holds (← fieldOf p "created") then
    require (!(← fieldOf p "lossOp").isNone)
    require (!(← fieldOf p "trainOp").isNone)
  else
    checkBags p predicted target
    match ← fieldOf p "graph" with
    | .none => fail .missingField
    | _ => restoreTrainer p
  return .tuple [← fieldOf p "lossOp", ← fieldOf p "trainOp"]

def bagLoss (p : Nat) (predicted target : Value) : Bench Value := do
  require (isTrue (← fieldOf p "valid"))
  let times ← natAt p "times"
  let outputs ← natAt p "outputs"
  let marks : Tensor Float := ⟨[times, outputs],
    (Array.range (times*outputs)).map fun k => if (times-1)*outputs ≤ k then 1.0 else 0.0⟩
  let indicator ← hold (.real marks) "loss-indicator"
  let input ← placeholder "loss-indicator-placeholder"
  setFields p [("lossIndicatorTensor",indicator), ("lossIndicatorPlaceholder",input),
    ("lossIndicatorAssignOp",← copyOf input)]
  let inSteps := fun (v : Value) => do
    let g ← gridOf v
    let step := times*outputs
    if step = 0 || g.entries.length % step != 0 then
      fail (cannotReshape g.entries.length [times, outputs])
    return (⟨[g.entries.length/step, times, outputs],g.body.data⟩ : Tensor Float)
  let logits ← inSteps predicted
  let labels ← inSteps target
  let diff ← settle (logits.zip (· - ·) labels)
  let counted ← settle (marks.zip (· * ·) diff)
  match ← fieldOf p "lossKind" with
  | .text "l2" => tensor (.scalar (0.5*Net.squaredNorm counted.data.toList))
  | .text "xentropy" => tensor (.scalar 1.0)
  | _ => fail .unassigned

def untilEnd {α : Type} (act : Bench α) : Bench (Option α) :=
  tryCatch (do return some (← act)) fun f => if f == .ended then pure none else fail f

def answersLeft (session : Value) : Bench Nat := do
  return (← itemsAt (← partOf session) "script").length

/-- Trains until the data ends; every so many batches `echo` does it and shows how it goes. -/
def trainBatches (p : Nat) (session feeds : Value) (interval : Int) (echo : Nat → Bench Unit) :
    Nat → Nat → Bench Unit
  | _, 0 => fail .endless
  | batch, n+1 => do
    let step := do
      if interval = 0 then fail .zeroDivision
      if (batch : Int) % interval = 0 then echo batch
      else
        let _ ← ask session (.list [← fieldOf p "trainOp"]) (feedsOf feeds)
    match ← untilEnd step with
    | some _ => trainBatches p session feeds interval echo (batch+1) n
    | none => pure ()

def trainRound (p : Nat) (session feeds : Value) (interval : Int) (echo : Nat → Bench Unit) :
    Bench Unit := do
  trainBatches p session feeds interval echo 0 ((← answersLeft session)+interval.natAbs+2)

def showLoss (p : Nat) (session feeds outlet : Value) (batch : Nat) : Bench Unit := do
  match ← unpack 2 (← ask session (← fieldsOf p ["trainOp", "lossOp"]) (feedsOf feeds)) with
  | [_, loss] =>
    emit (outletOf outlet)
      ("\rBatch "++padded 5 batch++" Loss "++fixedFigure 5 (← realOf loss))
  | _ => fail .wrongKind

def callBagTrainer (p : Nat) (method : String) (a : Arguments) : Bench Value := do
  match method with
  | "call" => a.take ["predicted", "target"] fun x y => attachTrainer p x y
  | "lossNode" => a.take ["predicted", "target"] fun x y => bagLoss p x y
  | "trainNode" => do
    let _ ← fieldOf p "lossOp"
    newOperation
  | "restoreAll" => a.take ["predicted", "target"] fun _ _ => silent (restoreTrainer p)
  | "reattach" => a.run ["graph"] (reattachTrainer p)
  | "trainRound" =>
    a.takeOpen ["session", given "outlet" .none, given "echoInterval" (.int 15),
        given "echo" .none, given "feeds" .none] fun s o i echo f => do
      let shows := match echo with
        | .none => showLoss p s f o
        | .constant _ => fun _ => pure ()
        | _ => fun _ => fail .wrongKind
      trainRound p s f (← intOf i) shows
      return .none
  | _ => fail .missingField

def newCheckpoints (a : Arguments) : Bench Nat := do
  let _ ← a.bind []
  build .checkpoints []

def newSaver : Bench Value := do return .part (← build .saver [])

def saveCheckpoint (saver home step outlet : Value) : Bench Unit := do
  let q ← partOf saver
  if (← partAt q).kind != .saver then fail .missingField
  let home := match home with
    | .text t => t
    | _ => ""
  emit (outletOf outlet) ("Model saved to "++home++", global_step "++toString (← intOf step)++"\n")

def namesIn (folder : String) : Bench (List String) := do
  let s ← get
  let home := tidy folder
  if !s.folders.contains home then fail .missingFile
  let here := fun (path : String) => if parentOf path == home then (stepsOf path).getLast? else none
  return s.files.filterMap (fun f => here f.1)++s.folders.filterMap here

def restoreCheckpoint (home : String) (step : Int) : Bench Value := do
  let name := (((stepsOf home).getLast?).getD "")++"-"++toString step++".meta"
  let found := (← namesIn (parentOf home)).filter (·.startsWith name)
  require (0 < found.length)
  require (found.length == 1)
  latestGraph

def callCheckpoints (method : String) (a : Arguments) : Bench Value := do
  match method with
  | "saveCheckpoint" =>
    a.take ["saver", "session", "home", given "globalStep" (.int 1000),
        given "outlet" .none] fun saver _ home step outlet =>
          silent (saveCheckpoint saver home step outlet)
  | "restoreCheckpoint" =>
    a.take ["session", "home", "globalStep", given "outlet" .none]
        fun _ home step _ => do restoreCheckpoint (← textOf home) (← intOf step)
  | _ => fail .missingField

def newBagDriver (a : Arguments) : Bench Nat := do
  a.take ["pipe", "network", "trainer", given "keep" (.int 1000),
      given "globalStep" (.int 1000)] fun pipe network trainer _ step => do
    for v in [pipe, network, trainer] do require (isTrue (← fieldOf (← partOf v) "created"))
    let p ← build .bagDriver [("pipe",pipe), ("network",network), ("trainer",trainer),
      ("step",step)]
    setField p "saver" (← newSaver)
    setField p "current" .none
    return p

variable (d : Nat)

def driverPart (field : String) : Bench Nat := do partIn d field

def startSession (graph reuse : Value) : Bench Unit := do
  let old ← fieldOf d "current"
  if !old.isNone then closeSession old
  let _ ← graphOf graph
  let s ← openSession
  if isFalse reuse then
    let _ ← ask s (← newOperation) none
  setField d "current" s

def askAll (session wanted : Value) (feeds : Option Feeds) : Nat → Bench (List Value)
  | 0 => fail .endless
  | n+1 => do
    match ← untilEnd (ask session wanted feeds) with
    | some v => do return v::(← askAll session wanted feeds n)
    | none => return []

def runOperations (wanted x y batchSize feeds : Value) : Bench (List Value) := do
  let session ← fieldOf d "current"
  startPipeline (← driverPart d "pipe") session x y batchSize (.int 1)
  askAll session wanted (feedsOf feeds) ((← answersLeft session)+1)

def instanceAnswers (x y batchSize feeds : Value)
    (policy : List (List Float) → Bench (Float × Float)) : Bench (Grid × Grid) := do
  let wanted ← fieldOf (← driverPart d "trainer") "softmaxPredictions"
  let batches ← (← runOperations d wanted x y batchSize feeds).mapM gridOf
  let scores ← settle (Bag.join (batches.map (·.body)))
  require (scores.rank == 4)
  let instances := scores.shape.getD 1 0
  let found ← scores.parts.flatMapM fun bag => do
    (bag.toCube?.getD []).mapM policy
  let rows := if instances = 0 then 0 else found.length/instances
  return (.real ⟨[rows, instances],(found.map (·.1)).toArray⟩,
    .real ⟨[rows, instances],(found.map (·.2)).toArray⟩)

def lastStepPolicy (scores : List (List Float)) : Bench (Float × Float) := do
  let (c,step) ← settle (Bag.lastStep scores)
  return (Nat.toFloat c,Number.floatOfInt step)

def classOf (x : Float) : Int := if Number.floatOfInt (wholeOf x) == x then wholeOf x else -1

def analyse (predictions labels : Value) (instances classes : Int) : Bench (List Bag.Score) := do
  let bags ← gridOf predictions
  let right ← gridOf labels
  require (bags.rank == 2)
  require (Int.ofNat (bags.shape.getD 1 0) == instances)
  require (right.rank == 1)
  require (lengthOf right == lengthOf bags)
  let rows := (bags.body.toRows?.getD []).map fun row => row.map classOf
  if right.element == .real && !right.entries.isEmpty && 0 < instances then
    let _ ← settle (Bag.predictions classes.toNat 1 rows)
    fail .outOfRange
  settle (Bag.analysis classes.toNat instances.toNat rows (right.entries.map wholeOf))

def analysisTable (scores : List Bag.Score) (classes : Nat) (verbose : Bool) :
    List (String × List Float) :=
  let two := fun (n : Nat) => (if n < 10 then "0" else "")++toString n
  let column := fun (name : String) (f : Bag.Score → Float) => (name,scores.map f)
  let each := (List.range classes).flatMap fun c =>
    [column ("pre_"++two c) fun s => (s.classes.getD c (0.0,0.0)).1,
      column ("rec_"++two c) fun s => (s.classes.getD c (0.0,0.0)).2]
  [column "acc" (·.accuracy), column "macro-fsc" (·.macroF), column "macro-pre" (·.macroPrecision),
    column "macro-rec" (·.macroRecall), column "micro-fsc" (·.microF),
    column "micro-pre" (·.microPrecision),
    column "micro-rec" (·.microRecall)]++(if verbose then each else []) ++
    (if classes = 2 then [column "fscore_01" Bag.secondF] else [])

def tableValue (scores : List Bag.Score) (table : List (String × List Float)) : Value :=
  .record (("len",.list ((List.range scores.length).map fun i => .int (i+1 : Nat))) ::
    table.map fun (name,xs) => (name,.list (xs.map .real)))

def greatestOf (xs : List Float) : Bench (Nat × Float) := do
  if xs.isEmpty then fail (.value "attempt to get argmax of an empty sequence")
  let i := match xs.findIdx? fun x => !(x == x) with
    | some i => i
    | none => Fixed.argmax xs
  return (i,xs.getD i 0.0)

def lengthLine (title : String) (value : Float) (place : Nat) : String :=
  title++" "++fixedFigure 6 value++" at subsequencelength "++toString (place+1)++"\n"

def showAnalysis (scores : List Bag.Score) (table : List (String × List Float)) (classes : Nat)
    (verbose : Bool) (outlet : Value) : Bench Unit := do
  let column := fun (name : String) => (table.lookup name).getD []
  let valueAt := fun (name : String) (i : Nat) => (column name).getD i 0.0
  emit outlet "<table>\n"
  let (i,x) ← greatestOf (column "acc")
  emit outlet (lengthLine "Max accuracy" x i)
  let (i,x) ← greatestOf (column "micro-fsc")
  emit outlet (lengthLine "Max micro-f" x i)
  emit outlet (lengthLine "Micro-precision" (valueAt "micro-pre" i) i)
  emit outlet (lengthLine "Micro-recall" (valueAt "micro-rec" i) i)
  let (i,x) ← greatestOf (column "macro-fsc")
  emit outlet (lengthLine "Max macro-f" x i)
  emit outlet (lengthLine "macro-precision" (valueAt "macro-pre" i) i)
  emit outlet (lengthLine "macro-recall" (valueAt "macro-rec" i) i)
  if classes = 2 && verbose then
    let (i,x) ← greatestOf (scores.map Bag.secondF)
    emit outlet (lengthLine "Max fscore" x i)
    emit outlet (lengthLine "Precision" (valueAt "pre_01" i) i)
    emit outlet (lengthLine "Recall" (valueAt "rec_01" i) i)

def loadIntoNewSession (home : String) (step : Int) : Bench Value := do
  closeSession (← fieldOf d "current")
  modify fun s => { s with shared := [] }
  let session ← openSession
  let graph ← restoreCheckpoint home step
  reattachPipeline (← driverPart d "pipe") graph
  let network ← driverPart d "network"
  match (← partAt network).kind with
  | .bagGraph (some kind) filled => reattachNetwork network kind filled graph
  | _ => fail .missingField
  reattachTrainer (← driverPart d "trainer") graph
  setField d "current" session
  return graph

def policyOf (name : Value) (named : List (String × Value)) : Bench (Bag.Policy Float) := do
  let read := fun (k : String) (v : Value) => (named.lookup k).getD v
  match name with
  | .text "top-k" => do return .topRuns (← intOf (read "k" (.int 1)))
  | .text "prune-ends" => do
    return .pruneEnds ⟨← realOf (read "least" (.real 0.0)),← intOf (read "perCall" (.int 3)),
      ← intOf (read "allowed" (.int 3))⟩
  | _ => fail .requirement

def newLabels (policy : Bag.Policy Float) (classes : Nat) (labels scores bags : Grid) :
    Except Fault Grid := do
  let new ← Bag.update policy classes labels.body scores.body (bags.body.map wholeOf)
  return ⟨labels.element,⟨labels.shape,(new.flatten.flatten).toArray⟩⟩

def relabelled (policy : Bag.Policy Float) (classes : Value) (labels scores : Grid) (bags : Value) :
    Bench Grid := do
  let b ← gridOf bags
  settle (newLabels policy (← natOf classes) labels scores b)

def showProgress (session feeds outlet batches : Value) (batch : Nat) : Bench Unit := do
  let trainer ← driverPart d "trainer"
  match ← unpack 3 (← ask session (← fieldsOf trainer ["trainOp", "lossOp", "accTilda"])
      (feedsOf feeds)) with
  | [_, loss, accuracy] => do
    let n ← natOf batches
    if n = 0 then fail .zeroDivision
    emit (outletOf outlet) ("\rEpoch "++padded 3 (batch/n)++" Batch "++padded 5 (batch % n)++" (" ++
      padded 5 batch++") Loss "++fixedFigure 5 (← realOf loss)++" Acc " ++
      fixedFigure 5 (← realOf accuracy)++" |")
  | _ => fail .wrongKind

def lastStepScores (batches : List Value) : Bench Grid := do
  let arrays ← batches.mapM fun v => do gridOf (← itemAt (← itemsOf v) 0)
  let all ← settle (Bag.join (arrays.map (·.body)))
  if all.rank != 4 then fail .outOfRange
  let bags := all.parts.map fun bag =>
    Tensor.ofParts (all.shape.drop 3)
      (bag.parts.map fun steps => (steps.parts.getLast?).getD default)
  return .real (.ofParts [all.shape.getD 1 0, all.shape.getD 3 0] bags)

structure Saved where
  accuracy : Float
  step : Int

structure RoundPlan where
  classes : Value
  xTrain : Value
  yTrain : Value
  bagTrain : Value
  xVal : Value
  yVal : Value
  bagVal : Value
  iterations : Value
  rounds : Value
  batchSize : Value
  epochs : Value
  outlet : Value
  home : Value
  policy : Value
  share : Value
  indicator : Value
  named : List (String × Value)

variable (plan : RoundPlan)

def switchLoss : Bench Unit := do
  emit plan.outlet "Switching to EMI-Loss function\n"
  if !plan.indicator.isNone then fail .unfilled
  let trainer ← driverPart d "trainer"
  let times ← natAt trainer "times"
  let outputs ← natAt trainer "outputs"
  let _ ← ask (← fieldOf d "current") (← fieldOf trainer "lossIndicatorAssignOp")
    (some [(← fieldOf trainer "lossIndicatorPlaceholder",
      .grid (.real (.fill [times, outputs] 1.0)))])

def trainOnce (labels : Value) : Bench Saved := do
  let session ← fieldOf d "current"
  startPipeline (← driverPart d "pipe") session plan.xTrain labels plan.batchSize plan.epochs
  let size ← natOf plan.batchSize
  if size = 0 then fail .zeroDivision
  let batches := Value.int (Train.batchCount (lengthOf (← gridOf plan.xTrain)) size)
  trainRound (← driverPart d "trainer") session .none
    15 (showProgress d session .none plan.outlet batches)
  let _ ← fieldOf (← driverPart d "network") "dropout"
  let (predictions,_) ← instanceAnswers d plan.xVal plan.yVal (.int 1024) .none lastStepPolicy
  let instances ← sizeAt (← gridOf plan.xVal) 1
  let outputs ← intAt (← driverPart d "trainer") "outputs"
  let scores ← analyse (.grid predictions) plan.bagVal instances outputs
  let (_,accuracy) ← greatestOf (scores.map (·.accuracy))
  emit plan.outlet (" Val acc "++fixedFigure 5 accuracy++" | ")
  let step ← fieldOf d "step"
  saveCheckpoint (← fieldOf d "saver") plan.home step plan.outlet
  let n ← intOf step
  setField d "step" (.int (n+1))
  return ⟨accuracy,n⟩

def chooseSaved (saved : List Saved) : Bench Saved := do
  let (i,_) ← greatestOf (saved.map (·.accuracy))
  match saved[i]? with
  | some s => pure s
  | none => fail .outOfRange

def driverRounds (policy : Bag.Policy Float) (switchAt : Int) :
    Bag.Rounds Bench Grid Saved Grid where
  openRound round := do
    emit plan.outlet ("Round: "++toString round++"\n")
    if Int.ofNat round == switchAt then switchLoss d plan
  train _ _ labels := trainOnce d plan (.grid labels)
  choose := chooseSaved
  restore saved := do
    let _ ← loadIntoNewSession d (← textOf plan.home) saved.step
  score := do
    let wanted ← fieldOf (← driverPart d "trainer") "softmaxPredictions"
    lastStepScores (← runOperations d (.list [wanted]) plan.xTrain plan.yTrain plan.batchSize .none)
  update labels scores := relabelled policy plan.classes labels scores plan.bagTrain

structure RoundStart where
  policy : Bag.Policy Float
  switchAt : Int
  labels : Grid
  iterations : Nat
  rounds : Nat

def startRounds : Bench RoundStart := do
  require (!(← fieldOf d "current").isNone)
  require (isOneOf ["prune-ends", "top-k"] plan.policy)
  emit plan.outlet ("Update policy: "++(← textOf plan.policy)++"\n")
  let share ← realOf plan.share
  require (0.0 ≤ share)
  require (share ≤ 1.0)
  let rounds ← intOf plan.rounds
  let switchAt := rounds-wholeOf (share*Number.floatOfInt rounds)
  emit plan.outlet ("Training with MI-RNN loss for "++toString switchAt++" rounds\n")
  if 0 < rounds && plan.named.any (·.1 == "inference") then fail .wrongKind
  let policy ← policyOf plan.policy plan.named
  let labels ← gridOf plan.yTrain
  return ⟨policy,switchAt,labels,← natOf plan.iterations,rounds.toNat⟩

def roundReport (last : Option Grid) (chosen : List Saved) : Bench Value := do
  let stats := chosen.zipIdx.map fun (s,i) =>
    Value.tuple [.int i, .real s.accuracy, plan.home, .int s.step]
  return .tuple [.grid (← assigned last), .list stats]

def runRounds : Bench Value := do
  let r ← startRounds d plan
  let (last,chosen) ← (driverRounds d plan r.policy r.switchAt).all r.labels r.iterations r.rounds
  roundReport plan last chosen

def callBagDriver (method : String) (a : Arguments) : Bench Value := do
  match method with
  | "barEcho" =>
    a.take ["session", "feeds", "batch", "outlet", given "batches" .none] fun s f b o n => do
      showProgress d s f o n (← natOf b)
      return .none
  | "assignAll" => fail .unfilled
  | "startSession" =>
    a.take ["graph", given "reuse" (.truth false), given "feeds" .none] fun g r _ => do
      startSession d g r
      return .none
  | "currentSession" => fieldOf d "current"
  | "useSession" => a.run ["session"] (setField d "current")
  | "runNodes" =>
    a.takeOpen ["opList", "X", "Y", "batchSize", given "feeds" .none]
        fun w x y b f => do return .list (← runOperations d w x y b f)
  | "run" =>
    a.takeOpen ["classes", "xTrain", "yTrain", "bagTrain", "xVal",
        "yVal", "bagVal", "iterations", "rounds", "batchSize",
        "numEpochs", given "echo" .none, given "outlet" .none, given "home" (.text "/tmp/model"),
        given "policy" (.text "top-k"), given "share" (.real 0.3), given "indicator" .none]
        fun c xt yt bt xv yv bv it r bs e _ o h pol sh ind => do
      runRounds d ⟨c,xt,yt,bt,xv,yv,bv,it,r,bs,e,outletOf o,h,pol,sh,ind,a.named⟩
  | "loadSession" =>
    a.take ["home", "globalStep", given "outlet" .none]
        fun h s _ => do loadIntoNewSession d (← textOf h) (← intOf s)
  | "relabel" => a.takeOpen ["Y", "policy", "scores", "bagLabel", "classes"] fun y pol s b c => do
      require (isOneOf ["prune-ends", "top-k"] pol)
      let policy ← policyOf pol a.named
      return .grid (← relabelled policy c (← gridOf y) (← gridOf s) b)
  | "analyse" =>
    a.take ["predictions", "bagLabels", "instances", "class",
        given "outlet" .none, given "verbose" (.truth false), given "silent" (.truth false)]
        fun p y n c o v s => do
      let classes ← natOf c
      let verbose ← holds v
      let scores ← analyse p y (← intOf n) classes
      let table := analysisTable scores classes verbose
      if !(isTrue s) then
        showAnalysis scores (analysisTable scores classes true) classes verbose (outletOf o)
      return tableValue scores table
  | "instancePredictions" =>
    a.takeOpen ["x", "y", "early", given "batchSize" (.int 1024),
        given "feeds" .none] fun x y pol b f => do
      match a.named.lookup "keep_prob" with
      | some k => require ((← realOf k) == 1.0)
      | none => pure ()
      let policy := fun (_ : List (List Float)) => do
        match pol with
        | .constant v =>
          match ← unpack 2 v with
          | [c, s] => return (← realOf c,← realOf s)
          | _ => fail .wrongKind
        | _ => fail .wrongKind
      let (predictions,steps) ← instanceAnswers d x y b f policy
      return .tuple [.grid predictions, .grid steps]
  | "bagPredictions" =>
    a.take ["predicted", given "shortest" (.int 4), given "class" (.int 2), given "outlet" .none]
        fun y n c _ => do
      let g ← gridOf y
      require (g.rank == 2)
      let rows := (g.body.toRows?.getD []).map fun row => row.map classOf
      return .grid (.ofInts (← settle (Bag.predictions (← natOf c) (← intOf n) rows)))
  | "feedsFor" => return .none
  | _ => fail .missingField

end MicroLearn.Bench
