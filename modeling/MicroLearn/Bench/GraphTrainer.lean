import MicroLearn.Bench.BatchTrainer
import MicroLearn.Bench.GraphModel

/-!
# Training graph models on the bench

The trainers of graph models work through a session: a batch is fed to it, and
loss and accuracy come back from it. Thresholding reads the weights, cuts them
here and feeds them back.
-/

set_option autoImplicit false

namespace MicroLearn.Bench

def halfSquares (v : Value) : Bench Float := do return 0.5*(← squaredNormOf v)

def graphPrototypeLoss (p m : Nat) (y out : Value) : Bench Value := do
  let part := fun (weight matrix : String) => do
    return (← realAt p weight)*(← halfSquares (← fieldOf m matrix))
  let own ← match ← fieldOf p "lossKind" with
    | .text "l2" => do
      let d ← settle ((← gridOf y).body.zip (· - ·) (← gridOf out).body)
      pure (0.5*Net.squaredNorm d.data.toList)
    | _ => pure 1.0
  let w ← part "lW" "W"
  let b ← part "lB" "B"
  let z ← part "lZ" "Z"
  tensor (.scalar (own+(w+b+z)))

def newGraphPrototypeTrainer (a : Arguments) : Bench Nat := do
  a.take ["model", "lW", "lB", "lZ", "sW", "sB",
      "sZ", "rate", "X", "Y", given "lossKind" (.text "l2")]
        fun model lW lB lZ sW sB sZ rate x y kind => do
    let whole ← [sW, sB, sZ].allM fun s => do return (← realOf s) == 1.0
    let p ← build .graphPrototypeTrainer [("model",model), ("lW",lW), ("lB",lB), ("lZ",lZ),
      ("sW",sW), ("sB",sB), ("sZ",sZ), ("rate",rate), ("X",x), ("Y",y), ("sparse",.truth (!whole)),
      ("W_th",.none), ("B_th",.none), ("Z_th",.none), ("lossKind",kind)]
    for s in [sW, sB, sZ] do require (← isShare s)
    let m ← partOf model
    requireTable y (← fieldOf m "labels")
    requireTable x (← fieldOf m "inputs")
    match kind with
    | .text k => if !lossKinds.contains k then fail (.value "Values can be 'l2', or 'xentropy'")
    | _ => fail (.value "Values can be 'l2', or 'xentropy'")
    let out ← forwardGraphPrototypes m x y
    setField p "output" out
    setField p "loss" (← graphPrototypeLoss p m y out)
    setField p "trainStep" (← newOperation)
    for name in ["W_th", "B_th", "Z_th"] do setField p name (← placeholder name)
    setField p "hthOp" (← newOperation)
    setField p "accuracy" (← accuracyOf m)
    return p

variable (p : Nat)

def fieldsOf (names : List String) : Bench Value := do return .list (← names.mapM (fieldOf p))

def thresholdGraphPrototypes (p m : Nat) (session : Value) : Bench Unit := do
  let now ← unpack 3 (← ask session (← fieldsOf m ["W", "B", "Z"]) none)
  let feeds ← (["W", "B", "Z"].zip now).mapM fun (name,v) => do
    let share ← realOf (← fieldOf p ("s"++name))
    return (← fieldOf p (name++"_th"),Value.grid (← thresholdGrid share v))
  let _ ← ask session (← fieldOf p "hthOp") (some feeds)

def trainGraphPrototypes (batchSize epochs session xTrain xVal yTrain yVal noInit outlet
    printStep valStep : Value) : Bench Unit := do
  let m ← partIn p "model"
  let inputs ← fieldOf m "inputs"
  let labels ← fieldOf m "labels"
  requirePositive batchSize
  requirePositive epochs
  for x in [xTrain, xVal] do requireTable x inputs
  for y in [yTrain, yVal] do requireTable y labels
  if session.isNone then fail (.value "sess must be valid Tensorflow session.")
  let x ← gridOf xTrain
  let y ← gridOf yTrain
  let xv ← gridOf xVal
  let yv ← gridOf yVal
  let size ← natOf batchSize
  let parts := Train.batchCount (lengthOf x) size
  let valParts := Train.batchCount (lengthOf xv) size
  if parts = 0 || valParts = 0 then fail (.value "number sections must be larger than 0.")
  if !(← holds noInit) then
    let _ ← ask session (← newOperation) none
  let feedsAt := fun (a b : Grid) (i n : Nat) => do
    return some [(← fieldOf p "X",evenPart a i n), (← fieldOf p "Y",evenPart b i n)]
  for epoch in List.range (← natOf epochs) do
    for i in List.range parts do
      let feeds ← feedsAt x y i parts
      let _ ← ask session (← fieldOf p "trainStep") feeds
      let step ← intOf printStep
      if step = 0 then fail .zeroDivision
      if (i : Int) % step = 0 then
        match ← unpack 2 (← ask session (← fieldsOf p ["loss", "accuracy"]) feeds) with
        | [loss, accuracy] =>
          emit (outletOf outlet) ("Epoch: "++padded 3 epoch++" Batch: "++padded 3 i++" Loss: " ++
            fixedFigure 5 (← realOf loss)++" Accuracy: "++fixedFigure 5 (← realOf accuracy)++"\n")
        | _ => fail .wrongKind
    if isTrue (← fieldOf p "sparse") then thresholdGraphPrototypes p m session
    let step ← intOf valStep
    if step = 0 then fail .zeroDivision
    if ((epoch : Int)+1) % step = 0 then
      let mut accuracy := 0.0
      let mut loss := 0.0
      for i in List.range valParts do
        match ← unpack 2 (← ask session (← fieldsOf p ["accuracy", "loss"])
            (← feedsAt xv yv i valParts)) with
        | [a, l] =>
          accuracy := accuracy+(← realOf a)
          loss := loss+(← realOf l)
        | _ => fail .wrongKind
      let n := Nat.toFloat valParts
      say ("Test Loss: "++fixedFigure 5 (loss/n)++" Accuracy: "++fixedFigure 5 (accuracy/n)++"\n")

def callGraphPrototypeTrainer (method : String) (a : Arguments) : Bench Value := do
  match method, ← a.bind ["batchSize", "epochs", "session", "xTrain",
      "xVal", "yTrain", "yVal", given "noInit" (.truth false), given "outlet" .none,
      given "printStep" (.int 10), given "valStep" (.int 3)] with
  | "train", [bs, e, s, xt, xv, yt, yv, ni, o, ps, vs] => do
    trainGraphPrototypes p bs e s xt xv yt yv ni o ps vs
    return .none
  | _, _ => fail .missingField

def treeInputs : List (String × String) := [("W","Wth"), ("V","Vth"), ("Z","Zth"), ("T","Tth")]

def checkGraphTree : Bench Unit := do
  for s in ["sW", "sV", "sZ", "sT"] do require (← isShare (← fieldOf p s))
  let m ← treeOf p
  let classes ← intAt m "classes"
  let y ← gridIn p "Y"
  require (y.rank == 2 && Int.ofNat (y.shape.getD 1 0) == classes)

def graphTreeAccuracy : Bench Value := do
  let m ← treeOf p
  let regression ← fieldOf m "regression"
  if isFalse regression then
    let classes ← natAt m "classes"
    if 2 < classes then
      let found ← graphBest classes (← fieldOf p "score")
      let right := Grid.ofInts (bestPlaces (← rowsAt p "Y"))
      setField p "accuracy" (← tensor (.scalar (← agreementOf found right)))
    else fail .missingField
  else if isTrue regression then
    let score ← gridIn p "score"
    let y ← gridIn p "Y"
    setField p "accuracy"
      (← meanDistance (← settle (score.body.inRows 1)) (← settle (y.body.inRows 1)))
  fieldOf p "accuracy"

def prepareThreshold : Bench Unit := do
  let m ← treeOf p
  for (_,name) in treeInputs do setField p name (← placeholder name)
  for name in ["W", "V", "T", "Z"] do setField p (name++"oph") (← assignment (← fieldOf m name))
  setField p "hardThresholdGroup" (← newOperation)

def prepareRetrain : Bench Unit := do
  let m ← treeOf p
  for (name,input) in treeInputs do
    let v ← fieldOf m name
    let _ ← fieldOf p input
    setField p (name++"ops") (← assignment v)
  setField p "sparseRetrainGroup" (← newOperation)

def treeArrays (m : Nat) : Bench (List (String × Grid)) :=
  treeMatrices.mapM fun name => do return (name,← evalOf (← fieldOf m name))

def feedTree (session : Value) (group : String) (matrices : List (String × Grid)) :
    Bench Unit := do
  let feeds ← matrices.mapM fun (name,g) => do return (← fieldOf p (name++"th"),Value.grid g)
  let _ ← ask session (← fieldOf p group) (some feeds)

def thresholdGraphTree (session : Value) : Bench Unit := do
  let now ← treeArrays (← treeOf p)
  let cut ← now.mapM fun (name,g) => do
    let c ← thresholdGrid (← realOf (← fieldOf p ("s"++name))) (.grid g)
    setField p ("cut"++name) (.grid c)
    return (name,c)
  feedTree p session "hardThresholdGroup" cut

def restrictGraphTree (session : Value) : Bench Unit := do
  let now ← treeArrays (← treeOf p)
  let new ← now.mapM fun (name,g) => do
    let cut ← gridOf (← fieldOf p ("cut"++name))
    return (name,Grid.real (← settle (Learn.restrictTo cut.body g.body)))
  feedTree p session "sparseRetrainGroup" new

def treeFeeds (p m : Nat) (x y : Value) (sharpness : Number.Cell) : Bench Feeds := do
  let classes ← natAt m "classes"
  let rows ← if 2 < classes && isTrue (← fieldOf p "hinge") then do
      pure [(← fieldOf p "batch_th",Value.int (lengthOf (← gridOf y)))]
    else pure []
  return [(← fieldOf p "X",x),
    (← fieldOf p "Y",y)]++rows++[(← fieldOf p "sigmaI",.ofCell sharpness)]

def meanOf (v : Value) : Bench Float := do
  match v with
  | .grid _ | .held _ | .list _ | .tuple _ => return Net.mean Nat.toFloat (← gridOf v).entries
  | v => realOf v

def trainGraphTree (batchSize epochs session xTrain xTest yTrain yTest dataFolder folder : Value) :
    Bench Unit := do
  let m ← treeOf p
  let results := (← textOf dataFolder)++"/TFBonsaiResults.txt"
  openAtEnd results
  let x ← gridOf xTrain
  let y ← gridOf yTrain
  let size ← natOf batchSize
  if size = 0 then fail .zeroDivision
  let count ← natOf epochs
  let classes ← natAt m "classes"
  let regression := isTrue (← fieldOf m "regression")
  let dense := isTrue (← fieldOf p "dense")
  let out ← fieldOf p "output"
  let folder ← textOf folder
  let t : TreeJob := ⟨m,results,folder,out,dense,classes,⟨x.shape.headD 0,size,count⟩,x,y⟩
  let b := t.batches
  let work : Train.Work TreeTraining := { treeWork p t xTest yTest with
    batch := fun _ index counter => do
      if counter = 0 then emit out (banner " Dense Training Phase Started ")
      setSharpness b t.phases counter do
        let places ← drawPlaces b.samples 100
        let _ ← settle (x.body.pick places)
        let some' ← settle (y.body.pick places)
        let _ ← settle (some'.inRows classes)
        let projected ← evalOf (← fieldOf p "X_")
        let routes ← evalOf (← fieldOf m "T")
        let inner ← natAt m "innerNodes"
        return ((routes.body.toRows?.getD []).take inner,
          (projected.body.permute [1, 0]).toRows?.getD [])
      let batchX := batchValue x size index
      let batchY ← inClassRows m (batchValue y size index)
      let feeds ← treeFeeds p m batchX batchY (← get).sharpness
      match ← unpack 3 (← ask session (← fieldsOf p ["trainStep", "loss", "accuracy"])
          (some feeds)) with
      | [_, loss, accuracy] => do
        let mean := fun (v : Value) => if regression then meanOf v else realOf v
        let a ← mean accuracy
        let l ← mean loss
        modify fun r => { r with accuracy := r.accuracy+.real a, loss := r.loss+.real l }
      | _ => fail .wrongKind
    threshold := fun isFirst => do
      thresholdGraphTree p session
      if isFirst then emit out (banner " IHT Phase Started ")
    retrain := fun opens => do
      restrictGraphTree p session
      if opens then emit out (banner " Sparse Retraining Phase Started ")
    closeEpoch := fun epoch done => do
      if b.perEpoch = 0 then return
      let n := Nat.toFloat b.perEpoch
      let r ← get
      let (title,measure) :=
        if regression then ("Regression Train Loss: ","Training MAE (Regression): ")
        else ("Classification Train Loss: ","Training accuracy (Classification): ")
      emit out ("\n"++title++figureText (r.loss.toFloat/n)++"\n"++measure ++
        figureText (r.accuracy.toFloat/n)++"\n")
      let feeds ← treeFeeds p m xTest yTest (.real sharpest)
      match ← unpack 4 (← ask session (← fieldsOf p ["accuracy", "loss", "regLoss", "prediction"])
          (some feeds)) with
      | [accuracy, loss, own, _] => do
        let found ← cellOf accuracy
        if !done then
          modify fun r => { r with
            best := if regression then found else .int (-10000), bestEpoch := some epoch }
        else do
          if regression then
            say ("Minimum Training MAE :  "++figureText (← get).best.toFloat++"\n")
          let best := (← get).best
          let worse := if regression then best.isBelow found else found.isBelow best
          if !worse then
            modify fun r => { r with best := found, bestEpoch := some epoch }
            saveTree m folder
            saveTreeTexts m folder
        let mean ← meanOf accuracy
        emit out ((if regression then "Testing MAE " else "Test accuracy ")++shortFigure mean++"\n")
        modify fun r => { r with last := some (if regression then .real mean else found) }
        let loss ← cellOf loss
        let own ← cellOf own
        emit out ("MarginLoss + RegLoss: "++cellText (loss-own)++" + "++cellText own++" = " ++
          cellText loss++"\n\n")
        flush out
      | _ => fail .wrongKind }
  let (_,r) ← (work.train t.phases b.perEpoch count).run
    { best := .int (if regression then 100000007 else -10000) }
  if regression then
    reportTree p t { r with best := .real r.best.toFloat } "Regression, Minimum MAE" "MAE"
      "MinTestMAE"
  else reportTree p t r "Classification, Maximum Test accuracy" "Accuracy" "MaxTestAcc"

def callGraphTreeTrainer (method : String) (a : Arguments) : Bench Value := do
  let withSession := fun (act : Value → Bench Unit) => do
    a.take ["session"] fun s => do
      act s
      return Value.none
  let withFolder := fun (act : String → Bench Value) => do
    a.take ["folder"] fun d => do act (← textOf d)
  match method with
  | "check" => silent (checkGraphTree p)
  | "measure" => graphTreeAccuracy p
  | "prepareThreshold" => silent (prepareThreshold p)
  | "sparse" => silent (prepareRetrain p)
  | "threshold" => withSession (thresholdGraphTree p)
  | "restrict" => withSession (restrictGraphTree p)
  | "size" => do return estimateValue (← treeSize p)
  | "save" => withFolder fun d => do silent (saveTree (← treeOf p) d)
  | "saveTexts" => withFolder fun d => do silent (saveTreeTexts (← treeOf p) d)
  | "load" => withFolder loadTree
  | "train" =>
    a.run ["batchSize", "epochs", "session", "xTrain", "xTest",
        "yTrain", "yTest", "dataFolder", "folder"] (trainGraphTree p)
  | _ => fail .missingField

end MicroLearn.Bench
