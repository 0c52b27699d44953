import MicroLearn.Bench.GraphModel

/-!
# Networks over bags, restored from saved graphs

A saved graph has tensors and operations by name, and collections of values. The
data pipeline and the network of bag training take their tensors from such a
graph. What follows the recurrent part of a network is left to be filled in.
-/

set_option autoImplicit false

namespace MicroLearn.Bench

open Net (CellKind)

def newGraph (tensors : List (String × Value)) (operations : List Value)
    (collections : List (String × Value)) : Bench Nat := do
  let p ← build .graph [("tensors",.record tensors), ("operations",.list operations),
    ("collections",.record collections)]
  modify fun s => { s with graph := some p }
  return p

def graphOf (v : Value) : Bench Nat := do
  let p ← partOf v
  if (← partAt p).kind != .graph then fail .missingField
  return p

def entriesOf : Value → List (String × Value)
  | .record fs => fs
  | _ => []

def tensorNamed (graph : Value) (name : String) : Bench Value := do
  let g ← graphOf graph
  match (entriesOf (← fieldOf g "tensors")).lookup name with
  | some v => pure v
  | none => fail (.unknownName name)

def operationNamed (graph : Value) (name : String) : Bench Value := do
  let g ← graphOf graph
  let known := (← itemsAt g "operations").any fun v =>
    match v with
    | .text t => t == name
    | _ => false
  if known then return .text name else fail (.unknownName name)

def collectionNamed (graph : Value) (name : String) : Bench (List Value) := do
  let g ← graphOf graph
  match (entriesOf (← fieldOf g "collections")).lookup name with
  | some v => itemsOf v
  | none => pure []

def latestGraph : Bench Value := do
  match (← get).graph with
  | some g => return .part g
  | none => fail .missingField

def latestCollection (name : String) : Bench (List Value) := do
  match (← get).graph with
  | some g => collectionNamed (.part g) name
  | none => pure []

def onlyOne (vs : List Value) : Bench Value := do
  require (vs.length == 1)
  itemAt vs 0

def Arguments.only (a : Arguments) (params : List Param) : Arguments :=
  { a with named := a.named.filter fun (k,_) => params.any (·.name == k) }

def Arguments.bindOpen (a : Arguments) (params : List Param) : Bench (List Value) :=
  (a.only params).bind params

def Arguments.takeOpen {β : Type} (a : Arguments) (params : List Param)
    (f : Taking (Bench β) params) : Bench β := (a.only params).take params f

def pipelineScope : String := "EMI/input-pipeline/"

def newPipeline (a : Arguments) : Bench Nat := do
  a.take ["instances", "times", "features", "outputs",
      given "graph" .none, given "prefetch" (.int 5)] fun n t f o g pre => do
    build .bagPipeline [("instances",n), ("times",t), ("features",f), ("graph",g), ("prefetch",pre),
      ("outputs",o), ("created",.truth false), ("X",.none), ("Y",.none), ("batchSize",.none),
      ("numEpochs",.none), ("dataset_init",.none), ("x_batch",.none), ("y_batch",.none),
      ("scope",.text "EMI/")]

variable (p : Nat)

def restorePipeline (graph : Value) : Bench Unit := do
  require (isFalse (← fieldOf p "created"))
  for (field,name) in [("X","inpX:0"), ("Y","inpY:0"), ("batchSize","batch-size:0"),
      ("numEpochs","num-epochs:0")] do
    setField p field (← tensorNamed graph (pipelineScope++name))
  setField p "dataset_init" (← operationNamed graph (pipelineScope++"dataset-init"))
  let x ← collectionNamed graph "next-x-batch"
  setField p "x_batch" (.list x)
  let y ← collectionNamed graph "next-y-batch"
  setField p "y_batch" (.list y)
  require (x.length == 1)
  require (y.length == 1)
  setField p "x_batch" (← onlyOne x)
  setField p "y_batch" (← onlyOne y)
  setField p "created" (.truth true)

def reattachPipeline (graph : Value) : Bench Unit := do
  setFields p [("created",.truth false), ("graph",graph)]
  restorePipeline p graph

def batchesOf : Bench Value := do
  if !(isTrue (← fieldOf p "created")) then
    match ← fieldOf p "graph" with
    | .none => fail .missingField
    | g => restorePipeline p g
  return .tuple [← fieldOf p "x_batch", ← fieldOf p "y_batch"]

def sizeAt (g : Grid) (i : Nat) : Bench Int :=
  match g.shape[i]? with
  | some n => pure n
  | none => fail .outOfRange

def startPipeline (session x y batchSize epochs : Value) : Bench Unit := do
  require (isTrue (← fieldOf p "created"))
  let data ← gridOf x
  let labels ← gridOf y
  let demandSize := fun (g : Grid) (i : Nat) (field : String) => do
    require ((← sizeAt g i) == (← intAt p field))
  require (data.rank == 4)
  demandSize data 1 "instances"
  demandSize data 2 "times"
  demandSize data 3 "features"
  require ((← sizeAt labels 0) == (← sizeAt data 0))
  demandSize labels 1 "instances"
  demandSize labels 2 "outputs"
  let start ← fieldOf p "dataset_init"
  require (!start.isNone)
  let _ ← ask session start (some [(← fieldOf p "X",x), (← fieldOf p "Y",y),
    (← fieldOf p "batchSize",batchSize), (← fieldOf p "numEpochs",epochs)])

def callPipeline (method : String) (a : Arguments) : Bench Value := do
  match method with
  | "call" => do
    let _ ← a.bind []
    batchesOf p
  | "reattach" =>
    match ← Arguments.bindOpen { a with places := a.places.take 1 } ["graph"] with
    | [g] => do
      reattachPipeline p g
      return .none
    | _ => fail .wrongKind
  | "restoreAll" => a.run ["graph"] (restorePipeline p)
  | "start" => a.run ["session", "xData", "yData", "batchSize", "numEpochs"] (startPipeline p)
  | _ => fail .missingField

def networkScope : CellKind → String
  | .longShort => "EMI/BasicLSTM/"
  | .gated => "EMI/GRU/"
  | .fast => "EMI/FastRNN/"
  | .updateGated => "EMI/UGRNN/"
  | .fastGated => "EMI/FastGRNN/"

def variableScope : CellKind → String
  | .longShort => "rnn/EMI-LSTM-Cell/"
  | .gated => "rnn/EMI-GRU-Cell/"
  | .fast => "rnn/fast_rnn_cell/EMI-FastRNN-Cell/FastRNNcell/"
  | .updateGated => "rnn/ugrnn_cell/"
  | .fastGated => "rnn/fast_grnn_cell/EMI-FastGRNN-Cell/FastGRNNcell/"

variable (kind : CellKind)

def variableGroups (inputRanked stateRanked : Bool) : List (List String) :=
  let side := fun (letter : String) (ranked : Bool) =>
    if ranked then [letter++"1", letter++"2"] else [letter]
  match kind with
  | .longShort | .updateGated => [["kernel", "bias"]]
  | .gated => [["gates/kernel", "gates/bias", "candidate/kernel", "candidate/bias"]]
  | .fast => [side "W" inputRanked, side "U" stateRanked, ["alpha", "beta", "B_h"]]
  | .fastGated => [side "W" inputRanked, side "U" stateRanked, ["zeta", "nu", "B_g", "B_h"]]

def isRanked : CellKind → Bool
  | .fast | .fastGated => true
  | _ => false

def networkGroups : Bench (List (List String)) := do
  let ranked := fun (field : String) => do
    match ← fieldOf? p field with
    | some v => return !v.isNone
    | none => return false
  let groups := variableGroups kind (← ranked "inputRank") (← ranked "stateRank")
  return groups.map fun g => g.map fun name => variableScope kind++name++":0"

def networkParams : List Param :=
  let sizes : List Param := ["instances", "hiddenSize", "times", "features", given "graph" .none]
  let dropout := given "dropout" (.truth false)
  let update := given "update" (.text "tanh")
  let ranks := [given "inputRank" .none, given "stateRank" .none]
  match kind with
  | .longShort | .updateGated => sizes++[given "forgetBias" (.real 1.0), dropout]
  | .gated => sizes++[dropout]
  | .fast =>
    sizes++[dropout, update]++ranks++[given "alphaStart" (.real (-3.0)),
      given "betaStart" (.real 3.0)]
  | .fastGated =>
    sizes++[dropout, given "gate" (.text "sigmoid"), update]++ranks ++
      [given "zetaStart" (.real 1.0), given "nuStart" (.real (-4.0))]

variable (filled : Bool)

/-- A network of a kind; `filled` tells whether what follows its recurrent part is there. -/
def newNetwork (a : Arguments) : Bench Nat := do
  let params := networkParams kind
  let values ← a.bind params
  build (.bagGraph (some kind) filled) ((params.map (·.name)).zip values ++
    [("created",.truth false), ("keep_prob",.none), ("variables",.list []), ("output",.none),
      ("assigned",.list []), ("_scope",.text (networkScope kind))])

def restoreBase (graph : Value) : Bench Unit := do
  require (isFalse (← fieldOf p "created"))
  require (!(← fieldOf p "graph").isNone)
  if ← holds (← fieldOf p "dropout") then
    setField p "keep_prob" (← tensorNamed graph (networkScope kind++"keep-prob:0"))
  setField p "output" (← tensorNamed graph (networkScope kind++"bag-output:0"))
  let unused := do require ((← itemsAt p "variables").isEmpty)
  if isRanked kind then unused
  for (group,i) in (← networkGroups p kind).zipIdx do
    let new ← group.mapM (tensorNamed graph)
    if !(isRanked kind) then unused
    let old ← if i = 0 then pure [] else itemsAt p "variables"
    setField p "variables" (.list (old++new))

def restoreRest : Bench Unit :=
  if filled then setField p "created" (.truth true) else fail .unfilled

def reattachNetwork (graph : Value) : Bench Unit := do
  setFields p [("created",.truth false), ("variables",.list []), ("output",.none),
    ("assigned",.list []), ("graph",graph)]
  restoreBase p kind graph
  require (isFalse (← fieldOf p "created"))
  restoreRest p filled
  require (isTrue (← fieldOf p "created"))

def forwardNetwork : Bench Value := do
  if isTrue (← fieldOf p "created") then
    require (!(← fieldOf p "output").isNone)
  else
    match ← fieldOf p "graph" with
    | .none => fail .missingField
    | g => do
      restoreBase p kind g
      require (isFalse (← fieldOf p "created"))
      restoreRest p filled
      require (isTrue (← fieldOf p "created"))
  fieldOf p "output"

def networkVariables : Bench Value := do
  require (isTrue (← fieldOf p "created"))
  let vs ← itemsAt p "variables"
  match kind with
  | .longShort | .updateGated => require (vs.length == 2)
  | .gated => require (vs.length == 4)
  | _ => pure ()
  return .list vs

def assignBase (graph values : Value) : Bench Unit := do
  require (!values.isNone)
  let given ← itemsOf values
  if !(isRanked kind) then require (given.length == 2)
  let groups ← networkGroups p kind
  let mut start := 0
  for group in groups do
    for name in group do
      let _ ← tensorNamed graph name
    let new ← (List.range group.length).mapM fun i => itemAt given (start+i)
    let old ← itemsAt p "assigned"
    setField p "assigned" (.list (old++new))
    start := start+group.length

def callNetwork (method : String) (a : Arguments) :
    Bench Value := do
  match method with
  | "call" => do
    let _ ← a.bindOpen ["x_batch"]
    forwardNetwork p kind filled
  | "reattach" => a.takeOpen ["graph"] fun g => silent (reattachNetwork p kind filled g)
  | "restoreBase" => a.takeOpen ["graph"] fun g => silent (restoreBase p kind g)
  | "restoreRest" => do
    let _ ← a.bindOpen ["graph"]
    restoreRest p filled
    return .none
  | "createRest" | "assignRest" => fail .unfilled
  | "parameters" => networkVariables p kind
  | "assignBase" => a.takeOpen ["graph", "initVarList"] fun g vs => silent (assignBase p kind g vs)
  | _ => fail .missingField

end MicroLearn.Bench
