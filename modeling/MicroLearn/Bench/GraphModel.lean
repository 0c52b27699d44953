import MicroLearn.Bench.Cell

/-!
# Graph models on the bench

Trees and prototypes as graphs remember what they worked out first and give it
again, whatever they are asked later. The layers of the same models work their
answer out anew each time.
-/

set_option autoImplicit false

namespace MicroLearn.Bench

def same : Value → Value → Bool
  | .held a, .held b | .part a, .part b | .operation a, .operation b => a == b
  | _, _ => false

def newOperation : Bench Value := do
  let s ← get
  set { s with operations := s.operations+1 }
  return .operation s.operations

def placeholder (name : String) : Bench Value := hold (.real ⟨[1],#[0.0]⟩) name

def evalOf : Value → Bench Grid
  | .held p => heldGrid p
  | _ => fail .missingField

def ownersNow (s : Store) (paths : List (List String)) : List Part :=
  paths.filterMap fun path =>
    match path with
    | [] => none
    | name::rest =>
      let start := s.names.lookup name
      let found := rest.foldl (fun (v : Option Value) field =>
        match v with
        | some (.part p) => (s.parts[p]?).bind fun part => part.fields.lookup field
        | _ => none) start
      match found with
      | some (.part p) => s.parts[p]?
      | _ => none

mutual

def labelOf (s : Store) (owners : List Part) : Value → Value
  | .text t => .text t
  | .list vs | .tuple vs => .list (labelsOf s owners vs)
  | v =>
    match owners.findSome? fun o => (o.fields.find? fun f => same f.2 v).map (·.1) with
    | some name => .text name
    | none =>
      match v with
      | .held p => .text ((s.handles[p]?).getD default).name
      | _ => .text "op"

def labelsOf (s : Store) (owners : List Part) : List Value → List Value
  | [] => []
  | v::vs => labelOf s owners v::labelsOf s owners vs

end

def sumFigure (xs : List Float) : Float :=
  let total := xs.foldl (· + ·) 0.0
  (Number.readFloat? (Number.generalText 9 total)).getD total

def fedOf (v : Value) : Bench Value := do
  match v with
  | .grid g => return summary g
  | .held p => return summary (← heldGrid p)
  | v => return v
where
  summary (g : Grid) : Value :=
    .list [.list (g.shape.map fun (n : Nat) => .int n), .real (sumFigure g.entries)]

abbrev Feeds := List (Value × Value)

def newSession (script : List Value) (owners : List (List String)) : Bench Nat :=
  build .session [("script",.list script), ("log",.list []),
    ("owners",.list (owners.map fun path => .list (path.map .text)))]

def pathsOf : Value → List (List String)
  | .list ps => ps.map fun p =>
    match p with
    | .list segments => segments.filterMap fun t =>
      match t with
      | .text s => some s
      | _ => none
    | _ => []
  | _ => []

def enter (session : Nat) (entry : Value) : Bench Unit := do
  let log ← itemsAt session "log"
  setField session "log" (.list (log++[entry]))

def ask (session : Value) (wanted : Value) (feeds : Option Feeds) : Bench Value := do
  let p ← partOf session
  if (← partAt p).kind != .session then fail .missingField
  let s ← get
  let owners := ownersNow s (pathsOf (← fieldOf p "owners"))
  let told ← match feeds with
    | none => pure Value.none
    | some fs => do
      let entries ← fs.mapM fun (k,v) => do
        let label := match labelOf s owners k with
          | .text t => t
          | _ => ""
        return (label,← fedOf v)
      pure (.record (entries.foldl (fun t (k,v) => Text.Json.put k v t) []))
  enter p (.list [labelOf s owners wanted, told])
  match ← itemsAt p "script" with
  | [] => return .none
  | v::rest => do
    setField p "script" (.list rest)
    match v with
    | .text "end" => fail .ended
    | v => return v

def closeSession (session : Value) : Bench Unit := do
  let p ← partOf session
  if (← partAt p).kind != .session then fail .missingField
  enter p (.text "close")

def openSession : Bench Value := do
  match (← get).queue with
  | p::rest => do
    modify fun s => { s with queue := rest }
    return .part p
  | [] => return .part (← newSession [] [])

def unpack (n : Nat) (v : Value) : Bench (List Value) := do
  let vs ← itemsOf v
  if vs.length < n then fail (.tooFewValues n vs.length)
  if n < vs.length then fail (.tooManyValues n)
  return vs

def feedsOf : Value → Option Feeds
  | .record fs => some (fs.map fun (k,v) => (.text k,v))
  | _ => none

def outletOf (v : Value) : Value := if v.isNone then .screen else v

def padded (width n : Nat) : String :=
  let t := toString n
  String.ofList (List.replicate (width-t.length) ' ')++t

def assignment (v : Value) : Bench Value := do
  match v with
  | .held p => do
    let h ← handleAt p
    if h.assignable then return .text ("assign "++h.name) else fail .missingField
  | _ => fail .missingField

def thresholdGrid (share : Float) (v : Value) : Bench Grid := do
  match v with
  | .grid g => cut g
  | .held p => do cut (← heldGrid p)
  | _ => fail .missingField
where
  cut (g : Grid) : Bench Grid := do
    let xs ← settle (Learn.hardThresholdSingle share g.entries)
    return ⟨g.element,⟨g.shape,xs.toArray⟩⟩

open Net (CellKind)

def variableOf (name : String) (make : Bench Value) : Bench Value := do
  match (← get).shared.lookup name with
  | some v => pure v
  | none => do
    let g ← gridOf (← make)
    let v ← hold g name
    modify fun s => { s with shared := Text.Json.put name v s.shared }
    return v

namespace CellNames

def biasVariable : String → String
  | "gateBias" => "B_g"
  | "updateBias" => "B_h"
  | "resetBias" => "B_r"
  | name => name

def scalarStart : String → String
  | "zeta" => "zetaStart"
  | "nu" => "nuStart"
  | "alpha" => "alphaStart"
  | _ => "betaStart"

end CellNames

def newGraphCell (kind : CellKind) (a : Arguments) : Bench Nat := do
  let gate := given "gate" (.text "sigmoid")
  let update := given "update" (.text "tanh")
  let ranks := [given "inputRank" .none, given "stateRank" .none]
  let starts := match kind with
    | .fastGated => [given "zetaStart" (.real 1.0), given "nuStart" (.real (-4.0))]
    | .fast => [given "alphaStart" (.real (-3.0)), given "betaStart" (.real 3.0)]
    | _ => []
  let bends := if kind = .fast then [update] else [gate, update]
  let params : List Param := "hiddenSize"::(bends++ranks++starts ++
    [given "name" (.text (CellNames.family kind)), given "reuse" .none])
  let values ← a.bind params
  let fields := (params.map (·.name)).zip values
  let count := fun (rank : String) =>
    let given := match fields.lookup rank with
      | some v => !v.isNone
      | none => false
    Value.int (kind.matrices+if given then 1 else 0 : Nat)
  let w := count "inputRank"
  let u := count "stateRank"
  build (.graphCell kind)
    (fields++[("inputMatrices",w), ("stateMatrices",u), ("counts",.list [w, u])])

variable (p : Nat)

def fillSide (kind : CellKind) (letter : String) (rank : Option Nat) (size hidden : Nat) :
    Bench Unit :=
  ((CellNames.matrices letter kind rank.isSome).zip (CellNames.shapes kind size hidden rank)).forM
    fun (name,shape) => do setField p name (← variableOf name (drawTensor 0.1 shape))

def batchWidth (v : Value) : Bench Nat := do
  let rows ← stateRows v
  return (rows.head?.map List.length).getD 0

def stepGraphCell (x h : Value) : Bench Value := do
  let kind ← cellKindOf p
  if kind = .longShort then fail .wrongKind
  let inputs ← evalOf x
  let hidden ← natAt p "hiddenSize"
  let inputRank ← rankOf (← fieldOf p "inputRank")
  let stateRank ← rankOf (← fieldOf p "stateRank")
  match inputs.shape.getLast? with
  | none => fail .outOfRange
  | some size =>
    fillSide p kind "W" inputRank size hidden
    settle (fitFan (← fanOf p "W" kind inputRank.isSome) (← batchWidth x))
    fillSide p kind "U" stateRank hidden hidden
    settle (fitFan (← fanOf p "U" kind stateRank.isSome) (← batchWidth h))
    for name in CellNames.scalars kind do
      let start ← realOf (← fieldOf p (CellNames.scalarStart name))
      setField p name (← variableOf name (tensorOf (.fill [1, 1] start)))
    let _ ← settle (pairRows hidden (← stateRows x) (← stateRows h))
    for name in CellNames.biases kind do
      setField p name (← variableOf (CellNames.biasVariable name)
        (tensorOf (.fill [1, hidden] 1.0)))
      let _ ← bendOf .wrongKind (← fieldOf p (if name == "updateBias" then "update" else "gate"))
    let (next,_) ← stepCell .wrongKind p x h
    return .tuple [next, next]

variable (method : String) (a : Arguments)

def callGraphCell : Bench Value := do
  match method with
  | "call" => a.take ["inputs", "state"] fun x h => stepGraphCell p x h
  | "parameters" => do return .list (← cellVars p)
  | _ => fail .missingField

def graphMatrix (name : String) (v : Value) (random : Bench Value) : Bench Value := do
  let g ← match v with
    | .none => do gridOf (← random)
    | v => gridOf v
  hold (.real g.body) name

def equalsTruth (b : Bool) : Value → Bool
  | .truth c => b == c
  | .int n => n == if b then 1 else 0
  | .real x => x == if b then 1.0 else 0.0
  | _ => false

def newGraphTree : Bench Nat := do
  a.take (treeSizeParams++given "regression" (.truth false)::treeParams)
    fun classes inputs width depth sigma regression w t v z => do
    let classes := treeClasses classes
    let p ← build .graphTree
      ((← treeFields classes inputs width depth sigma)++[("regression",regression)])
    checkDepth depth [w, v, t]
    let s ← treeSizes p
    let rows := drawTensor 1.0 [s.classes*s.nodes, s.width]
    setField p "W" (← graphMatrix "W" w rows)
    setField p "V" (← graphMatrix "V" v rows)
    setField p "T" (← graphMatrix "T" t (drawTensor 1.0 [s.inner, s.width]))
    setField p "Z" (← graphMatrix "Z" z (drawTensor 1.0 [s.width, s.inputs]))
    if equalsTruth true regression then require (s.classes == 1)
    checkTree p
    setFields p [("score",.none), ("X_",.none), ("prediction",.none)]
    return p

def requireFeatures (x : Value) : Bench Unit := do
  let g ← gridOf x
  let inputs ← intAt p "inputs"
  require (g.rank == 2 && Int.ofNat (g.shape.getD 1 0) == inputs)

def graphScores (x : Value) (sharpness : Float) : Bench (Value × Value) := do
  let (scores,projected) ← scoreTree p x sharpness
  let s ← treeSizes p
  return (← tensor (columnsGrid s.classes scores),← tensor (columnsGrid s.width projected))

def forwardGraphTree (x sharpness : Value) : Bench Value := do
  requireFeatures p x
  match ← fieldOf p "score" with
  | .none => do
    let (score,projected) ← graphScores p x (← realOf sharpness)
    setFields p [("score",score), ("X_",projected)]
    return .tuple [score, projected]
  | score => do return .tuple [score, ← fieldOf p "X_"]

/-- The best classes of a batch from scores with a column for each sample. One score against zero
tells two classes apart, and the first of equals wins. -/
def graphBest (classes : Nat) (score : Value) : Bench Grid := do
  let columns : List (List Float) ← match score with
    | .none => if 2 < classes then fail .badAxis else fail .wrongKind
    | v => do pure (((← gridOf v).body.permute [1, 0]).toRows?.getD [])
  return .ofInts (columns.map fun row =>
    Fixed.argmax (if 2 < classes then row else row++row.map fun _ => 0.0))

def graphPrediction (score : Value) : Bench (Option Value) := do
  let regression ← fieldOf p "regression"
  if equalsTruth false regression then
    return some (← tensor (← graphBest (← natAt p "classes") score))
  else if equalsTruth true regression then return some score
  else return none

def predictGraphTree : Bench Value := do
  let known ← fieldOf p "prediction"
  if equalsTruth false (← fieldOf p "regression") && !known.isNone then return known
  match ← graphPrediction p (← fieldOf p "score") with
  | some v => do
    setField p "prediction" v
    return v
  | none => return known

def callGraphTree : Bench Value := do
  match method with
  | "call" => a.take ["X", "sigmaI"] fun x s => forwardGraphTree p x s
  | "predict" => do
    let _ ← a.bind []
    predictGraphTree p
  | _ => fail .missingField

def newTreeLayer : Bench Nat := do
  a.take ["classes", "inputs", "width", "depth", "sigma",
      given "regression" (.truth false)] fun classes inputs width depth sigma regression => do
    build .treeLayer ((← treeFields (treeClasses classes) inputs width depth sigma) ++
      [("regression",regression)])

def sharpest : Float := 1e9

def callTreeLayer : Bench Value := do
  match method, ← a.bind ["X"] with
  | "call", [x] => do
    requireFeatures p x
    let (score,_) ← graphScores p x sharpest
    setField p "score" score
    match ← graphPrediction p score with
    | some v => do
      setField p "prediction" v
      return v
    | none => fieldOf p "prediction"
  | _, _ => fail .missingField

def drawUnits (shape : List Nat) : Bench Value := do
  let xs ← draws (shapeSize shape) drawUnit
  tensorOf ⟨shape,xs.toArray⟩

def requireSizes (v : Value) (sizes : List Value) : Bench Unit := do
  let shape := (← gridOf v).shape
  for (size,i) in sizes.zipIdx do
    match shape[i]? with
    | some n => require (Int.ofNat n == (← intOf size))
    | none => fail .outOfRange

def constantOf (v : Value) : Bench Value := do
  match v with
  | .int n => hold ⟨.int,.scalar (Number.floatOfInt n)⟩ "gamma"
  | v => hold (.scalar (← realOf v)) "gamma"

def newGraphPrototypes : Bench Nat := do
  a.take ["inputs", "width", "count", "labels", "gamma",
      given "W" .none, given "B" .none, given "Z" .none] fun d dcap m l gamma w b z => do
    let p ← build .graphPrototypes [("inputs",d), ("width",dcap), ("count",m), ("labels",l)]
    let sizes := fun (x y : Value) => do return [← natOf x, ← natOf y]
    let w ← graphMatrix "W" w (do drawTensor 1.0 (← sizes d dcap))
    let b ← graphMatrix "B" b (do drawUnits (← sizes dcap m))
    let z ← graphMatrix "Z" z (do drawTensor 1.0 (← sizes l m))
    setFields p [("W",w), ("B",b), ("Z",z), ("gamma",← constantOf gamma)]
    requireSizes w [d, dcap]
    requireSizes b [dcap, m]
    requireSizes z [l, m]
    setFields p [("output",.none), ("predictions",.none), ("accuracy",.none)]
    return p

def agreementOf (a b : Grid) : Bench Float := do
  let equal ← settle (a.body.zip (fun x y => if x == y then (1.0 : Float) else 0.0) b.body)
  return Net.mean Nat.toFloat equal.data.toList

def forwardGraphPrototypes (x y : Value) : Bench Value := do
  match ← fieldOf p "output" with
  | .none => do
    let (scores,distances) ← scorePrototypes p x
    setField p "distances" (← tensor distances)
    let out ← tensor scores
    setField p "output" out
    let best := Grid.ofInts (bestPlaces (← rowsOf (.grid scores)))
    setField p "predictions" (← tensor best)
    match y with
    | .none => pure ()
    | y => do
      let target := Grid.ofInts (bestPlaces (← rowsOf y))
      setField p "accuracy" (← tensor (.scalar (← agreementOf best target)))
    return out
  | out => return out

def accuracyOf : Bench Value := do
  let v ← fieldOf p "accuracy"
  require (!v.isNone)
  return v

def callGraphPrototypes : Bench Value := do
  match method with
  | "call" => a.take ["X", given "Y" .none] fun x y => forwardGraphPrototypes p x y
  | "settings" => hyperParams p
  | "matrices" => do return .tuple (← ["W", "B", "Z", "gamma"].mapM (fieldOf p))
  | "predicted" => fieldOf p "predictions"
  | "accuracyOf" => accuracyOf p
  | _ => fail .missingField

def newPrototypeLayer : Bench Nat := do
  let params := ["inputs", "width", "count", "labels", "gamma"]
  let values ← a.bind (params.map fun name => ⟨name,none⟩)
  build .prototypeLayer (params.zip values)

def callPrototypeLayer : Bench Value := do
  match method, ← a.bind ["X"] with
  | "call", [x] => do
    let (scores,distances) ← scorePrototypes p x
    setField p "distances" (← tensor distances)
    tensor scores
  | _, _ => fail .missingField

def graphHinge (logits labels count : Value) : Bench Value := do
  let scores ← rowsOf logits
  let targets ← rowsOf labels
  let loss ← settle (Net.toldHingeLoss Nat.toFloat (fun x => (wholeOf x).toNat)
    (← natOf count) scores targets)
  tensor (.scalar loss)

def meanDistance (a b : Tensor Float) : Bench Value := do
  let d ← settle (a.zip (fun x y => Number.magnitude (x-y)) b)
  tensor (.scalar (Net.mean Nat.toFloat d.data.toList))

end MicroLearn.Bench
