import MicroLearn.Bench.BagTrainer
import MicroLearn.Bench.Function
import MicroLearn.Bench.GraphCellTrainer

/-!
# Scripts on the bench

A step of a script builds a part and names it, calls what a part offers, or reads
and sets fields. A path is a name followed by fields; a number in it picks an
item of a list.
-/

set_option autoImplicit false

namespace MicroLearn.Bench

open Text (Json)

def pickItem (vs : List Value) (segment : String) : Bench Value :=
  match segment.toNat? with
  | some i => itemAt vs i
  | none => fail .missingField

def toldBy (p : Nat) (segment : String) : Bench Value := do
  match (← partAt p).kind, segment with
  | .cell (some k), "family" => return .text (CellNames.family k)
  | .cell none, "name" => fail .unfilled
  | .graphCell k, "family" => return .text (CellNames.family k)
  | .graphCell k, "stateSize" => do
    let n ← intAt p "hiddenSize"
    return .int (if k = .longShort then 2*n else n)
  | .graphCell _, "outputSize" => fieldOf p "hiddenSize"
  | _, _ => fieldOf p segment

def lookAt (v : Value) (segment : String) : Bench Value := do
  match v with
  | .part p => toldBy p segment
  | .list vs | .tuple vs => pickItem vs segment
  | .record fields =>
    match fields.lookup segment with
    | some w => pure w
    | none => fail .missingField
  | .held p =>
    match segment with
    | "data" => pure v
    | "name" => do return .text (← handleAt p).name
    | _ => do
      let parts ← itemsOf v
      pickItem parts segment
  | .grid g => pickItem (g.parts.map .grid) segment
  | _ => fail .missingField

def named (name : String) : Bench Value := do
  if name == "metrics" then return .list (← get).scoreCalls
  match (← get).names.lookup name with
  | some v => pure v
  | none => fail (.unknownName name)

def follow (path : List String) : Bench Value := do
  match path with
  | [] => fail .missingField
  | name::rest => do rest.foldlM lookAt (← named name)

def segments (path : String) : List String := path.splitOn "."

/-- Sets a field of what a path leads to. Setting the data of a tensor gives it another buffer. -/
def assign (path : List String) (v : Value) : Bench Unit := do
  match path.getLast? with
  | none => fail .missingField
  | some field =>
    match ← follow path.dropLast, v with
    | .part p, v => setField p field v
    | .held p, .held q => if field == "data" then shareBuffer p q else fail .missingField
    | .held p, v => if field == "data" then do replaceBuffer p (← gridOf v) else fail .missingField
    | _, _ => fail .missingField

abbrev Maker := Arguments → Bench Nat

def noPart : Maker := fun _ => fail noDevice

def makers : List (String × Maker) :=
  [("cellFrame",newCellFrame), ("fastGatedCell",newCell .fastGated), ("fastCell",newCell .fast),
    ("longShortCell",newCell .longShort), ("gatedCell",newCell .gated),
    ("updateGatedCell",newCell .updateGated), ("deviceCell",noPart), ("deviceRun",noPart),
    ("run",newRun), ("longShortLayer",newLayer .longShort), ("gatedLayer",newLayer .gated),
    ("updateGatedLayer",newLayer .updateGated), ("fastLayer",newLayer .fast),
    ("fastGatedLayer",newLayer .fastGated), ("bricks",newBricks), ("pool",newPool),
    ("tree",newTree),
    ("prototypes",newPrototypes), ("linear",newLinear), ("classifier",newClassifier),
    ("treeTrainer",newTreeTrainer), ("fastTrainer",newCellTrainer),
    ("prototypeTrainer",newPrototypeTrainer), ("brickTrainer",newBrickTrainer),
    ("oneClassTrainer",newOneClass .oneClassTrainer),
    ("limitedTrainer",newOneClass .limitedTrainer),
    ("fastGatedGraph",newGraphCell .fastGated), ("fastGraph",newGraphCell .fast),
    ("longShortGraph",newGraphCell .longShort), ("gatedGraph",newGraphCell .gated),
    ("updateGatedGraph",newGraphCell .updateGated), ("treeGraph",newGraphTree),
    ("prototypeGraph",newGraphPrototypes), ("treeLayer",newTreeLayer),
    ("prototypeLayer",newPrototypeLayer),
    ("prototypeGraphTrainer",newGraphPrototypeTrainer), ("bagFrame",fun _ => fail .unfilled),
    ("bagPipeline",newPipeline), ("longShortBags",newNetwork .longShort false),
    ("gatedBags",newNetwork .gated false), ("fastBags",newNetwork .fast false),
    ("updateGatedBags",newNetwork .updateGated false),
    ("fastGatedBags",newNetwork .fastGated false),
    ("longShortBagsFilled",newNetwork .longShort true), ("gatedBagsFilled",newNetwork .gated true),
    ("fastBagsFilled",newNetwork .fast true),
    ("updateGatedBagsFilled",newNetwork .updateGated true),
    ("fastGatedBagsFilled",newNetwork .fastGated true), ("bagTrainer",newBagTrainer),
    ("bagDriver",newBagDriver), ("checkpoints",newCheckpoints)]

def kinds : List (String × Kind) :=
  [("cellFrame",.cell none), ("fastGatedCell",.cell (some .fastGated)),
    ("fastCell",.cell (some .fast)),
    ("longShortCell",.cell (some .longShort)), ("gatedCell",.cell (some .gated)),
    ("updateGatedCell",.cell (some .updateGated)), ("deviceCell",.deviceCell),
    ("deviceRun",.deviceRun),
    ("run",.run), ("bricks",.bricks), ("pool",.pool), ("tree",.tree), ("prototypes",.prototypes),
    ("linear",.linear), ("classifier",.classifier), ("treeTrainer",.treeTrainer),
    ("fastTrainer",.cellTrainer), ("prototypeTrainer",.prototypeTrainer),
    ("brickTrainer",.brickTrainer),
    ("oneClassTrainer",.oneClassTrainer), ("limitedTrainer",.limitedTrainer),
    ("fastGatedGraph",.graphCell .fastGated), ("fastGraph",.graphCell .fast),
    ("longShortGraph",.graphCell .longShort), ("gatedGraph",.graphCell .gated),
    ("updateGatedGraph",.graphCell .updateGated), ("treeGraph",.graphTree),
    ("prototypeGraph",.graphPrototypes), ("treeLayer",.treeLayer),
    ("prototypeLayer",.prototypeLayer),
    ("prototypeGraphTrainer",.graphPrototypeTrainer), ("treeGraphTrainer",.graphTreeTrainer),
    ("fastGraphTrainer",.graphCellTrainer), ("bagFrame",.bagGraph none false),
    ("bagPipeline",.bagPipeline),
    ("longShortBags",.bagGraph (some .longShort) false),
    ("gatedBags",.bagGraph (some .gated) false),
    ("fastBags",.bagGraph (some .fast) false),
    ("updateGatedBags",.bagGraph (some .updateGated) false),
    ("fastGatedBags",.bagGraph (some .fastGated) false),
    ("longShortBagsFilled",.bagGraph (some .longShort) true),
    ("gatedBagsFilled",.bagGraph (some .gated) true),
    ("fastBagsFilled",.bagGraph (some .fast) true),
    ("updateGatedBagsFilled",.bagGraph (some .updateGated) true),
    ("fastGatedBagsFilled",.bagGraph (some .fastGated) true), ("bagTrainer",.bagTrainer),
    ("bagDriver",.bagDriver), ("checkpoints",.checkpoints)]

def callSession (session : Value) (method : String) (a : Arguments) : Bench Value := do
  match method with
  | "run" => a.take ["fetches", given "feeds" .none] fun w f => ask session w (feedsOf f)
  | "close" => silent (closeSession session)
  | _ => fail .missingField

def call (p : Nat) (method : String) (a : Arguments) : Bench Value := do
  match (← partAt p).kind with
  | .cell _ | .deviceCell | .deviceRun => callCell p method a
  | .run => callRun p method a
  | .layer k => callLayer p k method a
  | .bricks => callBricks p method a
  | .pool =>
    match method, ← a.bind ["x", "batchSize"] with
    | "forward", [x, n] => forwardPool p x n
    | _, _ => fail .missingField
  | .tree =>
    match method, ← a.bind ["x", "sharpness"] with
    | "forward", [x, s] => forwardTree p x s
    | _, _ => fail .missingField
  | .prototypes => callPrototypes p method a
  | .linear =>
    match method, ← a.bind ["x"] with
    | "forward", [x] => do tensor (← forwardLinear p x)
    | _, _ => fail .missingField
  | .classifier => callClassifier p method a
  | .treeTrainer => callTreeTrainer p method a
  | .cellTrainer => callCellTrainer p method a
  | .prototypeTrainer => callPrototypeTrainer p method a
  | .brickTrainer => callBrickTrainer p method a
  | .oneClassTrainer | .limitedTrainer => callOneClass p method a
  | .graphCell _ => callGraphCell p method a
  | .graphTree => callGraphTree p method a
  | .graphPrototypes => callGraphPrototypes p method a
  | .treeLayer => callTreeLayer p method a
  | .prototypeLayer => callPrototypeLayer p method a
  | .graphPrototypeTrainer => callGraphPrototypeTrainer p method a
  | .graphTreeTrainer => callGraphTreeTrainer p method a
  | .graphCellTrainer => callGraphCellTrainer p method a
  | .bagPipeline => callPipeline p method a
  | .bagGraph (some k) filled => callNetwork p k filled method a
  | .bagGraph none _ => fail .unfilled
  | .bagTrainer => callBagTrainer p method a
  | .bagDriver => callBagDriver p method a
  | .checkpoints => callCheckpoints method a
  | .session => callSession (.part p) method a
  | .saver | .graph => fail .missingField

mutual

def shown (s : Store) : Value → Json
  | .none => .null
  | .truth b => .bool b
  | .int n => .int n
  | .real x => figureJson x
  | .text t => .str t
  | .grid g => g.json
  | .held p =>
    let h := (s.handles[p]?).getD default
    Grid.json ⟨h.element,⟨h.shape,(s.buffers[h.buffer]?).getD #[]⟩⟩
  | .list vs | .tuple vs => .arr (shownItems s vs)
  | .record fs => .obj (shownEntries s fs)
  | .operation _ => .str "op"
  | .file path => .str path
  | .part _ | .constant _ | .screen => .null

def shownItems (s : Store) : List Value → List Json
  | [] => []
  | v::vs => shown s v::shownItems s vs

def shownEntries (s : Store) : List (String × Value) → List (String × Json)
  | [] => []
  | (k,v)::fs => (k,shown s v)::shownEntries s fs

end

def shownContent (s : Store) : Content → Json
  | .text t => .str t
  | .grid g => g.json
  | .record fs => .obj (shownEntries s fs)

def filesBelow (folder : String) : Bench Json := do
  let s ← get
  let home := tidy folder++"/"
  return .obj (s.files.filterMap fun (path,c) =>
    if path.startsWith home then some ((path.drop home.length).toString,shownContent s c) else none)

end MicroLearn.Bench
