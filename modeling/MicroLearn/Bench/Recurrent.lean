import MicroLearn.Bench.Cell

/-!
# Recurrent networks on the bench

A run unrolls a cell over time, in one direction or both; a layer is a cell with
its run. On them stand the network over bricks, the pooling network and the
classifier of several layers.
-/

set_option autoImplicit false

namespace MicroLearn.Bench

open Net
open Net (CellKind)

def newRun (a : Arguments) : Bench Nat := do
  a.take ["cell", given "batchFirst" (.truth false), given "reverseCell" .none,
      given "bidirectional" (.truth false)] fun cell batchFirst reverse both => do
    let p ← build .run [("cell",cell), ("batchFirst",batchFirst), ("bidirectional",both)]
    if !reverse.isNone then setField p "reverseCell" reverse
    else if ← holds both then setField p "reverseCell" cell
    return p

def startRows (given : Option Grid) (direction batch width : Nat) : Bench (List (List Float)) :=
  match given with
  | none => pure (List.replicate batch (List.replicate width 0.0))
  | some g =>
    match g.parts[direction]? with
    | some part => rowsOf (.grid part)
    | none => fail .outOfRange

def putRows (g : Grid) (direction : Nat) (rows : List (List Float)) : Array Float :=
  let parts := g.body.parts.zipIdx.map fun (t,i) => if i = direction then rows.flatten.toArray
    else t.data
  parts.foldl (· ++ ·) #[]

def memories (hs cs : List (List Float)) : List (Memory Float) := List.zipWith Memory.mk hs cs

structure Direction where
  cell : Cell Float
  start : List (Memory Float)

def Direction.check (d : Direction) (features batch width : Nat) : Except Fault Unit := do
  fitFan d.cell.input features
  fitFan d.cell.state ((d.start.head?.map fun m => m.state.length).getD width)
  match batchFault? batch d.start.length width with
  | some f => throw f
  | none => pure ()

def keepLast (given : Value) (direction : Nat) (rows : List (List Float)) : Bench Unit :=
  match given with
  | .held p => do writeInto p (putRows (← heldGrid p) direction rows)
  | _ => pure ()

def optionalGrid : Value → Bench (Option Grid)
  | .none => pure none
  | v => do return some (← gridOf v)

structure RunFrame where
  first : Nat
  second : Nat
  features : Nat
  width : Nat
  layout : Layout
  zeros : Nat
  isLong : Bool

def runFrame (cell : Nat) (batchFirst : Value) (g : Grid) : Bench RunFrame := do
  let (d0,d1,features) ← match g.shape with
    | [a, b, c] => pure (a,b,c)
    | [_, _] | [_] | [] => fail .outOfRange
    | _ => fail .wrongKind
  let width ← natOf (← fieldOf cell "hiddenSize")
  let zeros := if ← holds batchFirst then d0 else d1
  let isLong := (← cellKindOf cell) == .longShort
  return ⟨d0,d1,features,width,if isTrue batchFirst then .sampleFirst else .timeFirst,zeros,isLong⟩

namespace RunFrame

variable (f : RunFrame)

def times : Nat :=
  match f.layout with
  | .timeFirst => f.first
  | .sampleFirst => f.second

def samples : Nat :=
  match f.layout with
  | .timeFirst => f.second
  | .sampleFirst => f.first

def secondGrid (carried : Value) : Bench (Option Grid) :=
  if f.isLong then optionalGrid carried else pure none

def direction (hidden carried : Option Grid) (k cell : Nat) : Bench Direction := do
  let hs ← startRows hidden k f.zeros f.width
  let cs ← if f.isLong then startRows carried k f.samples f.width else pure (hs.map fun _ => [])
  return ⟨← netCell Activation.unknown cell,memories hs cs⟩

def check (d : Direction) : Bench Unit :=
  if f.times = 0 then pure () else settle (d.check f.features f.samples f.width)

def keep (hidden carried : Value) (k : Nat) (ms : List (Memory Float)) : Bench Unit := do
  if f.times != 0 then
    keepLast hidden k (ms.map (·.state))
    if f.isLong then keepLast carried k (ms.map (·.carried))

def answer (width : Nat) (outs : List (List (List Float × List Float))) : Bench Value := do
  let result := fun (rows : List (List (List Float))) =>
    tensorOf ⟨[f.first, f.second, width],rows.flatten.flatten.toArray⟩
  let hs ← result (outs.map fun row => row.map (·.1))
  if f.isLong then return .tuple [hs, ← result (outs.map fun row => row.map (·.2))] else return hs

/-- A run in front of its first turn, with zeros for the states that it will write. -/
def begin (d : Direction) : Pass (Memory Float) :=
  let zeros := List.replicate f.width 0.0
  ⟨d.start,List.replicate f.first (List.replicate f.second ⟨zeros,zeros⟩)⟩

end RunFrame

def onlyMemory (m : Memory Float) : List Float × List Float := (m.state,m.carried)

def joinMemories (a b : Memory Float) : List Float × List Float :=
  (a.state++b.state,a.carried++b.carried)

/-- Runs over the batch, one way or both, and keeps the last states. -/
def RunFrame.loop (f : RunFrame) (hidden carried : Value) (cube : List (List (List Float)))
    (there : Direction) : Option Direction → Bench Value
  | none => do
    let a := unroll f.layout f.times there.cell.step cube (f.begin there)
    f.keep hidden carried 0 a.now
    f.answer f.width (a.out.map fun row => row.map onlyMemory)
  | some back => do
    let (a,b) := unrollBoth f.layout f.times there.cell.step back.cell.step cube
      (f.begin there) (f.begin back)
    f.keep hidden carried 0 a.now
    f.keep hidden carried 1 b.now
    f.answer (2*f.width) (List.zipWith (List.zipWith joinMemories) a.out b.out)

variable (p : Nat)

/-- Runs over a batch. The outcome is the states, with the carried ones if the cell carries any; the
states that were given are overwritten by the last ones. -/
def forwardRun (x hidden carried : Value) : Bench Value := do
  let g ← gridOf x
  let cell ← partOf (← fieldOf p "cell")
  let both ← holds (← fieldOf p "bidirectional")
  let batchFirst ← fieldOf p "batchFirst"
  setField p "device" (.text "cpu")
  setField p "directions" (.int (if both then 2 else 1))
  let f ← runFrame cell batchFirst g
  let hiddenGrid ← optionalGrid hidden
  let carriedGrid ← f.secondGrid carried
  let cube := (g.body.toCube?).getD []
  let there ← f.direction hiddenGrid carriedGrid 0 cell
  f.check there
  if both then do
    let back ← f.direction hiddenGrid carriedGrid 1 (← partOf (← fieldOf p "reverseCell"))
    f.check back
    f.loop hidden carried cube there (some back)
  else f.loop hidden carried cube there none

def runParams : List Param := ["input", given "hidden" .none, given "carried" .none]

def callRun (method : String) (a : Arguments) : Bench Value := do
  match method with
  | "forward" => a.take runParams fun x h c => forwardRun p x h c
  | "parameters" => do return .list (← cellVars (← partIn p "cell"))
  | _ => fail .missingField

def layerTail : List Param :=
  [given "batchFirst" (.truth false), given "bidirectional" (.truth false),
    given "shared" (.truth true)]

/-- A layer from its cells; a second cell of its own for the way back is refused after it is
built. -/
def buildLayer (kind : CellKind) (plan : CellPlan) (batchFirst both shared : Value) :
    Bench Nat := do
  let cell ← buildCell plan
  let run ← build .run [("cell",.part cell), ("batchFirst",batchFirst), ("bidirectional",both)]
  if ← holds both then setField run "reverseCell" (.part cell)
  if isTrue both && isFalse shared then
    let _ ← buildCell plan
    fail .wrongKind
  build (.layer kind) [("bidirectional",both), ("batchFirst",batchFirst), ("shared",shared),
    ("cell",.part cell), ("unrolled",.part run)]

def newLayer (kind : CellKind) (a : Arguments) : Bench Nat := do
  let name := Value.text (CellNames.family kind)
  match kind with
  | .fast => fail .wrongKind
  | .fastGated =>
    a.take (sizeParams++bendParams++commonParams ++
        [given "zetaStart" (.real 1.0), given "nuStart" (.real (-4.0))]++layerTail)
        fun i h g u wr ur ws us zeta nu bf bi sh => do
      buildLayer kind ⟨kind,i,h,g,u,wr,ur,ws,us,[zeta, nu],name⟩ bf bi sh
  | _ =>
    a.take (sizeParams++bendParams++commonParams++layerTail) fun i h g u wr ur ws us bf bi sh => do
      buildLayer kind ⟨kind,i,h,g,u,wr,ur,ws,us,[],name⟩ bf bi sh

def forwardLayer (x hidden carried : Value) : Bench Value := do
  forwardRun (← partOf (← fieldOf p "unrolled")) x hidden carried

def callLayer (kind : CellKind) (method : String) (a : Arguments) : Bench Value := do
  match method with
  | "forward" => a.take runParams fun x h c => forwardLayer p x h c
  | "parameters" =>
    if kind == .fastGated then do return .list (← cellVars (← partIn p "cell"))
    else fail .missingField
  | _ => fail .missingField

def brickLayers : List (String × Option CellKind) :=
  [("LSTM",none), ("FastRNNCell",some .fast), ("FastGRNNCell",some .fastGated),
    ("GRULRCell",some .gated)]

def checkChance (v : Value) : Bench Unit := do
  if !v.isNone then
    let x ← realOf v
    require (0.0 < x && x ≤ 1.0)

def newBricks (a : Arguments) : Bench Nat := do
  let params : List Param := ["inputs", "outputs", "lowerSize", "upperSize", "family",
    given "lowerDropout" .none, given "upperDropout" .none]
  let isOwn := fun (e : String × Value) => params.any (·.name == e.1)
  let (own,more) := a.named.partition isOwn
  match ← (Arguments.mk a.places own).bind params with
  | [i, o, h0, h1, layers, d0, d1] => do
    let p ← build .bricks [("inputs",i), ("lowerSize",h0), ("upperSize",h1), ("outputs",o),
      ("lowerDropout",d0), ("upperDropout",d1)]
    checkChance d0
    checkChance d1
    let layerArgs := Text.Json.put "batchFirst" (.truth false) []++more.filter (·.1 != "batchFirst")
    let layerArgs := match more.lookup "batchFirst" with
      | some v => Text.Json.put "batchFirst" v layerArgs
      | none => layerArgs
    let kind ← match layers with
      | .text name =>
        match brickLayers.lookup name with
        | some k => pure k
        | none => fail .requirement
      | _ => fail .requirement
    setField p "family" layers
    let layer := fun (i h : Value) => do
      if more.any fun e => ["inputSize", "hiddenSize"].contains e.1 then fail .wrongKind
      match kind with
      | some k => newLayer k ⟨[],("inputSize",i)::("hiddenSize",h)::layerArgs⟩
      | none => build (.layer .longShort) []
    setField p "lower" (.part (← layer i h0))
    setField p "upper" (.part (← layer h0 h1))
    setField p "W" (← drawTensor 1.0 [← natOf h1, ← natOf o])
    setField p "B" (← drawTensor 1.0 [← natOf o])
    return p
  | _ => fail .wrongKind

def noStep : Fault := .value "range() arg 3 must not be zero"

def brickCount (times : Nat) (brick : Value) : Bench Nat := do
  let k ← realOf brick
  if k == 0.0 then fail .zeroDivision
  let n := (Nat.toFloat times/k)
  if n < 1.0 then fail noStep
  return (wholeOf n).toNat

def brickedData (x brick : Value) : Bench Value := do
  match x with
  | .held p =>
    let g ← heldGrid p
    match g.shape with
    | [times, batch, features] => do
      let n ← brickCount times brick
      let k ← natOf brick
      let cut := bricks k g.body.parts
      let data := cut.flatten.foldl (fun (out : Array Float) t => out++t.data) #[]
      tensorOf ⟨[n, k, batch, features],data⟩
    | [_, _] | [_] => fail .outOfRange
    | _ => fail .wrongKind
  | _ => fail .wrongKind

def layerCell (name : String) : Bench Nat := do
  partOf (← fieldOf (← partIn p name) "cell")

def lastPart (g : Grid) : Bench Grid :=
  match g.parts.getLast? with
  | some part => pure part
  | none => fail .outOfRange

def goesOnce (layer : Nat) : Bench Bool := do
  match ← fieldOf? layer "unrolled" with
  | some run => do
    let run ← partOf run
    return isFalse (← fieldOf run "batchFirst") && isFalse (← fieldOf run "bidirectional")
  | none => return false

/-- The states of a layer over a batch. A layer without a cell passes the batch on; from a layer
that carries a second state comes a pair, of which the first counts. -/
def layerStates (layer : Nat) (paired : Bool) (x : Grid) : Bench Grid := do
  let out ← match ← fieldOf? layer "unrolled" with
    | some run => do forwardRun (← partOf run) (← tensor x) .none .none
    | none => pure (.grid x)
  match paired, out with
  | false, _ => gridOf out
  | true, .tuple (first::_) => gridOf first
  | true, _ =>
    match (← gridOf out).parts with
    | [first, _] => pure first
    | [] => fail (.tooFewValues 2 0)
    | [_] => fail (.tooFewValues 2 1)
    | _ => fail (.tooManyValues 2)

/-- The last states of the upper layer, through the layers one after the other. All bricks of all
samples are one batch of the lower layer, whose last states have to fill the batch of the upper
one. -/
def stackedStates (g : Grid) (count brick batch features : Nat) : Bench Grid := do
  let paired := match ← fieldOf p "family" with
    | .text "LSTM" => true
    | _ => false
  let width ← natAt p "lowerSize"
  let cut := g.body.range 0 (count*brick)
  let cut ← settle (cut.reshape [count, brick, batch, features])
  let input ← settle ((cut.permute [1, 0, 2, 3]).reshape [brick, count*batch, features])
  let low ← lastPart (← layerStates (← partIn p "lower") paired (.real input))
  let middle ← settle (low.body.reshape [count, batch, width])
  lastPart (← layerStates (← partIn p "upper") paired (.real middle))

def forwardBricks (x brick : Value) : Bench Value := do
  match x with
  | .held q =>
    let g ← heldGrid q
    match g.shape with
    | [times, batch, features] => do
      require (Int.ofNat features == (← intAt p "inputs"))
      let count ← brickCount times brick
      let k ← natOf brick
      let lowerOnce ← goesOnce (← partIn p "lower")
      let upperOnce ← goesOnce (← partIn p "upper")
      let (width,last) ← if lowerOnce && upperOnce then do
          let lower ← netCell Activation.unknown (← layerCell p "lower")
          let upper ← netCell Activation.unknown (← layerCell p "upper")
          let h0 ← natAt p "lowerSize"
          let h1 ← natAt p "upperSize"
          settle (fitFan lower.input features)
          settle (fitFan lower.state h0)
          settle (fitFan upper.input h0)
          settle (fitFan upper.state h1)
          let blank := fun (n : Nat) => Memory.mk (List.replicate n 0.0) (List.replicate n 0.0)
          let states := brickStates lower.step (fun m (s : Memory Float) => upper.step m s.state)
            (blank h0) (blank h1) k batch ((g.body.toCube?).getD [])
          pure (h1,states.map (·.state))
        else do
          let states ← stackedStates p g count k batch features
          match states.shape with
          | [_, width] => pure (width,← rowsOf (.grid states))
          | _ => pure (states.entries.length,[states.entries])
      let weights ← rowsAt p "W"
      let bias ← gridIn p "B"
      match ← settle (brickScores width weights bias.entries last) with
      | .rows table => tensor (.ofRows table)
      | .single row => tensorOf (.vector row)
    | _ => fail .requirement
  | _ => fail .missingField

def callBricks (method : String) (a : Arguments) : Bench Value := do
  match method, ← a.bind ["x", "brick"] with
  | "forward", [x, k] => forwardBricks p x k
  | "brickedData", [x, k] => brickedData x k
  | _, _ => fail .missingField

def newPool (a : Arguments) : Bench Nat := do
  a.take ["rows", "cols", "firstSize", "secondSize", "inputs",
      given "firstInputShare" (.real 1.0), given "firstStateShare" (.real 1.0),
      given "secondInputShare" (.real 1.0), given "secondStateShare" (.real 1.0)]
      fun r c h hb i w1 u1 w2 u2 => do
    let p ← build .pool [("rows",r), ("cols",c), ("inputs",i), ("firstSize",h), ("secondSize",hb),
      ("firstInputShare",w1), ("firstStateShare",u1), ("secondInputShare",w2),
      ("secondStateShare",u2)]
    let layer := fun (i h ws us : Value) (both : Bool) =>
      newLayer .fastGated ⟨[i, h],[("zetaStart",.real 100.0), ("nuStart",.real (-100.0)),
        ("inputShare",ws), ("stateShare",us), ("bidirectional",.truth both)]⟩
    setField p "first" (.part (← layer i h w1 u1 false))
    setField p "second" (.part (← layer h hb w2 u2 true))
    return p

def forwardPool (x batchSize : Value) : Bench Value := do
  let g ← gridOf x
  match g.shape with
  | [batch, features, rows, cols] => do
    let asked ← natOf batchSize
    let declared ← natAt p "rows"
    let first ← netCell Activation.unknown (← layerCell p "first")
    let second ← netCell Activation.unknown (← layerCell p "second")
    let h ← natAt p "firstSize"
    let hb ← natAt p "secondSize"
    settle (fitFan first.input features)
    let entry := fun (b r c : Nat) => (List.range features).map fun f =>
      g.body.data.getD (((b*features+f)*rows+r)*cols+c) 0.0
    let blank := fun (n : Nat) => Memory.mk (List.replicate n (0.0 : Float)) []
    let ends ← settle (pool first.step (fun m (s : Memory Float) => second.step m s.state)
      (blank h) (blank hb) h ⟨asked,declared⟩ batch rows cols entry)
    tensor (.ofRows (ends.map fun ((a,b),(c,d)) => a.state++b.state++c.state++d.state))
  | _ => fail .badAxis

def newLinear (a : Arguments) : Bench Nat := do
  a.take ["inputs", "outputs", given "bias" (.truth true)] fun i o b => do
    let weight ← drawTensor 0.1 [← natOf o, ← natOf i]
    let bias ← if ← holds b then tensorOf (.fill [← natOf o] 0.0) else pure .none
    build .linear [("weight",weight), ("bias",bias), ("inputs",i), ("outputs",o)]

def forwardLinear (x : Value) : Bench Grid := do
  let g ← gridOf x
  let weight ← rowsAt p "weight"
  let bias ← fieldOf p "bias"
  let offset ← if bias.isNone then pure (weight.map fun _ => 0.0)
    else do pure (← gridOf bias).entries
  let width := (g.shape.getLast?).getD 0
  let inner := (weight.head?.map List.length).getD 0
  if g.rank = 0 then fail tooFewAxes
  if width != inner then fail (innerMismatch inner width)
  let rows := groups width (g.entries.length/width) g.entries
  let out := rows.map fun r => plus (applyMat weight r) offset
  return .real ⟨g.shape.dropLast++[weight.length],out.flatten.toArray⟩

def classifierParams : List Param :=
  ["layerName", "inputs", "layerCount", "sizes", "inputRanks",
    "stateRanks", "inputShares", "stateShares", "gate", "update",
    given "classes" .none, given "linear" (.truth true), given "batchFirst" (.truth false),
    given "softmax" (.truth true)]

def layerNames : List (String × CellKind) :=
  [("LSTM",.longShort), ("GRU",.gated), ("UGRNN",.updateGated), ("FastRNN",.fast),
    ("FastGRNN",.fastGated)]

def noDevice : Fault := .failure "FastGRNNCUDA is supported only on GPU devices."

def forgetStates : Bench Unit := do
  let n ← natAt p "layerCount"
  setField p "states" (.list (List.replicate n Value.none))

def newClassifier (a : Arguments) : Bench Nat := do
  a.take classifierParams
      fun name i n sizes wr ur ws us gate update classes linear batchFirst softmax => do
    let p ← build .classifier [("inputs",i), ("sizes",sizes), ("layerCount",n), ("classes",classes),
      ("inputRanks",wr), ("stateRanks",ur), ("inputShares",ws), ("stateShares",us), ("gate",gate),
      ("update",update), ("linear",linear), ("batchFirst",batchFirst), ("softmax",softmax),
      ("layerName",name)]
    let isLinear ← holds linear
    if isLinear && !(← holds classes) then
      fail (.failure "num_classes need to be specified if linear is True")
    let kind ← match name with
      | .text "FastGRNNCUDA" => fail noDevice
      | .text s =>
        match layerNames.lookup s with
        | some k => pure k
        | none => fail .missingField
      | _ => fail .wrongKind
    let at' := fun (vs : Value) (l : Nat) => do itemAt (← itemsOf vs) l
    let count ← natOf n
    let layers ← (List.range count).mapM fun l => do
      let input ← if l = 0 then pure i else at' sizes (l-1)
      let q ← newLayer kind ⟨[input, ← at' sizes l],
        [("gate",gate), ("update",update), ("inputRank",← at' wr l), ("stateRank",← at' ur l),
          ("inputShare",← at' ws l), ("stateShare",← at' us l), ("batchFirst",batchFirst)]⟩
      return Value.part q
    setField p "layers" (.list layers)
    if isLinear then
      setField p "output" (.part (← newLinear ⟨[← at' sizes (count-1), classes],[]⟩))
    forgetStates p
    return p

def logSoftmax (g : Grid) : Bench Grid := do
  match g.shape with
  | n::m::rest =>
    let width := shapeSize rest
    let at' := fun (i j k : Nat) => g.body.data.getD ((i*m+j)*width+k) 0.0
    let data := (List.range n).flatMap fun i => (List.range m).flatMap fun j =>
        (List.range width).map fun k =>
      at' i j k-Float.log (total ((List.range m).map fun j' => Float.exp (at' i j' k)))
    return .real ⟨g.shape,data.toArray⟩
  | _ => fail .badAxis

def setItem (name : String) (i : Nat) (v : Value) : Bench Unit := do
  let vs ← itemsAt p name
  setField p name (.list (vs.set i v))

def forwardClassifier (x : Value) : Bench Value := do
  let mean ← fieldOf p "mean"
  let mut input ← gridOf x
  if !mean.isNone then
    let m ← gridOf mean
    let s ← gridIn p "deviation"
    let shifted ← settle (input.body.zip (· - ·) m.body)
    input := .real (← settle (shifted.zip (· / ·) s.body))
  let count ← natAt p "layerCount"
  let layers ← itemsAt p "layers"
  let mut current ← tensor input
  for l in List.range count do
    let layer ← partOf (← itemAt layers l)
    let state ← itemAt (← itemsAt p "states") l
    if !state.isNone then
      let g ← gridOf state
      setItem p "states" l (← tensorOf ⟨1::g.shape,g.body.data⟩)
    let state ← itemAt (← itemsAt p "states") l
    let out ← forwardLayer layer current state .none
    match out with
    | .held _ =>
      let g ← gridOf out
      setItem p "states" l (← tensor (← lastPart g))
      let tracking ← fieldOf p "tracking"
      if ← holds tracking then fail .unfilled
      current := out
    | _ => fail .missingField
  let mut out ← gridOf current
  if ← holds (← fieldOf p "linear") then
    out ← forwardLinear (← partIn p "output") (.grid (← lastPart out))
  if ← holds (← fieldOf p "softmax") then
    out ← logSoftmax out
  tensor out

def cellsOf : Bench (List Nat) := do
  (← itemsAt p "layers").mapM fun l => do partIn (← partOf l) "cell"

def classifierSize : Bench Value := do
  let sizes ← itemsAt p "sizes"
  let count ← natAt p "layerCount"
  let last ← intOf (← itemAt sizes (count-1))
  let classes ← intAt p "classes"
  say ((← textOf (← fieldOf p "layerName"))++"\n")
  let cells ← (← cellsOf p).mapM fun c => do intOf (← cellSize c)
  return .int (4*last*classes+cells.foldl (· + ·) 0)

def rollStates : Bench Unit := do
  let size ← natAt p "bagSize"
  let places ← shuffle (List.range size)
  let states ← itemsAt p "states"
  match states.head? with
  | some .none => pure ()
  | none => fail .outOfRange
  | some first =>
    let batch ← match (← gridOf first).shape with
      | n::_ => pure n
      | [] => fail .outOfRange
    let chosen := places.take batch
    let bags ← itemsAt p "bags"
    for l in List.range (← natAt p "layerCount") do
      let bag ← gridOf (← itemAt bags l)
      let state ← gridOf (← itemAt states l)
      let width := (bag.shape.getLast?).getD 0
      if state.shape != [chosen.length, width] then
        fail (.value ("shape mismatch: value array of shape "++shapeWords state.shape ++
          " could not be broadcast to indexing result of shape "++shapeWords [chosen.length,
            width]))
      let rows := (bag.body.toRows?).getD []
      let filled := (chosen.zip ((state.body.toRows?).getD [])).foldl
        (fun rs (i,r) => rs.set i r) rows
      writeInto (← heldPlace (← itemAt bags l)) filled.flatten.toArray
      setItem p "states" l
        (← tensor (.real ⟨[min batch size, width],(filled.take batch).flatten.toArray⟩))

def callClassifier (method : String) (a : Arguments) : Bench Value := do
  match method with
  | "forward" => a.take ["input"] fun x => forwardClassifier p x
  | "sparsify" => do silent ((← cellsOf p).forM sparsify)
  | "restrict" => do silent ((← cellsOf p).forM restrictCell)
  | "size" => classifierSize p
  | "normalize" => a.take ["mean", "deviation"] fun m s => do
      setField p "mean" m
      setField p "deviation" s
      return .none
  | "name" => do return .text (toString (← intAt p "layerCount")++" layer FastGRNN")
  | "moveTo" => do
    let _ ← a.bind ["device"]
    return .none
  | "startBags" => a.take ["bagSize", "device"] fun n d => do
      setField p "bagSize" n
      setField p "device" d
      let sizes ← itemsAt p "sizes"
      let bags ← (List.range (← natAt p "layerCount")).mapM fun l => do
        tensorOf (.fill [← natOf n, ← natOf (← itemAt sizes l)] 0.0)
      setField p "bags" (.list bags)
      return .none
  | "roll" => silent (rollStates p)
  | "forget" => silent (forgetStates p)
  | _ => fail .missingField

end MicroLearn.Bench
