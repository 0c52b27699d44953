import MicroLearn.Bench.Store
import MicroLearn.Learn.Record
import MicroLearn.Net.Tree

/-!
# Models on the bench

A cell is built with random weights and keeps its parameters as tensors under
their names. Its weights can be thresholded in place, remembered, and restricted
to where remembered weights are not zero. Trees and prototypes keep their matrices
as tensors, made from given arrays or at random.
-/

set_option autoImplicit false

namespace MicroLearn.Bench

open Net (CellKind Fan)

def sigmoid (x : Float) : Float := 1.0/(1.0+Float.exp (-x))

def curves : Net.Curves Float := ⟨Float.tanh,sigmoid⟩

def bendOf (unknown : Fault) : Value → Bench (Float → Float)
  | .text name =>
    match Net.Activation.ofName? name with
    | some a => pure (a.apply curves)
    | none => fail unknown
  | .constant v => do
    let x ← realOf v
    return fun _ => x
  | _ => fail unknown

namespace CellNames

def family : CellKind → String
  | .fastGated => "FastGRNN"
  | .fast => "FastRNN"
  | .longShort => "LSTMLR"
  | .gated => "GRULR"
  | .updateGated => "UGRNNLR"

def isProduct : CellKind → Bool
  | .fastGated | .fast => true
  | _ => false

def matrices (letter : String) (kind : CellKind) (ranked : Bool) : List String :=
  let numbered := fun (n : Nat) => (List.range n).map fun i => letter++toString (i+1)
  if isProduct kind then if ranked then numbered 2 else [letter]
  else (if ranked then [letter] else [])++numbered kind.matrices

def shapes (kind : CellKind) (size hidden : Nat) : Option Nat → List (List Nat)
  | none => List.replicate kind.matrices [size, hidden]
  | some r => [size, r]::List.replicate kind.matrices [r, hidden]

def biases : CellKind → List String
  | .fastGated => ["gateBias", "updateBias"]
  | .fast => ["updateBias"]
  | .longShort => ["forgetBias", "inputBias", "carryBias", "outputBias"]
  | .gated => ["resetBias", "gateBias", "updateBias"]
  | .updateGated => ["gateBias", "updateBias"]

def scalars : CellKind → List String
  | .fastGated => ["zeta", "nu"]
  | .fast => ["alpha", "beta"]
  | _ => []

end CellNames

structure CellPlan where
  kind : CellKind
  inputSize : Value
  hiddenSize : Value
  gate : Value
  update : Value
  inputRank : Value
  stateRank : Value
  inputShare : Value
  stateShare : Value
  scalars : List Value
  name : Value

def rankOf : Value → Bench (Option Nat)
  | .none => pure none
  | v => do return some (← natOf v)

def cellFields (input hidden gate update wCount uCount biases wRank uRank wShare uShare : Value) :
    List (String × Value) :=
  [("inputSize",input), ("hiddenSize",hidden), ("gate",gate), ("update",update),
    ("inputMatrices",wCount), ("stateMatrices",uCount), ("biasCount",biases),
    ("counts",.list [wCount, uCount, biases]), ("inputRank",wRank), ("stateRank",uRank),
    ("inputShare",wShare), ("stateShare",uShare), ("kept",.list [])]

variable (p : Nat)

def drawMatrices (shapes : List (String × List Nat)) : Bench Unit :=
  shapes.forM fun e => do setField p e.1 (← drawTensor 0.1 e.2)

def setScalars (values : List (String × Value)) : Bench Unit :=
  values.forM fun e => do setField p e.1 (← tensorOf (.fill [1, 1] (← realOf e.2)))

def fillCell (c : CellPlan) (wRank uRank : Option Nat) : Bench Unit := do
  let size ← natOf c.inputSize
  let hidden ← natOf c.hiddenSize
  drawMatrices p ((CellNames.matrices "W" c.kind wRank.isSome).zip
    (CellNames.shapes c.kind size hidden wRank))
  drawMatrices p ((CellNames.matrices "U" c.kind uRank.isSome).zip
    (CellNames.shapes c.kind hidden hidden uRank))
  (CellNames.biases c.kind).forM fun name => do setField p name (← tensorOf (.fill [1, hidden] 1.0))
  setScalars p ((CellNames.scalars c.kind).zip c.scalars)

def buildCell (c : CellPlan) : Bench Nat := do
  let wRank ← rankOf c.inputRank
  let uRank ← rankOf c.stateRank
  let count := fun (r : Option Nat) => Value.int (c.kind.matrices+if r.isSome then 1 else 0 : Nat)
  let p ← build (.cell (some c.kind))
    (cellFields c.inputSize c.hiddenSize c.gate c.update (count wRank) (count uRank)
      (.int (CellNames.biases c.kind).length) c.inputRank c.stateRank c.inputShare
        c.stateShare++[("name",c.name)])
  fillCell p c wRank uRank
  return p

def commonParams : List Param :=
  [given "inputRank" .none, given "stateRank" .none, given "inputShare" (.real 1.0),
    given "stateShare" (.real 1.0)]

def sizeParams : List Param := ["inputSize", "hiddenSize"]

def bendParams : List Param := [given "gate" (.text "sigmoid"), given "update" (.text "tanh")]

def newCell (kind : CellKind) (a : Arguments) : Bench Nat := do
  let name := given "name" (.text (CellNames.family kind))
  match kind with
  | .fastGated =>
    a.take (sizeParams++bendParams++commonParams ++
        [given "zetaStart" (.real 1.0), given "nuStart" (.real (-4.0)), name])
        fun i h g u wr ur ws us zeta nu n => buildCell ⟨kind,i,h,g,u,wr,ur,ws,us,[zeta, nu],n⟩
  | .fast =>
    a.take (sizeParams++[given "update" (.text "tanh")]++commonParams ++
        [given "alphaStart" (.real (-3.0)), given "betaStart" (.real 3.0), name])
        fun i h u wr ur ws us alpha beta n => do
      buildCell ⟨kind,i,h,.none,u,wr,ur,ws,us,[alpha, beta],n⟩
  | _ =>
    a.take (sizeParams++bendParams++commonParams++[name])
        fun i h g u wr ur ws us n => buildCell ⟨kind,i,h,g,u,wr,ur,ws,us,[],n⟩

def frameParams : List Param := ["gate", "update", "inputMatrices", "stateMatrices", "biasCount"]

def newCellFrame (a : Arguments) : Bench Nat := do
  a.take (sizeParams++frameParams++commonParams)
      fun i h g u nw nu nb wr ur ws us =>
        build (.cell none) (cellFields i h g u nw nu nb wr ur ws us)

def cellKindOf : Bench CellKind := do
  match (← partAt p).kind with
  | .cell (some k) | .graphCell k => pure k
  | .deviceCell | .deviceRun => pure .fastGated
  | _ => fail .unfilled

def cellVars : Bench (List Value) := do
  let kind ← cellKindOf p
  let ranked := fun (n : Value) => do return (← natOf n) != kind.matrices
  let w ← ranked (← fieldOf p "inputMatrices")
  let u ← ranked (← fieldOf p "stateMatrices")
  let names := CellNames.matrices "W" kind w++CellNames.matrices "U" kind u ++
    CellNames.biases kind++CellNames.scalars kind
  names.mapM (fieldOf p)

def heldPlace : Value → Bench Nat
  | .held p => pure p
  | _ => fail .missingField

def matrixEnds : Bench (Nat × Nat) := do
  let w ← natAt p "inputMatrices"
  let u ← natAt p "stateMatrices"
  return (w,w+u)

def itemAt (vs : List Value) (i : Nat) : Bench Value :=
  match vs[i]? with
  | some v => pure v
  | none => fail .outOfRange

/-- Keeps a share of the weights of a tensor, in place. The outcome stands on the same buffer. -/
def thresholdInPlace (v : Value) (share : Float) : Bench Value := do
  let p ← heldPlace v
  let g ← heldGrid p
  let xs ← settle (Learn.hardThresholdSingle share g.entries)
  writeInto p xs.toArray
  viewOf p g.shape

/-- Sets a tensor to zero, in place, where another one is. The outcome has the other one's shape. -/
def restrictInPlace (support target : Value) : Bench Value := do
  let s ← gridOf support
  let p ← heldPlace target
  let g ← heldGrid p
  let zeros := s.entries.zipIdx.filter fun (x,_) => x == 0.0
  if zeros.any fun (_,i) => g.entries.length ≤ i then fail .outOfRange
  writeInto p (zeros.foldl (fun a (_,i) => a.setIfInBounds i 0.0) g.body.data)
  if shapeSize s.shape != g.entries.length then fail (cannotReshape g.entries.length s.shape)
  viewOf p s.shape

def copyOf (v : Value) : Bench Value := do tensor (← gridOf v)

def copyInto (target source : Value) : Bench Unit := do
  replaceBuffer (← heldPlace target) (← gridOf source)

def countWeights (g : Grid) (sparse : Bool) : Nat :=
  if sparse then (g.entries.filter (· != 0.0)).length else shapeSize g.shape

def cellSize : Bench Value := do
  let vars ← cellVars p
  let (endW,endU) ← matrixEnds p
  let ws ← holds (← fieldOf p "inputShare")
  let us ← holds (← fieldOf p "stateShare")
  let counts ← vars.zipIdx.mapM fun (v,i) => do
    return countWeights (← gridOf v) (if i < endW then ws else if i < endU then us else false)
  return .int ((2+counts.foldl (· + ·) 0)*4 : Nat)

def rememberWeights : Bench Unit := do
  let vars ← cellVars p
  let (_,n) ← matrixEnds p
  let old ← itemsAt p "kept"
  let copies ← (List.range n).mapM fun i => do copyOf (← itemAt vars i)
  let empty ← tensorOf ⟨[0],#[]⟩
  setField p "kept" (.list (copies++if old.length = n then [] else old.map fun _ => empty))

def thresholdCell : Bench (List Value) := do
  let vars ← cellVars p
  let (endW,endU) ← matrixEnds p
  let ws ← realAt p "inputShare"
  let us ← realAt p "stateShare"
  (List.range endU).mapM fun i => do
    thresholdInPlace (← itemAt vars i) (if i < endW then ws else us)

def sparsify : Bench Unit := do
  let cut ← thresholdCell p
  copyInto (← fieldOf p "W") (← itemAt cut 0)
  copyInto (← fieldOf p "U") (← itemAt cut 1)

def sparsifyAndRemember : Bench Unit := do
  let _ ← thresholdCell p
  rememberWeights p

def restrictCell : Bench Unit := do
  let vars ← cellVars p
  let (_,n) ← matrixEnds p
  let kept ← itemsAt p "kept"
  (List.range n).forM fun i => do
    let v ← itemAt vars i
    let _ ← restrictInPlace (← itemAt kept i) v

def fanOf (letter : String) (kind : CellKind) (ranked : Bool) : Bench (Fan Float) := do
  let ms ← (CellNames.matrices letter kind ranked).mapM fun n => do rowsOf (← fieldOf p n)
  return match ranked, ms with
    | true, m::rest => ⟨some m,rest⟩
    | _, ms => ⟨none,ms⟩

def firstRow (v : Value) : Bench (List Float) := do
  let g ← gridOf v
  match g.shape with
  | [_, n] => pure (g.entries.take n)
  | _ => pure g.entries

def gateOf (unknown : Fault) (p : Nat) (kind : CellKind) : Bench (Float → Float) :=
  if kind = .fast then pure id else do bendOf unknown (← fieldOf p "gate")

def paramsOf (kind : CellKind) : Bench (Net.CellParams Float) :=
  let field := fun (name : String) => do firstRow (← fieldOf p name)
  let number := fun (name : String) => do realOf (← fieldOf p name)
  match kind with
  | .fastGated => do
    return .fastGated (← field "gateBias") (← field "updateBias") (← number "zeta") (← number "nu")
  | .fast => do return .fast (← field "updateBias") (← number "alpha") (← number "beta")
  | .longShort => do
    return .longShort (← field "forgetBias") (← field "inputBias") (← field "carryBias")
      (← field "outputBias")
  | .gated => do return .gated (← field "resetBias") (← field "gateBias") (← field "updateBias")
  | .updateGated => do return .updateGated (← field "gateBias") (← field "updateBias")

def netCell (unknown : Fault) (p : Nat) : Bench (Net.Cell Float) := do
  let kind ← cellKindOf p
  let input ← fanOf p "W" kind (!(← fieldOf p "inputRank").isNone)
  let state ← fanOf p "U" kind (!(← fieldOf p "stateRank").isNone)
  let gate ← gateOf unknown p kind
  let update ← bendOf unknown (← fieldOf p "update")
  return ⟨input,state,← paramsOf p kind,gate,update,sigmoid⟩

def fitFan (f : Fan Float) (length : Nat) : Except Fault Unit := do
  let fit := fun (m : List (List Float)) (n : Nat) =>
    if m.length = n then Except.ok ((m.head?.map List.length).getD 0)
    else Except.error (Net.innerMismatch m.length n)
  let n ← match f.shared with
    | some m => fit m length
    | none => pure length
  f.each.forM fun m => do let _ ← fit m n

def stateRows (v : Value) : Bench (List (List Float)) := do
  let g ← gridOf v
  match g.rank with
  | 1 => pure [g.entries]
  | _ => rowsOf (.grid g)

def pairRows (width : Nat) (a b : List (List Float)) :
    Except Fault (List (List Float × List Float)) :=
  match a, b with
  | [x], ys => .ok (ys.map fun y => (x,y))
  | xs, [y] => .ok (xs.map fun x => (x,y))
  | xs, ys =>
    if xs.length = ys.length then .ok (xs.zip ys)
    else .error (shapesApart [xs.length, width] [ys.length, width])

def stepCell (unknown : Fault) (p : Nat) (x state : Value) : Bench (Value × Option Value) := do
  let kind ← cellKindOf p
  let (h,carried) ← match kind, state with
    | .longShort, .tuple [h, c] | .longShort, .list [h, c] => pure (h,some c)
    | .longShort, .tuple vs | .longShort, .list vs =>
      if vs.length < 2 then fail (.tooFewValues 2 vs.length) else fail (.tooManyValues 2)
    | .longShort, _ => fail .wrongKind
    | _, h => pure (h,none)
  let cell ← netCell unknown p
  let xs ← stateRows x
  let hs ← stateRows h
  settle (fitFan cell.input ((xs.head?.map List.length).getD 0))
  settle (fitFan cell.state ((hs.head?.map List.length).getD 0))
  let width := (hs.head?.map List.length).getD 0
  let cs ← match carried with
    | some c => stateRows c
    | none => pure [[]]
  let pairs ← settle (pairRows width xs hs)
  let memories ← settle (pairRows width (pairs.map (·.2)) cs)
  let next := List.zipWith (fun (q : List Float × List Float) (m : List Float × List Float) =>
    cell.step ⟨m.1,m.2⟩ q.1) pairs memories
  let states ← tensor (.ofRows (next.map (·.state)))
  match carried with
  | some _ => do return (states,some (← tensor (.ofRows (next.map (·.carried)))))
  | none => pure (states,none)

def callCell (method : String) (a : Arguments) : Bench Value := do
  match method with
  | "forward" =>
    match (← partAt p).kind with
    | .cell none => fail .unfilled
    | _ => a.take ["input", "state"] fun x h => do
        let (next,carried) ← stepCell Net.Activation.unknown p x h
        return match carried with
          | some c => .tuple [next, c]
          | none => next
  | "parameters" => do return .list (← cellVars p)
  | "size" => cellSize p
  | "remember" => silent (rememberWeights p)
  | "sparsify" => do
    if (← partAt p).kind == .deviceRun then sparsifyAndRemember p else sparsify p
    return .none
  | "restrict" => silent (restrictCell p)
  | _ => fail .missingField

def matrixOr (v : Value) (shape : Bench (List Nat)) : Bench Value := do
  match v with
  | .none => drawTensor 1.0 (← shape)
  | .grid g => tensor (.real g.body)
  | _ => fail .missingField

def hasShape (v : Value) (rows cols : Value) : Bench Bool := do
  let g ← gridOf v
  match g.shape, rows, cols with
  | [r, c], .int n, .int m => return Int.ofNat r == n && Int.ofNat c == m
  | _, _, _ => return false

def treeClasses (v : Value) : Value :=
  match v with
  | .int 2 => .int 1
  | .real x => if x == 2.0 then .int 1 else v
  | v => v

structure TreeSizes where
  classes : Nat
  inputs : Nat
  width : Nat
  inner : Nat
  nodes : Nat

def treeSizes : Bench TreeSizes := do
  return ⟨← natAt p "classes",← natAt p "inputs",← natAt p "width",
    ← natAt p "innerNodes",← natAt p "nodes"⟩

def checkTree : Bench Unit := do
  let shapeAt := fun (name : String) => do return (← gridIn p name).shape
  let w ← shapeAt "W"
  let v ← shapeAt "V"
  let t ← shapeAt "T"
  let z ← shapeAt "Z"
  require (w.length == z.length && w.length == t.length && w.length == 2 && w == v)
  let s ← treeSizes p
  require (w == [s.classes*s.nodes, s.width])
  require (z == [s.width, s.inputs])
  require (t == [s.inner, s.width])
  let depth ← intAt p "depth"
  require (decide (0 < s.classes) && decide (0 < s.inputs) && decide (0 < s.width) &&
    decide (0 ≤ depth))

def treeFields (classes inputs width depth sigma : Value) : Bench (List (String × Value)) := do
  let d ← intOf depth
  let inner : Nat := Number.twoPow d.toNat-1
  return [("inputs",inputs), ("width",width), ("classes",classes), ("depth",depth), ("sigma",sigma),
    ("innerNodes",.int inner), ("nodes",.int (2*inner+1))]

def fillTree (w v t z : Value) : Bench Unit := do
  let s ← treeSizes p
  let rows := pure [s.classes*s.nodes, s.width]
  setField p "W" (← matrixOr w rows)
  setField p "V" (← matrixOr v rows)
  setField p "T" (← matrixOr t (pure [s.inner, s.width]))
  setField p "Z" (← matrixOr z (pure [s.width, s.inputs]))

/-- A depth below zero leaves matrices without a shape, and given ones do not fit it. -/
def checkDepth (depth : Value) (sized : List Value) : Bench Unit := do
  if (← intOf depth) < 0 then
    if sized.any (·.isNone) then fail .wrongKind else fail .requirement

def treeSizeParams : List Param := ["classes", "inputs", "width", "depth", "sigma"]

def treeParams : List Param :=
  [given "W" .none, given "T" .none, given "V" .none, given "Z" .none]

def newTree (a : Arguments) : Bench Nat := do
  a.take (treeSizeParams++treeParams) fun classes inputs width depth sigma w t v z => do
    let p ← build .tree (← treeFields (treeClasses classes) inputs width depth sigma)
    checkDepth depth [w, v, t]
    fillTree p w v t z
    checkTree p
    return p

def netTree : Bench (Net.Tree Float) := do
  let s ← treeSizes p
  return {
    classes := s.classes
    nodes := s.nodes
    projection := ← rowsAt p "Z"
    width := ← realAt p "width"
    scores := ← rowsAt p "W"
    gains := ← rowsAt p "V"
    routes := ← rowsAt p "T"
    sigma := ← realAt p "sigma" }

def scoreTree (x : Value) (sharpness : Float) : Bench (List (List Float) × List (List Float)) := do
  let tree ← netTree p
  let g ← gridOf x
  let rows ← rowsOf (.grid g)
  let inner := (tree.projection.head?.map List.length).getD 0
  let features := (g.shape.getLast?).getD 0
  if features != inner then fail (Net.innerMismatch features inner)
  let projected := rows.map tree.project
  let scores := projected.map (tree.score Float.tanh fun y => Float.tanh (sharpness*y))
  return (scores,projected)

def columnsGrid (width : Nat) (rows : List (List Float)) : Grid :=
  .real ⟨[width, rows.length],
    ((List.range width).flatMap fun j => rows.map fun r => (r[j]?).getD 0.0).toArray⟩

def forwardTree (x sharpness : Value) : Bench Value := do
  let (scores,projected) ← scoreTree p x (← realOf sharpness)
  let s ← treeSizes p
  setField p "score" (← tensor (columnsGrid s.classes scores))
  let z ← tensor (columnsGrid s.width projected)
  setField p "projected" z
  return .tuple [← tensorOf ⟨[scores.length, s.classes],scores.flatten.toArray⟩, z]

def newPrototypes (a : Arguments) : Bench Nat := do
  a.take ["inputs", "width", "count", "labels", "gamma",
      given "W" .none, given "B" .none, given "Z" .none] fun d dcap m l gamma w b z => do
    let p ← build .prototypes [("inputs",d), ("width",dcap), ("count",m), ("labels",l),
      ("gamma",gamma)]
    let sizes := fun (x y : Value) => do return [← natOf x, ← natOf y]
    let w ← matrixOr w (sizes d dcap)
    let b ← matrixOr b (sizes dcap m)
    let z ← matrixOr z (sizes l m)
    setFields p [("W",w), ("B",b), ("Z",z)]
    require (← hasShape w d dcap)
    require (← hasShape b dcap m)
    require (← hasShape z l m)
    return p

def netPrototypes : Bench (Net.Prototypes Float) := do
  return ⟨← rowsAt p "W",← rowsAt p "B",← rowsAt p "Z",
    ← realAt p "gamma"⟩

def scorePrototypes (x : Value) : Bench (Grid × Grid) := do
  let model ← netPrototypes p
  let g ← gridOf x
  let rows ← rowsOf (.grid g)
  let features := (g.shape.getLast?).getD 0
  if features != model.projection.length then
    fail (Net.innerMismatch model.projection.length features)
  let distances := rows.map model.distances
  let count := (model.places.head?.map List.length).getD 0
  let scores := rows.map (model.score Float.exp)
  return (.real ⟨[rows.length, model.labels.length],scores.flatten.toArray⟩,
    .real ⟨[rows.length, 1, count],distances.flatten.toArray⟩)

def hyperParams : Bench Value := do
  return .tuple (← ["inputs", "width", "count", "labels", "gamma"].mapM (fieldOf p))

def callPrototypes (method : String) (a : Arguments) : Bench Value := do
  match method with
  | "forward" => a.take ["x"] fun x => do
      let (scores,distances) ← scorePrototypes p x
      setField p "distances" (← tensor distances)
      tensor scores
  | "settings" => hyperParams p
  | "matrices" => do return .tuple (← ["W", "B", "Z", "gamma"].mapM (fieldOf p))
  | _ => fail .missingField

def bestPlaces (rows : List (List Float)) : List Nat := rows.map Fixed.argmax

def hingeLoss (logits labels : Value) : Bench Float := do
  let scores ← rowsOf logits
  match Net.hingeLoss? Nat.toFloat scores (← rowsOf labels) with
  | some loss => pure loss
  | none => fail .outOfRange

def binaryHinge (logits labels : Value) : Bench Float := do
  let x ← gridOf logits
  let y ← gridOf labels
  let margins ← settle ((y.body.map fun l => 2.0*l-1.0).zip (· * ·) x.body)
  return Net.mean Nat.toFloat (margins.data.toList.map fun m => Net.positivePart (1.0-m))

def meanSquaredError (a b : Value) : Bench Float := do
  let d ← settle ((← gridOf a).body.zip (· - ·) (← gridOf b).body)
  return Net.meanSquare Nat.toFloat d.data.toList

def squaredNormOf (v : Value) : Bench Float := do return Net.squaredNorm (← gridOf v).entries

def agreement (a b : List Nat) : Float :=
  Net.mean Nat.toFloat (List.zipWith (fun x y => if x = y then (1.0 : Float) else 0.0) a b)

def estimateValue (e : Learn.SizeEstimate) : Value :=
  .tuple [.ofCell e.count, .ofCell e.bytes, .truth e.sparse]

def addEstimates (a b : Learn.SizeEstimate) : Learn.SizeEstimate :=
  ⟨a.count+b.count,a.bytes+b.bytes, a.sparse || b.sparse⟩

def noWeights : Learn.SizeEstimate := ⟨.int 0,.int 0,false⟩

def estimateOf (v : Value) (share : Float) : Bench Learn.SizeEstimate := do
  return Learn.estimateSize (← gridOf v).shape share 4

end MicroLearn.Bench
