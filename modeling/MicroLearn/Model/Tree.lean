import MicroLearn.Model.Desk

/-!
# Models

A tree of linear scores on a projection of the input, or prototypes with class
scores, weighed by their distance from such a projection. A model is read from its
files, its constants are folded into the matrices, and it is written as a header
and, for the fixed-point version, as a program of the tensor language.
-/

set_option autoImplicit false

namespace MicroLearn.Model

open Work
open Number (Cell)

variable {α : Type}

structure TreeModel (α : Type) where
  Z : Rows α
  W : Rows α
  V : Rows α
  T : Rows α
  sigma : Rows α
  mean : Rows α
  deviation : Rows α
  deriving Inhabited

/-- A model ready for use: the mean is projected, and `W` and `V` are ordered by node. -/
structure PreparedTree (α : Type) where
  inputs : Nat
  projected : Nat
  internalNodes : Nat
  depth : Nat
  totalNodes : Nat
  classes : Nat
  Z : Rows α
  W : Rows α
  V : Rows α
  T : Rows α
  mean : List α
  deriving Inhabited

def loadBranchWeights (t : Task) : Work (Rows Cell) := do
  if ← isFile (t.modelDir++"/T") then readRows (t.modelDir++"/T") "\t"
  else if ← isFile (t.modelDir++"/Theta") then readRows (t.modelDir++"/Theta") "\t"
  else fail .requirement

def readTreeModel (t : Task) : Work (TreeModel Cell) := do
  let Z ← readRows (t.modelDir++"/Z") "\t"
  let W ← readRows (t.modelDir++"/W") "\t"
  let V ← readRows (t.modelDir++"/V") "\t"
  let T ← loadBranchWeights t
  let sigma ← readRows (t.modelDir++"/Sigma") "\t"
  let mean ← readRows (t.modelDir++"/Mean") "\t"
  let deviation ← readRows (t.modelDir++"/Std") "\t"
  return ⟨Z,W,V,T,sigma,mean,deviation⟩

def TreeModel.validate (b : TreeModel α) : Except Fault Unit := do
  let (zm,zn) ← size b.Z
  let (wm,wn) ← size b.W
  let (vm,vn) ← size b.V
  let (_,tn) ← if b.T.isEmpty then pure (0,zm) else size b.T
  let (sm,sn) ← size b.sigma
  let (mm,mn) ← size b.mean
  let (dm,dn) ← size b.deviation
  demand (zn == mm && mm == dm)
  demand (zm == wn && wn == vn && vn == tn)
  demand (wm == vm)
  demand (sm == sn && sn == 1)
  demand (mn == dn && dn == 1)

/-- From an order by class to an order by node; rows beyond the last full class stay empty. -/
def byNode (classes nodes : Nat) (m : Rows α) : Rows α :=
  let cell (k : Nat) : List α :=
    if k < classes*nodes then (m[(k % classes)*nodes+k/classes]?).getD [] else []
  (List.range m.length).map cell

def setLast [Entry α] (m : Rows α) (n : Int) : Rows α := m.dropLast++[[Entry.whole n]]

def divideColumns [Entry α] (m deviation : Rows α) : Except Fault (Rows α) :=
  m.mapM fun row => (row.zip deviation).mapM fun (x,v) =>
    match v with
    | d::_ => Entry.quotient x d
    | [] => .error .outOfRange

def TreeModel.prepare [Zero α] [Add α] [Mul α] [Entry α] (b : TreeModel α) :
    Except Fault (PreparedTree α) := do
  let mean := setLast b.mean 0
  let deviation := setLast b.deviation 1
  let sigma ← entry b.sigma 0 0
  let projected := b.Z.length
  let (_,inputs) ← size b.Z
  let internalNodes := b.T.length
  let depth := (internalNodes+1).log2
  let totalNodes := Number.twoPow (depth+1)-1
  let classes := b.W.length/totalNodes
  let V := b.V.map fun row => row.map (· * sigma)
  let Z ← b.Z.mapM fun row => row.mapM fun x => Entry.quotient x (Entry.whole projected)
  let Z ← divideColumns Z deviation
  let mean ← product Z mean
  let (_,width) ← size mean
  demand (width == 1)
  return ⟨inputs,projected,internalNodes,depth,totalNodes,classes,Z,
    byNode classes totalNodes b.W,byNode classes totalNodes V,b.T,mean.flatten⟩

variable (b : PreparedTree Cell)

/-- A tree without inner nodes gets a row of thresholds that is never used. -/
def PreparedTree.verified : Work (PreparedTree Cell) := do
  if b.T.isEmpty then
    say "Warning: Empty matrix T\n\n"
    return { b with T := [[.real (-0.000001), .real 0.000001]] }
  else return b

def PreparedTree.report (t : Task) : Work Unit :=
  reportSize t b.mean.length b.Z [b.W, b.V, b.T]

def negligible : Float := 0.0000005

def PreparedTree.declarations (b : PreparedTree α) (width : Nat) : List Lang.Declaration :=
  let nodes := [b.totalNodes, b.classes, b.projected]
  [⟨"X",3,[width, 1],3⟩, ⟨"Z",3,[b.projected, b.inputs],2⟩, ⟨"W",3,nodes,1⟩,
    ⟨"V",3,nodes,1⟩, ⟨"T",3,[b.internalNodes, 1, b.projected],1⟩,
    ⟨"mean",1,[b.projected, 1],1⟩]

def numbered (kind : String) (i : Nat) : String := kind++toString i

section Lines

open Lang

def projectLine (sparse : Bool) : Line :=
  ⟨"ZX",1,.additive .minus (.product (if sparse then .sparseTimes else .times) (.name "Z")
    (.name "X")) (.name "mean"),1⟩

def nodeProduct (rows : String) (i : Nat) : Lang.Tree :=
  .product .times (.index (.name rows) (.name (numbered "node" i))) (.name "ZX")

def childNode (i : Nat) : Lang.Tree :=
  let child (place : String) : Lang.Tree :=
    .additive .plus (.product .times (.int "2") (.name (numbered "node" i))) (.int place)
  .cond (.paren (nodeProduct "T" i)) "0" (child "1") (child "2")

def nodeScore (i : Nat) : Lang.Tree :=
  .product .pointwiseTimes (.name (numbered "W" i)) (.name (numbered "V" i++"_tanh"))

/-- The lines of a level, given how its node is found and how its score is added. -/
def levelLines (i : Nat) (node : Line) (score : Lang.Tree) : List Line :=
  [node,
    ⟨numbered "W" i,6,nodeProduct "W" i,1⟩,
    ⟨numbered "V" i,6,nodeProduct "V" i,1⟩,
    ⟨numbered "V" i++"_tanh",1,.apply .tanh (.name (numbered "V" i)),1⟩,
    ⟨numbered "score" i,2,score,1⟩]

def rootLines : List Line := levelLines 0 ⟨numbered "node" 0,3,.int "0",4⟩ (nodeScore 0)

def branchLines (i : Nat) : List Line :=
  levelLines (i+1) ⟨numbered "node" (i+1),3,childNode i,1⟩
    (.additive .plus (.name (numbered "score" i)) (nodeScore (i+1)))

/-- The tree as a program: one root-to-leaf path, adding the score of each node on it. -/
def treeBlocks (sparse : Bool) (depth : Nat) : List Block :=
  { lines := [projectLine sparse] } ::
    { title := some (numbered "depth " 0), lines := rootLines }::(List.range depth).map fun i =>
      { title := some (numbered "depth " (i+1)), lines := branchLines i }

def treeResult (classes depth : Nat) : Lang.Tree :=
  .apply (if classes ≤ 2 then .sgn else .argmax) (.name (numbered "score" depth))

end Lines

def meanRange (low high : Cell) : Cell × Cell :=
  let moved (x place : Float) : Float := if Number.magnitude x < negligible then place else x
  (.real (moved low.toFloat (-0.000001)),.real (moved high.toFloat 0.000001))

def writeDeclarations (path : String) (ds : List Lang.Declaration)
    (ranges : List (Except Fault (Cell × Cell))) : Work Unit := do
  for (d,range) in ds.zip ranges do
    let (low,high) ← settle range
    append path (d.text (boundText low) (boundText high))

def PreparedTree.writeProgram (t : Task) (d : Dataset) (range : Cell × Cell) :
    Work Unit := do
  let path := programPath t
  let (low,high) ← settle (rangeOfList b.mean)
  create path
  let width ← match d.features with
    | row::_ => pure row.length
    | [] => fail .outOfRange
  writeDeclarations path (b.declarations width) [.ok range, rowsRange b.Z, rowsRange b.W,
    rowsRange b.V, rowsRange b.T, .ok (meanRange low high)]
  append path "\n"
  for block in treeBlocks t.sparse b.depth do
    append path block.text
  append path ((treeResult b.classes b.depth).text++"\n")

def PreparedTree.fixed (word : Nat) : Except Fault (PreparedTree Cell) := do
  let (Z,_) ← fitRows word b.Z
  let (W,_) ← fitRows word b.W
  let (V,_) ← fitRows word b.V
  let (T,_) ← fitRows word b.T
  let (mean,_) ← fitRow word b.mean
  return { b with
    Z := intCells Z, W := intCells W, V := intCells V, T := intCells T, mean := mean.map Cell.int }

def bonsaiHeader (t : Task) : String :=
  "#pragma once\n\n#define B_SPARSE_Z "++(if t.sparse then "1" else "0")++"\n\nnamespace " ++
    (if t.arduino then "model" else "bonsai_"++t.version)++" \x7b\n\n"

def PreparedTree.writeFixed (t : Task) (d : Option Dataset) : Work Unit := do
  let path := headerPath t
  append path (bonsaiHeader t)
  writeSample t d
  writeList t.arduino b.mean "mean" path (some (shapeText [b.projected, 1]))
  if t.sparse then
    let s ← settle (sparseColumns b.Z)
    writeList t.arduino s.values "Zval" path none
    writeList t.arduino (indexCells s) "Zidx" path none
  else writeRows t.arduino b.Z "Z" path none
  let nodes := some (shapeText [b.totalNodes, b.classes, b.projected])
  writeRows t.arduino b.W "W" path nodes
  writeRows t.arduino b.V "V" path nodes
  let thresholds := if b.internalNodes = 0 then 1 else b.internalNodes
  writeRows t.arduino b.T "T" path (some (shapeText [thresholds, 1, b.projected]))
  append path "\x7d\n"

def PreparedTree.writeFloat (t : Task) (d : Option Dataset) : Work Unit := do
  let path := headerPath t
  let sparse ← if t.sparse then some <$> settle (sparseColumns b.Z) else pure none
  append path (bonsaiHeader t)
  let count (n : Nat) : Cell := .int n
  writeConstants [("D",count b.inputs), ("d",count b.projected), ("c",count b.classes),
    ("depth",count b.depth), ("totalNodes",count b.totalNodes),
    ("internalNodes",count b.internalNodes), ("tanh_limit",.real 1.0)] path
  writeSample t d
  writeList t.arduino b.mean "mean" path none
  match sparse with
  | some s =>
    writeList t.arduino s.values "Zval" path none
    writeList t.arduino (indexCells s) "Zidx" path none
  | none => writeRows t.arduino b.Z "Z" path none
  writeRows t.arduino b.W "W" path none
  writeRows t.arduino b.V "V" path none
  writeRows t.arduino b.T "T" path none
  append path "\x7d\n"

def withBias [Entry α] (rows : Rows α) : Rows α := rows.map fun row => row++[Entry.whole 1]

def biased (d : Dataset) : Except Fault Dataset := do
  demand (d.features.length == d.labels.length)
  return { d with features := withBias d.features }

def PreparedTree.outputs : Outputs (PreparedTree Cell) :=
  ⟨writeProgram,fixed,report,writeFixed,writeFloat,inputs⟩

def convertTree (t : Task) : Work Unit :=
  PreparedTree.outputs.convert t biased do
    let b ← readTreeModel t
    settle b.validate
    (← settle b.prepare).verified

structure PrototypeModel (α : Type) where
  W : Rows α
  B : Rows α
  Z : Rows α
  gamma : Rows α
  bounds : Option (Rows α)
  deriving Inhabited

/-- A model ready for use. The offset is that of the normalised input; without normalisation it
is a row of ones that is not written. -/
structure PreparedPrototypes (α : Type) where
  inputs : Nat
  projected : Nat
  prototypes : Nat
  classes : Nat
  W : Rows α
  B : Rows α
  Z : Rows α
  gammaSquare : α
  offset : List α
  normalised : Bool
  deriving Inhabited

def readBounds (t : Task) : Work (Option (Rows Cell)) := do
  let path := t.modelDir++"/minMaxParams"
  if ← isFile path then some <$> readRows path "\t" else return none

/-- The width of the kernel as a matrix with one cell; an array has to have no dimension. -/
def gammaRows (g : Grid) : Except Fault (Rows Cell) :=
  match g.shape, g.cells with
  | [], c::_ => .ok [[c]]
  | _, _ => .error .wrongKind

/-- The model of the arrays that training leaves behind; the projection is turned. -/
def PrototypeModel.ofArrays (W B Z gamma : Rows α) (bounds : Option (Rows α)) : PrototypeModel α :=
  let columns := (W.head?.map List.length).getD 0
  ⟨(List.range columns).map fun j => W.filterMap fun row => row[j]?,B,Z,gamma,bounds⟩

def readPrototypes (t : Task) : Work (PrototypeModel Cell) := do
  if ← isFile (t.modelDir++"/W") then
    let W ← readRows (t.modelDir++"/W") "\t"
    let B ← readRows (t.modelDir++"/B") "\t"
    let Z ← readRows (t.modelDir++"/Z") "\t"
    let gamma ← readRows (t.modelDir++"/gamma") "\t"
    return ⟨W,B,Z,gamma,← readBounds t⟩
  else if ← isFile (t.modelDir++"/W.npy") then
    let W ← settle (← readGrid (t.modelDir++"/W.npy")).rows
    let B ← settle (← readGrid (t.modelDir++"/B.npy")).rows
    let Z ← settle (← readGrid (t.modelDir++"/Z.npy")).rows
    let gamma ← settle (gammaRows (← readGrid (t.modelDir++"/gamma.npy")))
    return .ofArrays W B Z gamma (← readBounds t)
  else fail .requirement

def PrototypeModel.validate (p : PrototypeModel α) : Except Fault Unit := do
  let (wm,wn) ← size p.W
  let (bm,bn) ← size p.B
  let (_,zn) ← size p.Z
  let (gm,gn) ← size p.gamma
  demand (wm == bm)
  demand (bn == zn)
  demand (gm == gn && gn == 1)
  match p.bounds with
  | none => return ()
  | some bounds =>
    let (m,n) ← size bounds
    demand (m == 2)
    demand (n == wn)

def divideByRanges [Sub α] [Entry α] (W : Rows α) (low high : List α) : Except Fault (Rows α) :=
  W.mapM fun row => (row.zip (high.zip low)).mapM fun (x,M,m) => Entry.quotient x (M-m)

def PrototypeModel.prepare [Zero α] [Add α] [Sub α] [Mul α] [Entry α] (p : PrototypeModel α) :
    Except Fault (PreparedPrototypes α) := do
  let g ← entry p.gamma 0 0
  let (W,offset) ← match p.bounds with
    | none => pure (p.W,p.W.map fun _ => Entry.whole 1)
    | some bounds => do
      let low := bounds.headD []
      let W ← divideByRanges p.W low ((bounds.drop 1).headD [])
      let offset ← product W (low.map fun c => [c])
      let (_,width) ← size offset
      demand (width == 1)
      pure (W,offset.flatten)
  let (_,inputs) ← size p.W
  let (_,prototypes) ← size p.B
  return ⟨inputs,p.W.length,prototypes,p.Z.length,W,p.B,p.Z,g*g,offset,p.bounds.isSome⟩

variable (p : PreparedPrototypes Cell)

def PreparedPrototypes.report (t : Task) : Work Unit :=
  reportSize t (if p.normalised then p.offset.length else 0) p.W [p.B, p.Z]

def PreparedPrototypes.declarations (p : PreparedPrototypes α) (width : Nat) :
    List Lang.Declaration :=
  [⟨"X",3,[width, 1],3⟩, ⟨"W",2,[p.projected, p.inputs],4⟩,
    ⟨"B",2,[p.prototypes, p.projected, 1],1⟩, ⟨"Z",2,[p.prototypes, p.classes, 1],1⟩] ++
    if p.normalised then [⟨"norm",1,[p.projected, 1],3⟩] else []

section Lines

open Lang

def prototypeTerm : Lang.Tree :=
  .paren (.bind "del" (.additive .minus (.name "WX") (.index (.name "B") (.name "i")))
    (.product .times (.index (.name "Z") (.name "i")) (.apply .exp
      (.product .times (.unary .minus (.name "g2"))
        (.paren (.product .times (.transpose (.name "del")) (.name "del")))))))

def PreparedPrototypes.image (p : PreparedPrototypes α) (sparse : Bool) : Lang.Tree :=
  let product : Lang.Tree :=
    .product (if sparse then .sparseTimes else .times) (.name "W") (.name "X")
  if p.normalised then .additive .minus product (.name "norm") else product

/-- The model as a program: the scores of all prototypes, each times its kernel, added up. -/
def PreparedPrototypes.lines (p : PreparedPrototypes α) (sparse : Bool) : List Line :=
  [⟨"WX",1,p.image sparse,1⟩, ⟨"res",1,.sum "i" "0" (toString p.prototypes) prototypeTerm,1⟩]

end Lines

def PreparedPrototypes.writeProgram (t : Task) (d : Dataset) (range : Cell × Cell) :
    Work Unit := do
  let path := programPath t
  create path
  let width ← match d.features with
    | row::_ => pure row.length
    | [] => fail .outOfRange
  writeDeclarations path (p.declarations width) [.ok range, rowsRange p.W, rowsRange p.B,
    rowsRange p.Z, rangeOfList p.offset]
  append path (Lang.Block.text { lines := [⟨"g2",1,.real (boundText p.gammaSquare),1⟩] })
  for line in p.lines t.sparse do
    append path line.text
  append path ((Lang.Tree.apply .argmax (.name "res")).text++"\n")

def PreparedPrototypes.fixed (word : Nat) : Except Fault (PreparedPrototypes Cell) := do
  let (W,_) ← fitRows word p.W
  let (B,_) ← fitRows word p.B
  let (Z,_) ← fitRows word p.Z
  let (offset,_) ← fitRow word p.offset
  return { p with W := intCells W, B := intCells B, Z := intCells Z, offset := offset.map Cell.int }

def protonnHeader (t : Task) (normalised : Bool) : String :=
  "#pragma once\n\n#define P_SPARSE_W "++(if t.sparse then "1" else "0")++"\n#define P_NORM " ++
    (if normalised then "1" else "0")++"\n\nnamespace " ++
    (if t.arduino then "model" else "protonn_"++t.version)++" \x7b\n\n"

def PreparedPrototypes.writeFixed (t : Task) (d : Option Dataset) : Work Unit := do
  let path := headerPath t
  append path (protonnHeader t p.normalised)
  writeSample t d
  if p.normalised then
    writeList t.arduino p.offset "norm" path (some (shapeText [p.projected, 1]))
  if t.sparse then
    let s ← settle (sparseColumns p.W)
    writeList t.arduino s.values "Wval" path none
    writeList t.arduino (indexCells s) "Widx" path none
  else writeRows t.arduino p.W "W" path none
  let B ← settle (transpose p.B)
  let Z ← settle (transpose p.Z)
  writeRows t.arduino B "B" path (some (shapeText [p.prototypes, p.projected, 1]))
  writeRows t.arduino Z "Z" path (some (shapeText [p.prototypes, p.classes, 1]))
  append path "\x7d\n"

def PreparedPrototypes.writeFloat (t : Task) (d : Option Dataset) : Work Unit := do
  let path := headerPath t
  let sparse ← if t.sparse then some <$> settle (sparseColumns p.W) else pure none
  append path (protonnHeader t p.normalised)
  writeSample t d
  let count (n : Nat) : Cell := .int n
  writeConstants [("D",count p.inputs), ("d",count p.projected), ("p",count p.prototypes),
    ("c",count p.classes), ("g2",p.gammaSquare)] path
  if p.normalised then writeList t.arduino p.offset "norm" path none
  match sparse with
  | some s =>
    writeList t.arduino s.values "Wval" path none
    writeList t.arduino (indexCells s) "Widx" path none
  | none => writeRows t.arduino p.W "W" path none
  writeRows t.arduino p.B "B" path none
  writeRows t.arduino p.Z "Z" path none
  append path "\x7d\n"

def PreparedPrototypes.outputs : Outputs (PreparedPrototypes Cell) :=
  ⟨writeProgram,fixed,report,writeFixed,writeFloat,inputs⟩

def convertPrototypes (t : Task) : Work Unit :=
  let checked (d : Dataset) := do
    demand (d.features.length == d.labels.length)
    return d
  PreparedPrototypes.outputs.convert t checked do
    let p ← readPrototypes t
    settle p.validate
    settle p.prepare

def convert (t : Task) : Work Unit :=
  let known := t.version == "fixed" || t.version == "float"
  if t.algorithm == "bonsai" && known then convertTree t
  else if t.algorithm == "protonn" && known then convertPrototypes t
  else fail .requirement

def convertGiven : Option Task → Work Unit
  | some t => convert t
  | none => fail .missingField

end MicroLearn.Model
