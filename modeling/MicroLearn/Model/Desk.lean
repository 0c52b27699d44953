import MicroLearn.Lower.State
import MicroLearn.Model.Matrix

/-!
# Files, messages and processes

What the tools read and write: text files and arrays of numbers by path, the
messages they print and the processes they start. A step that fails keeps what
was written before.
-/

set_option autoImplicit false

namespace MicroLearn.Model

open Number (Cell)

structure Grid where
  shape : List Nat
  cells : List Cell
  deriving Inhabited

def cutRows {α : Type} (width : Nat) : Nat → List α → Rows α
  | 0, _ => []
  | count+1, xs => xs.take width::cutRows width count (xs.drop width)

def Grid.rows (g : Grid) : Except Fault (Rows Cell) :=
  match g.shape with
  | [m, n] => .ok (cutRows n m g.cells)
  | [0] => .ok []
  | _ => .error .wrongKind

structure ProcessEnd where
  status : Int := 0
  files : List (String × String) := []
  deriving Inhabited

structure Desk where
  files : List (String × String) := []
  arrays : List (String × Grid) := []
  said : String := ""
  ends : List ProcessEnd := []
  started : List (List String) := []
  deriving Inhabited

abbrev Work := ExceptT Fault (StateM Desk)

namespace Work

def fail {α : Type} (f : Fault) : Work α := ExceptT.mk (pure (.error f))

def settle {α : Type} (e : Except Fault α) : Work α := ExceptT.mk (pure e)

def say (text : String) : Work Unit := modify fun d => { d with said := d.said++text }

def create (path : String) : Work Unit :=
  modify fun d => { d with files := Lower.put path "" d.files }

def append (path text : String) : Work Unit :=
  modify fun d =>
    { d with files := Lower.put path ((d.files.lookup path).getD ""++text) d.files }

def write (path text : String) : Work Unit :=
  modify fun d => { d with files := Lower.put path text d.files }

def copy (source target : String) : Work Unit := do
  match (← get).files.lookup source with
  | some text => write target text
  | none => fail .missingFile

def start (home : String) (args : List String) : Work Int := do
  let d ← get
  let e := d.ends.headD {}
  set { d with
    ends := d.ends.drop 1
    started := d.started++[args]
    files := e.files.foldl (fun fs (path,text) => Lower.put (home++path) text fs) d.files }
  return e.status

def succeeds (w : Work Unit) : Work Bool :=
  ExceptT.mk do
    match ← w.run with
    | .ok _ => pure (.ok true)
    | .error _ => pure (.ok false)

def isFile (path : String) : Work Bool := do
  let d ← get
  return (d.files.lookup path).isSome || (d.arrays.lookup path).isSome

def readText (path : String) : Work String := do
  match (← get).files.lookup path with
  | some text => return text
  | none => fail .missingFile

def readGrid (path : String) : Work Grid := do
  match (← get).arrays.lookup path with
  | some g => return g
  | none => fail .missingFile

end Work

open Work

def lineFields (separator line : String) : List String :=
  if separator == " " then Text.words (Text.trim line)
  else Text.fields separator (Text.trim line)

def parseRows {α : Type} (separator : String) (read : String → Except Fault α) (text : String) :
    Except Fault (Rows α) :=
  let rows := (Text.lines text).map (lineFields separator)
  let width := (rows.head?.map List.length).getD 0
  rows.mapM fun row => do
    demand (row.length == width)
    row.mapM read

def readCell (s : String) : Except Fault Cell := do return .real (← Lang.readReal s)

def readRows (path separator : String) : Work (Rows Cell) := do
  settle (parseRows separator readCell (← readText path))

/-- Writes cells one by one, so that those before a refused one are kept. -/
def appendCells (path : String) (format : Number.CellFormat) (after : Nat → String) :
    Nat → List Cell → Work Unit
  | _, [] => return ()
  | k, c::cs => do
    append path ((← settle (format.text c))++after k)
    appendCells path format after (k+1) cs

def firstCell (m : Rows Cell) : Except Fault Cell := entry m 0 0

def writeCsv (m : Rows Cell) (path : String) : Work Unit := do
  let (_,cols) ← settle (size m)
  let format := Number.CellFormat.ofCell (← settle (firstCell m))
  create path
  for row in m do
    appendCells path format (fun k => if k+1 = cols then "" else ", ") 0 (row.take cols)
    if row.length < cols then fail .outOfRange
    append path "\n"

def shapeText (dims : List Int) : String :=
  Text.join "" (dims.map fun n => "["++toString n++"]")

def cellSuffix : Number.CellFormat → String
  | .whole => ", "
  | .fixed => "f, "

def arrayHead (arduino : Bool) (format : Number.CellFormat) (name shape : String) : String :=
  "const "++(if arduino then "PROGMEM " else "")++format.typeName++" "++name++shape ++
    " = \x7b\n"

def writeRows (arduino : Bool) (m : Rows Cell) (name path : String) (shape : Option String) :
    Work Unit := do
  let (rows,cols) ← settle (size m)
  let format := Number.CellFormat.ofCell (← settle (firstCell m))
  append path (arrayHead arduino format name (shape.getD (shapeText [rows, cols])))
  for row in m do
    append path "\t"
    appendCells path format (fun _ => cellSuffix format) 0 row
    append path "\n"
  append path "\x7d;\n\n"

def writeList (arduino : Bool) (xs : List Cell) (name path : String) (shape : Option String) :
    Work Unit := do
  let first ← match xs with
    | c::_ => pure c
    | [] => fail .outOfRange
  let format := Number.CellFormat.ofCell first
  append path (arrayHead arduino format name (shape.getD (shapeText [xs.length])))
  append path "\t"
  appendCells path format (fun _ => cellSuffix format) 0 xs
  append path "\n\x7d;\n\n"

def writeConstants (vars : List (String × Cell)) (path : String) : Work Unit := do
  for (name,c) in vars do
    match c with
    | .int n => append path ("const int "++name++" = "++toString n++";\n")
    | .real x =>
      append path ("const float "++name++" = "++Number.fixedText 6 x++"f;\n")
  append path "\n"

/-- The low 32 bits in hexadecimal, without leading zeros. -/
def lowWord (n : Int) : String :=
  String.ofList (Nat.toDigits 16 (n.emod (Number.twoPow 32)).toNat)

def lookupTable (xs : List Int) : String :=
  Text.join "" (xs.map fun n => lowWord n++"\n")

structure Task where
  algorithm : String
  version : String
  training : Bool
  arduino : Bool
  word : Nat
  sparse : Bool
  dump : Bool
  modelDir : String
  trainPath : String
  testPath : String
  dataDir : String
  outDir : String

structure Dataset where
  features : Rows Cell
  labels : Rows Int
  deriving Inhabited

def extension (path : String) : String :=
  let name := ((path.toList.reverse).takeWhile (· != '/')).reverse
  let body := name.dropWhile (· == '.')
  if body.contains '.' then
    "."++String.ofList ((body.reverse.takeWhile (· != '.')).reverse)
  else ""

def splitLabels (rows : Rows Cell) : Except Fault Dataset := do
  let pairs ← rows.mapM fun row =>
    match row with
    | [] => .error .outOfRange
    | c::rest => do return (rest,[← c.truncate])
  return ⟨pairs.map (·.1),pairs.map (·.2)⟩

variable (t : Task)

def loadDataset (training : Bool) : Work Dataset := do
  let kind := extension t.trainPath
  if kind != extension t.testPath then fail .requirement
  let path := if training then t.trainPath else t.testPath
  let d ← match kind with
    | ".npy" => do settle (splitLabels (← settle (← readGrid path).rows))
    | ".tsv" => do settle (splitLabels (← readRows path "\t"))
    | ".csv" => do
      let features ← readRows (path++"/X.csv") ", "
      let text ← readText (path++"/Y.csv")
      pure ⟨features,← settle (parseRows ", " Lang.readInt text)⟩
    | _ => fail .requirement
  return { d with labels := ← settle (zeroBased d.labels) }

def intCells (m : Rows Int) : Rows Cell := m.map fun row => row.map Cell.int

def Dataset.write (d : Dataset) (t : Task) : Work Unit := do
  writeCsv d.features (t.dataDir++"/X.csv")
  writeCsv (intCells d.labels) (t.dataDir++"/Y.csv")

def boundText (c : Cell) : String := Number.fixedText 6 c.toFloat

def rangeText (r : Cell × Cell) : String := "["++boundText r.1++", "++boundText r.2++"]"

def infoPath : String := t.outDir++"/info.txt"

def programPath : String := t.outDir++"/input.sd"

def headerPath : String :=
  t.outDir++(if t.version == "float" then "/"++t.algorithm++"_float_model.h"
    else "/seedot_fixed_model.h")

/-- Quantizes the features at the scale of the training set without its outliers. The result has
the range from which the scale was taken. -/
def quantize (d : Dataset) : Work (Dataset × (Cell × Cell)) := do
  let train ← if t.training then pure none else do
    let d ← loadDataset t true
    pure (some d.features)
  let q ← settle (quantizeRows t.word train d.features)
  append (infoPath t) ("Range of test dataset: "++rangeText q.own++"\n")
  append (infoPath t) ("Range of training dataset: "++rangeText q.range++"\n")
  append (infoPath t) ("Test dataset scaled by: "++toString q.scale++"\n\n")
  return ({ d with features := intCells q.rows },q.range)

def percentText (part whole : Nat) : String :=
  Number.fixedText 3 (Number.floatOfInt part/Number.floatOfInt whole*100.0)

def withoutOutliers (d : Dataset) : Work Dataset := do
  if !t.training then return d
  let before := d.features.length
  let oldRange ← settle (rowsRange d.features)
  let (features,labels) ← settle (trim d.features (some d.labels))
  let after := features.length
  let newRange ← settle (rowsRange features)
  append (infoPath t) ("Old range of X: "++rangeText oldRange++"\n")
  append (infoPath t) ("Trimmed the dataset from "++toString before++" to " ++
    toString after++" data points; "++percentText (before-after) before++"%\n")
  append (infoPath t) ("New range of X: "++rangeText newRange++"\n")
  return ⟨features,labels.getD []⟩

def sizeReport (values indices : Nat) : String :=
  let kb (bytes : Nat) : String :=
    Number.fixedText 3 (Number.floatOfInt (values*bytes+indices*2 : Nat)/1024.0)
  "nnz values: "++toString values++"\n# indexes: "++toString indices++"\n\n" ++
    "---------------------\nModel size comparison\n---------------------\n" ++
    "32-bit floating-points (in KB): "++kb 4++"\n" ++
    "(assuming 4 bytes for values and 2 bytes for indices)\n\n" ++
    "16-bit fixed-points (in KB): "++kb 2++"\n" ++
    "(assuming 2 bytes for values and 2 bytes for indices)\n\n" ++
    "32-bit fixed-points (in KB): "++kb 4++"\n" ++
    "(assuming 4 bytes for values and 2 bytes for indices)\n" ++
    "--------------------------------------------\n\n"

def cellCount {α : Type} (m : Rows α) : Except Fault Nat := do
  let (rows,cols) ← size m
  return rows*cols

def sparseColumns (m : Rows Cell) : Except Fault (Sparse Cell) := do
  toSparse Cell.isZero (← transpose m)

def reportSize (others : Nat) (m : Rows Cell) (dense : List (Rows Cell)) : Work Unit := do
  let (values,indices) ← if t.sparse then do
      let s ← settle (sparseColumns m)
      pure (s.values.length,s.indices.length)
    else do pure (← settle (cellCount m),0)
  let counts ← dense.mapM fun m => settle (cellCount m)
  append (infoPath t) (sizeReport (others+values+counts.foldl (· + ·) 0) indices)

def indexCells (s : Sparse Cell) : List Cell := s.indices.map fun (k : Nat) => Cell.int k

def writeSample (d : Option Dataset) : Work Unit := do
  if !t.arduino then return ()
  match d with
  | none => fail .missingField
  | some d =>
    let row ← match d.features with
      | row::_ => pure row
      | [] => fail .outOfRange
    writeList t.arduino row "X" (headerPath t) none
    let label ← settle (entry d.labels 0 0)
    writeConstants [("Y",.int label)] (headerPath t)

structure Outputs (μ : Type) where
  program : μ → Task → Dataset → Cell × Cell → Work Unit
  fixed : μ → Nat → Except Fault μ
  report : μ → Task → Work Unit
  writeFixed : μ → Task → Option Dataset → Work Unit
  writeFloat : μ → Task → Option Dataset → Work Unit
  inputs : μ → Nat

def Outputs.convert {μ : Type} (o : Outputs μ) (t : Task) (checked : Dataset → Except Fault Dataset)
    (read : Work μ) : Work Unit := do
  create (headerPath t)
  create (infoPath t)
  let fixed := t.version != "float"
  let data ← if t.dump then do
      let d ← settle (checked (← loadDataset t t.training))
      let (d,range) ← if fixed then quantize t d
        else do pure (← withoutOutliers t d,(.int 0,.int 0))
      d.write t
      pure (some (d,range))
    else pure none
  let model ← read
  let model ← if fixed then do
      match data with
      | some (d,range) => o.program model t d range
      | none => pure ()
      settle (o.fixed model t.word)
    else pure model
  o.report model t
  (if fixed then o.writeFixed else o.writeFloat) model t (data.map (·.1))
  match data with
  | some (d,_) =>
    let width ← match d.features with
      | row::_ => pure row.length
      | [] => fail .outOfRange
    settle (demand (width == o.inputs model))
  | none => pure ()

end MicroLearn.Model
