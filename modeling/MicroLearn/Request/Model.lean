import MicroLearn.Request.Basic
import MicroLearn.Model.Tree

/-!
# Requests for models and their matrices
-/

set_option autoImplicit false

namespace MicroLearn.Request

open Model
open Text (Json)

def cellOf : Json → Number.Cell
  | .float x => .real x
  | j => .int (asInt j)

def cellsOf (j : Json) : List Number.Cell := (asList j).map cellOf
def rowsOf (j : Json) : Rows Number.Cell := (asList j).map cellsOf

def encCells (xs : List Number.Cell) : Json := .arr (xs.map encCell)
def encRows (m : Rows Number.Cell) : Json := .arr (m.map encCells)

def gridOf (j : Json) : Grid :=
  match j with
  | .obj _ =>
    let data := field j "data"
    let whole := (str j "dtype").contains "int"
    ⟨shapeOf data,(leaves data).map fun x => if whole then .int (asInt x) else .real (asFloat x)⟩
  | _ => ⟨shapeOf j,(leaves j).map fun x => .real (asFloat x)⟩

def sortedFiles (front : String) (files : List (String × String)) : List (String × String) :=
  let own := files.filterMap fun (path,text) =>
    if path.startsWith front then some ((path.drop front.length).toString,text) else none
  own.mergeSort fun a b => decide (a.1 ≤ b.1)

def encFiles (files : List (String × String)) : Json :=
  .arr (files.map fun (path,text) => .arr [.str path, .str text])

def converted (req : Json) : Answer :=
  let task : Task := {
    algorithm := str req "algo"
    version := str req "version"
    training := str req "dataset" == "training"
    arduino := str req "target" == "arduino"
    word := natOr 16 req "word"
    sparse := flagOr true req "sparse"
    dump := flagOr true req "dump"
    modelDir := "in/model"
    trainPath := "in/"++str req "train"
    testPath := "in/"++str req "test"
    dataDir := "out/input"
    outDir := "out" }
  let desk : Desk := {
    files := (entries (field req "files")).map fun (k,v) => ("in/"++k,asStr v)
    arrays := (entries (field req "npy")).map fun (k,v) => ("in/"++k,gridOf v) }
  let given := if flagOr true req "setInput" then some task else none
  let (result,after) := (convertGiven given).run desk
  .record [("files",.data (encFiles (sortedFiles "out/" after.files))), ("stdout",.text after.said)]
    (faultOf result)

def writtenText (w : Work Unit) (path : String) : Except Fault Json :=
  let (result,after) := w.run {}
  result.map fun _ => .str ((after.files.lookup path).getD "")

def matrixCalls (req : Json) : Answer :=
  let word := natOr 16 req "word"
  let arduino := str req "target" == "arduino"
  let call (c : Json) : Except Fault Json := do
    let args := asList c
    let arg (k : Nat) := args.getD k .null
    let rows (k : Nat) := rowsOf (arg k)
    let shape : Option String :=
      match arg 2 with
      | .str s => some s
      | _ => none
    match asStr (arg 0) with
    | "product" => return encRows (← product (rows 1) (rows 2))
    | "transpose" => return encRows (← transpose (rows 1))
    | "sparse" =>
      let s ← toSparse Number.Cell.isZero (rows 1)
      return .arr [encCells s.values, .arr (s.indices.map encNat)]
    | "least" => return encCell (← rowsLeast (rows 1))
    | "greatest" => return encCell (← rowsGreatest (rows 1))
    | "range" =>
      let r ← rowsRange (rows 1)
      return encCells [r.1, r.2]
    | "rangeOfList" =>
      let r ← rangeOfList (cellsOf (arg 1))
      return encCells [r.1, r.2]
    | "size" =>
      let (m,n) ← size (rows 1)
      return .arr [encNat m, encNat n]
    | "scaleForRange" => return .int (← scaleForRange word (cellOf (arg 1)) (cellOf (arg 2)))
    | "scaleRows" =>
      let (m,scale) ← match arg 2 with
        | .null => fitRows word (rows 1)
        | k => do pure (← scaleRows (asInt k) (rows 1),asInt k)
      return .arr [.arr (m.map encInts), .int scale]
    | "scaleItems" =>
      let (m,scale) ← match arg 2 with
        | .null => fitRow word (cellsOf (arg 1))
        | k => do pure (← scaleRow (asInt k) (cellsOf (arg 1)),asInt k)
      return .arr [encInts m, .int scale]
    | "zeroBased" =>
      let m ← zeroBased ((asList (arg 1)).map fun row => (asList row).map asInt)
      return .arr (m.map encInts)
    | "wordMax" => return .int (Number.wordMax word)
    | "trim" =>
      let labels : Option (List Json) :=
        match arg 2 with
        | .arr ys => some ys
        | _ => none
      let (kept,labels) ← trim (rows 1) labels
      return .arr [encRows kept, match labels with
        | some ys => .arr ys
        | none => .null]
    | "parse" =>
      let text := asStr (arg 1)
      if asStr (arg 3) == "int" then
        return .arr ((← parseRows (asStr (arg 2)) Lang.readInt text).map encInts)
      else return encRows (← parseRows (asStr (arg 2)) readCell text)
    | "lowWord" => return .str ("0x"++lowWord (asInt (arg 1)))
    | "csv" => writtenText (writeCsv (rows 1) "f") "f"
    | "rowArrays" =>
      writtenText (do
        for (k,m) in entries (arg 1) do writeRows arduino (rowsOf m) k "f" shape) "f"
    | "listArrays" =>
      writtenText (do
        for (k,xs) in entries (arg 1) do writeList arduino (cellsOf xs) k "f" shape) "f"
    | "constants" =>
      writtenText (writeConstants ((entries (arg 1)).map fun (k,v) => (k,cellOf v)) "f") "f"
    | "lookupTable" => return .str (lookupTable ((asList (arg 1)).map asInt))
    | "lookupTables" =>
      let tables := (entries (arg 1)).map fun (k,xs) => (k,lookupTable ((asList xs).map asInt))
      return encFiles (sortedFiles "" tables)
    | _ => .error .missingField
  .results call (field req "calls")

end MicroLearn.Request
