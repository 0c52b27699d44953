import MicroLearn.Bench.Script
import MicroLearn.Request.Basic

/-!
# Requests for the bench

The steps of a script as they come in a request, and their answers.
-/

set_option autoImplicit false

namespace MicroLearn.Request

open Text (Json)
open Bench

def seeded (seed : Nat) : Nat → List Float
  | 0 => []
  | n+1 =>
    let next := (seed*1103515245+12345) % 2147483648
    (Nat.toFloat (next/65536 % 25)-12.0)/8.0::seeded next n

def matrixOf (j : Json) : Tensor Float :=
  match field? j "m", field? j "onehot" with
  | some (.arr (seed::dims)), _ =>
    let shape := dims.map asNat
    ⟨shape,(seeded (asNat seed) (shapeSize shape)).toArray⟩
  | _, some (.arr [n, c]) =>
    let n := asNat n
    let c := asNat c
    ⟨[n, c],((List.range n).flatMap fun i => (List.range c).map fun k =>
      if i % c = k then (1.0 : Float) else 0.0).toArray⟩
  | _, _ => ⟨shapeOf j,((leaves j).map fun x =>
      match x with
      | .bool b => if b then 1.0 else 0.0
      | x => asFloat x).toArray⟩

def elementOf (dtype : Option String) : Element :=
  match dtype with
  | some d =>
    if d.startsWith "int" || d.startsWith "uint" then .int
    else if d == "bool" then .truth else .real
  | none => .real

def gridOfJson (j body : Json) : Grid :=
  let e := elementOf (textOr? j "dtype")
  let t := matrixOf body
  ⟨e,if e == .int then t.map fun x => Number.floatOfInt (wholeOf x) else t⟩

def scratch (folder : String) : String := "<tmp>/"++folder

def benchValue : Nat → Json → Bench Value
  | 0, _ => fail .wrongKind
  | _+1, .null => pure .none
  | _+1, .bool b => pure (.truth b)
  | _+1, .int n => pure (.int n)
  | _+1, .float x => pure (.real x)
  | _+1, .str s => pure (.text s)
  | fuel+1, .arr items => do return .list (← items.mapM (benchValue fuel))
  | fuel+1, .obj es => do
    let j := Json.obj es
    let get := fun (k : String) => es.lookup k
    match get "t", get "a", get "ref", get "dir", get "tuple" with
    | some m, _, _, _, _ => tensor (gridOfJson j m)
    | _, some m, _, _, _ => pure (.grid (gridOfJson j m))
    | _, _, some path, _, _ => Bench.follow (segments (asStr path))
    | _, _, _, some d, _ => do
      let home := scratch (asStr d)
      makeFolder home
      return .text (match get "name" with
        | some n => home++"/"++asStr n
        | none => home)
    | _, _, _, _, some (.arr items) => do return .tuple (← items.mapM (benchValue fuel))
    | _, _, _, _, _ =>
      match get "var", get "data", get "const", get "stdout" with
      | some m, _, _, _ => holdVariable (gridOfJson j m) (asStr ((get "name").getD .null))
      | _, some m, _, _ => pure (.grid (gridOfJson j m))
      | _, _, some v, _ => do return .constant (← benchValue fuel v)
      | _, _, _, some _ => pure .screen
      | _, _, _, _ => do return .record (← es.mapM fun (k,v) => do return (k,← benchValue fuel v))

def toValue (j : Json) : Bench Value := benchValue (depth j+1) j

def argumentsOf (step : Json) : Bench Arguments := do
  let places ← (items step "args").mapM toValue
  let named ← (entries (field step "kw")).mapM fun (k,v) => do return (k,← toValue v)
  return ⟨places,named⟩

def keepAs (step : Json) (v : Value) : Bench Unit :=
  match textOr? step "as" with
  | some name => modify fun s => { s with names := Json.put name v s.names }
  | none => pure ()

def nameIt (name : String) (v : Value) : Bench Unit :=
  modify fun s => { s with names := Json.put name v s.names }

/-- The entries of a script, with those that stand for several copies written out. -/
def scriptOf (entries : List Json) : Bench (List Value) := do
  let written := entries.flatMap fun j =>
    match field? j "times", field? j "of" with
    | some n, some (.arr items) => (List.replicate (asNat n) items).flatten
    | _, _ => [j]
  written.mapM toValue

/-- The tensors of a saved graph: the names of a prefix are numbered. -/
def graphTensors (j : Json) : Bench (List (String × Value)) :=
  (entries j).flatMapM fun (scope,names) =>
    (((asStr names).splitOn " ").filter (· != "")).zipIdx.mapM fun (name,i) => do
      let full := scope++name++":0"
      let x := Nat.toFloat i
      return (full,← hold (.real ⟨[2],#[x, x/2.0]⟩) full)

/-- A value of a collection is a tensor of numbers. -/
def collected (j : Json) : Bench Value :=
  match (leaves j).findSome? fun | .str s => some s | _ => none with
  | some text => fail (.notReal text)
  | none => Bench.tensorOf (matrixOf j)

def runStep (step : Json) : Bench Json := do
  let has := fun (k : String) => (field? step k).isSome
  let show' := fun (v : Value) => do
    keepAs step v
    return shown (← get) v
  if has "new" then
    let a ← argumentsOf step
    match makers.lookup (str step "cls") with
    | some make => do
      nameIt (str step "new") (.part (← make a))
      return .null
    | none => fail .missingField
  else if has "raw" then
    let fields ← (entries (field step "attrs")).mapM fun (k,v) => do return (k,← toValue v)
    match kinds.lookup (str step "cls") with
    | some kind => do
      nameIt (str step "raw") (.part (← build kind fields))
      return .null
    | none => fail .missingField
  else if has "call" then
    let path := segments (str step "call")
    let a ← argumentsOf step
    let target ← Bench.follow path.dropLast
    show' (← call (← partOf target) ((path.getLast?).getD "") a)
  else if has "fn" then show' (← callFunction (str step "fn") (← argumentsOf step))
  else if has "get" then show' (← Bench.follow (segments (str step "get")))
  else if has "set" then do
    assign (segments (str step "set")) (← toValue (field step "to"))
    return .null
  else if has "files" then do
    match ← toValue (field step "files") with
    | .text folder => filesBelow (if folder.startsWith "<tmp>" then folder else scratch folder)
    | _ => fail .wrongKind
  else if has "touch" then do
    match textOr? step "touch" with
    | some path => do
      makeFolder (parentOf (scratch path))
      writeFile (scratch path) (.text "")
      return .null
    | none => fail .wrongKind
  else if has "vars" then do
    let vars ← (entries (field step "vars")).mapM fun (k,m) => do
      return (k,← hold (.real (matrixOf m)) k)
    modify fun s => { s with shared := vars }
    return .null
  else if has "session" then do
    let script ← scriptOf (items step "script")
    let owners := (items step "owners").map fun p => segments (asStr p)
    let p ← newSession script owners
    nameIt (str step "session") (.part p)
    if flag step "queue" then modify fun s => { s with queue := s.queue++[p] }
    return .null
  else if has "graph" then do
    let tensors ← graphTensors (field step "tensors")
    let operations ← (items step "operations").mapM toValue
    let collections ← (entries (field step "collections")).mapM fun (k,v) => do
      return (k,.list (← (asList v).mapM collected))
    nameIt (str step "graph") (.part (← newGraph tensors operations collections))
    return .null
  else if has "metric" then do
    let v ← toValue (field step "values")
    modify fun s => { s with scores := Json.put (str step "metric") v s.scores }
    return .null
  else fail .missingField

def runSteps (s : Store) : List Json → List Answer
  | [] => []
  | step::rest =>
    let (outcome,s') := (runStep step).run { s with said := "" }
    let answer := match outcome with
      | .ok j =>
        let out := if flag step "out" then [("out",Answer.text s'.said)] else []
        Answer.record (("r",Answer.data j)::out) none
      | .error f => .record [] (some f)
    answer::runSteps s' rest

def benchScript (req : Json) : Answer :=
  .record [("steps",.list (runSteps { folders := ["tmp"] } (items req "steps")))] none

end MicroLearn.Request
