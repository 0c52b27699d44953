import MicroLearn.Net.Cell
import MicroLearn.Tensor.Basic
import MicroLearn.Text.Json

/-!
# The bench

The store keeps tensors, parts, files and what was shown. Several tensors may
stand on one buffer: writing into it shows in all of them, while giving a tensor
another buffer leaves the others as they are. A part has a kind and named
fields, in the order in which they were first set. Work on the bench may fail
and then leaves what it did so far.
-/

set_option autoImplicit false

namespace MicroLearn.Bench

open Text (Json)

inductive Element where
  | real
  | int
  | truth
  deriving Repr, DecidableEq, Inhabited

structure Grid where
  element : Element
  body : Tensor Float
  deriving Inhabited

namespace Grid

def real (t : Tensor Float) : Grid := ⟨.real,t⟩

def shape (g : Grid) : List Nat := g.body.shape

def rank (g : Grid) : Nat := g.body.rank

def entries (g : Grid) : List Float := g.body.data.toList

def scalar (x : Float) : Grid := ⟨.real,.scalar x⟩

def ofRows (rows : List (List Float)) : Grid := ⟨.real,.ofRows rows⟩

def ofInts (xs : List Nat) : Grid := ⟨.int,.vector (xs.map Nat.toFloat)⟩

def parts (g : Grid) : List Grid := g.body.parts.map fun t => ⟨g.element,t⟩

end Grid

inductive Value where
  | none
  | truth (b : Bool)
  | int (n : Int)
  | real (x : Float)
  | text (s : String)
  | grid (g : Grid)
  | held (place : Nat)
  | part (place : Nat)
  | list (items : List Value)
  | tuple (items : List Value)
  | record (fields : List (String × Value))
  | constant (v : Value)
  | operation (number : Nat)
  | screen
  | file (path : String)
  deriving Inhabited

namespace Value

def ofCell : Number.Cell → Value
  | .int n => .int n
  | .real x => .real x

def isNone : Value → Bool
  | .none => true
  | _ => false

end Value

def leastFigure : Float := 0.000001

def figure (x : Float) : Float :=
  if Number.magnitude x < leastFigure then 0.0
  else (Number.readFloat? (Number.generalText 4 x)).getD 0.0

def figureJson (x : Float) : Json :=
  match Number.Binary.ofFloat x with
  | .undefined => .str "nan"
  | .infinite negative => .str (if negative then "-inf" else "inf")
  | _ => .float (figure x)

def figureText (x : Float) : String :=
  match Number.Binary.ofFloat x with
  | .undefined => "nan"
  | .infinite negative => if negative then "-inf" else "inf"
  | _ => (Number.Binary.ofFloat (figure x)).text

def truthText (b : Bool) : String := if b then "True" else "False"

def cellText : Number.Cell → String
  | .int n => toString n
  | .real x => figureText x

def wholeOf (x : Float) : Int := ((Number.Binary.ofFloat x).truncate).getD 0

def elementJson (e : Element) (x : Float) : Json :=
  match e with
  | .real => figureJson x
  | .int => .int (wholeOf x)
  | .truth => .bool (x != 0.0)

def nest : List Nat → List Json → Json
  | [], xs => xs.headD .null
  | n::rest, xs =>
    let width := shapeSize rest
    .arr ((List.range n).map fun i => nest rest ((xs.drop (i*width)).take width))

def Grid.json (g : Grid) : Json := nest g.shape (g.entries.map (elementJson g.element))

inductive Kind where
  /-- a cell; without a kind it is only the frame of one -/
  | cell (kind : Option Net.CellKind)
  /-- a cell or an unrolled cell of a device that is not there -/
  | deviceCell
  | deviceRun
  | run
  | layer (kind : Net.CellKind)
  | bricks
  | pool
  | tree
  | prototypes
  | linear
  | classifier
  | treeTrainer
  | cellTrainer
  | prototypeTrainer
  | brickTrainer
  | oneClassTrainer
  | limitedTrainer
  | graphCell (kind : Net.CellKind)
  | graphTree
  | graphPrototypes
  | treeLayer
  | prototypeLayer
  | graphTreeTrainer
  | graphCellTrainer
  | graphPrototypeTrainer
  | bagGraph (kind : Option Net.CellKind) (extended : Bool)
  | bagPipeline
  | bagTrainer
  | bagDriver
  | checkpoints
  | saver
  | session
  | graph
  deriving Repr, DecidableEq, Inhabited

structure Part where
  kind : Kind
  fields : List (String × Value)
  deriving Inhabited

structure Handle where
  buffer : Nat
  shape : List Nat
  element : Element
  name : String
  assignable : Bool
  deriving Inhabited

inductive Content where
  | text (s : String)
  | grid (g : Grid)
  | record (fields : List (String × Value))
  deriving Inhabited

structure Store where
  buffers : Array (Array Float) := #[]
  handles : Array Handle := #[]
  parts : Array Part := #[]
  names : List (String × Value) := []
  files : List (String × Content) := []
  folders : List String := []
  pending : List (String × String) := []
  said : String := ""
  random : Nat := 1
  shared : List (String × Value) := []
  operations : Nat := 0
  queue : List Nat := []
  graph : Option Nat := none
  scores : List (String × Value) := []
  scoreCalls : List Value := []
  deriving Inhabited

abbrev Bench := ExceptT Fault (StateM Store)

def fail {α : Type} (f : Fault) : Bench α := ExceptT.mk (pure (.error f))

def settle {α : Type} (e : Except Fault α) : Bench α := ExceptT.mk (pure e)

def require (b : Bool) : Bench Unit := settle (demand b)

def silent (act : Bench Unit) : Bench Value := do
  act
  return .none

def say (text : String) : Bench Unit := modify fun s => { s with said := s.said++text }

def hold (g : Grid) (name : String) : Bench Value := do
  let s ← get
  set { s with
    buffers := s.buffers.push g.body.data
    handles := s.handles.push ⟨s.buffers.size,g.shape,g.element,name,false⟩ }
  return .held s.handles.size

def holdVariable (g : Grid) (name : String) : Bench Value := do
  let s ← get
  set { s with
    buffers := s.buffers.push g.body.data
    handles := s.handles.push ⟨s.buffers.size,g.shape,g.element,name,true⟩ }
  return .held s.handles.size

def tensor (g : Grid) : Bench Value := hold g "t"

def tensorOf (t : Tensor Float) : Bench Value := tensor (.real t)

variable (place : Nat)

def handleAt : Bench Handle := do return ((← get).handles[place]?).getD default

def heldGrid : Bench Grid := do
  let s ← get
  let h := (s.handles[place]?).getD default
  return ⟨h.element,⟨h.shape,(s.buffers[h.buffer]?).getD #[]⟩⟩

def writeInto (data : Array Float) : Bench Unit := do
  let h ← handleAt place
  modify fun s => { s with buffers := s.buffers.setIfInBounds h.buffer data }

def viewOf (shape : List Nat) : Bench Value := do
  let h ← handleAt place
  let s ← get
  set { s with handles := s.handles.push { h with shape := shape, name := "t" } }
  return .held s.handles.size

def replaceBuffer (g : Grid) : Bench Unit := do
  let h ← handleAt place
  modify fun s => { s with
    buffers := s.buffers.push g.body.data
    handles := s.handles.setIfInBounds place
      { h with buffer := s.buffers.size, shape := g.shape, element := g.element } }

def shareBuffer (place source : Nat) : Bench Unit := do
  let h ← handleAt place
  let other ← handleAt source
  modify fun s => { s with
    handles := s.handles.setIfInBounds place
      { h with buffer := other.buffer, shape := other.shape, element := other.element } }

def build (kind : Kind) (fields : List (String × Value)) : Bench Nat := do
  let s ← get
  set { s with parts := s.parts.push ⟨kind,fields⟩ }
  return s.parts.size

def partAt : Bench Part := do return ((← get).parts[place]?).getD default

def fieldOf? (name : String) : Bench (Option Value) := do
  return (← partAt place).fields.lookup name

def fieldOf (place : Nat) (name : String) : Bench Value := do
  match ← fieldOf? place name with
  | some v => pure v
  | none => fail .missingField

def setField (name : String) (v : Value) : Bench Unit := do
  let p ← partAt place
  modify fun s => { s with
    parts := s.parts.setIfInBounds place { p with fields := Text.Json.put name v p.fields } }

def setFields (fields : List (String × Value)) : Bench Unit :=
  fields.forM fun (k,v) => setField place k v

def partOf : Value → Bench Nat
  | .part p => pure p
  | _ => fail .missingField

def realOf : Value → Bench Float
  | .real x => pure x
  | .int n => pure (Number.floatOfInt n)
  | .truth b => pure (if b then 1.0 else 0.0)
  | .grid g => pure (g.entries.headD 0.0)
  | .held p => do return (← heldGrid p).entries.headD 0.0
  | _ => fail .wrongKind

def intOf : Value → Bench Int
  | .int n => pure n
  | .truth b => pure (if b then 1 else 0)
  | _ => fail .wrongKind

def natOf (v : Value) : Bench Nat := do return (← intOf v).toNat

def textOf : Value → Bench String
  | .text s => pure s
  | _ => fail .wrongKind

def cellOf : Value → Bench Number.Cell
  | .int n => pure (.int n)
  | .truth b => pure (.int (if b then 1 else 0))
  | .real x => pure (.real x)
  | v => do return .real (← realOf v)

def itemsOf : Value → Bench (List Value)
  | .list vs | .tuple vs => pure vs
  | .grid g => pure (g.parts.map .grid)
  | .held p => do (← heldGrid p).parts.mapM tensor
  | _ => fail .wrongKind

def holds : Value → Bench Bool
  | .none => pure false
  | .truth b => pure b
  | .int n => pure (n != 0)
  | .real x => pure (x != 0.0)
  | .text s => pure (s != "")
  | .list vs | .tuple vs => pure (!vs.isEmpty)
  | .record fs => pure (!fs.isEmpty)
  | .held p => do return (← heldGrid p).entries.all (· != 0.0)
  | .grid g =>
    match g.entries with
    | [x] => pure (x != 0.0)
    | _ => fail .ambiguousTruth
  | _ => pure true

def isTrue : Value → Bool
  | .truth b => b
  | _ => false

def isFalse : Value → Bool
  | .truth b => !b
  | _ => false

mutual

/-- The numbers in nested lists, with the lengths of the lists along their first items. -/
def gather : Value → Option (Element × List Nat × List Float)
  | .int n => some (.int,[],[Number.floatOfInt n])
  | .real x => some (.real,[],[x])
  | .truth b => some (.truth,[],[if b then 1.0 else 0.0])
  | .grid g => some (g.element,g.shape,g.entries)
  | .list vs | .tuple vs =>
    match gatherAll vs with
    | some [] => some (.real,[0],[])
    | some (p::ps) =>
      some (if ps.all (·.1 == p.1) then p.1 else .real,(ps.length+1)::p.2.1,
        ((p::ps).map (·.2.2)).flatten)
    | none => none
  | _ => none

def gatherAll : List Value → Option (List (Element × List Nat × List Float))
  | [] => some []
  | v::vs =>
    match gather v, gatherAll vs with
    | some x, some xs => some (x::xs)
    | _, _ => none

end

def gridOf (v : Value) : Bench Grid :=
  match v with
  | .held p => heldGrid p
  | .grid g => pure g
  | v =>
    match gather v with
    | some (e,shape,xs) => pure ⟨e,⟨shape,xs.toArray⟩⟩
    | none => fail .wrongKind

def rowsOf (v : Value) : Bench (List (List Float)) := do
  let g ← gridOf v
  match g.body.toRows? with
  | some rows => pure rows
  | none => fail .wrongKind

def natAt (name : String) : Bench Nat := do natOf (← fieldOf place name)
def intAt (name : String) : Bench Int := do intOf (← fieldOf place name)
def realAt (name : String) : Bench Float := do realOf (← fieldOf place name)
def itemsAt (name : String) : Bench (List Value) := do itemsOf (← fieldOf place name)
def gridIn (name : String) : Bench Grid := do gridOf (← fieldOf place name)
def rowsAt (name : String) : Bench (List (List Float)) := do rowsOf (← fieldOf place name)
def partIn (name : String) : Bench Nat := do partOf (← fieldOf place name)

def draw : Bench Nat := do
  let s ← get
  let next := (s.random*1103515245+12345) % 2147483648
  set { s with random := next }
  return next/65536

def draws {α : Type} (n : Nat) (one : Bench α) : Bench (List α) := (List.range n).mapM fun _ => one

def drawCentred : Bench Float := do return (Nat.toFloat ((← draw) % 2001)-1000.0)/500.0

def drawUnit : Bench Float := do return Nat.toFloat (← draw)/32768.0

def drawTensor (scale : Float) (shape : List Nat) : Bench Value := do
  let xs ← draws (shapeSize shape) drawCentred
  tensorOf ⟨shape,(xs.map (scale * ·)).toArray⟩

def drawPlaces (n count : Nat) : Bench (List Nat) := draws count do return (← draw) % n

/-- Swaps each element, from the last to the second, with one that is not behind it. -/
def shuffle {α : Type} (xs : List α) : Bench (List α) := do
  let mut a := xs.toArray
  for k in List.range (xs.length-1) do
    let i := xs.length-1-k
    let j := (← draw) % (i+1)
    a := a.swapIfInBounds i j
  return a.toList

variable (path : String)

def stepsOf : List String :=
  let cut := path.toList.foldr (fun c (steps : List (List Char)) =>
    if c = '/' then []::steps
    else match steps with
      | [] => [[c]]
      | step::rest => (c::step)::rest) [[]]
  cut.map String.ofList

def parentOf : String := "/".intercalate ((stepsOf path).dropLast)

def tidy : String := "/".intercalate ((stepsOf path).filter (· != ""))

def writeFile (c : Content) : Bench Unit := do
  let path := tidy path
  if !(← get).folders.contains (parentOf path) then fail .missingFile
  modify fun s => { s with files := Text.Json.put path c s.files }

def readFile : Bench Content := do
  match (← get).files.lookup (tidy path) with
  | some c => pure c
  | none => fail .missingFile

def makeFolder : Bench Unit :=
  modify fun s =>
    let path := tidy path
    if s.folders.contains path then s else { s with folders := s.folders++[path] }

def openAtEnd : Bench Unit := do
  match (← get).files.lookup (tidy path) with
  | some _ => pure ()
  | none => writeFile path (.text "")

def appendFile (path text : String) : Bench Unit := do
  match ← readFile path with
  | .text old => writeFile path (.text (old++text))
  | _ => fail .wrongKind

def openFresh : Bench Value := do
  writeFile path (.text "")
  modify fun s => { s with pending := Text.Json.put (tidy path) "" s.pending }
  return .file (tidy path)

def emit (out : Value) (text : String) : Bench Unit :=
  match out with
  | .screen => say text
  | .file path => do
    match (← get).pending.lookup path with
    | some old => modify fun s => { s with pending := Text.Json.put path (old++text) s.pending }
    | none => fail (.value "I/O operation on closed file.")
  | _ => fail .missingField

def flush (out : Value) : Bench Unit :=
  match out with
  | .file path => do
    match (← get).pending.lookup path with
    | some old =>
      appendFile path old
      modify fun s => { s with pending := Text.Json.put path "" s.pending }
    | none => fail (.value "I/O operation on closed file.")
  | .screen => pure ()
  | _ => fail .missingField

def close (out : Value) : Bench Unit :=
  match out with
  | .file path => do
    flush out
    modify fun s => { s with pending := s.pending.filter (·.1 != path) }
  | _ => pure ()

structure Param where
  name : String
  fallback : Option Value

/-- A parameter that is only named must be given. -/
instance : Coe String Param := ⟨fun name => ⟨name,none⟩⟩

def given (name : String) (v : Value) : Param := ⟨name,some v⟩

def bindArgs (params : List Param) (args : List Value) (named : List (String × Value)) :
    Except Fault (List Value) := do
  if params.length < args.length then throw .wrongKind
  let rest := params.drop args.length
  if named.any fun (k,_) => !(rest.any (·.name == k)) then throw .wrongKind
  let more ← rest.mapM fun p =>
    match named.lookup p.name, p.fallback with
    | some v, _ => pure v
    | none, some v => pure v
    | none, none => throw .wrongKind
  return args++more

structure Arguments where
  places : List Value
  named : List (String × Value)

def Arguments.bind (a : Arguments) (params : List Param) : Bench (List Value) :=
  settle (bindArgs params a.places a.named)

@[reducible] def Taking (β : Type) : List Param → Type
  | [] => β
  | _::ps => Value → Taking β ps

def spread {β : Type} : (params : List Param) → Taking (Bench β) params → List Value → Bench β
  | [], result, [] => result
  | _::ps, f, v::vs => spread ps (f v) vs
  | _, _, _ => fail .wrongKind

def Arguments.take {β : Type} (a : Arguments) (params : List Param) (f : Taking (Bench β) params) :
    Bench β := do spread params f (← a.bind params)

def Arguments.run (a : Arguments) (params : List Param) (f : Taking (Bench Unit) params) :
    Bench Value :=
  silent (a.take params f)

end MicroLearn.Bench
