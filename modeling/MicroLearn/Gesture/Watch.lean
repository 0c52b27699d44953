import MicroLearn.Gesture.Archive
import MicroLearn.Text.Json

/-!
# A labelling session on the screen

Eight axes show a window of a recording. Frame by frame the keys that came are
acted on, four of the curves and the status are drawn anew, and more keys may come.
-/

set_option autoImplicit false

namespace MicroLearn.Gesture

open Text (Json)

abbrev Keywords := List (String × Json)

structure Told where
  part : String
  what : String
  args : Json
  keywords : Keywords

structure Plotter where
  axes : String
  bars : Bool
  length : Json
  values : Json

structure TextBox where
  text : Json

inductive Binding where
  | note (mark : Json)
  | close
  | inert

structure Panel where
  plotters : List String
  waiting : List Json
  bindings : List (String × Binding)
  exitOnClose : Bool

inductive Widget where
  | plotter (p : Plotter)
  | box (b : TextBox)
  | panel (p : Panel)

structure Screen where
  widgets : List (String × Widget)
  log : List Told
  fired : List (Json × Json)

abbrev Show := ExceptT Fault (StateM Screen)

def tell (part what : String) (args : Json) (keywords : Keywords) : Show Unit :=
  modify fun s => { s with log := s.log++[⟨part,what,args,keywords⟩] }

variable (name : String)

def putWidget (w : Widget) : Show Unit :=
  modify fun s => { s with widgets := Json.put name w s.widgets }

def sizeOf? : Json → Option Nat
  | .arr xs => some xs.length
  | .str s => some s.length
  | .obj es => some es.length
  | _ => none

def checkLength (length values : Json) : Show Unit :=
  match sizeOf? values with
  | none => throw .wrongKind
  | some n =>
    let same : Bool := match length with
      | .int k => decide (k = n)
      | .float x => x == Number.floatOfInt n
      | _ => false
    if same then pure () else throw .requirement

def given (k : String) (kw : Keywords) : Option Json :=
  match kw.lookup k with
  | some .null | none => none
  | some j => some j

def without (names : List String) (kw : Keywords) : Keywords :=
  kw.filter fun (k,_) => !names.contains k

def axesOf (kw : Keywords) : Show String :=
  match given "ax" kw, given "subplotIndex" kw with
  | none, none => throw (.value "Expected either ax or subplotIndex")
  | some (.arr _), _ | some (.obj _), _ | _, some (.arr _) | _, some (.obj _) => throw .wrongKind
  | some _, _ => pure "ax"
  | none, some (.int n) => pure ("ax"++toString n)
  | none, some _ => pure "ax"

/-- Keywords with another one, unless one of several is there. -/
def orElse (names : List String) (name : String) (v : Json) (kw : Keywords) : Keywords :=
  if names.any fun n => (kw.lookup n).isSome then kw else kw++[(name,v)]

inductive Shape where
  | line
  | bars
  | points
  deriving Repr, DecidableEq

def lengthWord : Shape → String
  | .bars => "numBars"
  | _ => "length"

def makePlotter (shape : Shape) (kw : Keywords) : Show Unit := do
  let length ← match kw.lookup (lengthWord shape) with
    | some j => pure j
    | none => throw .wrongKind
  let axes ← axesOf kw
  let ticks : Json ← match given "ticks" kw, length with
    | some j, _ => pure j
    | none, .int n => pure (.arr ((List.range n.toNat).map fun (i : Nat) => .int i))
    | none, _ => pure .null
  match given "ylim" kw, shape with
  | some j, _ => tell axes "set_ylim" (.arr [j]) []
  | none, .points => tell axes "set_ylim" (.arr [.arr [.float (-0.1), .float 1.1]]) []
  | none, _ => pure ()
  let values := (given "initValues" kw).getD (.arr [])
  checkLength length values
  let own := [lengthWord shape, "subplotIndex", "ax", "initValues", "ylim"]
  match shape with
  | .line => tell axes "plot" values (without own kw)
  | .bars => tell axes "bar" (.arr [ticks, values]) (without ("ticks"::own) kw)
  | .points =>
    let kw := orElse ["linestyle", "ls"] "linestyle" (.str "None") (without own kw)
    let kw := orElse ["markersize", "ms"] "markersize" (.float 10.0) kw
    let kw := orElse ["marker"] "marker" (.str "o") kw
    tell axes "plot" values (orElse ["color", "c"] "color" (.str "r") kw)
  putWidget name (.plotter ⟨axes,shape == .bars,length,values⟩)

def makeBox (kw : Keywords) : Show Unit := do
  if !(without ["x", "y", "initText"] kw).isEmpty then throw .wrongKind
  let (x,y) : Json × Json := match given "x" kw with
    | none => (.float 0.01,.float 0.01)
    | some x => (x,(kw.lookup "y").getD .null)
  let text := (given "initText" kw).getD (.str "Status:")
  tell "fig" "text" (.arr [x, y, text]) []
  putWidget name (.box ⟨text⟩)

def makePanel (plotters : List String) : Show Unit := do
  tell "canvas" "mpl_connect" (.arr [.str "key_press_event"]) []
  tell "canvas" "mpl_connect" (.arr [.str "close_event"]) []
  putWidget name (.panel ⟨plotters,[],[("close_event",.close)],true⟩)

def findWidget : Show Widget := do
  match (← get).widgets.lookup name with
  | some w => pure w
  | none => throw (.unknownName name)

def itemsOfValues : Json → List Json
  | .arr xs => xs
  | .str s => s.toList.map fun c => .str (String.ofList [c])
  | _ => []

def redraw : Widget → Show Unit
  | .plotter p =>
    if p.bars then do
      for (v,i) in (itemsOfValues p.values).zipIdx do
        tell ("bar"++toString i) "set_height" (.arr [v]) []
    else tell "line" "set_ydata" (.arr [p.values]) []
  | .box b => tell "text" "set_text" (.arr [b.text]) []
  | .panel _ => throw .missingField

def refresh : Show Unit := do
  match ← findWidget name with
  | .panel p => for q in p.plotters do redraw (← findWidget q)
  | w => redraw w

def keyText : Json → Option String
  | .str s => some s
  | _ => none

def fire (p : Panel) (key : Json) : Binding → Show Unit
  | .note mark => modify fun s => { s with fired := s.fired++[(mark,key)] }
  | .close => if p.exitOnClose then throw .stopped else tell "fig" "close" (.arr []) []
  | .inert => throw .wrongKind

def drainKeys (name : String) (p : Panel) : List Json → Show Unit
  | [] => pure ()
  | key::rest => do
    putWidget name (.panel { p with waiting := rest })
    match (keyText key).bind fun k => p.bindings.lookup k with
    | some b => fire p key b
    | none => pure ()
    drainKeys name p rest

def handleKeys (p : Panel) : Show Unit := do
  drainKeys name p p.waiting
  match p.bindings.lookup "default" with
  | some b => fire { p with waiting := [] } (.str "default") b
  | none => pure ()

def bindKey (p : Panel) (key : String) (b : Binding) : Show Unit :=
  if (p.bindings.lookup key).isSome then throw (.value ("An event already registerd for "++key))
  else putWidget name (.panel { p with bindings := p.bindings++[(key,b)] })

def isTrue : Json → Bool
  | .null => false
  | .bool b => b
  | .int n => n != 0
  | .float x => x != 0.0
  | .str s => !s.isEmpty
  | .arr xs => !xs.isEmpty
  | .obj es => !es.isEmpty

inductive Order where
  | line (kw : Keywords)
  | bars (kw : Keywords)
  | points (kw : Keywords)
  | box (kw : Keywords)
  | panel (plotters : List String)
  | bind (key : String) (mark : Json)
  | press (key : Json)
  | refresh
  | showValues (values : Json)
  | showText (text : Json)
  | handle
  | unbind (key : String)
  | exitOnClose (v : Json)
  | bindInert (key : String)
  /-- something that no widget knows, or that none takes in this form -/
  | unknown
  | illFormed

def obey : Order → Show Json
  | .line kw => do makePlotter name .line kw; return .null
  | .bars kw => do makePlotter name .bars kw; return .null
  | .points kw => do makePlotter name .points kw; return .null
  | .box kw => do makeBox name kw; return .null
  | .panel ps => do makePanel name ps; return .null
  | .refresh => do refresh name; return .null
  | order => do
    match ← findWidget name, order with
    | .plotter p, .showValues v =>
      checkLength p.length v
      putWidget name (.plotter { p with values := v })
      return .null
    | .box _, .showText t => putWidget name (.box ⟨t⟩); return .null
    | .panel p, .bind key mark => bindKey name p key (.note mark); return .null
    | .panel p, .bindInert key => bindKey name p key .inert; return .null
    | .panel p, .press key =>
        putWidget name (.panel { p with waiting := p.waiting++[key] }); return .null
    | .panel p, .unbind key =>
      putWidget name (.panel { p with bindings := p.bindings.filter fun b => b.1 != key })
      return .null
    | .panel p, .exitOnClose v =>
      putWidget name (.panel { p with exitOnClose := isTrue v })
      return .bool (isTrue v)
    | .panel p, .handle => handleKeys name p; return .null
    | _, .illFormed => throw .wrongKind
    | _, _ => throw .missingField

structure Shown where
  result : Except Fault Json
  log : List Told
  fired : List (Json × Json)

def orders : List (String × Order) → Screen → List Shown
  | [], _ => []
  | (name,o)::rest, s =>
    let (r,s) := StateT.run (ExceptT.run (obey name o)) { s with log := [], fired := [] }
    ⟨r,s.log,s.fired⟩::orders rest s

end MicroLearn.Gesture

namespace MicroLearn.Gesture

open Text (Json)

inductive Scene where
  | told (t : Told)
  | curve (axes : String) (values : Column)
  | draw
  | pause

structure Axes where
  place : Nat
  title : String
  column : String
  low : Json
  high : Json
  keywords : Keywords
  live : Bool

def Axes.name (a : Axes) : String := "ax"++toString a.place

def sensorAxes : List Axes := [
  ⟨331,"acc_x","ax",.int (-20000),.int 5000,[],false⟩,
  ⟨332,"acc_y","ay",.int (-20000),.int 5000,[],true⟩,
  ⟨333,"acc_z","az",.int (-20000),.int 5000,[],false⟩,
  ⟨334,"gyr_x","gx",.int (-600),.int 600,[],false⟩,
  ⟨335,"gyr_y","gy",.int (-600),.int 600,[],true⟩,
  ⟨336,"gyr_z","gz",.int (-600),.int 600,[],false⟩,
  ⟨337,"label","mlabel",.float (-0.2),.float 9.2,[("c",.str "r")],true⟩,
  ⟨338,"toggle","toggle",.float (-0.2),.float 9.2,[("c",.str "r")],true⟩]

def sessionKeys : Bindings :=
  [(" ",.toggle), ("close_event",.quit), ("q",.quit), ("default",.advance), ("right",.move),
    ("left",.move)]++["3", "5", "4", "1", "0", "7", "9"].map fun k => (k,.label)

structure Watched where
  log : List Scene
  out : String
  saved : Option (String × Column)
  fault : Option Fault

def windowOf {α : Type} (start stop : Int) (xs : List α) : List α :=
  let a := bound xs.length start
  let b := bound xs.length stop
  (xs.take b).drop a

def Axes.setUp (length : Int) (a : Axes) : List Scene := [
  .told ⟨a.name,"set_ylim",.arr [.arr [a.low, a.high]],[]⟩,
  .told ⟨a.name,"plot",.int length,a.keywords⟩,
  .told ⟨a.name,"set_title",.arr [.str a.title],[]⟩]

def openingScenes (length : Int) : List Scene :=
  sensorAxes.flatMap (Axes.setUp length) ++
    [.told ⟨"fig","text",.arr [.float 0.01, .float 0.01, .str Mode.play.text],[]⟩]

section

variable (file : String) (folders : List String) (t : Table)

def columnNow (labels : Column) (name : String) : Column :=
  if name = "mlabel" then labels else (t.columns.lookup name).getD []

/-- The scenes of one frame: the window is that before its keys, the labels are those behind
them. -/
def frameScenes (before after : Session Entry) : List Scene :=
  (sensorAxes.filter (·.live)).map (fun a =>
    Scene.curve a.name (windowOf before.start before.stop (columnNow t after.labels a.column))) ++
    [.told ⟨"text","set_text",.arr [.str (after.status++before.mode.text)],[]⟩, .draw, .pause]

/-- A session that ends itself saves its labels, if there is a folder for them. -/
def conclude (log : List Scene) (d : Desk Entry) (f : Fault) : Watched :=
  match d.saved with
  | none => ⟨log,d.out,none,some f⟩
  | some path =>
    match makeFolder "data/labelled_data" folders with
    | .ok _ => ⟨log,d.out,some (Text.Path.tidy path,d.session.labels),some f⟩
    | .error g => ⟨log,"",none,some g⟩

/-- Frames with the keys that wait in them; keys of one of them end the session. -/
def frames : List (List String) → Desk Entry → List Scene → Watched
  | [], d, log => ⟨log,d.out,none,none⟩
  | keys::rest, d, log =>
    let before := d.session
    if ((windowOf before.start before.stop before.labels).length : Int) ≠ before.length then
      ⟨log,d.out,none,some .requirement⟩
    else
      match frame readLabel file sessionKeys { d with pending := keys } with
      | (d,some f) => conclude folders log d f
      | (d,none) =>
        frames rest { d with session := { d.session with status := "" } }
          (log++frameScenes t before d.session)

end

/-- A recording as a session starts with it; rows without labels get the label zero. -/
def withLabels (t : Table) : Table := if t.has "mlabel" then t else t.fill "mlabel" (.whole 0)

def Session.opening (length stride : Int) (labels : Column) : Session Entry :=
  { labels, length, stride, start := 0, stop := length, mode := .play, status := "" }

/-- A whole session. In the first frame no key waits; behind the last keys comes `q`. -/
def watch (file : String) (folders : List String) (keys : List (List String)) (length stride : Int)
    (t : Table) : Watched :=
  if length < 0 then
    ⟨(openingScenes length).take 1,"",none,some (.value "negative dimensions are not allowed")⟩
  else
    let t := withLabels t
    match ("mlabel"::sensorAxes.map (·.column)).find? fun c => !t.has c with
    | some missing => ⟨openingScenes length,"",none,some (.unknownName missing)⟩
    | none =>
      let session := Session.opening length stride ((t.columns.lookup "mlabel").getD [])
      frames file folders t ([]::keys++[["q"]]) ⟨session,[],"",none⟩ (openingScenes length)

end MicroLearn.Gesture
