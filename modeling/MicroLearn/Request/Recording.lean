import MicroLearn.Request.Gesture

/-!
# Requests about archives, sessions and devices
-/

set_option autoImplicit false

namespace MicroLearn.Request

open Text (Json)
open Gesture (Archive Recorder Incoming Keep Table)

variable (req : Json)

def foldersOf : List String :=
  Gesture.closeFolders (texts req "dirs")

def tablesOf : List (String × Table) :=
  (entries (field req "tables")).map fun (path,cols) => (Text.Path.tidy path,tableOf cols)

def namesIn : Json → Except Fault (List String)
  | .arr xs => xs.mapM fun
    | .str s => .ok s
    | _ => .error .wrongKind
  | .str s => .ok (s.toList.map fun c => String.ofList [c])
  | _ => .error .wrongKind

def archiveStep (fn : String) (args : List Json) : Keep Unit := do
  match fn, args with
  | "processLabelled", [files] => Gesture.processLabelled (← Keep.lift (namesIn files))
  | "processNoise", [files] => Gesture.processNoise (← Keep.lift (namesIn files))
  | "labelAsNoise", [source, target, files] =>
    Gesture.labelAsNoise (asStr source) (asStr target) (← Keep.lift (namesIn files))
  | _, _ => throw .wrongKind

def encSaved (shown : List String) (a : Archive) : Json :=
  .obj (a.written.filterMap fun path => (a.tables.lookup path).map fun t =>
    (path,.obj [("columns",.arr (t.names.map .str)),
      ("show",.obj (shown.filterMap fun c => (t.columns.lookup c).map fun v => (c,encRuns v)))]))

def archived : Answer :=
  let start : Archive := ⟨foldersOf req,tablesOf req,[],"",[]⟩
  let (result,a) := (archiveStep (str req "fn") (items req "args")).start start
  .record [("stdout",.text a.out),
    ("threads",.list (a.broken.map Answer.fault)),
    ("dirs",.data (.arr ((a.folders.mergeSort fun x y => !decide (y < x)).map .str))),
    ("saved",.data (encSaved (texts req "show") a))] (faultOf result)

def encScene : Gesture.Scene → Json
  | .told t => encTold t
  | .curve axes values => .arr [.str axes, .str "set_ydata", encRuns values]
  | .draw => .str "draw"
  | .pause => .str "pause"

def pressed (j : Json) : List String :=
  (asList j).map fun k => if asStr k == "close" then "close_event" else asStr k

def watched : Answer :=
  let file := str req "file"
  let seen : Gesture.Watched :=
    match (tablesOf req).lookup (Text.Path.tidy ("data/raw_data/"++file)) with
    | none => ⟨[],"",none,some .missingFile⟩
    | some t => Gesture.watch file (foldersOf req) ((items req "frames").map pressed)
        (intOr 400 req "length") (intOr 20 req "stride") t
  .record [("stdout",.text seen.out), ("log",.data (.arr (seen.log.map encScene))),
    ("saved",.data (.obj (seen.saved.toList.map fun (path,labels) => (path,encRuns labels))))]
      seen.fault

def incomingOf : Json → Incoming
  | .str s => ⟨s,none,none⟩
  | j => ⟨str j "line",textOr? j "toggle",(field? j "exit").map asBool⟩

def recorded : Answer :=
  let start : Recorder := {
    toggle := strOr "OFF" req "toggle"
    leave := false
    incoming := (items req "port").map incomingOf
    typed := (items req "typed").map fun t =>
      if asStr t == "interrupt" then none else some (asStr t)
    folders := foldersOf req
    device := none, closed := false, file := none, out := "" }
  let (result,r) : Except Fault Unit × Recorder := match str req "fn" with
    | "follow" => (.ok (),Gesture.followTyped start.typed start)
    | _ => (Gesture.record "prog" (texts req "argv")).start start
  let opened := r.device.toList.map fun p =>
    Json.obj [("port",.str p), ("baudrate",.int 115200), ("timeout",.int 1)]
  .record [("stdout",.text r.out),
    ("port",.data (.arr (opened++if r.closed then [.str "close"] else []))),
    ("toggle",.text r.toggle), ("exit",.data (.bool r.leave)),
    ("typed",.data (.arr (r.typed.map fun t => .str (t.getD "interrupt")))),
    ("files",.data (.obj (r.file.toList.map fun (path,text) => (path,.str text))))] (faultOf result)

/-- A matrix of integers, or of floats as soon as one of its entries is not whole; a plain list is
one row. -/
def entryMatrix (j : Json) : Tensor Number.Cell :=
  let values := leaves j
  let whole := values.all fun
    | .float x => x.floor == x
    | _ => true
  let cell (v : Json) : Number.Cell := if whole then .int (asInt v) else .real (asFloat v)
  let shape := match shapeOf j with
    | [n] => [1, n]
    | s => s
  ⟨shape,(values.map cell).toArray⟩

def exported : Answer :=
  let e := Gesture.exportHeader (texts req "argv").head? (entryMatrix (field req "W"))
    (entryMatrix (field req "B")) (entryMatrix (field req "Z"))
  let asked := ("asked",
    Answer.data (.arr (e.asked.map fun path => .arr [.str path, .str "\t", .null])))
  match e.result with
  | .ok text => .record [asked, ("dataH",.text text)] none
  | .error f => .record [asked] (some f)

end MicroLearn.Request
