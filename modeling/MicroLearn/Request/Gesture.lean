import MicroLearn.Request.Basic
import MicroLearn.Gesture.Header
import MicroLearn.Gesture.Watch

/-!
# Requests about gesture recordings
-/

set_option autoImplicit false

namespace MicroLearn.Request

open Gesture
open Text (Json)
open Gesture (Entry Column Table)

def amountOf : Json → Number.Cell
  | .int n => .int n
  | .bool b => .int (if b then 1 else 0)
  | j => .real (asFloat j)

def entryOf : Json → Entry
  | .str s => .text s
  | j => .number (amountOf j)

/-- A column: all its entries, runs of them, or a cycle. -/
def columnOf : Json → Column
  | .arr xs => xs.map entryOf
  | j =>
    match field? j "rle" with
    | some runs => (asList runs).flatMap fun r =>
        match asList r with
        | [v, n] => List.replicate (asNat n) (entryOf v)
        | _ => []
    | none =>
      let cycle := (items j "cycle").map entryOf
      (List.range (nat j "n")).filterMap fun i => cycle[i % cycle.length]?

def encEntry : Entry → Json
  | .number (.int n) => .int n
  | .number (.real x) => rounded 12 x
  | .text s => .str s

def runsOf : List Json → List (Json × Nat)
  | [] => []
  | x::xs =>
    match runsOf xs with
    | (y,n)::rest => if x.compact == y.compact then (y,n+1)::rest else (x,1)::(y,n)::rest
    | [] => [(x,1)]

def encRuns (c : Column) : Json :=
  .arr ((runsOf (c.map encEntry)).map fun (v,n) => .arr [v, encNat n])

def tableOf (j : Json) : Table := ⟨(entries j).map fun (k,v) => (k,columnOf v)⟩

def parametersOf (j : Json) : Parameters := {
  width := int? j "windowWidth"
  stride := int? j "windowStride"
  bins := int? j "numHistogramBins"
  around := int? j "pertubations"
  rawColumns := (field? j "rawColumns").map fun c => (asList c).map asStr
  limits := (field? j "minMaxDict").map fun d =>
    (entries d).map fun (k,v) => (k,(entries v).map fun (n,x) => (n,amountOf x)) }

def tableEdit (req : Json) : Answer :=
  let p := parametersOf (field req "params")
  let edit : Edit Unit := match str req "fn" with
    | "collapse" => collapseLabels p
    | "normalize" => normalize p
    | "edges" => addEdges p
    | "bins" => addBins p
    | _ => extract p (flagOr true req "collapse")
  let t := tableOf (field req "cols")
  let (result,after) := edit.start t
  let added := after.columns.filter fun (k,_) => !t.has k
  .record [("columns",.data (.arr (after.names.map .str))),
    ("added",.data (.obj (added.map fun (k,c) => (k,encRuns c))))] (faultOf result)

def cellTensorOf (j : Json) : Tensor Number.Cell :=
  ⟨shapeOf j,((leaves j).map fun x => .real (asFloat x)).toArray⟩

def gestureCall (req : Json) : Answer :=
  match str req "fn" with
  | "edges" =>
    let xs := (items req "values").map asFloat
    if (xs.length : Int) ≠ int req "windowWidth" then .fault .requirement
    else
      let e := edges isHigh isLow xs
      .ofFields [("result",.arr [.int e.high.start, encNat e.high.length, encNat e.low.length,
        .int e.low.start])]
  | "header" =>
    match headerText (str req "gamma") (cellTensorOf (field req "W")) (cellTensorOf (field req "B"))
      (cellTensorOf (field req "Z")) with
    | .ok text => .ofFields [("result",.str text)]
    | .error f => .fault f
  | _ => .fault .missingField

def actionOf : String → Action
  | "advance" => .advance
  | "move" => .move
  | "toggle" => .toggle
  | "label" => .label
  | _ => .quit

def labelFrames (file : String) (bindings : Bindings) :
    List Json → Desk Entry → List Answer
  | [], _ => []
  | keys::rest, d =>
    let d := { d with
      session := { d.session with status := "" }
      pending := d.pending++(asList keys).map asStr
      out := "" }
    let (d,fault) := frame readLabel file bindings d
    let s := d.session
    .record [("state",.text s.mode.text), ("start",.data (.int s.start)),
      ("end",.data (.int s.stop)), ("status",.text s.status), ("out",.text d.out),
      ("pending",.data (.arr (d.pending.map .str))), ("labels",.data (encRuns s.labels)),
      ("saved",.data ((d.saved.map Json.str).getD .null))] fault ::
      labelFrames file bindings rest d

def labelling (req : Json) : Answer :=
  let bindings := ("close_event",Action.close) ::
    (entries (field req "events")).map fun (k,v) => (k,actionOf (asStr v))
  let start := intOr 0 req "start"
  let length := int req "length"
  let session : Session Entry := {
    labels := columnOf (field req "labels")
    length, stride := int req "stride"
    start, stop := start+length
    mode := if strOr "PLAY" req "state" == "PAUSED" then .paused else .play
    status := "" }
  .record [("frames",.list (labelFrames (strOr "walk.csv" req "file") bindings
    (items req "frames") ⟨session,[],"",none⟩))] none

def orderOf : List Json → String × Order
  | .str "new"::name::cls::kw =>
    let kw := entries (kw.headD .null)
    (asStr name,match asStr cls with
      | "line" => .line kw
      | "bars" => .bars kw
      | "points" => .points kw
      | "box" => .box kw
      | _ => .panel ((asList ((kw.lookup "plotters").getD .null)).map asStr))
  | .str "register"::name::key::mark => (asStr name,.bind (asStr key) (mark.headD .null))
  | [.str "key", name, key] | [.str "close", name, key] => (asStr name,.press key)
  | .str method::name::args =>
    (asStr name,match method, args with
      | "refresh",[] => .refresh
      | "showValues",[v] => .showValues v
      | "showText",[v] => .showText v
      | "handle",[] => .handle
      | "unbind",[key] => .unbind (asStr key)
      | "bind",[key, _] => .bindInert (asStr key)
      | "exitOnClose",[v] => .exitOnClose v
      | m,_ =>
        if ["refresh", "showValues", "showText", "handle", "unbind", "bind", "exitOnClose"].contains
          m then .illFormed
        else .unknown)
  | _ => ("",.unknown)

def encTold (t : Told) : Json :=
  shownValue (.arr [.str t.part, .str t.what, t.args, .obj t.keywords])

def plotted (req : Json) : Answer :=
  let steps := (items req "steps").map fun s => orderOf (asList s)
  .record [("steps",.list ((orders steps ⟨[],[],[]⟩).map fun s =>
    let rest : List (String × Answer) :=
      [("log",.data (.arr (s.log.map encTold))),
        ("fired",.data (.arr (s.fired.map fun (m,k) => .arr [m, k])))]
    match s.result with
    | .ok j => .record (("r",.data j)::rest) none
    | .error f => .record rest (some f)))] none

end MicroLearn.Request
