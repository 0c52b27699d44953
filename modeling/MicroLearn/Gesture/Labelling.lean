import MicroLearn.Gesture.Feature

/-!
# Labelling a recording

A window moves over the rows of a recording. Keys stop it and let it go, move it
by hand, label its rows while it stands, and end the session. Without keys the
window moves on by itself once per frame.
-/

set_option autoImplicit false

namespace MicroLearn.Gesture

inductive Mode where
  | play
  | paused
  deriving Repr, DecidableEq, Inhabited

def Mode.text : Mode → String
  | .play => "PLAY"
  | .paused => "PAUSED"

structure Session (α : Type) where
  labels : List α
  length : Int
  stride : Int
  start : Int
  stop : Int
  mode : Mode
  status : String

inductive Action where
  | advance
  | move
  | toggle
  | label
  | quit
  | close
  deriving Repr, DecidableEq, Inhabited

namespace Session

variable {α : Type} (s : Session α)

def rows : Int := s.labels.length

def shift (d : Int) (s : Session α) : Session α := { s with start := s.start+d, stop := s.stop+d }

def toFront : Session α := { s with start := 0, stop := s.length }

def toEnd : Session α := { s with start := s.rows-s.length, stop := s.rows }

def front : Session α := if s.start < 0 then s.toFront else s

def drift : Session α := if s.mode = .paused then s else s.shift s.stride

def push (key : String) (s : Session α) : Session α :=
  if key = "left" then s.shift (-s.stride)
  else if key = "right" then s.shift s.stride
  else s

def advance : Session α :=
  let s := s.drift.front
  if s.rows ≤ s.stop then { s.toEnd with status := s.status++"End of file\n" } else s

def move (key : String) (s : Session α) : Session α :=
  let s := (s.push key).front
  if s.rows < s.stop then s.toEnd else s

def toggle : Session α :=
  { s with mode := if s.mode = .paused then .play else .paused }

def label (read : String → Except Fault α) (key : String) (s : Session α) :
    Except Fault (Session α) :=
  if s.mode = .paused then do
    let x ← read key
    return { s with labels := setRange s.start s.stop x s.labels }
  else .ok { s with status := s.status++"Labelling allowed only when paused.\n" }

end Session

def readLabel (key : String) : Except Fault Entry :=
  match Number.readInt? key with
  | some n => .ok (.whole n)
  | none => .error (.notInteger key)

def withoutEnding (s : String) : String := String.ofList (s.toList.take (s.length-4))

def labelledFile (file : String) : String :=
  "./data/labelled_data/"++withoutEnding file++"_labelled.csv"

def farewell (path : String) : String := "Saving and exiting\nOutputfile: "++path++"\n"

abbrev Bindings := List (String × Action)

structure Desk (α : Type) where
  session : Session α
  pending : List String
  out : String
  saved : Option String

section

variable {α : Type} (read : String → Except Fault α) (file : String)

def perform (a : Action) (key : String) (d : Desk α) : Desk α × Option Fault :=
  match a with
  | .advance => ({ d with session := d.session.advance },none)
  | .move => ({ d with session := d.session.move key },none)
  | .toggle => ({ d with session := d.session.toggle },none)
  | .label =>
    match d.session.label read key with
    | .ok s => ({ d with session := s },none)
    | .error f => (d,some f)
  | .quit =>
    let path := labelledFile file
    ({ d with out := d.out++farewell path, saved := some path },some .stopped)
  | .close => (d,some .stopped)

/-- Takes the waiting keys one by one; keys bound to nothing are dropped. A fault leaves the rest
waiting. -/
def drain (bindings : Bindings) : List String → Desk α → Desk α × Option Fault
  | [], d => ({ d with pending := [] },none)
  | key::rest, d =>
    match bindings.lookup key with
    | none => drain bindings rest d
    | some a =>
      match perform read file a key d with
      | (d,none) => drain bindings rest d
      | (d,some f) => ({ d with pending := rest },some f)

def frame (bindings : Bindings) (d : Desk α) : Desk α × Option Fault :=
  match drain read file bindings d.pending d with
  | (d,some f) => (d,some f)
  | (d,none) =>
    match bindings.lookup "default" with
    | some a => perform read file a "default" d
    | none => (d,none)

end

end MicroLearn.Gesture
