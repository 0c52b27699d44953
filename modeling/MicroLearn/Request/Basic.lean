import MicroLearn.Text.Json

/-!
# Requests and answers

Requests come as JSON objects. This module reads their fields and writes values
back, floats to a given number of significant digits.
-/

set_option autoImplicit false

namespace MicroLearn.Request

open Text (Json)

variable (j : Json) (k : String)

def field? : Option Json :=
  match j with
  | .obj es => (es.find? fun e => e.1 == k).map (·.2)
  | _ => none

def field (j : Json) (k : String) : Json := (field? j k).getD .null

def asInt : Json → Int
  | .int n => n
  | .float x => ((Number.Binary.ofFloat x).truncate).getD 0
  | .bool b => if b then 1 else 0
  | _ => 0

def asNat : Nat := (asInt j).toNat

def asFloat : Json → Float
  | .int n => Number.floatOfInt n
  | .float x => x
  | _ => 0

def asSingle : Float32 := (asFloat j).toFloat32

def asStr : Json → String
  | .str s => s
  | _ => ""

def asBool : Json → Bool
  | .bool b => b
  | .int n => n != 0
  | _ => false

def asList : Json → List Json
  | .arr xs => xs
  | _ => []

def entries : Json → List (String × Json)
  | .obj es => es
  | _ => []

def isNull : Json → Bool
  | .null => true
  | _ => false

def items : List Json := asList (field j k)
def texts : List String := (items j k).map asStr
def int : Int := asInt (field j k)
def nat : Nat := asNat (field j k)
def str : String := asStr (field j k)
def ints : List Int := (items j k).map asInt
def single : Float32 := asSingle (field j k)
def singles : List Float32 := (items j k).map asSingle

def flagOr (dflt : Bool) (j : Json) (k : String) : Bool :=
  match field? j k with
  | some v => asBool v
  | none => dflt

def flag : Bool := flagOr false j k

def strOr (dflt : String) (j : Json) (k : String) : String :=
  match field? j k with
  | some (.str s) => s
  | _ => dflt

def natOr (dflt : Nat) (j : Json) (k : String) : Nat :=
  match field? j k with
  | some (.int n) => n.toNat
  | _ => dflt

def intOr (dflt : Int) (j : Json) (k : String) : Int :=
  match field? j k with
  | some (.int n) => n
  | _ => dflt

def textOr? : Option String :=
  match field? j k with
  | some (.str s) => some s
  | _ => none

def int? : Option Int :=
  match field? j k with
  | some (.int n) => some n
  | _ => none

def rounded (n : Nat) (x : Float) : Json :=
  match Number.Binary.ofFloat x with
  | .undefined => .str "nan"
  | .infinite neg => .str (if neg then "-inf" else "inf")
  | .finite _ 0 _ => .float 0.0
  | b => .float ((Number.readFloat? (b.general n)).getD 0.0)

def encInts (xs : List Int) : Json := .arr (xs.map .int)
def encSingle (x : Float32) : Json := rounded 6 x.toFloat
def encSingles (xs : List Float32) : Json := .arr (xs.map encSingle)
def encNat (n : Nat) : Json := .int n

def encCell : Number.Cell → Json
  | .int n => .int n
  | .real x => rounded 12 x

def faultOf {α : Type} : Except Fault α → Option Fault
  | .ok _ => none
  | .error f => some f

mutual

def depth : Json → Nat
  | .arr items => depthOfItems items+1
  | .obj es => depthOfEntries es+1
  | _ => 0

def depthOfItems : List Json → Nat
  | [] => 0
  | j::js => max (depth j) (depthOfItems js)

def depthOfEntries : List (String × Json) → Nat
  | [] => 0
  | (_,j)::es => max (depth j) (depthOfEntries es)

end

mutual

def leaves : Json → List Json
  | .arr items => leavesOfItems items
  | j => [j]

def leavesOfItems : List Json → List Json
  | [] => []
  | j::js => leaves j++leavesOfItems js

end

def shapeOf : Json → List Nat
  | .arr [] => [0]
  | .arr (x::xs) => (xs.length+1)::shapeOf x
  | _ => []

mutual

def shownValue : Json → Json
  | .float x => rounded 12 x
  | .arr items => .arr (shownValues items)
  | .obj es => .obj (shownFields es)
  | .null => .null
  | .bool b => .bool b
  | .int n => .int n
  | .str s => .str s

def shownValues : List Json → List Json
  | [] => []
  | v::vs => shownValue v::shownValues vs

def shownFields : List (String × Json) → List (String × Json)
  | [] => []
  | (k,v)::es => (k,shownValue v)::shownFields es

end

/-- What a request is answered with: data, with a fault in the place of what failed. A record may
have a fault beside its fields. -/
inductive Answer where
  | data (j : Json)
  | fault (f : Fault)
  /-- a fault of which only the kind is told, if it is about a value -/
  | quiet (f : Fault)
  | list (items : List Answer)
  | record (fields : List (String × Answer)) (fault : Option Fault)

namespace Answer

def settle : Except Fault Json → Answer
  | .ok j => .data j
  | .error f => .fault f

def text (s : String) : Answer := .data (.str s)

def ofFields (fields : List (String × Json)) : Answer := .data (.obj fields)

def results (call : Json → Except Fault Json) (calls : Json) : Answer :=
  .record [("results",.list ((asList calls).map fun c => settle (call c)))] none

end Answer

end MicroLearn.Request
