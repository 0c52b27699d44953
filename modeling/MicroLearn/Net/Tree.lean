import MicroLearn.Fixed.Word
import MicroLearn.Net.Cell
import MicroLearn.Tensor.Basic

/-!
# Prototypes, shallow trees and losses

Forward passes of the two small models, and the losses of a batch.
-/

set_option autoImplicit false

namespace MicroLearn.Net

variable {α : Type}

structure Prototypes (α : Type) where
  projection : Mat α
  places : Mat α
  labels : Mat α
  gamma : α

namespace Prototypes

variable [Zero α] [One α] [Add α] [Sub α] [Neg α] [Mul α]

def distances (p : Prototypes α) (x : Vec α) : Vec α :=
  let z := rowTimes x p.projection
  (swapAxes p.places).map fun b => total ((minus b z).map fun d => d*d)

def score (p : Prototypes α) (exp : α → α) (x : Vec α) : Vec α :=
  let weights := (p.distances x).map fun d => exp (-1*p.gamma*p.gamma*d)
  p.labels.map fun row => total (times row weights)

end Prototypes

structure Tree (α : Type) where
  classes : Nat
  nodes : Nat
  projection : Mat α
  width : α
  scores : Mat α
  gains : Mat α
  routes : Mat α
  sigma : α

namespace Tree

variable [Zero α] [One α] [Add α] [Sub α] [Neg α] [Mul α] [Div α]

def project (t : Tree α) (x : Vec α) : Vec α := (applyMat t.projection x).map (· / t.width)

def rowsAt (t : Tree α) (m : Mat α) (i : Nat) : Mat α := (m.drop (i*t.classes)).take t.classes

def nodeScore (t : Tree α) (curve : α → α) (z : Vec α) (i : Nat) : Vec α :=
  times (applyMat (t.rowsAt t.scores i) z)
    ((applyMat (t.rowsAt t.gains i) z).map fun y => curve (t.sigma*y))

/-- The share of a projected input that reaches a node; `route` bends the product with a row. The
left child of a node has an odd place. -/
def share (t : Tree α) (route : α → α) (z : Vec α) : Nat → α
  | 0 => 1
  | i+1 =>
    let turn := route (Model.dot ((t.routes[i/2]?).getD []) z)
    let part := if i % 2 = 0 then (1+turn)/(1+1) else (1-turn)/(1+1)
    t.share route z (i/2)*part
  termination_by i => i
  decreasing_by omega

def score (t : Tree α) (curve route : α → α) (z : Vec α) : Vec α :=
  (List.range (t.nodes-1)).foldl
    (fun sum i => plus sum (scale (t.share route z (i+1)) (t.nodeScore curve z (i+1))))
    (t.nodeScore curve z 0)

end Tree

section

variable [Zero α] [One α] [Add α] [Sub α] [LT α] [DecidableLT α]

def positivePart (x : α) : α := if x < 0 then 0 else x

def topTwo? : List α → Option (α × α)
  | a::b::rest =>
    some (rest.foldl (fun (p : α × α) x =>
      if p.1 < x then (x,p.1) else if p.2 < x then (p.1,x) else p)
      (if a < b then (b,a) else (a,b)))
  | _ => none

def bestOther? (scores : List α) (label : Nat) : Option α :=
  (topTwo? scores).map fun (first,second) => if Fixed.argmax scores = label then second else first

def hinge? (scores : List α) (label : Nat) (right : α) : Option α :=
  (bestOther? scores label).map fun wrong => positivePart (1+wrong-right)

/-- The hinges of a batch. The score of a sample's class is found in the scores of all samples one
after another; `classes` are the classes that the labels tell apart. -/
def hinges (classes : Nat) (scores : Mat α) (labels : List Nat) : Option (List α) :=
  let flat := scores.flatten
  (scores.zip labels.zipIdx).mapM fun (row,label,i) => do
    let right ← flat[i*classes+label]?
    hinge? row label right

end

section

variable [Zero α] [Add α] [Div α]

def mean (number : Nat → α) (xs : List α) : α := total xs/number xs.length

def meanSquare [Mul α] (number : Nat → α) (xs : List α) : α := mean number (xs.map fun x => x*x)

end

section

variable [Zero α] [One α] [Add α] [Sub α] [Div α] [LT α] [DecidableLT α] (number : Nat → α)

/-- The mean hinge of the best wrong class. A row of labels has its greatest entry at the right
one. -/
def hingeLoss? (scores labels : Mat α) : Option α :=
  (hinges ((labels.head?.map List.length).getD 0) scores (labels.map Fixed.argmax)).map
    (mean number)

def toldHingeLoss [Inhabited α] (whole : α → Nat) (count : Nat) (scores labels : Mat α) :
    Except Fault α := do
  let classes := (labels.head?.map List.length).getD 0
  let best := labels.map Fixed.argmax
  let flat := scores.flatten
  let base : Tensor α := .vector ((List.range count).map fun i => number (i*classes))
  let places ← base.zip (· + ·) (Tensor.vector (best.map number))
  let right ← places.data.toList.mapM fun x => (flat[whole x]?).elim (.error .outOfRange) .ok
  let wrong ← (scores.zip best).mapM fun (row,label) =>
    (bestOther? row label).elim (.error .outOfRange) .ok
  let margins ← (Tensor.vector wrong).zip (fun w r => positivePart (1+w-r)) (.vector right)
  return mean number margins.data.toList

end

def squaredNorm [Zero α] [Add α] [Mul α] (xs : List α) : α := total (xs.map fun x => x*x)

end MicroLearn.Net
