import MicroLearn.Number.Decimal

/-!
# Matrices of model files

Matrices as lists of rows, over any type of numbers: ranges, products,
transposes, the sparse form and the trimming of outliers. A matrix has as many
columns as its first row.
-/

set_option autoImplicit false

namespace MicroLearn.Model

variable {α β : Type}

abbrev Rows (α : Type) := List (List α)

/-- Numbers a model can be made of: the integers are among them, and they can be divided. -/
class Entry (α : Type) where
  whole : Int → α
  quotient : α → α → Except Fault α

instance : Entry Number.Cell := ⟨.int,Number.Cell.quotient⟩

class Quantity (α : Type) where
  abs : α → α
  narrow : α
  scaleFor : Nat → α → Except Fault Int
  atScale : Int → α → Except Fault Int

open Number in
instance : Quantity Cell where
  abs := Cell.abs
  narrow := .real 2.1
  scaleFor word most :=
    let most := most.toFloat
    if most == 0.0 then .error .noLogarithm
    else integerAbove (logTwo most-logTwo (floatOfInt (twoPow (word-2)-1)))
  atScale scale c := do integerPart (← c.scaled (-scale))

def least [LT α] [DecidableLT α] (x : α) (xs : List α) : α :=
  xs.foldl (fun m y => if y < m then y else m) x

def greatest [LT α] [DecidableLT α] (x : α) (xs : List α) : α :=
  xs.foldl (fun m y => if m < y then y else m) x

def leastOf [LT α] [DecidableLT α] : List α → Except Fault α
  | [] => .error .emptyLeast
  | x::xs => .ok (least x xs)

def greatestOf [LT α] [DecidableLT α] : List α → Except Fault α
  | [] => .error .emptyGreatest
  | x::xs => .ok (greatest x xs)

def rangeOfList [LT α] [DecidableLT α] (xs : List α) : Except Fault (α × α) := do
  let low ← leastOf xs
  return (low,← greatestOf xs)

def rowsLeast [LT α] [DecidableLT α] (m : Rows α) : Except Fault α := do
  leastOf (← m.mapM leastOf)

def rowsGreatest [LT α] [DecidableLT α] (m : Rows α) : Except Fault α := do
  greatestOf (← m.mapM greatestOf)

def rowsRange [LT α] [DecidableLT α] (m : Rows α) : Except Fault (α × α) := do
  let low ← rowsLeast m
  return (low,← rowsGreatest m)

def size : Rows α → Except Fault (Nat × Nat)
  | [] => .error .outOfRange
  | row::rows => .ok (rows.length+1,row.length)

def entry (m : Rows α) (i j : Nat) : Except Fault α :=
  match m[i]? with
  | none => .error .outOfRange
  | some row =>
    match row[j]? with
    | none => .error .outOfRange
    | some x => .ok x

def dot [Zero α] [Add α] [Mul α] (a b : List α) : α :=
  (a.zip b).foldl (fun sum (x,y) => sum+x*y) 0

def firstEntries (count : Nat) (row : List α) : Except Fault (List α) :=
  if count ≤ row.length then .ok (row.take count) else .error .outOfRange

def column (m : Rows α) (count j : Nat) : Except Fault (List α) :=
  (List.range count).mapM fun k => entry m k j

def product [Zero α] [Add α] [Mul α] (a b : Rows α) : Except Fault (Rows α) := do
  let (_,an) ← size a
  let (bm,bn) ← size b
  demand (an == bm)
  a.mapM fun row => do
    let row ← if bn = 0 then pure row else firstEntries an row
    (List.range bn).mapM fun j => do return dot row (← column b an j)

def transpose (m : Rows α) : Except Fault (Rows α) := do
  let (rows,cols) ← size m
  (List.range cols).mapM fun j => column m rows j

/-- The nonzero values row by row, and for each row their columns counted from one, ended by a
zero. -/
structure Sparse (α : Type) where
  values : List α
  indices : List Nat

def sparseRow (isZero : α → Bool) (row : List α) : Sparse α :=
  let kept := row.zipIdx.filter fun (x,_) => !isZero x
  ⟨kept.map (·.1),kept.map (fun (_,j) => j+1)++[0]⟩

def Sparse.append (a b : Sparse α) : Sparse α := ⟨a.values++b.values,a.indices++b.indices⟩

def toSparse (isZero : α → Bool) (m : Rows α) : Except Fault (Sparse α) := do
  let (_,cols) ← size m
  let rows ← m.mapM (firstEntries cols)
  return (rows.map (sparseRow isZero)).foldl Sparse.append ⟨[],[]⟩

section Quantities

variable [LT α] [DecidableLT α] [Quantity α]

def magnitudeOf (low high : α) : α := greatest (Quantity.abs low) [Quantity.abs high]

def rowReach (row : List α) : Except Fault α := do
  let (low,high) ← rangeOfList row
  return magnitudeOf low high

def cutPlace (count : Nat) : Nat :=
  if 9*count/10 = 0 then count-1 else 9*count/10-1

/-- The reach from which on rows are outliers: the one nine tenths up the sorted reaches. -/
def cutReach (reaches : List α) : Except Fault α :=
  let sorted := reaches.mergeSort fun a b => !decide (b < a)
  match sorted[cutPlace reaches.length]? with
  | some r => .ok r
  | none => .error .outOfRange

def keepBelow (cut : α) (reaches : List α) (xs : List β) : List β :=
  ((reaches.zip xs).filter fun (r,_) => decide (r < cut)).map (·.2)

def trim [Sub α] (rows : Rows α) (labels : Option (List β)) :
    Except Fault (Rows α × Option (List β)) := do
  let (low,high) ← rowsRange rows
  if Quantity.abs (high-low) < Quantity.narrow then return (rows,labels)
  let reaches ← rows.mapM rowReach
  let cut ← cutReach reaches
  return (keepBelow cut reaches rows,some (keepBelow cut reaches (labels.getD [])))

def scaleForRange (word : Nat) (low high : α) : Except Fault Int :=
  Quantity.scaleFor word (magnitudeOf low high)

def scaleRow (scale : Int) (row : List α) : Except Fault (List Int) :=
  row.mapM (Quantity.atScale scale)

def scaleRows (scale : Int) (m : Rows α) : Except Fault (Rows Int) := m.mapM (scaleRow scale)

def fitRows (word : Nat) (m : Rows α) : Except Fault (Rows Int × Int) := do
  let (low,high) ← rowsRange m
  let scale ← scaleForRange word low high
  return (← scaleRows scale m,scale)

def fitRow (word : Nat) (row : List α) : Except Fault (List Int × Int) := do
  let (low,high) ← rangeOfList row
  let scale ← scaleForRange word low high
  return (← scaleRow scale row,scale)

structure Quantized (α : Type) where
  own : α × α
  range : α × α
  scale : Int
  rows : Rows Int
  deriving DecidableEq

/-- Quantizes rows at the scale of the training rows without their outliers. Where no training rows
are given, the rows are the training rows themselves. -/
def quantizeRows [Sub α] (word : Nat) (train : Option (Rows α)) (rows : Rows α) :
    Except Fault (Quantized α) := do
  let (kept,_) ← trim (train.getD rows) (none : Option (List Unit))
  let own ← rowsRange rows
  let range ← rowsRange kept
  let scale ← scaleForRange word range.1 range.2
  return ⟨own,range,scale,← scaleRows scale rows⟩

end Quantities

def zeroBased (labels : Rows Int) : Except Fault (Rows Int) :=
  let bytes := labels.map fun row => row.map fun n => n.emod 256
  match bytes with
  | [] => .error .emptyLeast
  | [row] => .ok [row.map fun _ => 0]
  | first::rest =>
    if (first::rest).all fun row => row.length == 1 then
      let low := least (first.headD 0) (rest.map fun row => row.headD 0)
      .ok (bytes.map fun row => row.map fun n => n-low)
    else .error .ambiguousTruth

end MicroLearn.Model
