import MicroLearn.Bag.Policy

/-!
# Preparing data for training

A data set is a table whose first column holds labels. Features are shifted by
the mean of the training set and divided by its deviation. Labels become places
among the classes, counted from the least label of the same set.
-/

set_option autoImplicit false

namespace MicroLearn.Learn

class Label (α : Type) where
  real : α → Float
  /-- the label as a byte; labels outside its range wrap -/
  byte : α → Int
  count : α → Except Fault Int

instance : Label Float := ⟨id,Number.lowBits 8,Number.integerPart⟩

instance : Label Int := ⟨Number.floatOfInt,(· % 256),.ok⟩

section Labels

variable {α : Type} [OfNat α 0] [LT α] [DecidableLT α]

def leastLabel (labels : List α) : α := (Model.leastOf labels).toOption.getD 0

def greatestLabel (labels : List α) : α := (Model.greatestOf labels).toOption.getD 0

def labelSpan [OfNat α 1] [Add α] [Sub α] (labels : List α) : α :=
  greatestLabel labels-leastLabel labels+1

def classPlaces [Label α] (labels : List α) : List Int :=
  let bytes := labels.map Label.byte
  let least := leastLabel bytes
  bytes.map (· - least)

end Labels

def oneHotRows (classes : Nat) (places : List Int) : Except Fault (List (List Float)) :=
  places.mapM fun (p : Int) =>
    if 0 ≤ p ∧ p < classes then .ok (Bag.oneHot classes p.toNat) else .error .outOfRange

def columnTotals (width : Nat) (rows : List (List Float)) : List Float :=
  if width = 1 then [Number.sequenceSum (rows.map fun r => r.headD 0.0)]
  else rows.foldl (fun sums r => sums.zipWith (· + ·) r) (List.replicate width 0.0)

def columnMeans (width : Nat) (rows : List (List Float)) : List Float :=
  (columnTotals width rows).map (· / Number.floatOfInt rows.length)

def columnDeviations (width : Nat) (rows : List (List Float)) : List Float :=
  let means := columnMeans width rows
  let squares := rows.map fun r => (r.zipWith (· - ·) means).map fun d => d*d
  (columnMeans width squares).map Float.sqrt

def usable (deviation : Float) : Float := if deviation < 0.000001 then 1.0 else deviation

/-- A row against a row of statistics; a single entry stands for all. -/
def against (f : Float → Float → Float) (row stats : List Float) : List Float :=
  if row.length = stats.length then row.zipWith f stats
  else if stats.length = 1 then row.map fun x => f x (stats.headD 0.0)
  else stats.map fun s => f (row.headD 0.0) s

def canMeet (rowWidth width : Nat) : Bool := rowWidth == width || rowWidth == 1 || width == 1

def normalized (means deviations : List Float) (rows : List (List Float)) : List (List Float) :=
  rows.map fun r => against (· / ·) (against (· - ·) r means) deviations

inductive Targets where
  | oneHot (rows : List (List Float))
  | places (labels : List Int)
  | values (labels : List Float)

structure Preparation where
  bias : Bool
  twoAsPlaces : Bool
  regression : Bool

structure Prepared where
  dimension : Nat
  classes : Int
  train : List (List Float)
  trainTargets : Targets
  test : List (List Float)
  testTargets : Targets
  means : List Float
  deviations : List Float

section Targets

variable {α : Type} [Label α]

def Preparation.targetsAt (p : Preparation) (classes : Int) (places : List Int) :
    Except Fault Targets := do
  let rows ← oneHotRows classes.toNat places
  return if p.twoAsPlaces && classes == 2 then .places places else .oneHot rows

def Preparation.targets [OfNat α 0] [OfNat α 1] [LT α] [DecidableLT α] [Add α] [Sub α]
    (p : Preparation) (train test : List α) : Except Fault (Int × Targets × Targets) := do
  if p.regression then return (1,.values (train.map Label.real),.values (test.map Label.real))
  let classes ← Label.count (Model.greatest (labelSpan train) [labelSpan test])
  return (classes,← p.targetsAt classes (classPlaces train),
    ← p.targetsAt classes (classPlaces test))

def labelledRows (t : Tensor α) : Except Fault (List (List α)) :=
  match t.toRows?, t.shape with
  | some rows, [_, width] => if width = 0 then .error .outOfRange else .ok rows
  | _, _ => .error .outOfRange

def labelsOf [OfNat α 0] (rows : List (List α)) : List α := rows.map (·.headD 0)

def prepare [OfNat α 0] [OfNat α 1] [LT α] [DecidableLT α] [Add α] [Sub α] (p : Preparation)
    (train test : Tensor α) : Except Fault Prepared := do
  let trainRows ← labelledRows train
  let testRows ← labelledRows test
  let dimension := train.shape.getD 1 0-1
  let trainX := trainRows.map fun r => r.tail.map Label.real
  let testX := testRows.map fun r => (r.tail.take dimension).map Label.real
  let means := columnMeans dimension trainX
  let deviations := (columnDeviations dimension trainX).map usable
  let width := min dimension (test.shape.getD 1 0-1)
  if !canMeet width dimension then .error (shapesApart [testRows.length, width] [dimension])
  let (classes,trainTargets,testTargets) ← p.targets (labelsOf trainRows) (labelsOf testRows)
  let extended (rows : List (List Float)) := if p.bias then rows.map (· ++ [1.0]) else rows
  let ended (x : Float) (xs : List Float) := if p.bias then xs++[x] else xs
  return {
    dimension := if p.bias then dimension+1 else dimension
    classes
    train := extended (normalized means deviations trainX)
    trainTargets
    test := extended (normalized means deviations testX)
    testTargets
    means := ended 0.0 means
    deviations := ended 1.0 deviations }

end Targets

/-- Rows with a one at each label less a least one, which is found among the labels if it is not
given. -/
def toOneHot (labels : List Float) (classes : Int) (least : Option Int) :
    Except Fault (List (List Float)) := do
  let bytes := labels.map (Number.lowBits 8)
  let least ← match least with
    | some n => pure n
    | none =>
      if bytes.isEmpty then
        throw (.value "zero-size array to reduction operation minimum which has no identity")
      else pure (leastLabel bytes)
  if least < 0 ∨ 255 < least then throw (.exceedsByte least)
  if classes < 0 then throw (.value "negative dimensions are not allowed")
  oneHotRows classes.toNat (bytes.map fun b => (b-least) % 256)

def labelRows (labels : List Int) (classes : Int) : Except Fault (List (List Float)) := do
  if classes < 0 then throw (.value "negative dimensions are not allowed")
  labels.mapM fun l => do return Bag.oneHot classes.toNat (← place classes.toNat l)

end MicroLearn.Learn
