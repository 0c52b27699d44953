import MicroLearn.Number.Decimal

/-!
# Features of a recording

A window of fixed width slides over a recording. Each row gets the features of the
window that ends there: how often the values of each column fall into each of
several bins, and the longest edges of one column. Labels are collapsed to the
ends of windows that carry one label only.
-/

set_option autoImplicit false

namespace MicroLearn.Gesture

open Number (Cell)

inductive Entry where
  | number (c : Cell)
  | text (s : String)
  deriving Inhabited

abbrev Column := List Entry

structure Table where
  columns : List (String × Column)
  deriving Inhabited

namespace Entry

def whole (n : Int) : Entry := .number (.int n)

def cell : Entry → Except Fault Cell
  | .number c => .ok c
  | .text _ => .error .wrongKind

def same : Entry → Entry → Bool
  | .number (.int a), .number (.int b) => a == b
  | .number a, .number b => a.toFloat == b.toFloat
  | .text a, .text b => a == b
  | _, _ => false

end Entry

namespace Table

def names (t : Table) : List String := t.columns.map (·.1)

def has (t : Table) (name : String) : Bool := t.names.contains name

def length (t : Table) : Nat := (t.columns.head?.map fun c => c.2.length).getD 0

def column (t : Table) (name : String) : Except Fault Column :=
  match t.columns.lookup name with
  | some c => .ok c
  | none => .error (.unknownName name)

def cells (t : Table) (name : String) : Except Fault (List Cell) := do
  (← t.column name).mapM Entry.cell

def put (name : String) (c : Column) (t : Table) : Table :=
  if t.has name then ⟨t.columns.map fun (k,old) => if k == name then (k,c) else (k,old)⟩
  else ⟨t.columns++[(name,c)]⟩

def fill (name : String) (e : Entry) (t : Table) : Table := t.put name (List.replicate t.length e)

end Table

def bound (n : Nat) (i : Int) : Nat := if i < 0 then (i+n).toNat else min i.toNat n

def setRange {α : Type} (lo hi : Int) (x : α) (xs : List α) : List α :=
  let a := bound xs.length lo
  let b := bound xs.length hi
  if a < b then xs.take a++List.replicate (b-a) x++xs.drop b else xs

def setAt {α : Type} (i : Int) (x : α) (xs : List α) : Except Fault (List α) :=
  if 0 ≤ i ∧ i < xs.length then .ok (xs.set i.toNat x)
  else if i < 0 ∧ 0 ≤ i+xs.length then .ok (xs.set (i+xs.length).toNat x)
  else .error .outOfRange

abbrev Edit := ExceptT Fault (StateM Table)

namespace Edit

def lift {α : Type} : Except Fault α → Edit α
  | .ok x => pure x
  | .error f => throw f

def demand (b : Bool) : Edit Unit := lift (MicroLearn.demand b)

def start {α : Type} (e : Edit α) (t : Table) : Except Fault α × Table :=
  StateT.run (ExceptT.run e) t

end Edit

structure Stretch where
  start : Nat
  length : Nat
  deriving Repr, DecidableEq, Inhabited

/-- Goes through a window; `place` is the place of its next value, `run` the stretch that ends
there. -/
def scan {α : Type} (holds : α → Bool) : List α → (place : Nat) → (run best : Stretch) → Stretch
  | [], _, _, best => best
  | x::xs, place, run, best =>
    if holds x then
      let run : Stretch := if run.length = 0 then ⟨place,1⟩ else ⟨run.start,run.length+1⟩
      scan holds xs (place+1) run (if best.length < run.length then run else best)
    else scan holds xs (place+1) ⟨0,0⟩ best

def longest {α : Type} (holds : α → Bool) (xs : List α) : Stretch := scan holds xs 0 ⟨0,0⟩ ⟨0,0⟩

structure Edge where
  start : Int
  length : Nat
  deriving Repr, DecidableEq, Inhabited

def Stretch.edge (s : Stretch) : Edge := if s.length < 3 then ⟨-1,0⟩ else ⟨s.start,s.length⟩

structure Edges where
  high : Edge
  low : Edge
  deriving Repr, DecidableEq, Inhabited

def edges {α : Type} (high low : α → Bool) (xs : List α) : Edges :=
  ⟨(longest high xs).edge,(longest low xs).edge⟩

def isHigh (x : Float) : Bool := decide (0.62 < x)

def isLow (x : Float) : Bool := decide (x < 0.32)

section

variable {α : Type}

/-- The label of a window all of whose rows seem to carry it: it is not zero and the labels add
up. -/
def pureLabel [Zero α] [Add α] [BEq α] (times : Nat → α → α) (window : List α) : Option α :=
  match window with
  | [] => none
  | base::_ =>
    if base == 0 then none
    else if window.foldl (· + ·) 0 == times window.length base then some base
    else none

/-- Labels around the ends of pure windows. The window that ends with the data is left out. -/
def collapse [Zero α] [Add α] [BEq α] (times : Nat → α → α) (width : Nat) (around : Int)
    (labels : List α) : List α :=
  let n := labels.length
  (List.range (n-width)).foldl (fun out start =>
    match pureLabel times ((labels.drop start).take width) with
    | some base =>
      let stop : Int := (start+width : Nat)
      setRange (max 0 (stop-1-around)) (min (stop+around) n) base out
    | none => out) (List.replicate n 0)

/-- The bin of a value: the first whose upper boundary lies above it, or else the last. -/
def binOf [LT α] [DecidableLT α] (bounds : List α) (x : α) : Nat :=
  min (bounds.tail.takeWhile fun b => !decide (x < b)).length (bounds.length-2)

def addAt (i : Nat) (d : Int) (counts : List Int) : List Int := counts.modify i (· + d)

def histogram [LT α] [DecidableLT α] [LE α] [DecidableLE α] (bounds : List α) (xs : List α) :
    List Int :=
  let inside (x : α) : Bool :=
    match bounds.head?, bounds.getLast? with
    | some lo, some hi => decide (lo ≤ x) && decide (x ≤ hi)
    | _, _ => false
  (xs.filter inside).foldl (fun counts x => addAt (binOf bounds x) 1 counts)
    (List.replicate (bounds.length-1) 0)

/-- The counts of the windows behind one: of each pair the first value leaves and the second
comes. -/
def slide [LT α] [DecidableLT α] (bounds : List α) : List Int → List (α × α) → List (List Int)
  | _, [] => []
  | counts, (out,new)::rest =>
    let counts := addAt (binOf bounds new) 1 (addAt (binOf bounds out) (-1) counts)
    counts::slide bounds counts rest

def windowCounts [LT α] [DecidableLT α] [LE α] [DecidableLE α] (bounds : List α) (width : Nat)
    (xs : List α) : List (List Int) :=
  let first := histogram bounds (xs.take width)
  first::slide bounds first (xs.zip (xs.drop width))

def windowEdges (high low : α → Bool) (width : Nat) (xs : List α) : List Edges :=
  (List.range (xs.length-width)).map fun start => edges high low ((xs.drop start).take width)

end

def evenBounds (bins : Nat) : List Float :=
  let step := 1.0/Number.floatOfInt bins
  (List.range bins).map (fun (i : Nat) => Number.floatOfInt i*step)++[1.0]

abbrev Limits := List (String × Cell)

structure Parameters where
  width : Option Int
  stride : Option Int
  bins : Option Int
  around : Option Int
  rawColumns : Option (List String)
  limits : Option (List (String × Limits))

def known {α : Type} (name : String) : Option α → Edit α
  | some x => pure x
  | none => throw (.unknownName name)

variable (p : Parameters)

def Parameters.needWidth : Edit Int := known "windowWidth" p.width

def Parameters.needStride : Edit Int := known "windowStride" p.stride

def Parameters.needColumns : Edit (List String) := known "rawColumns" p.rawColumns

def normalName (column : String) : String := "norm_"++column

def binName (i : Nat) (column : String) : String := "bin_"++toString i++"_"++column

def times (n : Nat) (c : Cell) : Cell := .int n*c

instance : BEq Cell := ⟨fun a b => Entry.same (.number a) (.number b)⟩

def collapseLabels : Edit Unit := do
  let around ← known "pertubations" p.around
  let width ← p.needWidth
  Edit.demand ((← get).has "mlabel")
  modify (Table.fill "label" (.whole 0))
  let labels ← Edit.lift ((← get).cells "mlabel")
  if width < 0 ∨ (width = 0 ∧ !labels.isEmpty) then throw .outOfRange
  modify (Table.put "label" ((collapse times width.toNat around labels).map Entry.number))

def normalize : Edit Unit := do
  let raw ← p.needColumns
  for c in raw do modify (Table.fill (normalName c) (.whole 0))
  let limits ← known "minMaxDict" p.limits
  for c in raw do
    let own ← known c (limits.lookup c)
    let lo ← known "min" (own.lookup "min")
    let hi ← known "max" (own.lookup "max")
    let range := hi-lo
    match range with
    | .int 0 => throw .requirement
    | _ => pure ()
    let xs ← Edit.lift ((← get).cells c)
    modify (Table.put (normalName c)
      (xs.map fun x => .number (.real ((x-lo).toFloat/range.toFloat))))

def endRows (width : Int) (values : List Entry) (c : Column) : Except Fault Column :=
  values.zipIdx.foldlM (fun c (e,i) => setAt (width-1+i) e c) c

def addEdges : Edit Unit := do
  Edit.demand ((← get).has "norm_gy")
  let width ← p.needWidth
  let stride ← p.needStride
  Edit.demand (stride == 1)
  for name in ["longestPosEdge", "longestNegEdge", "longestPosCount", "longestNegCount"] do
    modify (Table.fill name (.whole 0))
  let t ← get
  if width < t.length then
    Edit.demand (decide (0 ≤ width))
    let xs ← Edit.lift (t.cells "norm_gy")
    let found := windowEdges isHigh isLow width.toNat (xs.map Cell.toFloat)
    let write (name : String) (f : Edges → Int) : Edit Unit := do
      let c ← Edit.lift ((← get).column name)
      modify (Table.put name (← Edit.lift (endRows width (found.map fun e => .whole (f e)) c)))
    write "longestPosEdge" fun e => e.high.start
    write "longestNegEdge" fun e => e.low.start
    write "longestPosCount" fun e => e.high.length
    write "longestNegCount" fun e => e.low.length

def windowTotal : Int := 400

def addBins : Edit Unit := do
  let columns := (← p.needColumns).map normalName
  let width ← p.needWidth
  let bins ← known "numHistogramBins" p.bins
  for c in columns do
    for i in List.range bins.toNat do modify (Table.fill (binName i c) (.whole 0))
  let bounds := evenBounds bins.toNat
  for c in columns do
    let xs ← Edit.lift ((← get).cells c)
    if bins ≤ 0 then throw (.value "`bins` must be positive, when an integer")
    let counts := histogram bounds ((xs.take (bound xs.length width)).map Cell.toFloat)
    for (n,i) in counts.zipIdx do
      let old ← Edit.lift ((← get).column (binName i c))
      modify (Table.put (binName i c) (← Edit.lift (setAt (width-1) (.whole n) old)))
  for c in columns do
    let xs ← Edit.lift ((← get).cells c)
    let counts := windowCounts bounds width.toNat (xs.map Cell.toFloat)
    Edit.demand (decide (0 < width) && counts.all fun row => Number.total row == windowTotal)
    for i in List.range bins.toNat do
      let old ← Edit.lift ((← get).column (binName i c))
      modify (Table.put (binName i c)
        (old.take width.toNat++counts.tail.map fun row => .whole (row.getD i 0)))

def knownLabels : List Int := [0, 1, 3, 4, 5, 7, 9]

def rises : List Cell → Bool
  | a::b::rest => !decide (b < a) && rises (b::rest)
  | _ => true

/-- All features of a recording. Without collapsing, labels are set on a copy of the rows behind the
first window, of which nothing is kept. -/
def extract (collapsing : Bool) : Edit Unit := do
  let t ← get
  Edit.demand (t.has "mlabel" && t.has "infile" && t.has "millis")
  let files ← Edit.lift (t.column "infile")
  Edit.demand (match files with
    | [] => false
    | f::rest => rest.all (Entry.same f))
  let labels ← Edit.lift (t.column "mlabel")
  Edit.demand (knownLabels.any fun n => (labels.headD (.text "")).same (.whole n))
  Edit.demand ((← p.needStride) == 1)
  Edit.demand (rises (← Edit.lift (t.cells "millis")))
  normalize p
  addBins p
  addEdges p
  if collapsing then collapseLabels p

end MicroLearn.Gesture
