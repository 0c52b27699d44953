import MicroLearn.Model.Matrix

/-!
# Recurrent cells

A cell takes an input vector and a state to the next state. Five kinds differ in
how they mix the images of the input and of the state; a long short-term memory
carries a second vector beside its state, the others leave it as it is.
-/

set_option autoImplicit false

namespace MicroLearn.Net

variable {α : Type}

abbrev Vec (α : Type) := List α
abbrev Mat (α : Type) := List (List α)

def plus [Add α] (x y : Vec α) : Vec α := List.zipWith (· + ·) x y

def minus [Sub α] (x y : Vec α) : Vec α := List.zipWith (· - ·) x y

def times [Mul α] (x y : Vec α) : Vec α := List.zipWith (· * ·) x y

def scale [Mul α] (a : α) (x : Vec α) : Vec α := x.map (a * ·)

def total [Zero α] [Add α] (xs : Vec α) : α := xs.foldl (· + ·) 0

def applyMat [Zero α] [Add α] [Mul α] (m : Mat α) (x : Vec α) : Vec α := m.map (Model.dot · x)

def rowTimes [Add α] [Mul α] (x : Vec α) (m : Mat α) : Vec α :=
  match List.zipWith scale x m with
  | [] => []
  | v::vs => vs.foldl plus v

/-- The columns of a table as rows, the first row telling how many there are. -/
def swapAxes {β : Type} (rows : List (List β)) : List (List β) :=
  (List.range ((rows.head?.map List.length).getD 0)).map fun j => rows.filterMap (·[j]?)

structure Curves (α : Type) where
  tanh : α → α
  sigmoid : α → α

inductive Activation where
  | tanh
  | sigmoid
  | positivePart
  | clampedTanh
  | clampedSigmoid
  | wideClampedSigmoid
  deriving Repr, DecidableEq, Inhabited

namespace Activation

def names : List (String × Activation) :=
  [("tanh",.tanh), ("sigmoid",.sigmoid), ("relu",.positivePart), ("quantTanh",.clampedTanh),
    ("quantSigm",.clampedSigmoid), ("quantSigm4",.wideClampedSigmoid)]

def ofName? (name : String) : Option Activation := names.lookup name

def unknown : Fault :=
  .value ("nonlinearity is either a callable or a value " ++
    "['tanh', 'sigmoid', 'relu', 'quantTanh', 'quantSigm'")

variable {α : Type}

def clamp [LT α] [DecidableLT α] (low high x : α) : α :=
  let y := if high < x then high else x
  if y < low then low else y

variable [Zero α] [One α] [Add α] [Div α] [Neg α] [LT α] [DecidableLT α]

def apply (curves : Curves α) : Activation → α → α
  | .tanh, x => curves.tanh x
  | .sigmoid, x => curves.sigmoid x
  | .positivePart, x => if x < 0 then 0 else x
  | .clampedTanh, x => clamp (-1) 1 x
  | .clampedSigmoid, x => clamp 0 1 ((x+1)/(1+1))
  | .wideClampedSigmoid, x => clamp 0 1 ((x+(1+1))/(1+1+1+1))

end Activation

/-- Matrices for one vector: each alone, or each after a factor that they share. -/
structure Fan (α : Type) where
  shared : Option (Mat α)
  each : List (Mat α)

namespace Fan

variable [Add α] [Mul α]

def feed (f : Fan α) (x : Vec α) : Vec α :=
  match f.shared with
  | none => x
  | some m => rowTimes x m

def image (f : Fan α) (i : Nat) (x : Vec α) : Vec α :=
  match f.each[i]? with
  | some m => rowTimes (f.feed x) m
  | none => []

end Fan

inductive CellKind where
  | fastGated
  | fast
  | longShort
  | gated
  | updateGated
  deriving Repr, DecidableEq, Inhabited

/-- How many matrices a kind has for the input, when they share no factor; as many for the state. -/
def CellKind.matrices : CellKind → Nat
  | .fastGated | .fast => 1
  | .longShort => 4
  | .gated => 3
  | .updateGated => 2

inductive CellParams (α : Type) where
  | fastGated (gate update : Vec α) (zeta nu : α)
  | fast (update : Vec α) (alpha beta : α)
  | longShort (forget input carry output : Vec α)
  | gated (reset gate update : Vec α)
  | updateGated (gate update : Vec α)

structure Cell (α : Type) where
  input : Fan α
  state : Fan α
  params : CellParams α
  gate : α → α
  update : α → α
  squash : α → α

structure Memory (α : Type) where
  state : Vec α
  carried : Vec α

namespace Cell

variable [One α] [Add α] [Sub α] [Mul α]

def mixed (c : Cell α) (i : Nat) (x h : Vec α) : Vec α :=
  plus (c.input.image i x) (c.state.image i h)

def gateAt (c : Cell α) (i : Nat) (bias x h : Vec α) : Vec α :=
  (plus (c.mixed i x h) bias).map c.gate

def contentAt (c : Cell α) (i : Nat) (bias x h : Vec α) : Vec α :=
  (plus (c.mixed i x h) bias).map c.update

def blend (gate old new : Vec α) : Vec α := plus (times gate old) (times (gate.map (1 - ·)) new)

def step (c : Cell α) (m : Memory α) (x : Vec α) : Memory α :=
  let h := m.state
  match c.params with
  | .fastGated bg bh zeta nu =>
    let z := c.gateAt 0 bg x h
    let fresh := z.map fun a => c.squash zeta*(1-a)+c.squash nu
    ⟨plus (times z h) (times fresh (c.contentAt 0 bh x h)),m.carried⟩
  | .fast bh alpha beta =>
    ⟨plus (scale (c.squash beta) h) (scale (c.squash alpha) (c.contentAt 0 bh x h)),m.carried⟩
  | .longShort bf bi bc bo =>
    let i := c.gateAt 0 bi x h
    let f := c.gateAt 1 bf x h
    let o := c.gateAt 3 bo x h
    let carried := plus (times f m.carried) (times i (c.contentAt 2 bc x h))
    ⟨times o (carried.map c.update),carried⟩
  | .gated br bg bh =>
    let r := c.gateAt 0 br x h
    let z := c.gateAt 1 bg x h
    let content := (plus (plus (c.input.image 2 x) (c.state.image 2 (times r h))) bh).map c.update
    ⟨blend z h content,m.carried⟩
  | .updateGated bg bh => ⟨blend (c.gateAt 0 bg x h) h (c.contentAt 1 bh x h),m.carried⟩

end Cell

variable {σ τ ι : Type}

def states (step : σ → ι → σ) : σ → List ι → List σ
  | _, [] => []
  | s, x::xs => step s x::states step (step s x) xs

def finalState (step : σ → ι → σ) (s : σ) (xs : List ι) : σ := xs.foldl step s

def batchStep (step : σ → ι → σ) (ss : List σ) (xs : List ι) : List σ := List.zipWith step ss xs

def batchStates (step : σ → ι → σ) (ss : List σ) (xs : List (List ι)) : List (List σ) :=
  states (batchStep step) ss xs

/-- The fault of a batched step for a number of inputs and another number of states of a width: one
input or one state is repeated, but the outcome does not fit its place then. -/
def batchFault? (inputs states width : Nat) : Option Fault :=
  let shape := fun (n : Nat) => "("++toString n++","++toString width++")"
  if inputs = states then none
  else if inputs = 1 ∨ states = 1 then
    some (.value ("could not broadcast input array from shape "++shape (max inputs states) ++
      " into shape "++shape 1))
  else
    some (.value ("operands could not be broadcast together with shapes "++shape inputs++" " ++
      shape states++" "))

/-- The states of a batch whose starting states are given; every step has to have as many inputs. -/
def startedStates (width : Nat) (step : σ → ι → σ) (ss : List σ) (xs : List (List ι)) :
    Except Fault (List (List σ)) :=
  match xs.findSome? fun x => batchFault? x.length ss.length width with
  | some f => .error f
  | none => .ok (batchStates step ss xs)

inductive Layout where
  | timeFirst
  | sampleFirst
  deriving Repr, DecidableEq, Inhabited

/-- What all samples have at a time. -/
def Layout.read (layout : Layout) (xs : List (List ι)) (time : Nat) : List ι :=
  match layout with
  | .timeFirst => (xs[time]?).getD []
  | .sampleFirst => xs.filterMap (·[time]?)

def Layout.write (layout : Layout) (time : Nat) (ss : List σ) (out : List (List σ)) :
    List (List σ) :=
  match layout with
  | .timeFirst => out.set time ss
  | .sampleFirst => List.zipWith (fun line s => line.set time s) out ss

/-- A run on its way over time: the states it has come to, and those it has written. -/
structure Pass (σ : Type) where
  now : List σ
  out : List (List σ)

/-- A turn of the loop: the inputs of one time, the states written at another. -/
def Pass.turn (layout : Layout) (step : σ → ι → σ) (xs : List (List ι)) (source place : Nat)
    (p : Pass σ) : Pass σ :=
  let now := batchStep step p.now (layout.read xs source)
  ⟨now,layout.write place now p.out⟩

def unroll (layout : Layout) (times : Nat) (step : σ → ι → σ) (xs : List (List ι)) (p : Pass σ) :
    Pass σ :=
  (List.range times).foldl (fun p i => p.turn layout step xs i i) p

/-- Both directions in one loop. The second takes the inputs from the last one on. -/
def unrollBoth (layout : Layout) (times : Nat) (there back : σ → ι → σ) (xs : List (List ι))
    (p q : Pass σ) : Pass σ × Pass σ :=
  (List.range times).foldl
    (fun r i => (r.1.turn layout there xs i i,r.2.turn layout back xs (times-i-1) i)) (p,q)

variable {ι σ τ : Type}

def groups (n : Nat) : Nat → List ι → List (List ι)
  | 0, _ => []
  | count+1, xs => xs.take n::groups n count (xs.drop n)

def bricks (brick : Nat) (xs : List ι) : List (List ι) := groups brick (xs.length/brick) xs

/-- The last states of the upper run. The inputs are samples over time; `lower` and `upper` start
from the same state for every sample. -/
def brickStates (lower : σ → ι → σ) (upper : τ → σ → τ) (s : σ) (t : τ) (brick batch : Nat)
    (xs : List (List ι)) : List τ :=
  let cut := bricks brick xs
  let steps := (swapAxes cut).map List.flatten
  let count := cut.length
  let last := finalState (batchStep lower) (List.replicate (count*batch) s) steps
  finalState (batchStep upper) (List.replicate batch t) (groups batch count last)

section

variable {α : Type} [Add α] [Mul α]

/-- The scores of a batch: a row for each sample, or one row without an axis for samples. -/
inductive Scores (α : Type) where
  | rows (table : Mat α)
  | single (row : Vec α)

def tooFewAxes : Fault :=
  .value ("matmul: Input operand 0 does not have enough dimensions (has 0, gufunc core with signature " ++
    "(n?,k),(k,m?)->(n?,m?) requires 1)")

def innerMismatch (right left : Nat) : Fault :=
  .value ("matmul: Input operand 1 has a mismatch in its core dimension 0, with gufunc signature " ++
    "(n?,k),(k,m?)->(n?,m?) (size "++toString right++" is different from "++toString left++")")

/-- A linear classifier of states of a width. Axes of length one are dropped first, so that one
sample gives a single row, and states of one number are taken for one state. -/
def brickScores (width : Nat) (weights : Mat α) (bias : Vec α) (states : Mat α) :
    Except Fault (Scores α) :=
  let score := fun (h : Vec α) => plus (rowTimes h weights) bias
  match states with
  | [h] =>
    if width = 1 then .error tooFewAxes
    else if width = weights.length then .ok (.single (score h))
    else .error (innerMismatch weights.length width)
  | _ =>
    if width = 1 then
      if states.length = weights.length then .ok (.single (score states.flatten))
      else .error (innerMismatch weights.length states.length)
    else if width = weights.length then .ok (.rows (states.map score))
    else .error (innerMismatch weights.length width)

end

/-- The steps of the first sweep: at each place of the swept axis, all samples of the first line,
then all samples of the second, and so on. The entry is asked for by sample, line and place. -/
def sweepSteps (entry : Nat → Nat → Nat → ι) (batch lines places : Nat) : List (List ι) :=
  (List.range places).map fun j =>
    (List.range lines).flatMap fun i => (List.range batch).map fun b => entry b i j

/-- The last states of the first sweep, cut into summaries of `asked` samples. `started` states of a
width are given to the run, and there have to be as many as it has inputs at each step. -/
def lineStates (step : σ → ι → σ) (s : σ) (width asked started : Nat) (steps : List (List ι)) :
    Except Fault (List (List σ)) := do
  let run ← startedStates width step (List.replicate started s) steps
  let last := (run.getLast?).getD []
  if last.length % asked = 0 then return groups asked (last.length/asked) last
  else throw (.value "all input arrays must have the same shape")

/-- The last states of the second sweep, forward and backward, for each sample. -/
def sweepEnds (step : τ → σ → τ) (t : τ) (batch : Nat) (summaries : List (List σ)) : List (τ × τ) :=
  let start := List.replicate batch t
  (finalState (batchStep step) start summaries).zip
    (finalState (batchStep step) start summaries.reverse)

structure Announced where
  samples : Nat
  rows : Nat

/-- The first sweep is given as many states as rows are announced, whichever way it goes. The ends
over the summaries of the rows come first. -/
def pool (first : σ → ι → σ) (second : τ → σ → τ) (s : σ) (t : τ) (width : Nat)
    (announced : Announced) (batch rows cols : Nat) (entry : Nat → Nat → Nat → ι) :
    Except Fault (List ((τ × τ) × (τ × τ))) := do
  let asked := announced.samples
  let started := asked*announced.rows
  let ofCols ← lineStates first s width asked started
    (sweepSteps (fun b c r => entry b r c) batch cols rows)
  let colEnds := sweepEnds second t asked ofCols
  let ofRows ← lineStates first s width asked started (sweepSteps entry batch rows cols)
  let rowEnds := sweepEnds second t asked ofRows
  return rowEnds.zip colEnds

end MicroLearn.Net
