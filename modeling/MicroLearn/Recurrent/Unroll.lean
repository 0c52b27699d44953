/-!
# Unrolling a recurrent step

A step maps a state and one input to the next state. A run folds it over the
inputs, first to last or last to first; each input comes with its place in time.
-/

set_option autoImplicit false

namespace MicroLearn.Recurrent

def schedule {α : Type} (backward : Bool) (inputs : List α) : List (α × Nat) :=
  if backward then inputs.zipIdx.reverse else inputs.zipIdx

def unroll {σ α : Type} (step : σ → α × Nat → σ) (backward : Bool) (s : σ) (inputs : List α) : σ :=
  (schedule backward inputs).foldl step s

def fill {α : Type} (buffer v : List α) : List α := v++buffer.drop v.length

def rowsOf {α : Type} (n : Nat) : Nat → List α → List (List α)
  | 0, _ => []
  | count+1, xs => xs.take n::rowsOf n count (xs.drop n)

/-- The buffers a cell works in. A run is refused when one is missing. -/
structure Buffers where
  preActivation : Bool
  lowRankInput : Bool
  lowRankState : Bool
  features : Bool
  deriving Repr, DecidableEq, Inhabited

def Buffers.status (b : Buffers) : Int :=
  if !b.preActivation then -1
  else if !b.lowRankInput then -2
  else if !b.lowRankState then -3
  else if !b.features then -4
  else 0

/-- A cell as the pool uses it: buffers and state before, a direction, inputs; buffers and state
after. -/
structure Runner (α σ : Type) where
  size : Nat
  run : Bool → σ × List α → List (List α) → σ × List α

def pixel {α : Type} (inputSize stride : Nat) (patch : List α) (r c : Nat) : List α :=
  (patch.drop ((stride*r+c)*inputSize)).take inputSize

/-- Runs a cell from the zero state over each sequence, one input at a time. -/
def summaries {α σ : Type} (zero : α) (cell : Runner α σ) (s : σ)
    (sequences : List (List (List α))) : σ × List (List α) :=
  sequences.foldl (fun (s,out) inputs =>
    let (s,h) := cell.run false (s,List.replicate cell.size zero) inputs
    (s,out++[h])) (s,[])

def stepwise {α σ : Type} (zero : α) (cell : Runner α σ) (s : σ)
    (sequences : List (List (List α))) : σ × List (List α) :=
  sequences.foldl (fun (s,out) inputs =>
    let (s,h) := inputs.foldl (fun st x => cell.run false st [x]) (s,List.replicate cell.size zero)
    (s,out++[h])) (s,[])

def bothWays {α σ : Type} (zero : α) (cell : Runner α σ) (s : σ) (rows : List (List α)) :
    σ × List α :=
  let (s,forward) := cell.run false (s,List.replicate cell.size zero) rows
  let (s,backward) := cell.run true (s,List.replicate cell.size zero) rows
  (s,forward++backward)

/-- The pooled patch; `between` rescales the summaries and `after` the output. -/
def pool {α σ τ : Type} (zero : α) (between after : α → α) (inner : Runner α σ) (outer : Runner α τ)
    (s : σ) (t : τ) (inputSize patchDim stride : Nat) (patch : List α) : List α :=
  let line (f : Nat → Nat → List α) : List (List (List α)) :=
    (List.range patchDim).map fun i => (List.range patchDim).map fun j => f i j
  let (s,rows) := summaries zero inner s (line fun r c => pixel inputSize stride patch r c)
  let (t,left) := bothWays zero outer t (rows.map (·.map between))
  let (_,columns) := stepwise zero inner s (line fun c r => pixel inputSize stride patch r c)
  let (_,right) := bothWays zero outer t (columns.map (·.map between))
  (left++right).map after

end MicroLearn.Recurrent
