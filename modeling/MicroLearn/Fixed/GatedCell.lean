import MicroLearn.Fixed.Word

/-!
# The gated recurrent cell in fixed point

One gate decides how much of the old state is kept; the rest is an update drawn
from the same pre-activation. Weights are dense, sparse or products of two thin
matrices. Every intermediate has its own scale. A step of the cell is a sequence of
kernel calls, most of which work in place on a few buffers that all steps share.
-/

set_option autoImplicit false

namespace MicroLearn.Fixed

structure SumScale where
  left : Int
  right : Int
  out : Int
  demote : Int
  deriving Repr, Inhabited

structure ProductScale where
  left : Int
  right : Int
  depth : Int
  deriving Repr, Inhabited

section

variable (m : Scaling) (bits : Nat)

def SumScale.add? (s : SumScale) (x y : Int) : Option Int := do
  let a ← m.down? x (m.join s.left s.out)
  let b ← m.down? y (m.join s.right s.out)
  return wrap bits (← m.down? (a+b) s.demote)

/-- A difference is not scaled down once more. -/
def SumScale.sub? (s : SumScale) (x y : Int) : Option Int := do
  let a ← m.down? x (m.join s.left s.out)
  let b ← m.down? y (m.join s.right s.out)
  return wrap bits (a-b)

/-- Nor is a sum with a scalar, here the left operand. -/
def SumScale.addScalar? (s : SumScale) (x y : Int) : Option Int := do
  let a ← m.down? x (m.join s.left s.out)
  let b ← m.down? y (m.join s.right s.out)
  return wrap bits (a+b)

def ProductScale.mul? (s : ProductScale) (x y : Int) : Option Int := do
  return wrap bits (← m.down? (x*y) (m.join s.left s.right))

def ProductScale.deep (s : ProductScale) : Int := m.join (m.join s.left s.right) s.depth

/-- A sum of products, formed in a register of `acc` bits. -/
def ProductScale.sum? (acc : Nat) (s : ProductScale) (sum : Int) : Option Int := do
  return wrap bits (← m.down? (wrap acc sum) (s.deep m))

def SigmoidSetting.apply? (s : SigmoidSetting) (x : Int) : Option Int :=
  if s.tables = false ∧ s.div = 0 then none else some (sigmoid s x)

end

inductive Slot where
  | hidden
  | first
  | second
  | third
  | lowInput
  | lowState
  | features
  | input
  | mean
  | deviation
  | inputInner
  | inputOuter
  | stateInner
  | stateOuter
  | gateBias
  | updateBias
  deriving Repr, DecidableEq, Inhabited

namespace Slot

def all : List Slot :=
  [.hidden, .first, .second, .third, .lowInput, .lowState, .features, .input, .mean, .deviation,
    .inputInner, .inputOuter, .stateInner, .stateOuter, .gateBias, .updateBias]

def working : Slot → Bool
  | first | second | third | lowInput | lowState | features => true
  | _ => false

end Slot

abbrev Layout := Slot → Pointer

/-- What is known of the buffers of a cell: the values from their beginnings on. -/
abbrev Contents := Slot → List Int

def Layout.apart (base : Nat) : Layout := fun s => ⟨base+Slot.all.idxOf s,0⟩

/-- The buffers of all slots. Nothing has been stored in the working ones. -/
def allocate (room : Slot → Nat) (σ : Contents) : List Cells :=
  Slot.all.map fun s => if s.working then Array.replicate (room s) none
    else ((σ s).map some).toArray

def Layout.on (lay : Layout) (hidden input : Pointer) : Layout
  | .hidden => hidden
  | .input => input
  | s => lay s

structure Operand where
  slot : Slot
  start : Nat := 0
  deriving Repr, DecidableEq

/-- The call of a kernel. It stores into a buffer from its beginning on. -/
inductive Call where
  | each (f : Int → Option Int) (count : Nat) (x : Operand) (dst : Slot)
  | pair (f : Int → Int → Option Int) (count : Nat) (x y : Operand) (dst : Slot)
  | product (f : Int → Option Int) (rows cols : Nat) (matrix v : Slot) (dst : Slot)
  | sparse (f : List Int → Option (List Int)) (rows cols : Nat) (v : Slot) (dst : Slot)

namespace Call

def dst : Call → Slot
  | .each _ _ _ d => d
  | .pair _ _ _ _ d => d
  | .product _ _ _ _ _ d => d
  | .sparse _ _ _ _ d => d

def count : Call → Nat
  | .each _ n _ _ => n
  | .pair _ n _ _ _ => n
  | .product _ n _ _ _ _ => n
  | .sparse _ n _ _ _ => n

def cell (read : Slot → Nat → Option Int) : Call → Nat → Option Int
  | .each f _ x _, i => do f (← read x.slot (x.start+i))
  | .pair f _ x y _, i => do f (← read x.slot (x.start+i)) (← read y.slot (y.start+i))
  | .product f _ cols a v _, i => do
    f (← sumOver? cols fun j => do return (← read a (i*cols+j))*(← read v j))
  | .sparse f _ cols v _, i => do (← f (← (List.range cols).mapM (read v)))[i]?

def exec (lay : Layout) (c : Call) (mem : Memory) : Option Memory :=
  mem.fill (lay c.dst) c.count fun mem i => c.cell (fun s j => mem.load ((lay s).plus j)) i

def execAll (lay : Layout) (calls : List Call) (mem : Memory) : Option Memory :=
  calls.foldlM (fun mem c => c.exec lay mem) mem

end Call

inductive Weights where
  | dense (scale : ProductScale)
  | sparse (entries : SparseMatrix) (scale : ProductScale)
  | lowRank (rank : Nat) (inner outer : ProductScale)
  deriving Inhabited

/-- The calls for the product with a vector. The inner product of weights of low rank goes to a
buffer of its own. -/
def Weights.calls (m : Scaling) (acc rows cols : Nat) (inner outer low v dst : Slot) :
    Weights → List Call
  | .dense s => [.product (s.sum? m 16 acc) rows cols outer v dst]
  | .sparse entries s =>
    [.sparse (fun x => do
      let _ ← m.down? 0 (s.deep m)
      return sparseMulVec m s.left s.right s.depth entries rows x) rows cols v dst]
  | .lowRank rank s t =>
    [.product (s.sum? m 16 acc) rank cols inner v low,
      .product (t.sum? m 16 acc) rows rank outer low dst]

structure CellScales where
  subtractMean : SumScale
  divideDeviation : ProductScale
  merge : SumScale
  gateBias : SumScale
  gate : SigmoidSetting
  updateBias : SumScale
  update : TanhSetting
  keep : ProductScale
  one : Int
  oneMinusGate : SumScale
  zeta : ProductScale
  nu : SumScale
  weigh : ProductScale
  mix : SumScale
  deriving Inhabited

structure Cell where
  /-- Width of the inputs in bits; products with them are summed in a register of `inputAcc`
  bits. -/
  inputBits : Nat
  inputAcc : Nat
  hiddenSize : Nat
  inputSize : Nat
  inputWeights : Weights
  stateWeights : Weights
  zeta : Int
  nu : Int
  scales : CellScales
  deriving Inhabited

namespace Cell

variable (m : Scaling) (c : Cell)

def featureCalls (normalize : Bool) (place : Nat) : List Call :=
  let d := c.inputSize
  if normalize then
    [.pair (c.scales.subtractMean.sub? m c.inputBits) d ⟨.input,place*d⟩ ⟨.mean,place*d⟩ .features,
      .pair (c.scales.divideDeviation.mul? m c.inputBits) d ⟨.deviation,place*d⟩
        ⟨.features,0⟩ .features]
  else [.each some d ⟨.input,place*d⟩ .features]

def productCalls : List Call :=
  c.inputWeights.calls m c.inputAcc c.hiddenSize c.inputSize .inputInner .inputOuter .lowInput
    .features
    .first ++
  c.stateWeights.calls m 64 c.hiddenSize c.hiddenSize .stateInner .stateOuter .lowState .hidden
    .second

def gateCalls : List Call :=
  let s := c.scales
  let n := c.hiddenSize
  [.pair (s.merge.add? m 16) n ⟨.first,0⟩ ⟨.second,0⟩ .first,
    .pair (s.gateBias.add? m 16) n ⟨.first,0⟩ ⟨.gateBias,0⟩ .second,
    .each s.gate.apply? n ⟨.second,0⟩ .second,
    .pair (s.updateBias.add? m 16) n ⟨.first,0⟩ ⟨.updateBias,0⟩ .first,
    .each (fun x => some (tanh s.update x)) n ⟨.first,0⟩ .first,
    .pair (s.keep.mul? m 16) n ⟨.second,0⟩ ⟨.hidden,0⟩ .third,
    .each (s.oneMinusGate.sub? m 16 s.one) n ⟨.second,0⟩ .second,
    .each (s.zeta.mul? m 16 c.zeta) n ⟨.second,0⟩ .second,
    .each (s.nu.addScalar? m 16 c.nu) n ⟨.second,0⟩ .second,
    .pair (s.weigh.mul? m 16) n ⟨.second,0⟩ ⟨.first,0⟩ .first,
    .pair (s.mix.add? m 16) n ⟨.third,0⟩ ⟨.first,0⟩ .hidden]

def calls (normalize : Bool) (place : Nat) : List Call :=
  c.featureCalls m normalize place++c.productCalls m++c.gateCalls m

def place (backward : Bool) (steps t : Nat) : Nat := if backward then steps-1-t else t

/-- So many steps on the inputs that lie one after the other in the input buffer. -/
def run (normalize backward : Bool) (steps : Nat) (lay : Layout) (mem : Memory) : Option Memory :=
  (List.range steps).foldlM
    (fun mem t => Call.execAll lay (c.calls m normalize (place backward steps t)) mem) mem

end Cell

structure Pool where
  inner : Cell
  outer : Cell
  chained : outer.inputSize = inner.hiddenSize
  patchDim : Nat
  stride : Nat
  innerUp : Int
  innerDown : Int
  outerUp : Int
  outerDown : Int

/-- Where the buffers of a pool are: the patch, the summaries, the output, and the parameters and
working buffers of the two cells. -/
structure PoolLayout where
  patch : Pointer
  buffer : Pointer
  output : Pointer
  inner : Layout
  outer : Layout

def PoolLayout.apart : PoolLayout :=
  ⟨⟨0,0⟩,⟨1,0⟩,⟨2,0⟩,Layout.apart 3,Layout.apart (3+Slot.all.length)⟩

/-- A memory with the buffers of a pool. Nothing has been stored for the summaries and in the
output. -/
def allocatePool (patch : List Int) (summaries output : Nat) (inner outer : List Cells) : Memory :=
  ⟨([(patch.map some).toArray, Array.replicate summaries none,
    Array.replicate output none]++inner++outer).toArray⟩

def rescale (m : Scaling) (up down : Int) (p : Pointer) (count : Nat) (mem : Memory) :
    Option Memory := do
  let mem ← mem.fill p count fun mem i => do return wrap 16 (m.up (← mem.load (p.plus i)) up)
  mem.fill p count fun mem i => do return wrap 16 (← m.down? (← mem.load (p.plus i)) down)

namespace Pool

variable (m : Scaling) (p : Pool) (l : PoolLayout)

def row (r : Nat) (mem : Memory) : Option Memory :=
  p.inner.run m false false p.patchDim (l.inner.on (l.buffer.plus (r*p.inner.hiddenSize))
    (l.patch.plus (p.stride*r*p.inner.inputSize))) mem

def rowPass (mem : Memory) : Option Memory :=
  (List.range p.patchDim).foldlM (fun mem r => p.row m l r mem) mem

def column (c : Nat) (mem : Memory) : Option Memory :=
  (List.range p.patchDim).foldlM (fun mem r =>
    p.inner.run m false false 1 (l.inner.on (l.buffer.plus (c*p.inner.hiddenSize))
      (l.patch.plus ((p.stride*r+c)*p.inner.inputSize))) mem) mem

def columnPass (mem : Memory) : Option Memory :=
  (List.range p.patchDim).foldlM (fun mem c => p.column m l c mem) mem

/-- Both directions over the summaries; the two states lie in the output from a cell on. -/
def bothWays (start : Nat) (mem : Memory) : Option Memory := do
  let mem ← rescale m p.innerUp p.innerDown l.buffer (p.patchDim*p.inner.hiddenSize) mem
  let mem ← p.outer.run m false false p.patchDim (l.outer.on (l.output.plus start) l.buffer) mem
  p.outer.run m false true p.patchDim
    (l.outer.on (l.output.plus (start+p.outer.hiddenSize)) l.buffer) mem

def run (mem : Memory) : Option Memory := do
  let k := p.outer.hiddenSize
  let summaries := p.inner.hiddenSize*p.patchDim
  let mem ← mem.clear l.output (4*k)
  let mem ← mem.clear l.buffer summaries
  let mem ← p.rowPass m l mem
  let mem ← p.bothWays m l 0 mem
  let mem ← mem.clear l.buffer summaries
  let mem ← p.columnPass m l mem
  let mem ← p.bothWays m l (2*k) mem
  rescale m p.outerUp p.outerDown l.output (4*k) mem

end Pool

end MicroLearn.Fixed
