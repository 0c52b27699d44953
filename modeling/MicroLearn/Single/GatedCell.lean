import MicroLearn.Fixed.Word
import MicroLearn.Recurrent.Unroll

/-!
# The gated recurrent cell in single precision

The same cell as in fixed point, with dense weights or products of two thin
matrices. The mixture of old state and update is formed in double precision.
-/

set_option autoImplicit false

namespace MicroLearn.Single

def minOf (a b : Float32) : Float32 := if a < b then a else b

def maxOf (a b : Float32) : Float32 := if a > b then a else b

variable (x : Float32)

def relu : Float32 := if x < 0 then 0 else x

def sigmoid : Float32 := 1/(1+Float32.exp (-1*x))

def hyperbolic : Float32 :=
  let up := Float32.exp x
  let down := Float32.exp (-1*x)
  (up-down)/(up+down)

def clippedTanh : Float32 := maxOf (minOf x 1) (-1)

def clippedSigmoid : Float32 := maxOf (minOf ((x+1)/2) 1) 0

def roundedTanh : Float32 := (Float.tanh x.toFloat).toFloat32

def dot (a b : List Float32) : Float32 :=
  (List.zip a b).foldl (fun s (x,y) => s+x*y) 0

def matrixVector (alpha beta : Float32) (rows : List (List Float32)) (v old : List Float32) :
    List Float32 :=
  List.zipWith (fun row r => alpha*r+beta*dot row v) rows old

def combine (a b : Float32) : List Float32 → List Float32 → List Float32 :=
  List.zipWith fun x y => a*x+b*y

def product : List Float32 → List Float32 → List Float32 := List.zipWith (· * ·)

def quotient : List Float32 → List Float32 → List Float32 := List.zipWith fun x y => y/x

def squaredDistance (a b : List Float32) : Float32 :=
  (List.zip a b).foldl (fun s (x,y) => s+(x-y)*(x-y)) 0

def leastNormal : Float32 := Float32.ofBits 0x00800000

def argmaxAbove {α : Type} [LT α] [DecidableLT α] (floor : α) (v : List α) : Nat :=
  Fixed.argmaxFrom 0 floor 0 v

def argmax (v : List Float32) : Nat := argmaxAbove leastNormal v

def peakAbove {α : Type} [LT α] [DecidableLT α] [Zero α] (floor : α) (v : List α) : α :=
  v.getD (argmaxAbove floor v) 0

def softmax (v : List Float32) : List Float32 :=
  let top := peakAbove leastNormal v
  let sum := v.foldl (fun s x => s+Float32.exp (x-top)) 0
  let offset := top+Float32.log sum
  v.map fun x => Float32.exp (x-offset)

def dense (weights : List (List Float32)) (bias v : List Float32) : List Float32 :=
  combine 1 1 bias (matrixVector 0 1 weights v (List.replicate weights.length 0))

open MicroLearn.Recurrent

inductive Weights where
  | dense (rows : List (List Float32))
  | lowRank (inner outer : List (List Float32))
  deriving Inhabited

structure Cell where
  hiddenSize : Nat
  inputSize : Nat
  inputWeights : Weights
  stateWeights : Weights
  gateBias : List Float32
  updateBias : List Float32
  zeta : Float32
  nu : Float32
  mean : List (List Float32)
  deviation : List (List Float32)
  deriving Inhabited

structure Scratch where
  preActivation : List Float32
  lowInput : List Float32
  lowState : List Float32
  features : List Float32
  deriving Inhabited

def Weights.apply (alpha : Float32) (low target v : List Float32) :
    Weights → List Float32 × List Float32
  | .dense rows => (low,matrixVector alpha 1 rows v target)
  | .lowRank inner outer =>
    let low := fill low (matrixVector 0 1 inner v low)
    (low,matrixVector alpha 1 outer (low.take inner.length) target)

def blend (zeta nu pre gateBias updateBias h : Float32) : Float32 :=
  let gate := sigmoid (pre+gateBias)
  let update := roundedTanh (pre+updateBias)
  ((gate*h).toFloat +
    (zeta.toFloat*(1.0-gate.toFloat)+nu.toFloat)*update.toFloat).toFloat32

namespace Cell

variable (c : Cell)

def step (normalize : Bool) (state : Scratch × List Float32) (x : List Float32 × Nat) :
    Scratch × List Float32 :=
  let (buf,hidden) := state
  let feats := fill buf.features
    (if normalize then
      quotient (c.deviation.getD x.2 []) (combine 1 (-1) x.1 (c.mean.getD x.2 []))
    else x.1)
  let (lowInput,wx) :=
    c.inputWeights.apply 0 buf.lowInput buf.preActivation (feats.take c.inputSize)
  let (lowState,pre) := c.stateWeights.apply 1 buf.lowState wx hidden
  let pre := fill buf.preActivation pre
  let hidden := (List.zip (List.zip pre (List.zip c.gateBias c.updateBias)) hidden).map
    fun ((p,bg,bh),h) => blend c.zeta c.nu p bg bh h
  (⟨pre,lowInput,lowState,feats⟩,hidden)

def run (normalize backward : Bool) (state : Scratch × List Float32)
    (inputs : List (List Float32)) : Scratch × List Float32 :=
  unroll (c.step normalize) backward state inputs

def scratch (lowInput lowState : Nat) : Scratch :=
  ⟨List.replicate c.hiddenSize 0,List.replicate lowInput 0,List.replicate lowState 0,
    List.replicate c.inputSize 0⟩

end Cell

end MicroLearn.Single
