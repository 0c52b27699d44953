/-!
# The schedule of sparse training

Training goes through three phases: dense, thresholding and retraining on the
kept weights. The phase of a batch follows from its number. While thresholding,
every so many batches the weights are cut; between the cuts, and in the last
phase after every batch, the weights are restricted to those kept by the last
cut.
-/

set_option autoImplicit false

namespace MicroLearn.Train

variable {α : Type}

def batchAt (size place : Nat) (xs : List α) : List α := (xs.drop (place*size)).take size

def batchCount (samples size : Nat) : Nat := (samples+size-1)/size

def partSizes (samples parts : Nat) : List Nat :=
  List.replicate (samples % parts) (samples/parts+1) ++
    List.replicate (parts-samples % parts) (samples/parts)

def cutBy : List Nat → List α → List (List α)
  | [], _ => []
  | n::ns, xs => xs.take n::cutBy ns (xs.drop n)

def evenBatches (parts : Nat) (xs : List α) : List (List α) := cutBy (partSizes xs.length parts) xs

/-- The boundaries of the phases, counted in batches, and the distance between cuts. -/
structure Phases where
  dense : Bool
  first : Nat
  second : Nat
  trim : Nat
  deriving Repr, DecidableEq, Inhabited

def Phases.ofTotal (dense : Bool) (batches trim : Nat) : Phases :=
  ⟨dense,batches/3,2*batches/3,trim⟩

inductive Action where
  | keep
  | threshold
  | retrain
  deriving Repr, DecidableEq, Inhabited

namespace Phases

def thresholding (p : Phases) (counter : Nat) : Bool := p.first ≤ counter && counter < p.second

/-- What follows batch `counter`; `done` tells whether weights have been cut before. -/
def action (p : Phases) (done : Bool) (counter : Nat) : Action :=
  if p.dense then .keep
  else if p.thresholding counter && counter % p.trim == 0 then .threshold
  else if (done && p.thresholding counter && counter % p.trim != 0) || p.second ≤ counter then
    .retrain
  else .keep

end Phases

structure Work (m : Type → Type) where
  openEpoch : (epoch : Nat) → m Unit
  batch : (epoch index counter : Nat) → m Unit
  /-- cuts the weights; told whether it is the first cut -/
  threshold : (isFirst : Bool) → m Unit
  /-- restricts the weights; told whether the last phase opens -/
  retrain : (opens : Bool) → m Unit
  /-- told whether weights have been cut, or never will be -/
  closeEpoch : (epoch : Nat) → (done : Bool) → m Unit

namespace Work

variable {m : Type → Type} [Monad m]

def follow (w : Work m) (p : Phases) (done : Bool) (counter : Nat) : m Bool := do
  match p.action done counter with
  | .keep => pure done
  | .threshold => do
    w.threshold (!done)
    pure true
  | .retrain => do
    w.retrain (counter == p.second)
    pure done

def batches (w : Work m) (p : Phases) (epoch perEpoch : Nat) (done : Bool) : Nat → m Bool
  | 0 => pure done
  | n+1 => do
    let index := perEpoch-(n+1)
    let counter := epoch*perEpoch+index
    w.batch epoch index counter
    let done ← w.follow p done counter
    w.batches p epoch perEpoch done n

def epochs (w : Work m) (p : Phases) (perEpoch : Nat) (done : Bool) (epoch : Nat) : Nat → m Bool
  | 0 => pure done
  | n+1 => do
    w.openEpoch epoch
    let done ← w.batches p epoch perEpoch done perEpoch
    w.closeEpoch epoch done
    w.epochs p perEpoch done (epoch+1) n

def train (w : Work m) (p : Phases) (perEpoch count : Nat) : m Bool :=
  w.epochs p perEpoch p.dense 0 count

end Work

end MicroLearn.Train
