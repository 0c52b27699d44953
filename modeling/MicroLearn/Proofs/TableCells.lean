import Mathlib.Algebra.Order.Floor.Ring
import Mathlib.Data.Int.Bitwise
import Mathlib.Data.Rat.Floor
import MicroLearn.Proofs.ExpTables

/-!
# Cells of the exponential's tables

The code for an exponential stores the shifted offset of its argument in a signed word and takes two
groups of its bits. They are the places of the two cells whose arguments come nearest to the offset
from below.
-/

set_option autoImplicit false

namespace MicroLearn.Code

open Fixed (wrap InWord)

variable {M : Machine} {s : Settings} {word bits : Nat} {m : Memory} {e t : Term} {n : Int}

mutual

/-- Every variable is a word: what is assigned is cast to one. -/
def Instr.stored : Instr → Instr
  | .assign target value => .assign target (integerCast value)
  | .branch c yes no => .branch c (Instr.storedAll yes) (Instr.storedAll no)
  | .count iterator start c body => .count iterator start c (Instr.storedAll body)
  | .repeatWhile c body => .repeatWhile c (Instr.storedAll body)
  | .block body => .block (Instr.storedAll body)
  | i => i

def Instr.storedAll : List Instr → List Instr
  | [] => []
  | i::is => i.stored::Instr.storedAll is

end

end MicroLearn.Code

namespace MicroLearn.Lower

open Code
open Lang (Ty)
open Lowering
open Number (floatOfInt scaleBinary exponential)

variable {M : Machine} {cx : Context} {r : ExpRange} {source : Ty} {e : Term} {st st' : State}
  {x : String} {a : Interval} {word bits : Nat} {n p least shl d : Int} {l : Lowered}

/-- The cells for an offset of `d` units: `2 ^ bits * i + j` is its high part after the shift, and
the arguments of the two cells are `d` units together, up to one step of the finer table. -/
structure Cells (word bits : Nat) (shl p d : Int) (i j : Nat) : Prop where
  high : i < 2^bits
  low : j < 2^bits
  place : (i*2^bits+j : Int) = d*2^shl.toNat/2^(word-2*bits)
  near : (i : ℚ)*2^((tableSteps word bits shl).1+p)+j*2^((tableSteps word bits shl).2+p) ∈
    Set.Ioc ((d : ℚ)*2^p-2^((tableSteps word bits shl).2+p)) (d*2^p)

theorem Halves.lt {k} (h : Halves n k) : n < 2^k := by
  induction h with
  | zero => decide
  | half _ _ ih => rw [pow_succ]; omega

end MicroLearn.Lower
