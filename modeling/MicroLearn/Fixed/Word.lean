import MicroLearn.Number.Binary

/-!
# Words and vectors

Fixed-point values are integers kept in words of a given width; storing into a
narrower word keeps the low bits. Values change their scale by division towards
zero, or by an arithmetic shift when the build gives scales as exponents.
-/

set_option autoImplicit false

namespace MicroLearn.Fixed

open Number

/-- The two's complement reading of the low `bits` bits. -/
def wrap (bits : Nat) (x : Int) : Int := x.bmod (twoPow bits)

/-- Scales are divisors, or exponents of two. -/
inductive Scaling where
  | factors
  | shifts
  deriving Repr, DecidableEq, Inhabited

namespace Scaling

def join : Scaling → Int → Int → Int
  | .factors, a, b => a*b
  | .shifts, a, b => a+b

def down : Scaling → Int → Int → Int
  | .factors, x, s => x.tdiv s
  | .shifts, x, s => x >>> s.toNat

def down? : Scaling → Int → Int → Option Int
  | .factors, x, s => if s = 0 then none else some (x.tdiv s)
  | .shifts, x, s => some (x >>> s.toNat)

def up : Scaling → Int → Int → Int
  | .factors, x, s => x*s
  | .shifts, x, s => x*twoPow s.toNat

end Scaling

def InWord (bits : Nat) (x : Int) : Prop :=
  -(twoPow (bits-1)) ≤ x ∧ x < twoPow (bits-1)

/-- A buffer for intermediate values; a cell is unset until something is stored there. -/
abbrev Cells := Array (Option Int)

def Cells.read? (s : Cells) (i : Nat) : Option Int := s[i]?.join

def store? {α : Type} (buffer : Array α) (i : Nat) (v : α) : Option (Array α) :=
  if i < buffer.size then some (buffer.setIfInBounds i v) else none

def storeFrom? {α : Type} (buffer : Array α) (base : Nat) : List α → Option (Array α)
  | [] => some buffer
  | v::vs => do storeFrom? (← store? buffer base v) (base+1) vs

def sumOver? (count : Nat) (term : Nat → Option Int) : Option Int := do
  return total (← (List.range count).mapM term)

structure Pointer where
  buffer : Nat
  offset : Nat
  deriving Repr, DecidableEq, Inhabited

def Pointer.plus (p : Pointer) (i : Nat) : Pointer := ⟨p.buffer,p.offset+i⟩

structure Memory where
  buffers : Array Cells
  deriving Inhabited

namespace Memory

def load (mem : Memory) (p : Pointer) : Option Int := do (← mem.buffers[p.buffer]?).read? p.offset

def has (mem : Memory) (p : Pointer) : Bool :=
  decide (p.offset < (mem.buffers.getD p.buffer #[]).size)

def store (mem : Memory) (p : Pointer) (v : Int) : Option Memory :=
  if mem.has p then some ⟨mem.buffers.modify p.buffer fun b => b.setIfInBounds p.offset (some v)⟩
    else none

/-- Stores into consecutive cells, one after the other. What is stored may depend on what was stored
before. -/
def fill (dst : Pointer) (count : Nat) (value : Memory → Nat → Option Int) (mem : Memory) :
    Option Memory :=
  (List.range count).foldlM (fun mem i => do mem.store (dst.plus i) (← value mem i)) mem

def clear (dst : Pointer) (count : Nat) (mem : Memory) : Option Memory :=
  mem.fill dst count fun _ _ => some 0

def vector (mem : Memory) (p : Pointer) (count : Nat) : Option (List Int) :=
  (List.range count).mapM fun i => mem.load (p.plus i)

end Memory

variable (m : Scaling) (bits : Nat)

def addVectors (left right out demote : Int) : List Int → List Int → List Int :=
  List.zipWith fun a b =>
    wrap bits (m.down (m.down a (m.join left out)+m.down b (m.join right out)) demote)

def subVectors (left right out : Int) : List Int → List Int → List Int :=
  List.zipWith fun a b => wrap bits (m.down a (m.join left out)-m.down b (m.join right out))

def mulVectors (left right : Int) : List Int → List Int → List Int :=
  List.zipWith fun a b => wrap bits (m.down (a*b) (m.join left right))

def addScalar (scalar : Int) (scScalar scVec out : Int) (v : List Int) : List Int :=
  v.map fun x => wrap bits (m.down scalar (m.join scScalar out)+m.down x (m.join scVec out))

def subFromScalar (scalar : Int) (scScalar scVec out : Int) (v : List Int) : List Int :=
  v.map fun x => wrap bits (m.down scalar (m.join scScalar out)-m.down x (m.join scVec out))

def mulScalar (scalar : Int) (scScalar scVec : Int) (v : List Int) : List Int :=
  v.map fun x => wrap bits (m.down (scalar*x) (m.join scScalar scVec))

def scaleUp (s : Int) (v : List Int) : List Int := v.map fun x => wrap bits (m.up x s)

def scaleDown (s : Int) (v : List Int) : List Int := v.map fun x => wrap bits (m.down x s)

/-- The first index whose value is greater than all before it, starting from a best pair. -/
def argmaxFrom {α : Type} [LT α] [DecidableLT α] : Nat → α → Nat → List α → Nat
  | best, _, _, [] => best
  | best, value, i, x::xs =>
    if value < x then argmaxFrom i x (i+1) xs else argmaxFrom best value (i+1) xs

def argmax {α : Type} [LT α] [DecidableLT α] : List α → Nat
  | [] => 0
  | x::xs => argmaxFrom 0 x 1 xs

structure SparseMatrix where
  rowIds : List Nat
  values : List Int
  deriving Repr, DecidableEq, Inhabited

def dot (a b : List Int) : Int := total (List.zipWith (· * ·) a b)

/-- Each row's products are summed in a word of `acc` bits and scaled down once. -/
def mulVec (m : Scaling) (acc : Nat) (scMat scVec depth : Int) (rows : List (List Int))
    (v : List Int) : List Int :=
  rows.map fun row => wrap 16 (m.down (wrap acc (dot row v)) (m.join (m.join scMat scVec) depth))

def bump (cells : List Int) (id : Nat) (x : Int) : List Int :=
  cells.modify (id-1) fun c => wrap 16 (c+x)

/-- Walks the streams: a zero ends a column and takes the next element of the vector. -/
def sparseWalk (down : Int → Int) : List Nat → List Int → List Int → List Int → List Int
  | [], _, _, cells => cells
  | _, _, [], cells => cells
  | 0::ids, vals, _::v, cells => sparseWalk down ids vals v cells
  | id::ids, vals, x::v, cells =>
    sparseWalk down ids vals.tail (x::v) (bump cells id (down (vals.headD 0*x)))

def sparseMulVec (m : Scaling) (scMat scVec depth : Int) (mat : SparseMatrix) (nrows : Nat)
    (v : List Int) : List Int :=
  sparseWalk (fun p => m.down p (m.join (m.join scMat scVec) depth)) mat.rowIds mat.values v
    (List.replicate nrows 0)

def saturate16 (x : Int) : Int :=
  if x > 32767 then 32767 else if x < -32768 then -32768 else x

def clip (limit x : Int) : Int :=
  if x > limit then limit else if x < 0 then 0 else x

/-- `2 ^ 14 * exp (-i / 16)`, cut to integers. -/
def coarseExp : Array Int := #[
  16384, 15391, 14459, 13583, 12760, 11987, 11261, 10578, 9937, 9335, 8770, 8238, 7739, 7270, 6830,
  6416, 6027, 5662, 5319, 4997, 4694, 4410, 4143, 3892, 3656, 3434, 3226, 3031, 2847, 2675, 2513,
  2360, 2217, 2083, 1957, 1838, 1727, 1622, 1524, 1432, 1345, 1263, 1187, 1115, 1047, 984, 924, 868,
  816, 766, 720, 676, 635, 597, 561, 527, 495, 465, 437, 410, 385, 362, 340, 319, 300, 282, 265,
  249,
  234, 220, 206, 194, 182, 171, 161, 151, 142, 133, 125, 118, 110, 104, 97, 92, 86, 81, 76, 71, 67,
  63, 59, 56, 52, 49, 46, 43, 41, 38, 36, 34, 32, 30, 28, 26, 25, 23, 22, 20, 19, 18, 17, 16, 15,
  14,
  13, 12, 12, 11, 10, 10, 9, 9, 8, 8, 7, 7, 6, 6, 5, 5, 5, 5, 4, 4, 4, 4, 3, 3, 3, 3, 3, 2, 2, 2, 2,
  2, 2, 2, 2, 1, 1, 1, 1, 1, 1, 1, 1, 1, 1, 1, 1, 1, 1, 1, 1, 1, 1, 0, 0, 0, 0, 0, 0, 0, 0, 0, 0, 0,
  0, 0, 0, 0, 0, 0, 0, 0, 0, 0, 0, 0, 0, 0, 0, 0, 0, 0, 0, 0, 0, 0, 0, 0, 0, 0, 0, 0, 0, 0, 0, 0, 0,
  0, 0, 0, 0, 0, 0, 0, 0, 0, 0, 0, 0, 0, 0, 0, 0, 0, 0, 0, 0, 0, 0, 0, 0, 0, 0, 0, 0, 0, 0, 0, 0, 0,
  0, 0, 0, 0, 0, 0, 0, 0, 0, 0, 0, 0, 0]

/-- `2 ^ 14 * exp (-i / 2048)`, rounded. -/
def fineExp : Array Int := #[
  16384, 16376, 16368, 16360, 16352, 16344, 16336, 16328, 16320, 16312, 16304, 16296, 16288, 16280,
  16272, 16264, 16256, 16249, 16241, 16233, 16225, 16217, 16209, 16201, 16193, 16185, 16177, 16169,
  16162, 16154, 16146, 16138, 16130, 16122, 16114, 16106, 16099, 16091, 16083, 16075, 16067, 16059,
  16051, 16044, 16036, 16028, 16020, 16012, 16004, 15997, 15989, 15981, 15973, 15965, 15958, 15950,
  15942, 15934, 15927, 15919, 15911, 15903, 15895, 15888, 15880, 15872, 15864, 15857, 15849, 15841,
  15833, 15826, 15818, 15810, 15803, 15795, 15787, 15779, 15772, 15764, 15756, 15749, 15741, 15733,
  15726, 15718, 15710, 15703, 15695, 15687, 15680, 15672, 15664, 15657, 15649, 15641, 15634, 15626,
  15618, 15611, 15603, 15596, 15588, 15580, 15573, 15565, 15558, 15550, 15542, 15535, 15527, 15520,
  15512, 15504, 15497, 15489, 15482, 15474, 15467, 15459, 15452, 15444, 15437, 15429, 15421, 15414,
  15406, 15399]

def tableExp (x scale : Int) : Int :=
  let v := if x = -32768 then 32767 else wrap 16 (-x)
  let high := (v >>> (7 : Nat)).toNat
  let low := (v.tmod 128).toNat
  wrap 16 ((((coarseExp.getD high 0)*(fineExp.getD low 0)).tdiv scale) >>> (14 : Nat))

structure SigmoidSetting where
  div : Int
  add : Int
  limit : Int
  scaleIn : Int
  scaleOut : Int
  tables : Bool
  deriving Repr, Inhabited

structure TanhSetting where
  scaleIn : Int
  scaleOut : Int
  tables : Bool
  deriving Repr, Inhabited

def sigmoid (s : SigmoidSetting) (x : Int) : Int :=
  if s.tables then
    if x ≤ 0 then
      let e := tableExp x 1
      wrap 16 ((e*twoPow 14).tdiv (e+16384))
    else wrap 16 (Int.tdiv 267943936 (16384+tableExp (wrap 16 (-x)) 1))
  else
    let w := wrap 16 (x.tdiv s.div+s.add)
    if w ≤ 0 then 0
    else wrap 16 ((if w ≥ s.limit then s.limit else w)*twoPow (s.scaleOut-s.scaleIn).toNat)

def tanh (s : TanhSetting) (x : Int) : Int :=
  if s.tables then
    let w := saturate16 (2*x)
    if w ≤ 0 then
      let e := tableExp w 1
      wrap 16 (((e-16384)*twoPow 14).tdiv (e+16384))
    else
      let e := tableExp (wrap 16 (-w)) 1
      wrap 16 (((16384-e)*twoPow 14).tdiv (e+16384))
  else
    let one : Int := twoPow s.scaleIn.toNat
    let w := if x ≥ one then one else if x ≤ -one then -one else x
    wrap 16 (w*twoPow (s.scaleOut-s.scaleIn).toNat)

def addTensors (left right out : Int) : List Int → List Int → List Int :=
  List.zipWith fun a b => wrap bits (m.down a (m.join left out)+m.down b (m.join right out))

def addBias (scTen scVec out : Int) (bias : List Int) (positions : List (List Int)) : List Int :=
  positions.flatMap fun p => addTensors m bits scTen scVec out p bias

def rectify (limit div : Int) (t : List Int) : List Int :=
  t.map fun x => wrap bits ((clip limit x).tdiv div)

/-- Bisects for the largest factor `v` with `square * v * v ≤ one`. -/
def inverseNorm (square one : Int) (low high : Int) : Int :=
  if _h : low+1 < high then
    let mid := (high+low)/2
    if square*mid*mid > one then inverseNorm square one low mid else inverseNorm square one mid high
  else low
termination_by (high-low).toNat
decreasing_by all_goals omega

/-- The sum of the squares of a position, each cut at the scale of the result. -/
def squares (scaleOut : Int) (position : List Int) : Int :=
  total (position.map fun (w : Int) => (w*w) >>> (2*scaleOut).toNat)

def normalisePosition (scaleIn scaleOut : Int) (position : List Int) : List Int :=
  let one : Int := wrap 32 (twoPow (-(2*scaleIn+2)).toNat)
  let inv := inverseNorm (wrap 32 (squares scaleOut position)) one 1
    (wrap 16 (twoPow (scaleOut-1).toNat))
  position.map fun x =>
    let y := match m with
      | .factors => x.tdiv (twoPow scaleOut.toNat)
      | .shifts => x >>> scaleOut.toNat
    wrap 16 (y*inv)

def normalise (scaleIn scaleOut : Int) (positions : List (List Int)) : List Int :=
  positions.flatMap (normalisePosition m scaleIn scaleOut)

end MicroLearn.Fixed
