import MicroLearn.Fixed.Convolution
import MicroLearn.Number.Decimal

/-!
# The operators that generated code calls

Linear algebra on words, of 16 bits where no width is given. Matrices are stored row by row;
operands are divided by their scale factors, towards zero, before they meet.
-/

set_option autoImplicit false

namespace MicroLearn.Device

open MicroLearn.Fixed

variable (bits : Nat)

def pairAt (halve : Bool) (count p : Nat) (tmp : Array Int) : Int :=
  let sum :=
    if p < count/2 then wrap bits (tmp.getD (2*p) 0+tmp.getD (2*p+1) 0)
    else if p = count/2 ∧ count % 2 = 1 then tmp.getD (2*p) 0
    else 0
  if halve then sum.tdiv 2 else sum

def pass (bits size : Nat) (halve : Bool) (count : Nat) (tmp : Array Int) : Array Int :=
  (List.range (size/2+1)).foldl (fun t p => t.setIfInBounds p (pairAt bits halve count p t)) tmp

def passes (bits size : Nat) (halving : Int) : Nat → Nat → Nat → Array Int → Array Int
  | 0, _, _, tmp => tmp
  | left+1, done, count, tmp =>
    passes bits size halving left (done+1) ((count+1)/2)
      (pass bits size (decide ((done : Int) < halving)) count tmp)

/-- The sum of the first `size` cells, words of `bits` bits, after `halving + plain` passes. -/
def treeSum (bits size : Nat) (halving plain : Int) (tmp : Array Int) : Array Int :=
  passes bits size halving (halving+plain).toNat 0 size tmp

def divWord (x s : Int) : Int := wrap bits (x.tdiv s)

def div16 (x s : Int) : Int := divWord 16 x s

def combine (op : Int → Int → Int) (shrA shrB shrC : Int) (a b : Int) : Int :=
  divWord bits (wrap bits (op (divWord bits a shrA) (divWord bits b shrB))) shrC

def addMatrices (shrA shrB shrC : Int) : List Int → List Int → List Int :=
  List.zipWith (combine bits (· + ·) shrA shrB shrC)

def subMatrices (shrA shrB shrC : Int) : List Int → List Int → List Int :=
  List.zipWith (combine bits (· - ·) shrA shrB shrC)

def hadamard (shrA shrB : Int) : List Int → List Int → List Int :=
  List.zipWith fun a b => wrap 16 (div16 a shrA*div16 b shrB)

def scaleMatrix (shrA shrB : Int) (scalar : Int) (b : List Int) : List Int :=
  b.map fun x => wrap 16 (div16 scalar shrA*div16 x shrB)

structure ProductShape where
  rows : Nat
  inner : Nat
  cols : Nat
  deriving Repr, DecidableEq, Inhabited

def entryProducts (s : ProductShape) (shrA shrB : Int) (a b : Array Int) (i j : Nat)
    (tmp : Array Int) : Array Int :=
  (List.range s.inner).foldl (fun t k =>
    t.setIfInBounds k (wrap bits (divWord bits (a.getD (i*s.inner+k) 0) shrA *
      divWord bits (b.getD (k*s.cols+j) 0) shrB))) tmp

def matrixProductOf (s : ProductShape) (shrA shrB halving plain : Int)
    (a b tmp : Array Int) : List Int × Array Int :=
  ((List.range s.rows).flatMap fun i => (List.range s.cols).map fun j => (i,j)).foldl
    (fun (out,tmp) (i,j) =>
      let tmp := treeSum bits s.inner halving plain (entryProducts bits s shrA shrB a b i j tmp)
      (out++[tmp.getD 0 0],tmp))
    ([],tmp)

def matrixProduct (s : ProductShape) (shrA shrB halving plain : Int) (a b tmp : Array Int) :
    List Int × Array Int :=
  matrixProductOf 16 s shrA shrB halving plain a b tmp

/-- How far a sparse product has come: what is left of the two streams of the matrix, how many
indices have been read, and the sums. -/
structure SparseRun where
  indices : List Int
  values : List Int
  read : Nat
  sums : List Int
  deriving Repr, DecidableEq, Inhabited

/-- Adds the products of one column, up to the zero that ends it. There is no answer where a stream
is over, where the count of read indices has left its word, or for a row that does not exist. -/
def sparseColumn (shrA shrC factor : Int) : List Int → List Int → Nat → List Int → Option SparseRun
  | [], _, _, _ => none
  | idx::ids, vals, read, c =>
    if Number.twoPow 15 ≤ read then none
    else if idx = 0 then some ⟨ids,vals,read+1,c⟩
    else
      match vals with
      | [] => none
      | x::vals =>
        if 1 ≤ idx ∧ idx ≤ c.length then
          let p := div16 (wrap 16 (div16 x shrA*factor)) shrC
          sparseColumn shrA shrC factor ids vals (read+1)
            (c.modify (idx-1).toNat fun y => wrap 16 (y+p))
        else none

def sparseProduct (shrA shrB shrC : Int) (bs : List Int) (r : SparseRun) : Option SparseRun :=
  bs.foldlM (fun r b => sparseColumn shrA shrC (div16 b shrB) r.indices r.values r.read r.sums) r

def tanh (limit : Int) (a : List Int) : List Int :=
  a.map fun x => if x ≥ limit then limit else if x ≤ -limit then wrap 16 (-limit) else x

def transpose (rows cols : Nat) (a : Array Int) : List Int :=
  (List.range rows).flatMap fun i => (List.range cols).map fun j => a.getD (j*rows+i) 0

def relu (a : List Int) : List Int := a.map fun x => if x < 0 then 0 else x

def addOrSubAlong (add : Bool) (shrA shrB shrC : Int) (b : List Int) (rows : List (List Int)) :
    List Int :=
  rows.flatMap fun row =>
    List.zipWith (combine 16 (if add then (· + ·) else (· - ·)) shrA shrB shrC) row b

structure ConvSizes where
  batches : Nat
  height : Nat
  width : Nat
  inChannels : Nat
  filterHeight : Nat
  filterWidth : Nat
  outChannels : Nat
  deriving Repr, DecidableEq, Inhabited

namespace ConvSizes

variable (s : ConvSizes)

def terms : Nat := s.filterHeight*s.filterWidth*s.inChannels

def taps : List (Nat × Nat × Nat) :=
  (List.range s.filterHeight).flatMap fun hf =>
    (List.range s.filterWidth).flatMap fun wf => (List.range s.inChannels).map fun ci => (hf,wf,ci)

/-- The product at a tap: pixels outside the image count as zero. -/
def tap? (shrA shrB : Int) (a b : Array Int) (n h w co : Nat) (t : Nat × Nat × Nat) :
    Option Int := do
  let (hf,wf,ci) := t
  let padH := (s.filterHeight-1)/2
  let padW := (s.filterWidth-1)/2
  let x ←
    if h+hf < padH ∨ s.height+padH ≤ h+hf ∨ w+wf < padW ∨ s.width+padW ≤ w+wf then some 0
    else a[((n*s.height+(h+hf-padH))*s.width+(w+wf-padW))*s.inChannels+ci]?
  let y ← b[((hf*s.filterWidth+wf)*s.inChannels+ci)*s.outChannels+co]?
  return wrap 16 (div16 x shrA*div16 y shrB)

def cells : List (Nat × Nat × Nat × Nat) :=
  (List.range s.batches).flatMap fun n => (List.range s.height).flatMap fun h =>
    (List.range s.width).flatMap fun w => (List.range s.outChannels).map fun co => (n,h,w,co)

def place (c : Nat × Nat × Nat × Nat) : Nat :=
  ((c.1*s.height+c.2.1)*s.width+c.2.2.1)*s.outChannels+c.2.2.2

/-- One cell of the output: the products fill the scratch vector, which is then summed in place. -/
def storeCell? (shrA shrB halving plain : Int) (a b : Array Int) (r : List (Nat × Int) × Array Int)
    (c : Nat × Nat × Nat × Nat) : Option (List (Nat × Int) × Array Int) := do
  let products ← s.taps.mapM (s.tap? shrA shrB a b c.1 c.2.1 c.2.2.1 c.2.2.2)
  let tmp := treeSum 16 s.terms halving plain (← storeFrom? r.2 0 products)
  return (r.1++[(s.place c,tmp.getD 0 0)],tmp)

def stores? (shrA shrB halving plain : Int) (a b tmp : Array Int) :
    Option (List (Nat × Int) × Array Int) :=
  s.cells.foldlM (s.storeCell? shrA shrB halving plain a b) ([],tmp)

end ConvSizes

def convolve? (s : ConvSizes) (shrA shrB halving plain : Int) (a b c tmp : Array Int) :
    Option (Array Int) := do
  let (stores,_) ← s.stores? shrA shrB halving plain a b tmp
  applyStores? c stores

def maxPool (batches height width channels stride : Nat) (a : Array Int) : List (Nat × Int) :=
  let outH := height/stride
  let outW := width/stride
  let at' (n y x c : Nat) : Int := a.getD (((n*height+y)*width+x)*channels+c) 0
  (List.range batches).flatMap fun n => (List.range outH).flatMap fun y =>
    (List.range outW).flatMap fun x => (List.range channels).map fun c =>
      let square := (List.range stride).flatMap fun dy =>
        (List.range stride).map fun dx => at' n (stride*y+dy) (stride*x+dx) c
      (((n*outH+y)*outW+x)*channels+c,
        square.foldl (fun best v => if v > best then v else best) (at' n (stride*y) (stride*x) c))

structure Range where
  low : Float32
  high : Float32
  deriving Inhabited

def greatestSingle : Float32 := Float32.ofBits 0x7F7FFFFF

def Range.start : Range := ⟨greatestSingle,-greatestSingle⟩

def Range.see (r : Range) (x : Float32) : Range :=
  ⟨if x < r.low then x else r.low,if x > r.high then x else r.high⟩

structure Profile where
  values : Range := .start
  exponents : Range := .start
  deriving Inhabited

def Range.text (r : Range) : String :=
  Number.fixedText 6 r.low.toFloat++", "++Number.fixedText 6 r.high.toFloat++"\n"

def Profile.text (p : Profile) : String := p.values.text++p.exponents.text

inductive ProfileStep where
  | reset
  | value (x : Float32)
  | exponent (x : Float32)
  | dump
  deriving Inhabited

def Profile.dumps : Profile → List ProfileStep → List String
  | _, [] => []
  | _, .reset::rest => dumps ⟨.start,.start⟩ rest
  | p, .value x::rest => dumps { p with values := p.values.see x } rest
  | p, .exponent x::rest => dumps { p with exponents := p.exponents.see x } rest
  | p, .dump::rest => p.text::dumps p rest

end MicroLearn.Device
