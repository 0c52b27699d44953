import MicroLearn.Request.Basic
import MicroLearn.Fixed.Convolution
import MicroLearn.Single.GatedCell

/-!
# Requests for kernels

The kernels on fixed-point words and on single-precision numbers, by name.
-/

set_option autoImplicit false

namespace MicroLearn.Request

open Fixed
open Text (Json)

def scaling (req : Json) : Scaling := if flag req "shift" then .shifts else .factors

def convShape (a : Json) : ConvShape where
  batches := nat a "N"
  height := nat a "H"
  width := nat a "W"
  inChannels := nat a "CIn"
  filterHeight := nat a "HF"
  filterWidth := nat a "WF"
  filterChannels := nat a "CF"
  outChannels := nat a "COut"
  outHeight := nat a "HOut"
  outWidth := nat a "WOut"
  groups := nat a "G"
  padUp := int a "HPadU"
  padDown := int a "HPadD"
  padLeft := int a "WPadL"
  padRight := int a "WPadR"
  strideH := nat a "HStride"
  strideW := nat a "WStride"
  dilationH := nat a "HDilation"
  dilationW := nat a "WDilation"

def bottleneckShape (a : Json) : BottleneckShape where
  batches := nat a "N"
  height := nat a "H"
  width := nat a "W"
  inChannels := nat a "CIn"
  midChannels := nat a "CTemp"
  filterHeight := nat a "HF"
  filterWidth := nat a "WF"
  outChannels := nat a "COut"
  outHeight := nat a "HOut"
  outWidth := nat a "WOut"
  padUp := int a "HPadU"
  padDown := int a "HPadD"
  padLeft := int a "WPadL"
  padRight := int a "WPadR"
  strideH := nat a "HStride"
  strideW := nat a "WStride"

def arrayOf (a : Json) (k : String) : Array Int := (ints a k).toArray

def bottleneck (words : BottleneckWords) (a : Json) : Bottleneck where
  shape := bottleneckShape a
  words := words
  expand := ⟨arrayOf a "filter1",arrayOf a "BN1W",arrayOf a "BN1B"⟩
  expandScale := ⟨int a "shlU1",int a "shrU1",int a "shlX1",int a "shrX1"⟩
  expandLimit := int a "limit1"
  depth := ⟨arrayOf a "filter2",arrayOf a "BN2W",arrayOf a "BN2B"⟩
  depthScale := ⟨int a "shlU2",int a "shrU2",int a "shlX2",int a "shrX2"⟩
  depthLimit := int a "limit2"
  project := ⟨arrayOf a "filter3",arrayOf a "BN3W",arrayOf a "BN3B"⟩
  projectScale := ⟨int a "shlU3",int a "shrU3",int a "shlW3",int a "shrW3"⟩

def runBlock (m : Scaling) (words : BottleneckWords) (a : Json) : Json :=
  let b := bottleneck words a
  let s := b.shape
  let run := b.run m (arrayOf a "input")
    ⟨Array.replicate (s.filterHeight*s.width*s.midChannels) (some 0),
      Array.replicate s.midChannels (some 0),
      Array.replicate (s.batches*s.outHeight*s.outWidth*s.outChannels) 0⟩
  match run with
  | some out => .obj [("output",encInts out.toList)]
  | none => .obj [("error",.str "access outside a buffer")]

def positions (a : Json) (k : String) : List (List Int) :=
  Recurrent.rowsOf (nat a "nchannels") (nat a "nbatches" * nat a "nrows" * nat a "ncols") (ints a k)

def kernel (req : Json) : Json :=
  let a := field req "args"
  let m := scaling req
  let n := int a
  let len := nat a "len"
  let vec (k : String) := (ints a k).take len
  let total := nat a "nbatches" * nat a "nrows" * nat a "ncols" * nat a "nchannels"
  let ten (k : String) := (ints a k).take total
  let ret (xs : List Int) : Json := .obj [("ret",encInts xs)]
  let value (x : Int) : Json := .obj [("value",.int x)]
  let fvalue (x : Float32) : Json := .obj [("value",encSingle x)]
  let fvec (k : String) := (singles a k).take len
  let fret (xs : List Float32) : Json := .obj [("ret",encSingles xs)]
  let frows (k : String) (r c : Nat) := Recurrent.rowsOf c r (singles a k)
  let rows (k : String) := Recurrent.rowsOf (nat a "ncols") (nat a "nrows") (ints a k)
  let unroll := flag req "unroll"
  let fn := str req "fn"
  let bits := if fn.endsWith "8" then 8 else 16
  match fn with
  | "vector.add" =>
    ret (addVectors m 16 (n "scvec1") (n "scvec2") (n "scret") (n "demote") (vec "vec1")
      (vec "vec2"))
  | "vector.sub8" | "vector.sub16" =>
    ret (subVectors m bits (n "scvec1") (n "scvec2") (n "scret") (vec "vec1") (vec "vec2"))
  | "vector.mul8" | "vector.mul16" =>
    ret (mulVectors m bits (n "scvec1") (n "scvec2") (vec "vec1") (vec "vec2"))
  | "vector.sigmoid" =>
    ret ((vec "vec").map (sigmoid ⟨n "div",n "add",n "sigmoid_limit",n "scale_in",
      n "scale_out",n "use_tables" != 0⟩))
  | "vector.tanh" =>
    ret ((vec "vec").map (tanh ⟨n "scale_in",n "scale_out",n "use_tables" != 0⟩))
  | "scalar.add" =>
    ret (addScalar m 16 (n "scalar") (n "scscalar") (n "scvec") (n "scret") (vec "vec"))
  | "scalar.sub" =>
    ret (subFromScalar m 16 (n "scalar") (n "scscalar") (n "scvec") (n "scret") (vec "vec"))
  | "scalar.mul" =>
    ret (mulScalar m 16 (n "scalar") (n "scscalar") (n "scvec") (vec "vec"))
  | "vector.argmax" => ret [(argmax (vec "vec") : Int)]
  | "vector.up" => ret (scaleUp m 16 (n "scvec") (vec "vec"))
  | "vector.down" => ret (scaleDown m 16 (n "scvec") (vec "vec"))
  | "matrix.apply32" | "matrix.apply64" =>
    ret (mulVec m (if fn == "matrix.apply32" then 32 else 64) (n "scmat") (n "scvec") (n "H1")
      (rows "mat") ((ints a "vec").take (nat a "ncols")))
  | "matrix.sparse" =>
    ret (sparseMulVec m (n "scmat") (n "scvec") (n "H1")
      ⟨(ints a "row_indices").map Int.toNat,ints a "mat_values"⟩ (nat a "nrows")
        ((ints a "vec").take (nat a "ncols")))
  | "tensor.add8" | "tensor.add16" =>
    ret (addTensors m bits (n "scten1") (n "scten2") (n "scret") (ten "ten1") (ten "ten2"))
  | "tensor.bias8" | "tensor.bias16" =>
    ret (addBias m bits (n "scmat") (n "scvec") (n "scret") (ints a "vec") (positions a "ten"))
  | "tensor.rectify" => ret (rectify 8 (n "limit") (n "div") (ten "ten"))
  | "tensor.normalise" =>
    ret (normalise m (n "scale_in") (n "scale_out") (positions a "ten"))
  | "word.saturate" => value (saturate16 (n "inp"))
  | "word.clip" => value (clip (n "limit") (n "inp"))
  | "word.exp" => value (tableExp (n "inp") (n "scale"))
  | "real.min" => fvalue (Single.minOf (single a "a") (single a "b"))
  | "real.max" => fvalue (Single.maxOf (single a "a") (single a "b"))
  | "real.relu" => fvalue (Single.relu (single a "x"))
  | "real.sigmoid" => fvalue (Single.sigmoid (single a "x"))
  | "real.tanh" => fvalue (Single.hyperbolic (single a "x"))
  | "real.clippedTanh" => fvalue (Single.clippedTanh (single a "x"))
  | "real.clippedSigmoid" => fvalue (Single.clippedSigmoid (single a "x"))
  | "reals.relu" => fret ((fvec "vec").map Single.relu)
  | "reals.sigmoid" => fret ((fvec "vec").map Single.sigmoid)
  | "reals.tanh" => fret ((fvec "vec").map Single.hyperbolic)
  | "reals.roundedTanh" => fret ((fvec "vec").map Single.roundedTanh)
  | "reals.apply" =>
    let old := singles a "ret"
    let out := Single.matrixVector (single a "alpha") (single a "beta")
      (frows "mat" (nat a "nrows") (nat a "ncols"))
      ((singles a "vec").take (nat a "ncols")) old
    fret (Recurrent.fill old out)
  | "reals.combine" =>
      fret (Single.combine (single a "scalar1") (single a "scalar2") (fvec "vec1") (fvec "vec2"))
  | "reals.product" => fret (Single.product (fvec "vec1") (fvec "vec2"))
  | "reals.quotient" => fret (Single.quotient (fvec "vec1") (fvec "vec2"))
  | "reals.distance" =>
    let d := nat a "dim"
    fvalue (Single.squaredDistance ((singles a "vec1").take d) ((singles a "vec2").take d))
  | "reals.argmax" => value (Single.argmax (fvec "vec"))
  | "reals.softmax" => fret (Single.softmax (fvec "input"))
  | "reals.dense" =>
    let classes := nat a "numClasses"
    let l := nat a "inputLen"
    .obj [("scores",encSingles
      (Single.dense (frows "weights" classes l) ((singles a "bias").take classes)
        ((singles a "input").take l)))]
  | "tensor.convolve8" | "tensor.convolve16" | "tensor.convolveWide" =>
    let s := convShape a
    let words : ConvWords :=
      if fn == "tensor.convolve8" then .narrow
        else if fn == "tensor.convolve16" then .mixed else .wide
    let cells := s.batches*s.outHeight*s.outWidth*s.outChannels*s.groups
    match convolve? m words (n "scinput") (n "scoutput") (n "demote") s
        (arrayOf a "input") (arrayOf a "filter") (Array.replicate cells 0) with
    | some output => .obj [("output",encInts output.toList)]
    | none => .obj [("error",.str "no result")]
  | "bottleneck.8" => runBlock m ⟨32,16,8,8,fun _ => 0⟩ a
  | "bottleneck.8to16" => runBlock m ⟨32,32,16,16,fun c => if unroll then c % 4 else c⟩ a
  | "bottleneck.16to8" => runBlock m ⟨32,32,16,8,fun _ => 0⟩ a
  | "bottleneck.16by8" => runBlock m ⟨32,32,16,16,fun _ => 0⟩ a
  | "bottleneck.16" => runBlock m ⟨64,32,16,16,fun _ => 0⟩ a
  | _ => .obj [("error",.str ("unknown function "++fn))]

end MicroLearn.Request
