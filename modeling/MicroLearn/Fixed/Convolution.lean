import MicroLearn.Fixed.Word

/-!
# Convolution of images of words

Images are stored row by row with the channels of a pixel together. A filter is
stored by group, row, column, input channel and output channel. The filter is
anchored at its middle; pixels outside the image count as zero. Positions in an
image are signed; the places of cells in their buffers are computed in unsigned
words of 32 bits.
-/

set_option autoImplicit false

namespace MicroLearn.Fixed

structure ConvShape where
  batches : Nat
  height : Nat
  width : Nat
  inChannels : Nat
  filterHeight : Nat
  filterWidth : Nat
  filterChannels : Nat
  outChannels : Nat
  outHeight : Nat
  outWidth : Nat
  groups : Nat
  padUp : Int
  padDown : Int
  padLeft : Int
  padRight : Int
  strideH : Nat
  strideW : Nat
  dilationH : Nat
  dilationW : Nat
  deriving Repr, DecidableEq, Inhabited

structure ConvWords where
  acc : Nat
  out : Nat
  deriving Repr, DecidableEq, Inhabited

def ConvWords.narrow : ConvWords := ⟨32,8⟩

def ConvWords.mixed : ConvWords := ⟨32,16⟩

def ConvWords.wide : ConvWords := ⟨64,16⟩

def lowBits (x : Int) : Nat := (x.emod (Number.twoPow 32)).toNat

def steps (start stop : Int) (stride : Nat) : List Int :=
  (List.range (((stop-start).toNat+stride-1)/stride)).map fun i => start+(i*stride : Nat)

def anchors (size filter dilation : Nat) (padLow padHigh : Int) (stride : Nat) : List Int :=
  let low : Int := (dilation*((filter-1)/2) : Nat)-padLow
  let high : Int := (dilation*(filter/2) : Nat)-padHigh
  steps low (size-high) stride

namespace ConvShape

variable (s : ConvShape)

def inputIndex (n y x : Nat) : Nat := ((n*s.height+y)*s.width+x)*s.inChannels

def filterIndex (g a b k c : Nat) : Nat :=
  (((g*s.filterHeight+a)*s.filterWidth+b)*s.filterChannels+k)*s.outChannels+c

def outputIndex (n i j : Nat) : Nat :=
  ((n*s.outHeight+i)*s.outWidth+j)*(s.outChannels*s.groups)

def correlate (input filter : Array Int) (n g c : Nat) (h w : Int) : Int :=
  Number.sumOver s.filterHeight fun (a : Nat) =>
    let y := h+s.dilationH*((a : Int)-((s.filterHeight-1)/2 : Nat))
    if y < 0 ∨ y ≥ s.height then 0
    else
      Number.sumOver s.filterWidth fun (b : Nat) =>
        let x := w+s.dilationW*((b : Int)-((s.filterWidth-1)/2 : Nat))
        if x < 0 ∨ x ≥ s.width then 0
        else
          Number.sumOver s.filterChannels fun k =>
            input.getD (s.inputIndex n y.toNat x.toNat+g*s.filterChannels+k) 0 *
              filter.getD (s.filterIndex g a b k c) 0

def inputStart (n g : Nat) (y x : Int) : Nat :=
  let row : Int := (s.width*s.inChannels : Nat)
  lowBits (x*s.inChannels) +
    lowBits (y*row+((g*s.filterChannels : Nat)+(n : Int)*(s.height*row)))

def filterStart (g a b c : Nat) : Nat :=
  let tap := s.filterChannels*s.outChannels
  let row := s.filterWidth*tap
  lowBits (b*tap : Nat)+lowBits (a*row+g*(s.filterHeight*row)+c : Nat)

def outputStart (n i j g : Nat) : Nat :=
  let pixel := s.outChannels*s.groups
  let row := s.outWidth*pixel
  lowBits (g*s.outChannels : Nat)+lowBits (j*pixel+(i*row+n*(s.outHeight*row)) : Nat)

def correlate? (input filter : Array Int) (n g c : Nat) (h w : Int) : Option Int :=
  sumOver? s.filterHeight fun (a : Nat) =>
    let y := h+s.dilationH*((a : Int)-((s.filterHeight-1)/2 : Nat))
    if y < 0 ∨ y ≥ s.height then some 0
    else
      sumOver? s.filterWidth fun (b : Nat) =>
        let x := w+s.dilationW*((b : Int)-((s.filterWidth-1)/2 : Nat))
        if x < 0 ∨ x ≥ s.width then some 0
        else
          sumOver? s.filterChannels fun k => do
            return (← input[s.inputStart n g y x+k]?) *
              (← filter[s.filterStart g a b c+k*s.outChannels]?)

structure OutputCell where
  image : Nat
  row : Nat
  col : Nat
  group : Nat
  channel : Nat
  h : Int
  w : Int
  deriving Repr, DecidableEq, Inhabited

def cells : List OutputCell :=
  (List.range s.batches).flatMap fun n =>
    (anchors s.height s.filterHeight s.dilationH s.padUp s.padDown s.strideH).zipIdx.flatMap
      fun (h,i) =>
        (anchors s.width s.filterWidth s.dilationW s.padLeft s.padRight s.strideW).zipIdx.flatMap
          fun (w,j) =>
            (List.range s.groups).flatMap fun g =>
              (List.range s.outChannels).map fun c => ⟨n,i,j,g,c,h,w⟩

def stores? (m : Scaling) (words : ConvWords) (scale : Int) (input filter : Array Int) :
    Option (List (Nat × Int)) :=
  s.cells.mapM fun p => do
    let sum ← s.correlate? input filter p.image p.group p.channel p.h p.w
    let value ← m.down? (wrap words.acc sum) scale
    return (s.outputStart p.image p.row p.col p.group+p.channel,wrap words.out value)

end ConvShape

def applyStores (buffer : Array Int) (stores : List (Nat × Int)) : Array Int :=
  stores.foldl (fun b (i,v) => b.setIfInBounds i v) buffer

def applyStores? (buffer : Array Int) (stores : List (Nat × Int)) : Option (Array Int) :=
  stores.foldlM (fun b (i,v) => store? b i v) buffer

def convolve? (m : Scaling) (words : ConvWords) (scInput scOutput demote : Int) (s : ConvShape)
    (input filter output : Array Int) : Option (Array Int) := do
  applyStores? output
    (← s.stores? m words (m.join (m.join scInput scOutput) demote) input filter)

structure BottleneckShape where
  batches : Nat
  height : Nat
  width : Nat
  inChannels : Nat
  midChannels : Nat
  filterHeight : Nat
  filterWidth : Nat
  outChannels : Nat
  outHeight : Nat
  outWidth : Nat
  padUp : Int
  padDown : Int
  padLeft : Int
  padRight : Int
  strideH : Nat
  strideW : Nat
  deriving Repr, DecidableEq, Inhabited

/-- The widths of a layer's registers. Intermediate values are computed in 32 bits at least. -/
structure BottleneckWords where
  acc : Nat
  mid : Nat
  buffer : Nat
  out : Nat
  /-- How many channels of a row below the image are computed in 16 bits, from the end. -/
  narrowFill : Nat → Nat

structure AffineFilter where
  filter : Array Int
  scale : Array Int
  bias : Array Int
  deriving Inhabited

structure StageScale where
  leftSum : Int
  rightSum : Int
  leftOut : Int
  rightOut : Int
  deriving Repr, Inhabited

structure Bottleneck where
  shape : BottleneckShape
  words : BottleneckWords
  expand : AffineFilter
  expandScale : StageScale
  expandLimit : Int
  depth : AffineFilter
  depthScale : StageScale
  depthLimit : Int
  project : AffineFilter
  projectScale : StageScale

structure Buffers where
  ring : Cells
  pixel : Cells
  output : Array Int

namespace Bottleneck

variable (m : Scaling) (b : Bottleneck)

def affine (s : StageScale) (bias scale sum : Int) : Int :=
  let scaled := m.down (wrap b.words.acc (m.up (wrap b.words.acc sum) s.leftSum)) s.rightSum
  wrap 32 (wrap b.words.mid (scaled+bias)*scale)

def rescale (width : Nat) (s : StageScale) (x : Int) : Int :=
  wrap width (m.down (wrap 32 (m.up x s.leftOut)) s.rightOut)

def activate (s : StageScale) (limit bias scale sum : Int) : Int :=
  rescale m b.words.buffer s (clip limit (wrap b.words.mid (affine m b s bias scale sum)))

def activate? (f : AffineFilter) (s : StageScale) (limit sum : Int) (k : Nat) : Option Int := do
  return activate m b s limit (← f.bias[k]?) (← f.scale[k]?) sum

def rowCells : List (Nat × Nat) :=
  (List.range b.shape.width).flatMap fun x => (List.range b.shape.midChannels).map fun k => (x,k)

def expandedRow (input : Array Int) (n y : Nat) : Option (List Int) :=
  let s := b.shape
  b.rowCells.mapM fun (x,k) => do
    let sum ← sumOver? s.inChannels fun c => do
      return (← input[((n*s.height+y)*s.width+x)*s.inChannels+c]?) *
        (← b.expand.filter[c*s.midChannels+k]?)
    activate? m b b.expand b.expandScale b.expandLimit sum k

def filledRow : Option (List Int) :=
  let s := b.shape
  b.rowCells.mapM fun (_,k) => do
    let p := (← b.expand.bias[k]?)*(← b.expand.scale[k]?)
    let w :=
      if s.midChannels-b.words.narrowFill s.midChannels ≤ k then
        clip (wrap 16 b.expandLimit) (wrap 16 p)
      else clip b.expandLimit (wrap b.words.mid p)
    return rescale m b.words.buffer b.expandScale w

def storeRow (ring : Cells) (slot : Nat) (row : List (Option Int)) : Option Cells :=
  storeFrom? ring (slot*(b.shape.width*b.shape.midChannels)) row

def margin : Nat := ((b.shape.filterHeight : Int)-b.shape.padUp-b.shape.strideH).toNat

def prefill (input : Array Int) (n : Nat) (ring : Cells) : Option Cells :=
  (List.range b.margin).foldlM
    (fun r y => do storeRow b r y ((← expandedRow m b input n y).map some)) ring

/-- The rows that enter the ring before output row `i`; `below` is what is stored for a row below
the image. -/
def advance (below : Option (List (Option Int))) (input : Array Int) (n i : Nat) (ring : Cells) :
    Option Cells :=
  (List.range b.shape.strideH).foldlM (fun r d => do
    let y := d+b.margin+i*b.shape.strideH
    let row ← if y < b.shape.height then (expandedRow m b input n y).map (·.map some) else below
    storeRow b r (y % b.shape.filterHeight) row) ring

def depthSum (ring : Cells) (h w : Int) (g : Nat) : Option Int :=
  let s := b.shape
  sumOver? s.filterHeight fun (p : Nat) =>
    let y := h+((p : Int)-((s.filterHeight-1)/2 : Nat))
    if y < 0 ∨ y ≥ s.height then some 0
    else
      sumOver? s.filterWidth fun (q : Nat) =>
        let x := w+((q : Int)-((s.filterWidth-1)/2 : Nat))
        if x < 0 ∨ x ≥ s.width then some 0
        else do
          return (← ring.read? (((y.toNat % s.filterHeight)*s.width+x.toNat)*s.midChannels+g)) *
            (← b.depth.filter[(g*s.filterHeight+p)*s.filterWidth+q]?)

def depthwise (ring : Cells) (h w : Int) (pixel : Cells) : Option Cells :=
  (List.range b.shape.midChannels).foldlM (fun t g => do
    let sum ← depthSum b ring h w g
    store? t g (some (← activate? m b b.depth b.depthScale b.depthLimit sum g))) pixel

def projected (pixel : Cells) : Option (List Int) :=
  let s := b.shape
  (List.range s.outChannels).mapM fun o => do
    let sum ← sumOver? s.midChannels fun k => do
      return (← pixel.read? k)*(← b.project.filter[k*s.outChannels+o]?)
    return rescale m b.words.out b.projectScale
      (affine m b b.projectScale (← b.project.bias[o]?) (← b.project.scale[o]?) sum)

def outputPixel (n i : Nat) (h : Int) (t : Buffers) (anchor : Int × Nat) : Option Buffers := do
  let s := b.shape
  let pixel ← depthwise m b t.ring h anchor.1 t.pixel
  let values ← projected m b pixel
  let output ← storeFrom? t.output (((n*s.outHeight+i)*s.outWidth+anchor.2)*s.outChannels) values
  return ⟨t.ring,pixel,output⟩

def outputRow (below : Option (List (Option Int))) (input : Array Int) (n : Nat) (t : Buffers)
    (anchor : Int × Nat) : Option Buffers := do
  let s := b.shape
  let ring ← advance m b below input n anchor.2 t.ring
  (anchors s.width s.filterWidth 1 s.padLeft s.padRight s.strideW).zipIdx.foldlM
    (outputPixel m b n anchor.2 anchor.1) { t with ring }

def image (below : Option (List (Option Int))) (input : Array Int) (t : Buffers) (n : Nat) :
    Option Buffers := do
  let s := b.shape
  let ring ← prefill m b input n t.ring
  (anchors s.height s.filterHeight 1 s.padUp s.padDown s.strideH).zipIdx.foldlM
    (outputRow m b below input n) { t with ring }

def run (input : Array Int) (t : Buffers) : Option (Array Int) := do
  let below := (filledRow m b).map (·.map some)
  let t ← (List.range b.shape.batches).foldlM (image m b below input) t
  return t.output

end Bottleneck

end MicroLearn.Fixed
