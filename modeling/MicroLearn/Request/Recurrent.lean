import MicroLearn.Request.Kernel
import MicroLearn.Fixed.GatedCell

/-!
# Requests for recurrent cells and pooling
-/

set_option autoImplicit false

namespace MicroLearn.Request

open Text (Json)

def isFixedCell (cell : String) : Bool := cell.startsWith "fixed"

def sumScale (s : Json) (l r o d : String) : Fixed.SumScale := ⟨int s l,int s r,int s o,int s d⟩

def fixedCell (cell : String) (sparse : Bool) (hidden input : Nat) (p s : Json) : Fixed.Cell :=
  let lowRank := cell == "fixed.lowRank"
  let n := int s
  let sum := sumScale s
  let narrow := cell == "fixed.narrow"
  let entriesOf (ids vals : String) : Fixed.SparseMatrix := ⟨(ints p ids).map Int.toNat,ints p vals⟩
  { inputBits := if narrow then 8 else 16
    inputAcc := if narrow then 32 else 64
    hiddenSize := hidden
    inputSize := input
    inputWeights :=
      if lowRank then
        .lowRank (nat p "wRank") ⟨n "W1",n "normFeaturesMVW1",n "H1W1"⟩
          ⟨n "W2",n "tempLRW",n "H1W2"⟩
      else if sparse then .sparse (entriesOf "Wids" "Wvals") ⟨n "W",n "normFeaturesMVW",n "H1W"⟩
      else .dense ⟨n "W",n "normFeaturesMVW",n "H1W"⟩
    stateWeights :=
      if lowRank then
        .lowRank (nat p "uRank") ⟨n "U1",n "hiddenStateMVU1",n "H1U1"⟩
          ⟨n "U2",n "tempLRU",n "H1U2"⟩
      else if sparse then .sparse (entriesOf "Uids" "Uvals") ⟨n "U",n "hiddenStateMVU",n "H1U"⟩
      else .dense ⟨n "U",n "hiddenStateMVU",n "H1U"⟩
    zeta := int p "sigmoid_zeta"
    nu := int p "sigmoid_nu"
    scales :=
      { subtractMean := sum "input" "mean" "meanSub" ""
        divideDeviation := ⟨n "stdDev",n "normFeaturesHDStdDev",0⟩
        merge :=
          if lowRank then sum "mV2AddMV4" "mV4AddMV2" "mV2AddMV4Out" "mV2AddMV4Demote"
          else sum "mV1AddMV2" "mV2AddMV1" "mV1AddMV2Out" "mV1AddMV2Demote"
        gateBias := sum "pC1AddBg" "Bg" "pC1AddBgOut" "pC1AddBgDemote"
        gate := ⟨n "div",n "add",n "sigmoidLimit",n "sigmoidScaleIn",n "sigmoidScaleOut",
          n "useTableSigmoid" != 0⟩
        updateBias := sum "pC1AddBh" "Bh" "pC1AddBhOut" "pC1AddBhDemote"
        update := ⟨n "tanhScaleIn",n "tanhScaleOut",n "useTableTanH" != 0⟩
        keep := ⟨n "gateHDHiddenState",n "hiddenStateHDGate",0⟩
        one := n "qOne"
        oneMinusGate := sum "qOneScale" "qOneSubGate" "qOneSubGateOut" ""
        zeta := ⟨n "sigmoidZeta",n "sigmoidZetaMulQOneSubGate",0⟩
        nu := sum "sigmoidNu" "sigmoidNuAddQOneSubGate" "sigmoidNuAddQOneSubGateOut" ""
        weigh := ⟨n "sigmoidNuAddQOneSubGateHDUpdate",n "updateHDSigmoidNuAddQOneSubGate",0⟩
        mix := sum "pC3AddPC1" "pC1AddPC3" "hiddenStateOut" "hiddenStateDemote" } }

def cellBuffers (cell : String) (hidden input : Nat) (p : Json) (state inputs : List Int) :
    List Fixed.Cells :=
  let lowRank := cell == "fixed.lowRank"
  let room : Fixed.Slot → Nat
    | .features => input
    | .lowInput => nat p "wRank"
    | .lowState => nat p "uRank"
    | _ => hidden
  Fixed.allocate room fun
    | .hidden => state
    | .input => inputs
    | .mean => ints p "mean"
    | .deviation => ints p "stdDev"
    | .inputInner => ints p "W1"
    | .inputOuter => ints p (if lowRank then "W2" else "W")
    | .stateInner => ints p "U1"
    | .stateOuter => ints p (if lowRank then "U2" else "U")
    | .gateBias => ints p "Bg"
    | .updateBias => ints p "Bh"
    | _ => []

def singleCell (cell : String) (hidden input : Nat) (p : Json) : Single.Cell :=
  let lowRank := cell == "single.lowRank"
  let rows (k : String) (r c : Nat) := Recurrent.rowsOf c r (singles p k)
  let perStep (k : String) :=
    Recurrent.rowsOf input (if input == 0 then 0 else (singles p k).length/input) (singles p k)
  { hiddenSize := hidden
    inputSize := input
    inputWeights :=
      if lowRank then .lowRank (rows "W1" (nat p "wRank") input) (rows "W2" hidden (nat p "wRank"))
      else .dense (rows "W" hidden input)
    stateWeights :=
      if lowRank then .lowRank (rows "U1" (nat p "uRank") hidden) (rows "U2" hidden (nat p "uRank"))
      else .dense (rows "U" hidden hidden)
    gateBias := singles p "Bg"
    updateBias := singles p "Bh"
    zeta := single p "sigmoid_zeta"
    nu := single p "sigmoid_nu"
    mean := perStep "mean"
    deviation := perStep "stdDev" }

def buffersOf (missing : List String) : Recurrent.Buffers :=
  let has (k : String) := !missing.contains k
  { preActivation := has "preComp" && has "preComp1" && has "preComp2" && has "preComp3"
    lowRankInput := has "tempLRW"
    lowRankState := has "tempLRU"
    features := has "normFeatures" }

def noAccess : Json := .obj [("error",.str "access outside a buffer")]

def cellRuns (req : Json) : Json :=
  let cell := str req "cell"
  let p := field req "params"
  let s := field req "scales"
  let hidden := nat req "hiddenDims"
  let input := nat req "inputDims"
  let code := (buffersOf (texts req "missing")).status
  let runs := items req "runs"
  let result (h : Json) : Json := .obj [("code",.int code), ("hidden",h)]
  let answers :=
    if isFixedCell cell then
      let c := fixedCell cell (flag req "sparse") hidden input p s
      let lay := Fixed.Layout.apart 0
      let (_,out) := runs.foldl (fun (state,out) r =>
        let mem : Fixed.Memory := ⟨(cellBuffers cell hidden input p state (ints r "input")).toArray⟩
        let state := if code == 0 then do
            let mem ← c.run (scaling req) (int r "normalize" != 0) (int r "backward" != 0)
              (nat r "steps") lay mem
            mem.vector (lay .hidden) hidden
          else some state
        (state.getD [],out++[(state.map fun h => result (encInts h)).getD noAccess]))
        (ints req "hidden",([] : List Json))
      out
    else
      let c := singleCell cell hidden input p
      let (_,out) := runs.foldl (fun (st,out) r =>
        let inputs := Recurrent.rowsOf input (nat r "steps") (singles r "input")
        let st := if code == 0 then c.run (int r "normalize" != 0) (int r "backward" != 0) st inputs
          else st
        (st,out++[result (encSingles st.2)]))
        ((c.scratch (nat p "wRank") (nat p "uRank"),singles req "hidden"),([] : List Json))
      out
  .obj [("runs",.arr answers)]

def pool (req : Json) : Json :=
  let c1 := field req "cell1"
  let c2 := field req "cell2"
  let h1 := nat req "hiddenDims1"
  let h2 := nat req "hiddenDims2"
  let input := nat req "inputDims"
  let dim := nat req "patchDim"
  let stride := nat req "stride"
  let sparse := flag req "sparse"
  let m := scaling req
  let out :=
    if isFixedCell (str c1 "cell") then
      let a := fixedCell (str c1 "cell") sparse h1 input (field c1 "params") (field c1 "scales")
      let b := fixedCell (str c2 "cell") sparse h2 h1 (field c2 "params") (field c2 "scales")
      let sh := ints req "shifts"
      let p : Fixed.Pool :=
        { inner := a, outer := b, chained := rfl, patchDim := dim, stride
          innerUp := sh.getD 1 0, innerDown := sh.getD 0 0, outerUp := sh.getD 3 0, outerDown :=
            sh.getD 2 0 }
      let lay := Fixed.PoolLayout.apart
      let mem := Fixed.allocatePool (ints req "patch") (h1*dim) (4*h2)
        (cellBuffers (str c1 "cell") h1 input (field c1 "params") [] [])
        (cellBuffers (str c2 "cell") h2 h1 (field c2 "params") [] [])
      ((p.run m lay mem).bind fun mem => mem.vector lay.output (4*h2)).map encInts
    else
      let a := singleCell (str c1 "cell") h1 input (field c1 "params")
      let b := singleCell (str c2 "cell") h2 h1 (field c2 "params")
      let ranks (p : Json) (c : Single.Cell) := c.scratch (nat p "wRank") (nat p "uRank")
      some (encSingles (Recurrent.pool 0 id id ⟨h1,a.run false⟩ ⟨h2,b.run false⟩
        (ranks (field c1 "params") a)
        (ranks (field c2 "params") b) input dim stride (singles req "patch")))
  (out.map fun v => .obj [("code",.int 0), ("output",v)]).getD noAccess

end MicroLearn.Request
