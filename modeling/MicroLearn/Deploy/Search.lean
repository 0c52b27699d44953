import MicroLearn.Lower.State

/-!
# Searching for the best scale factor

Generated code depends on a scale factor. The search compiles and runs the code
for one factor after another and keeps the one with the best accuracy. What it
does outside its own bookkeeping is a record of steps, so that it can be run
against files and processes or against a script.
-/

set_option autoImplicit false

namespace MicroLearn.Deploy

abbrev Act (σ : Type) := ExceptT Fault (StateM σ)

structure Steps (σ α : Type) where
  setup : Act σ Unit
  convert : String → String → String → Act σ Bool
  compile : String → Option Int → Act σ Bool
  predict : String → String → Act σ (Option α)
  copyHeader : String → Act σ Unit
  copyFloatCode : String → Act σ Unit
  say : String → Act σ Unit
  percent : α → String
  shown : α → String

structure Plan where
  algorithm : String
  version : String
  target : String
  outName : String

structure Ledger (α : Type) where
  factor : Option Int
  accuracy : List (Option Int × α) := []
  testing : Option α := none

abbrev Run (σ α : Type) := ExceptT Fault (StateM (Ledger α × σ))

section

variable {σ α : Type}

def outside {β : Type} (x : Act σ β) : Run σ α β :=
  ExceptT.mk fun (l,w) =>
    let (r,w') := x.run w
    (r,(l,w'))

def ledger : Run σ α (Ledger α) := do return (← get).1

def update (f : Ledger α → Ledger α) : Run σ α Unit := modify fun (l,w) => (f l,w)

def report (st : Steps σ α) (text : String) : Run σ α Unit := outside (st.say (text++"\n"))

inductive Trial where
  | notCompiled
  | notRun
  | ran
  deriving Repr, DecidableEq, Inhabited

def tryOnce (st : Steps σ α) (version dataset target : String) (factor : Option Int) :
    Run σ α Trial := do
  if !(← outside (st.compile target factor)) then return .notCompiled
  match ← outside (st.predict version dataset) with
  | none => return .notRun
  | some a =>
    update fun l => { l with accuracy := Lower.put factor a l.accuracy }
    report st ("Accuracy is "++st.percent a++"%\n")
    return .ran

def factors : List Int := (List.range 16).map fun (k : Nat) => -(k : Int)

/-- Tries factors. The window of usable ones starts with the first success and ends with the next
failure; the result tells whether there was one, and is missing if the predictor failed. -/
def tryFactors (st : Steps σ α) : List Int → Bool → Run σ α (Option Bool)
  | [], found => return some found
  | i::rest, found => do
    report st ("Testing with max scale factor of "++toString i)
    match ← tryOnce st "fixed" "training" "x86" (some i) with
    | .notRun => return none
    | .ran => tryFactors st rest true
    | .notCompiled => if found then return some true else tryFactors st rest false

def byAccuracy [LT α] [DecidableLT α] (table : List (Option Int × α)) : List (Option Int × α) :=
  table.mergeSort fun a b => !decide (a.2 < b.2)

def factorText : Option Int → String
  | some n => toString n
  | none => "None"

def bestFactor [LT α] [DecidableLT α] (st : Steps σ α) : Run σ α (Option Int) := do
  let best := (byAccuracy (← ledger).accuracy).take 5
  report st ("\x7b"++Text.join ", " (best.map fun (k,a) => factorText k++": "++st.shown a) ++
    "\x7d")
  match best with
  | (k,_)::_ => return k
  | [] => throw .exhausted

def searchFactors [LT α] [DecidableLT α] (st : Steps σ α) : Run σ α Bool := do
  match ← tryFactors st factors false with
  | some true =>
    report st "\nSearch completed\n"
    report st "----------------------------------------------"
    report st "Best performing scaling factors with accuracy:"
    let k ← bestFactor st
    update fun l => { l with factor := k }
    return true
  | _ => return false

def factorNumber : Run σ α Int := do
  match (← ledger).factor with
  | some n => return n
  | none => throw .wrongKind

def findBestFactor [LT α] [DecidableLT α] (st : Steps σ α) : Run σ α Bool := do
  report st "-------------------------------------------------"
  report st "Performing search to find the best scaling factor"
  report st "-------------------------------------------------\n"
  if !(← outside (st.convert "fixed" "training" "x86")) then return false
  if !(← searchFactors st) then return false
  let n ← factorNumber
  report st ("Best scaling factor = "++toString n)
  return true

def runOnTesting (st : Steps σ α) : Run σ α Bool := do
  report st "\n-------------------------------"
  report st "Prediction on testing dataset"
  report st "-------------------------------\n"
  let n ← factorNumber
  report st ("Setting max scaling factor to "++toString n++"\n")
  if !(← outside (st.convert "fixed" "testing" "x86")) then return false
  let _ ← tryOnce st "fixed" "testing" "x86" (some n)
  return true

def collectProfile (st : Steps σ α) : Run σ α Bool := do
  report st "-----------------------"
  report st "Collecting profile data"
  report st "-----------------------"
  if !(← outside (st.convert "float" "training" "x86")) then return false
  match ← outside (st.predict "float" "training") with
  | none => return false
  | some a =>
    report st ("Accuracy is "++st.percent a++"%\n")
    return true

def compileForDevice (st : Steps σ α) (p : Plan) : Run σ α Bool := do
  report st "------------------------------"
  report st ("Generating code for "++p.target++"...")
  report st "------------------------------\n"
  if !(← outside (st.convert "fixed" "testing" p.target)) then return false
  outside (st.copyHeader "seedot_fixed_model.h")
  let l ← ledger
  outside (st.compile p.target l.factor)

def enteredAccuracy : Run σ α α := do
  let l ← ledger
  match l.accuracy.lookup l.factor with
  | some a => return a
  | none => throw (match l.factor with
    | some n => .unknownNumber n
    | none => .unknownName "None")

def deployFixed [LT α] [DecidableLT α] (st : Steps σ α) (p : Plan) : Run σ α Bool := do
  if p.algorithm == "protonn" then
    if !(← collectProfile st) then return false
  if (← ledger).factor.isNone then
    if !(← findBestFactor st) then return false
  if !(← runOnTesting st) then return false
  let a ← enteredAccuracy
  update fun l => { l with testing := some a }
  let _ ← compileForDevice st p
  report st ("\nArduino sketch dumped in the folder "++p.outName++"\n")
  return true

def deployFloat (st : Steps σ α) (p : Plan) : Run σ α Bool := do
  report st "---------------------------"
  report st "Executing for X86 target..."
  report st "---------------------------\n"
  if !(← outside (st.convert "float" "testing" "x86")) then return false
  match ← outside (st.predict "float" "testing") with
  | none => return false
  | some a =>
    update fun l => { l with testing := some a }
    report st ("Accuracy is "++st.percent a++"%\n")
    report st "------------------------------"
    report st "Generating code for Arduino..."
    report st "------------------------------\n"
    if !(← outside (st.convert "float" "testing" "arduino")) then return false
    outside (st.copyHeader (p.algorithm++"_float_model.h"))
    outside (st.copyFloatCode p.algorithm)
    return true

def deploy [LT α] [DecidableLT α] (st : Steps σ α) (p : Plan) : Run σ α Bool := do
  outside st.setup
  if p.version == "fixed" then deployFixed st p else deployFloat st p

end

end MicroLearn.Deploy
