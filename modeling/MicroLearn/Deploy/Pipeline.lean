import MicroLearn.Deploy.Search
import MicroLearn.Deploy.Sketch
import MicroLearn.Lower.Compile
import MicroLearn.Model.Tree

/-!
# From model files to a sketch

The steps of a deployment on files: models are read from the input directory,
code and headers go to the scratch directory or to the sketch, and accuracies come
from the predictor's processes.
-/

set_option autoImplicit false

namespace MicroLearn.Deploy

open Model (Work)
open Model.Work

structure Runner where
  algorithm : String
  version : String
  dataset : String
  logDir : String
  home : String
  windows : Bool
  builder : String := "MSBuild.exe"

variable (p : Runner)

namespace Runner

def logged (log : String) (args : List String) : Work Bool := do
  create (p.logDir++"/"++log)
  let status ← start p.home args
  if status == 1 then
    say "FAILED!!\n\n"
    return false
  else
    say "success\n"
    return true

def buildCommand (windows : Bool) : List String :=
  if windows then
    [p.builder, "Predictor.vcxproj", "/t:Build", "/p:Configuration=Release", "/p:Platform=x64"]
  else ["make"]

def buildOn (windows : Bool) : Work Bool := do
  say "Build..."
  p.logged "msbuild.txt" (p.buildCommand windows)

def build : Work Bool := p.buildOn p.windows

def statsPath : String :=
  p.home++"output/"++p.algorithm++"-"++p.version++"/stats-"++p.dataset++".txt"

def firstNumber (text : String) : Except Fault Float :=
  match Text.lines text with
  | [] => .error .outOfRange
  | line::_ => Lang.readReal (Text.trim line)

def readStats : Work Float := do
  settle (firstNumber (← readText p.statsPath))

def runCommand (windows : Bool) : List String :=
  [if windows then "x64/Release/Predictor.exe" else "./Predictor", p.algorithm, p.version,
    p.dataset]

def executeOn (windows : Bool) : Work (Option Float) := do
  say "Execution..."
  if ← p.logged "exec.txt" (p.runCommand windows) then some <$> p.readStats else return none

def execute : Work (Option Float) := p.executeOn p.windows

def run : Work (Option Float) := do
  if ← p.build then p.execute else return none

end Runner

open Model (Work Desk)
open Number (Cell)

/-- Where a deployment works. The program of the model is given as a tree. -/
structure Site where
  algorithm : String
  modelDir : String
  trainPath : String
  testPath : String
  scratch : String
  outDir : String
  program : Lang.Tree
  windows : Bool := false

variable (s : Site)

variable (target : String)

namespace Site

def setup : Work Unit := do
  for name in Sketch.predictorSources do write (s.scratch++"/"++name) ""
  for (name,text) in Sketch.files do write (s.outDir++"/"++name) text

def outputs : Option (String × String) :=
  if target == "arduino" then some (s.outDir++"/input",s.outDir++"/input")
  else if target == "x86" then some (s.scratch++"/input",s.scratch)
  else none

def convert (version dataset target : String) : Work Bool := do
  say ("Generating input files for "++version++" "++dataset++" dataset...")
  match s.outputs target with
  | none => fail .requirement
  | some (dataDir,outDir) =>
    let task : Model.Task := {
      algorithm := s.algorithm
      version := version
      training := dataset == "training"
      arduino := target == "arduino"
      word := 16
      sparse := true
      dump := true
      modelDir := s.modelDir
      trainPath := s.trainPath
      testPath := s.testPath
      dataDir := dataDir
      outDir := outDir }
    let done ← succeeds (Model.convert task)
    if done then say "done\n\n"
    return done

def codePath : Option String :=
  if target == "arduino" then some (s.outDir++"/predict.cpp")
  else if target == "x86" then some (s.scratch++"/seedot_fixed.cpp")
  else none

def job (factor : Option Int) (profile : Option String) : Lower.Job where
  tree := s.program
  target := target
  algorithm := s.algorithm
  word := 16
  shift := .named "div"
  exp := .named "table"
  expBits := 6
  maxScale := factor
  profile := profile

def generate (factor : Option Int) : Work Unit := do
  let _ ← readText (s.scratch++"/input.sd")
  match s.codePath target with
  | none => fail .unassigned
  | some path =>
    let profile := (← get).files.lookup
      (s.scratch++"/output/"++s.algorithm++"-float/profile.txt")
    let out := Lower.compile (s.job target factor profile)
    match out.code, out.fault with
    | some code, _ => write path code
    | none, some (.writing,f) =>
      create path
      fail f
    | none, some (_,f) => fail f
    | none, none => fail .requirement

def compile (factor : Option Int) : Work Bool := do
  say "Generating code..."
  let done ← succeeds (s.generate target factor)
  say (if done then "completed\n" else "failed!\n\n")
  return done

def runner (version dataset : String) : Runner where
  algorithm := s.algorithm
  version := version
  dataset := dataset
  logDir := s.scratch++"/output/"++s.algorithm++"-"++version
  home := s.scratch++"/"
  windows := s.windows

def predict (version dataset : String) : Work (Option Cell) := do
  return (← (s.runner version dataset).run).map .real

def copyFloatCode (algorithm : String) : Work Unit :=
  match Sketch.floatCode? algorithm with
  | some text => write (s.outDir++"/predict.cpp") text
  | none => fail .missingFile

def percentText (a : Cell) : String := Number.fixedText 3 a.toFloat

def cellText : Cell → String
  | .int n => toString n
  | .real x => (Number.Binary.ofFloat x).text

def steps : Steps Desk Cell where
  setup := s.setup
  convert := s.convert
  compile := s.compile
  predict := s.predict
  copyHeader name := copy (s.outDir++"/input/"++name) (s.outDir++"/model.h")
  copyFloatCode := s.copyFloatCode
  say := say
  percent := percentText
  shown := cellText

end Site

inductive Call where
  | setup
  | convert (version dataset target : String)
  | compile (target : String) (factor : Option Int)
  | predict (version dataset : String)
  deriving Repr, DecidableEq, Inhabited

structure Prospect where
  compiles : Bool
  accuracy : Option Cell

structure Script where
  prospects : List (Int × Prospect)
  floatAccuracy : Option Cell

structure Rehearsal where
  conversions : List Bool
  lastCompiled : Option Int := none
  calls : List Call := []
  copied : List String := []
  said : String := ""

namespace Script

def prospect (s : Script) (factor : Option Int) : Option Prospect :=
  factor.bind fun n => s.prospects.lookup n

def note (c : Call) : Act Rehearsal Unit := modify fun r => { r with calls := r.calls++[c] }

def convert (version dataset target : String) : Act Rehearsal Bool := do
  note (.convert version dataset target)
  let r ← get
  set { r with conversions := r.conversions.drop 1 }
  return r.conversions.headD true

def compile (s : Script) (target : String) (factor : Option Int) : Act Rehearsal Bool := do
  note (.compile target factor)
  modify fun r => { r with lastCompiled := factor }
  if target == "arduino" then return true
  return ((s.prospect factor).map (·.compiles)).getD false

def predict (s : Script) (version dataset : String) : Act Rehearsal (Option Cell) := do
  note (.predict version dataset)
  if version == "float" then return s.floatAccuracy
  return (s.prospect (← get).lastCompiled).bind (·.accuracy)

def receive (name : String) : Act Rehearsal Unit :=
  modify fun r => { r with copied := if r.copied.contains name then r.copied else r.copied++[name] }

def headers : List String :=
  ["bonsai_float_model.h", "protonn_float_model.h", "seedot_fixed_model.h"]

def steps (s : Script) : Steps Rehearsal Cell where
  setup := note .setup
  convert := convert
  compile := s.compile
  predict := s.predict
  copyHeader name := if headers.contains name then receive "model.h" else throw .missingFile
  copyFloatCode algorithm :=
    if (Sketch.floatCode? algorithm).isSome then receive "predict.cpp" else throw .missingFile
  say text := modify fun r => { r with said := r.said++text }
  percent := Site.percentText
  shown := Site.cellText

end Script

end MicroLearn.Deploy
