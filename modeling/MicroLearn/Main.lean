import MicroLearn.Deploy.CommandLine
import MicroLearn.Deploy.Sketch
import MicroLearn.Model.Tree

/-!
# The command line

Checks the options of a deployment against the files that are there and prepares
its sketch: the files of the device and the headers of the model. Building and
running the predictor is left to whoever has a compiler for it.
-/

set_option autoImplicit false

namespace MicroLearn.Deploy

def textIn? (path : String) : IO (Option String) := do
  try return some (← IO.FS.readFile path)
  catch _ => return none

def isThere (path : String) : IO Bool := do
  try
    let _ ← IO.FS.Handle.mk path .read
    return true
  catch _ => return false

def placesOf (a : Arguments) : IO Places := do
  let mut places : Places := ⟨[],[]⟩
  for path in [a.train, a.test, a.model]++a.scratch.toList++a.out.toList do
    if (← textIn? path).isSome then places := { places with files := places.files++[path] }
    else if ← isThere path then places := { places with dirs := places.dirs++[path] }
  return places

def modelParts : List String :=
  ["W", "B", "Z", "V", "T", "Theta", "Sigma", "Mean", "Std", "gamma", "minMaxParams"]

def textsFor (a : Arguments) : IO (List (String × String)) := do
  let mut texts : List (String × String) := []
  for path in [a.train, a.test]++modelParts.map (below a.model) do
    match ← textIn? path with
    | some text => texts := texts++[(path,text)]
    | none => pure ()
  return texts

def taskFor (a : Arguments) (out : String) : Model.Task where
  algorithm := a.algorithm.getD ""
  version := "fixed"
  training := false
  arduino := true
  word := 16
  sparse := true
  dump := true
  modelDir := a.model
  trainPath := a.train
  testPath := a.test
  dataDir := below out "input"
  outDir := below out "input"

def prepare (a : Arguments) (out : String) : IO UInt32 := do
  let desk : Model.Desk := { files := ← textsFor a }
  let (result,after) := (Model.convert (taskFor a out)).run desk
  IO.print after.said
  IO.FS.createDirAll (below out "input")
  for (name,text) in Sketch.files do IO.FS.writeFile (below out name) text
  for (path,text) in after.files do
    if (desk.files.lookup path).isNone then IO.FS.writeFile path text
  match result with
  | .ok _ => return 0
  | .error f => do
    IO.eprintln f.message
    return 1

def start (argv : List String) : IO UInt32 := do
  match readArguments argv with
  | .error (.exit n) => return n.toUInt32
  | .error _ => return 2
  | .ok a => do
    let session : Session := { places := ← placesOf a, windows := false, tools := buildTools }
    let (result,s) := ((do Shell.parse "." argv; Shell.begin) : Shell Unit).run session
    IO.print s.said
    match result, s.out with
    | .ok _, some out => prepare a out
    | _, _ => do
      IO.eprintln "A training set, a testing set, a model directory and the named directories have to be there."
      return 1

end MicroLearn.Deploy

def main (argv : List String) : IO UInt32 := MicroLearn.Deploy.start argv
