import MicroLearn.Options.Parse

/-!
# The command line of a deployment

Options, the checks of the paths they name, and the choice of the build tool.
-/

set_option autoImplicit false

namespace MicroLearn.Deploy

open Options (Opt Value)

def options : List Opt :=
  [{ flags := ["-a", "--algo"], dest := "algo", choices := ["bonsai", "protonn"] },
    { flags := ["--train"], dest := "train", required := true },
    { flags := ["--test"], dest := "test", required := true },
    { flags := ["--model"], dest := "model", required := true },
    { flags := ["--tempdir"], dest := "tempdir" },
    { flags := ["-o", "--outdir"], dest := "outdir" }]

def buildTools : List String :=
  ["Community", "Enterprise", "Professional"].map fun edition =>
    "C:\\Program Files (x86)\\Microsoft Visual Studio\\2017\\"++edition ++
      "\\MSBuild\\15.0\\Bin\\MSBuild.exe"

structure Arguments where
  algorithm : Option String
  train : String
  test : String
  model : String
  scratch : Option String
  out : Option String
  deriving Inhabited

def textOf : Option Value → Option String
  | some (.text s) => some s
  | _ => none

def readArguments (argv : List String) : Except Fault Arguments :=
  match Options.parse options argv with
  | .error .help => .error (.exit 0)
  | .error (.mistake _) => .error (.exit 2)
  | .ok vs =>
    let text (k : String) := textOf (vs.lookup k)
    .ok ⟨text "algo",(text "train").getD "",(text "test").getD "",(text "model").getD "",
      text "tempdir",text "outdir"⟩

def pathParts (path : String) : List String :=
  (Text.fields "/" path).filter fun p => !p.isEmpty && p != "."

structure Places where
  files : List String
  dirs : List String

def Places.isFile (p : Places) (path : String) : Bool :=
  !path.isEmpty && !path.endsWith "/" && p.files.any fun f => pathParts f == pathParts path

def Places.isDir (p : Places) (path : String) : Bool :=
  let parts := pathParts path
  !path.isEmpty && (p.dirs.any (fun d => parts.isPrefixOf (pathParts d)) ||
    p.files.any (fun f => parts.isPrefixOf (pathParts f) && parts.length < (pathParts f).length) ||
    parts.isEmpty)

def below (dir name : String) : String := if dir.endsWith "/" then dir++name else dir++"/"++name

structure Session where
  places : Places
  windows : Bool
  tools : List String
  arguments : Option Arguments := none
  scratch : Option String := none
  out : Option String := none
  tool : Option String := none
  deployed : List Arguments := []
  said : String := ""

abbrev Shell := ExceptT Fault (StateM Session)

namespace Shell

def settle {α : Type} (e : Except Fault α) : Shell α := ExceptT.mk (pure e)

def check (ask : Places → Bool) : Shell Unit := do
  settle (demand (ask (← get).places))

/-- Reads the arguments and checks that the paths they name are there. A scratch directory has to be
named, unless one is given as `fallback`. -/
def parse (fallback : String) (argv : List String) : Shell Unit := do
  let a ← settle (readArguments argv)
  modify fun s => { s with arguments := some a }
  check (·.isFile a.train)
  check (·.isFile a.test)
  check (·.isDir a.model)
  let scratch ← match a.scratch with
    | some dir => do
      check (·.isDir dir)
      pure dir
    | none => pure fallback
  modify fun s => { s with scratch := some scratch }
  let out ← match a.out with
    | some dir => do
      check (·.isDir dir)
      pure dir
    | none => do
      let dir := below scratch "arduino"
      modify fun s => { s with places := { s.places with dirs := s.places.dirs++[dir] } }
      pure dir
  modify fun s => { s with out := some out }

def chooseTool : Shell Unit := do
  let s ← get
  match (s.tools.filter s.places.isFile).getLast? with
  | some tool => set { s with tool := some tool }
  | none => throw (.failure ("Msbuild.exe not found at the following locations:\n[" ++
      Text.join ", " (s.tools.map Text.quoted)++"]\nPlease change the path and run again"))

def banner (a : Arguments) : String :=
  "\n================================\nExecuting on "++a.algorithm.getD "None" ++
    " for Arduino\n--------------------------------\nTrain file: "++a.train++"\nTest file: " ++
    a.test++"\nModel directory: "++a.model++"\n================================\n\n"

def begin : Shell Unit := do
  if (← get).windows then chooseTool
  match (← get).arguments with
  | none => throw .missingField
  | some a => modify fun s => { s with said := s.said++banner a, deployed := s.deployed++[a] }

end Shell

end MicroLearn.Deploy
