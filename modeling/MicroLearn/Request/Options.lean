import MicroLearn.Request.Basic
import MicroLearn.Options.Parse

/-!
# Requests about command lines of training programs
-/

set_option autoImplicit false

namespace MicroLearn.Request

open Text (Json)

def encValue : Options.Value → Json
  | .absent => .null
  | .text s => .str s
  | .int n => .int n
  | .real x => rounded 12 x
  | .bool b => .bool b

def trainerOf : String → Option Options.Trainer
  | "tree" => some (.tree false)
  | "regressionTree" => some (.tree true)
  | "cell" => some (.cell false)
  | "batchCell" => some (.cell true)
  | "prototype" => some .prototype
  | "stacked" => some .stacked
  | _ => none

def trainingOptions (req : Json) : Answer :=
  let lists := do
    let t ← trainerOf (str req "helper")
    match str req "fn" with
    | "options" => some t.options
    | "quantizing" => t.quantizing?
    | _ => none
  let refused (code : Nat) (text : String) : Answer :=
    .record [("stderr",.text text)] (some (.exit code))
  match lists with
  | none => .fault .missingField
  | some opts =>
    match Options.parse opts (texts req "argv") with
    | .ok values => .ofFields [("args",.obj (values.map fun (k,v) => (k,encValue v)))]
    | .error .help => refused 0 ""
    | .error (.mistake m) => refused 2 ("prog: error: "++m)

end MicroLearn.Request
