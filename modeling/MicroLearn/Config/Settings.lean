import MicroLearn.Text.Json

/-!
# Training configurations

A configuration has fields, and groups of fields under names of their own. Fields
can be set one at a time, merged from a JSON object, read from a file and written
to one.
-/

set_option autoImplicit false

namespace MicroLearn.Config

open Text (Json)

inductive Setting where
  | value (j : Json)
  /-- a sequence that stays one: only sequences can take its place -/
  | row (items : List Json)
  | group (fields : List (String × Setting))
  deriving Inhabited

abbrev Fields := List (String × Setting)

def unset : Setting := .value .null
def text (s : String) : Setting := .value (.str s)
def whole (n : Int) : Setting := .value (.int n)
def real (x : Float) : Setting := .value (.float x)
def truth (b : Bool) : Setting := .value (.bool b)

def modelFields : Fields := [
  ("architecture",text "FastGRNN"), ("num_layers",whole 1),
  ("hidden_units",unset), ("hidden_units1",unset), ("hidden_units2",unset), ("hidden_units3",unset),
  ("filename",text ""),
  ("wRank",unset), ("uRank",unset), ("wRank1",unset), ("uRank1",unset),
  ("wRank2",unset), ("uRank2",unset), ("wRank3",unset), ("uRank3",unset),
  ("gate_nonlinearity",text "sigmoid"), ("update_nonlinearity",text "tanh")]

def datasetFields : Fields := [
  ("name",text "speechcommandsv01"), ("featurizer",text "featurizer_mel_16000_512_512_80_40_log"),
  ("categories",text "categories.txt"), ("path",text ""),
  ("auto_scale",truth false), ("normalize",truth false)]

def optimizerFields : Fields := [
  ("weight_decay",real 1e-5), ("momentum",real 0.9), ("centered",truth false), ("alpha",whole 0),
  ("eps",real 1e-8), ("rho",whole 0), ("lr_decay",whole 0),
  ("betas",.row [.float 0.9, .float 0.999]), ("lambd",real 0.0001), ("t0",real 1000000.0),
  ("etas",.row [.float 0.5, .float 1.2]), ("dampening",whole 0),
  ("step_sizes",.row [.float 1e-06, .int 50]), ("nesterov",truth true)]

def trainingFields : Fields := [
  ("max_epochs",whole 30), ("learning_rate",real 1e-2), ("lr_scheduler",unset),
  ("lr_peaks",whole 1),
  ("lr_min",real 1e-5), ("lr_gamma",whole 1), ("lr_step_size",whole 1), ("batch_size",whole 128),
  ("optimizer",text "SGD"), ("optimizer_options",.group optimizerFields), ("use_gpu",truth false),
  ("rolling",truth false), ("max_rolling_length",whole 100), ("decay_step",whole 200),
  ("decay_rate",real 0.1)]

def fresh : Fields := [
  ("name",text ""), ("description",text ""), ("folder",unset),
  ("model",.group modelFields), ("dataset",.group datasetFields),
  ("training",.group trainingFields),
  ("job_id",unset), ("status",unset), ("downloaded",truth false), ("last_modified",whole 0),
  ("retries",whole 0), ("filename",unset), ("sweep",unset)]

mutual

def shown : Json → String
  | .null => "None"
  | .bool b => if b then "True" else "False"
  | .int n => toString n
  | .float x => Number.floatText x
  | .str s => Text.quoted s
  | .arr [] => "[]"
  | .arr (v::vs) => "["++shown v++shownItems vs++"]"
  | .obj [] => "\x7b\x7d"
  | .obj ((k,v)::es) => "\x7b"++Text.quoted k++": "++shown v++shownEntries es++"\x7d"

def shownItems : List Json → String
  | [] => ""
  | v::vs => ", "++shown v++shownItems vs

def shownEntries : List (String × Json) → String
  | [] => ""
  | (k,v)::es => ", "++Text.quoted k++": "++shown v++shownEntries es

end

def asText : Json → String
  | .str s => s
  | j => shown j

def asInteger : Json → Except Fault Int
  | .int n => .ok n
  | .bool b => .ok (if b then 1 else 0)
  | .float x => Number.integerPart x
  | .str s =>
    match Number.readInt? s with
    | some n => .ok n
    | none => .error (.notInteger s)
  | _ => .error .wrongKind

def asReal : Json → Except Fault Float
  | .int n => .ok (Number.floatOfInt n)
  | .bool b => .ok (if b then 1.0 else 0.0)
  | .float x => .ok x
  | .str s =>
    match Number.readFloat? s with
    | some x => .ok x
    | none => .error (.notReal s)
  | _ => .error .wrongKind

/-- Sets a field. A field that holds a text takes the text of the value. Where a number stands the
value has to be readable as one, and is then taken as it is. -/
def set (name : String) (v : Json) (fs : Fields) : Except Fault Fields :=
  match fs.lookup name with
  | some (.value (.int _)) => do
    discard (asInteger v)
    return Json.put name (.value v) fs
  | some (.value (.float _)) => do
    discard (asReal v)
    return Json.put name (.value v) fs
  | some (.value (.str _)) => .ok (Json.put name (text (asText v)) fs)
  | _ => .ok (Json.put name (.value v) fs)

def itemsOf? : Json → Option (List Json)
  | .arr items => some items
  | .str s => some (s.toList.map fun c => .str (String.ofList [c]))
  | _ => none

mutual

def mergeValue (t : Setting) : Json → Setting × Option Fault
  | .obj es =>
    match t with
    | .group fs =>
      let (fs,fault) := mergeFields fs es
      (.group fs,fault)
    | _ => (t,if es.isEmpty then none else some .missingField)
  | .null => mergePlain t .null
  | .bool b => mergePlain t (.bool b)
  | .int n => mergePlain t (.int n)
  | .float x => mergePlain t (.float x)
  | .str s => mergePlain t (.str s)
  | .arr items => mergePlain t (.arr items)

def mergePlain (t : Setting) (v : Json) : Setting × Option Fault :=
  match t with
  | .row _ =>
    match itemsOf? v with
    | some items => (.row items,none)
    | none => (t,some .wrongKind)
  | _ => (.value v,none)

def mergeFields (fs : Fields) : List (String × Json) → Fields × Option Fault
  | [] => (fs,none)
  | (k,v)::rest =>
    match fs.lookup k with
    | none => mergeFields (fs++[(k,.value v)]) rest
    | some t =>
      match mergeValue t v with
      | (t,none) => mergeFields (Json.put k t fs) rest
      | (t,some fault) => (Json.put k t fs,some fault)

end

variable (fs : Fields)

def merge : Json → Fields × Option Fault
  | .obj es => mergeFields fs es
  | .arr [] | .str "" => (fs,none)
  | .arr (v::rest) =>
    let reached (n : Int) := decide (-(rest.length+1 : Int) ≤ n) && decide (n < rest.length+1)
    match v with
    | .int n => (fs,some (if reached n then .wrongKind else .outOfRange))
    | .bool b => (fs,some (if !b || reached 1 then .wrongKind else .outOfRange))
    | _ => (fs,some .wrongKind)
  | _ => (fs,some .wrongKind)

mutual

def Setting.toJson : Setting → Json
  | .value j => j
  | .row items => .arr items
  | .group fs => .obj (fieldsToJson fs)

def fieldsToJson : List (String × Setting) → List (String × Json)
  | [] => []
  | (k,t)::rest => (k,t.toJson)::fieldsToJson rest

end

def toJson : Json := .obj (fieldsToJson fs)

def insertSorted (e : String × Json) : List (String × Json) → List (String × Json)
  | [] => [e]
  | x::rest => if e.1 < x.1 then e::x::rest else x::insertSorted e rest

mutual

def sorted : Json → Json
  | .arr items => .arr (sortedItems items)
  | .obj es => .obj (sortedEntries es)
  | .null => .null
  | .bool b => .bool b
  | .int n => .int n
  | .float x => .float x
  | .str s => .str s

def sortedItems : List Json → List Json
  | [] => []
  | v::vs => sorted v::sortedItems vs

def sortedEntries : List (String × Json) → List (String × Json)
  | [] => []
  | (k,v)::es => insertSorted (k,sorted v) (sortedEntries es)

end

def fileLayout : Json.Layout := ⟨some 2,",",": "⟩

def fileText : String := (sorted (toJson fs)).write fileLayout 0

/-- Writes a configuration to a file of a name, which it then carries. The model has to be a
group. -/
def save (name : String) (fs : Fields) : Fields × Except Fault String :=
  let fs := Json.put "filename" (text name) fs
  match fs.lookup "model" with
  | some (.group _) => (fs,.ok (fileText fs))
  | _ => (fs,.error .missingField)

def load (name content : String) (fs : Fields) : Fields × Option Fault :=
  match Json.parse? content with
  | none => (fs,some .unreadable)
  | some data =>
    match merge fs data with
    | (fs,none) => (Json.put "filename" (text name) fs,none)
    | (fs,fault) => (fs,fault)

def untouched : Fields := Json.put "last_modified" (whole 0) fs

inductive Step where
  | set (name : String) (v : Json)
  | merge (data : Json)
  | load (content : String)
  | save

inductive Outcome where
  | done
  | saved (text : String)
  | failed (f : Fault)

def hidden (action : String) (fs : Fields) : Bool := (fs.lookup action).isSome

def step : Step → Fields × Outcome
  | .set name v =>
    if hidden "set" fs then (fs,.failed .wrongKind)
    else match set name v fs with
      | .ok fs => (fs,.done)
      | .error f => (fs,.failed f)
  | .merge data =>
    match merge fs data with
    | (fs,none) => (fs,.done)
    | (fs,some f) => (fs,.failed f)
  | .load content =>
    if hidden "load" fs then (fs,.failed .wrongKind)
    else match load "c.json" content fs with
      | (fs,none) => (untouched fs,.done)
      | (fs,some f) => (fs,.failed f)
  | .save =>
    if hidden "save" fs then (fs,.failed .wrongKind)
    else match save "o.json" fs with
      | (fs,.ok text) => (untouched fs,.saved text)
      | (fs,.error f) => (fs,.failed f)

def run : List Step → Fields → Fields × List Outcome
  | [], fs => (fs,[])
  | s::rest, fs =>
    let (fs,o) := step fs s
    let (fs,os) := run rest fs
    (fs,o::os)

end MicroLearn.Config
