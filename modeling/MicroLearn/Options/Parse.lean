import MicroLearn.Lang.Expr

/-!
# Reading a command line

Words are options or values. A flag may be shortened as long as one flag remains
that starts with it, may be followed by `=` and its value, and a flag of one
letter may have its value right behind it. Every command line knows `-h` and
`--help`, which take no value.
-/

set_option autoImplicit false

namespace MicroLearn.Options

inductive Value where
  | absent
  | text (s : String)
  | int (n : Int)
  | real (x : Float)
  | bool (b : Bool)
  deriving Inhabited

inductive Kind where
  | text
  | integer
  | real
  | positiveInt
  | nonNegativeInt
  | positiveReal
  | nonNegativeReal
  | truth
  | nonEmpty
  deriving Repr, DecidableEq, Inhabited

def Kind.name : Kind → String
  | .text => "str"
  | .integer => "int"
  | .real => "float"
  | .positiveInt => "checkIntPos"
  | .nonNegativeInt => "checkIntNneg"
  | .positiveReal => "checkFloatPos"
  | .nonNegativeReal => "checkFloatNneg"
  | .truth => "str2bool"
  | .nonEmpty => "bool"

def yesWords : List String := ["yes", "true", "t", "y", "1"]

def noWords : List String := ["no", "false", "f", "n", "0"]

def readTruth (s : String) : Except Fault Bool :=
  if yesWords.contains (Text.lower s) then .ok true
  else if noWords.contains (Text.lower s) then .ok false
  else .error (.refused "Boolean value expected.")

def require (passes : Bool) (shown what : String) : Except Fault Unit :=
  if passes then .ok () else .error (.refused (shown++" is an invalid "++what++" value"))

def Value.toInt : Value → Except Fault Int
  | .text s => Lang.readInt s
  | .int n => .ok n
  | .real x => Number.integerPart x
  | .bool b => .ok (if b then 1 else 0)
  | .absent => .error .wrongKind

def Value.toReal : Value → Except Fault Float
  | .text s => Lang.readReal s
  | .int n => .ok (Number.floatOfInt n)
  | .real x => .ok x
  | .bool b => .ok (if b then 1.0 else 0.0)
  | .absent => .error .wrongKind

def Value.shown : Value → String
  | .text s => s
  | .int n => toString n
  | .real x => Number.floatText x
  | .bool b => if b then "True" else "False"
  | .absent => "None"

def Kind.check (k : Kind) (v : Value) : Except Fault Value :=
  match k with
  | .text => .ok (.text v.shown)
  | .integer => do return .int (← v.toInt)
  | .real => do return .real (← v.toReal)
  | .positiveInt => do
    let n ← v.toInt
    require (decide (0 < n)) v.shown "positive int"
    return .int n
  | .nonNegativeInt => do
    let n ← v.toInt
    require (decide (0 ≤ n)) v.shown "non-neg int"
    return .int n
  | .positiveReal => do
    let x ← v.toReal
    require (!decide (x ≤ 0.0)) v.shown "positive float"
    return .real x
  | .nonNegativeReal => do
    let x ← v.toReal
    require (!decide (x < 0.0)) v.shown "non-neg float"
    return .real x
  | .truth =>
    match v with
    | .text s => do return .bool (← readTruth s)
    | _ => .error .missingField
  | .nonEmpty =>
    .ok (.bool (match v with
      | .text s => !s.isEmpty
      | .int n => n != 0
      | .real x => x != 0.0
      | .bool b => b
      | .absent => false))

def Kind.read (k : Kind) (s : String) : Except Fault Value := k.check (.text s)

structure Opt where
  flags : List String
  dest : String
  kind : Kind := .text
  required : Bool := false
  initial : Value := .absent
  choices : List String := []
  deriving Inhabited

def Opt.title (o : Opt) : String := Text.join "/" o.flags

/-- Why a command line is not accepted: help was asked for, or there is a mistake in it. -/
inductive Refusal where
  | help
  | mistake (message : String)
  deriving Repr, DecidableEq, Inhabited

def Opt.mistake (o : Opt) (message : String) : Refusal :=
  .mistake ("argument "++o.title++": "++message)

def Opt.value (o : Opt) (s : String) : Except Refusal Value :=
  match o.kind.read s with
  | .error (.refused message) => .error (o.mistake message)
  | .error _ => .error (o.mistake ("invalid "++o.kind.name++" value: "++Text.quoted s))
  | .ok v =>
    if o.choices.isEmpty || o.choices.contains s then .ok v
    else .error (o.mistake ("invalid choice: "++Text.quoted s++" (choose from " ++
      Text.join ", " (o.choices.map Text.quoted)++")"))

inductive Target where
  | help
  | opt (o : Opt)
  deriving Inhabited

abbrev Flags := List (String × Target)

def flagsOf (opts : List Opt) : Flags :=
  [("-h",.help), ("--help",.help)] ++
    opts.flatMap fun o => o.flags.map fun f => (f,.opt o)

/-- A word as an option: the flag it names with what it stands for, if there is such a flag, and a
value in the same word; `glued` when no sign stands between the two. -/
structure Hit where
  flag : String
  target : Option Target
  value : Option String
  glued : Bool
  deriving Inhabited

def splitEquals (s : String) : String × Option String :=
  let front := s.toList.takeWhile (· != '=')
  match s.toList.drop front.length with
  | _::rest => (String.ofList front,some (String.ofList rest))
  | [] => (s,none)

def startsWith (word start : String) : Bool := start.toList.isPrefixOf word.toList

def isDecimal (c : Char) : Bool := (Text.digitValue? c).isSome

def isNegativeNumber (s : String) : Bool :=
  match s.toList with
  | '-'::ds =>
    let whole := ds.takeWhile isDecimal
    match ds.drop whole.length with
    | [] => !whole.isEmpty
    | '.'::fraction => !fraction.isEmpty && fraction.all isDecimal
    | _ => false
  | _ => false

def candidates (flags : Flags) (word : String) : List Hit :=
  if startsWith word "--" then
    let (front,value) := splitEquals word
    flags.filterMap fun (f,t) => if startsWith f front then some ⟨f,some t,value,false⟩ else none
  else
    let short := String.ofList (word.toList.take 2)
    let tail := String.ofList (word.toList.drop 2)
    flags.filterMap fun (f,t) =>
      if f == short then some ⟨f,some t,some tail,true⟩
      else if startsWith f word then some ⟨f,some t,none,false⟩
      else none

def hitOf (flags : Flags) (word : String) : Except Refusal (Option Hit) :=
  if !startsWith word "-" then .ok none
  else match flags.lookup word with
    | some t => .ok (some ⟨word,some t,none,false⟩)
    | none =>
      if word.length == 1 then .ok none
      else
        let (front,value) := splitEquals word
        match flags.lookup front, value with
        | some t, some v => .ok (some ⟨front,some t,some v,false⟩)
        | _, _ =>
          match candidates flags word with
          | [h] => .ok (some h)
          | [] =>
            if isNegativeNumber word || word.toList.contains ' ' then .ok none
            else .ok (some ⟨word,none,none,false⟩)
          | hs => .error (.mistake ("ambiguous option: "++word++" could match " ++
              Text.join ", " (hs.map (·.flag))))

def readWords (flags : Flags) : List String → Except Refusal (List (String × Option Hit))
  | [] => .ok []
  | "--"::rest => .ok (("--",none)::rest.map fun w => (w,none))
  | w::rest => do
    let h ← hitOf flags w
    return (w,h)::(← readWords flags rest)

def valueAhead : List (String × Option Hit) → Option String
  | (w,none)::_ => if w == "--" then none else some w
  | _ => none

/-- What one word asks for: flags that take no value first, then at most one that takes one. -/
structure Request where
  help : Bool
  setting : Option (Opt × String)
  extra : Option String
  usedNext : Bool

/-- Takes a word apart. The fuel is the length of the word: each turn but the last drops a
letter. -/
def takeApart (flags : Flags) (ahead : Option String) : Nat → Bool → Hit → Except Refusal Request
  | 0, help, _ => .ok ⟨help,none,none,false⟩
  | fuel+1, help, h =>
    match h.target with
    | none => .ok ⟨help,none,some h.flag,false⟩
    | some (.opt o) =>
      match h.value with
      | some v => .ok ⟨help,some (o,v),none,false⟩
      | none =>
        match ahead with
        | some v => .ok ⟨help,some (o,v),none,true⟩
        | none => .error (o.mistake "expected one argument")
    | some .help =>
      match h.value with
      | none => .ok ⟨true,none,none,false⟩
      | some v =>
        match v.toList with
        | c::rest =>
          if startsWith h.flag "--" || !h.glued || c == '-' then
            .error (.mistake ("argument -h/--help: ignored explicit argument "++Text.quoted v))
          else
            let flag := String.ofList ['-', c]
            match flags.lookup flag with
            | none => .ok ⟨true,none,some (String.ofList ('-'::c::rest)),false⟩
            | some t =>
              let next : Hit :=
                match rest with
                | [] => ⟨flag,some t,none,false⟩
                | '='::more => ⟨flag,some t,some (String.ofList more),false⟩
                | more => ⟨flag,some t,some (String.ofList more),true⟩
              takeApart flags ahead fuel true next
        | [] =>
          .error (.mistake ("argument -h/--help: ignored explicit argument "++Text.quoted v))

abbrev Values := List (String × Value)

def setValue (name : String) (v : Value) (vs : Values) : Values :=
  vs.map fun (k,old) => if k == name then (k,v) else (k,old)

structure Reading where
  values : Values
  seen : List String
  extras : List String

/-- Goes through the words; the fuel is their number. -/
def readAll (flags : Flags) :
    Nat → List (String × Option Hit) → Reading → Except Refusal Reading
  | 0, _, r => .ok r
  | _+1, [], r => .ok r
  | fuel+1, (w,none)::rest, r => readAll flags fuel rest { r with extras := r.extras++[w] }
  | fuel+1, (w,some h)::rest, r => do
    let q ← takeApart flags (valueAhead rest) (w.length+1) false h
    if q.help then throw .help
    let r := match q.extra with
      | some e => { r with extras := r.extras++[e] }
      | none => r
    match q.setting with
    | none => readAll flags fuel rest r
    | some (o,s) =>
      let v ← o.value s
      readAll flags fuel (if q.usedNext then rest.drop 1 else rest)
        { r with values := setValue o.dest v r.values, seen := o.dest::r.seen }

def parse (opts : List Opt) (argv : List String) : Except Refusal Values := do
  let flags := flagsOf opts
  let words ← readWords flags argv
  let r ← readAll flags words.length words ⟨opts.map fun o => (o.dest,o.initial),[],[]⟩
  let missing := opts.filter fun o => o.required && !r.seen.contains o.dest
  if !missing.isEmpty then
    throw (.mistake ("the following arguments are required: " ++
      Text.join ", " (missing.map Opt.title)))
  if !r.extras.isEmpty then
    throw (.mistake ("unrecognized arguments: "++Text.join " " r.extras))
  return r.values

variable (flags : List String) (dest : String)

def needed : Opt := ⟨flags,dest,.text,true,.absent,[]⟩

def texts (dest value : String) : Opt := ⟨flags,dest,.text,false,.text value,[]⟩

def optional (kind : Kind) : Opt :=
  ⟨flags,dest,kind,false,.absent,[]⟩

def count (value : Int) : Opt :=
  ⟨flags,dest,.positiveInt,false,.int value,[]⟩

def anyCount (value : Int) : Opt :=
  ⟨flags,dest,.nonNegativeInt,false,.int value,[]⟩

def whole (value : Int) : Opt :=
  ⟨flags,dest,.integer,false,.int value,[]⟩

def amount (value : Float) : Opt :=
  ⟨flags,dest,.positiveReal,false,.real value,[]⟩

def reals (value : Float) : Opt :=
  ⟨flags,dest,.real,false,.real value,[]⟩

def learningRate (value : Float) : Opt := amount ["-lr", "--learning-rate"] "learning_rate" value

def outputFile : Opt := optional ["-oF", "--output-file"] "output_file" .text

def treeTraining (regression : Bool) : List Opt := [
  needed ["-dir", "--data-dir"] "data_dir",
  anyCount ["-d", "--depth"] "depth" 2,
  count ["-p", "--proj-dim"] "proj_dim" 10,
  reals ["-s", "--sigma"] "sigma" 1.0,
  count ["-e", "--epochs"] "epochs" 42,
  optional ["-b", "--batch-size"] "batch_size" .positiveInt,
  learningRate 0.01,
  reals ["-rW"] "rW" 0.0001,
  reals ["-rV"] "rV" 0.0001,
  reals ["-rT"] "rT" 0.0001,
  reals ["-rZ"] "rZ" 0.00001,
  optional ["-sW"] "sW" .positiveReal,
  optional ["-sV"] "sV" .positiveReal,
  optional ["-sT"] "sT" .positiveReal,
  amount ["-sZ"] "sZ" 0.2,
  outputFile] ++
  if regression then [⟨["-regression"],"regression",.truth,false,.bool false,[]⟩] else []

def cellTraining (batchFirst : Bool) : List Opt := [
  needed ["-dir", "--data-dir"] "data_dir",
  texts ["-c", "--cell"] "cell" "FastGRNN",
  ⟨["-id", "--input-dim"],"input_dim",.nonNegativeInt,true,.absent,[]⟩] ++
  (if batchFirst then [⟨["-bf", "--batch_first"],"batch_first",.nonEmpty,false,.bool false,[]⟩]
  else [])++[ ⟨["-hd", "--hidden-dim"],"hidden_dim",.nonNegativeInt,true,.absent,[]⟩,
  count ["-e", "--epochs"] "epochs" 300,
  count ["-b", "--batch-size"] "batch_size" 100,
  learningRate 0.01,
  optional ["-rW", "--wRank"] "wRank" .positiveInt,
  optional ["-rU", "--uRank"] "uRank" .positiveInt,
  amount ["-sW"] "sW" 1.0,
  amount ["-sU"] "sU" 1.0,
  texts ["-unl", "--update-nl"] "update_nl" "tanh",
  texts ["-gnl", "--gate-nl"] "gate_nl" "sigmoid",
  count ["-dS", "--decay-step"] "decay_step" 200,
  amount ["-dR", "--decay-rate"] "decay_rate" 0.1,
  outputFile]

def quantization (scalars : Bool) : List Opt := [
  needed ["-dir", "--model-dir"] "model_dir",
  anyCount ["-m", "--max-val"] "max_val" 127] ++
  if scalars then [anyCount ["-s", "--scalar-scale"] "scalar_scale" 1000] else []

def prototypeTraining : List Opt := [
  needed ["-d", "--data-dir"] "data_dir",
  count ["-l", "--projection-dim"] "projection_dim" 10,
  count ["-p", "--num-prototypes"] "num_prototypes" 20,
  optional ["-g", "--gamma"] "gamma" .positiveReal,
  count ["-e", "--epochs"] "epochs" 100,
  count ["-b", "--batch-size"] "batch_size" 32,
  amount ["-r", "--learning-rate"] "learning_rate" 0.001,
  reals ["-rW"] "rW" 0.0,
  reals ["-rB"] "rB" 0.0,
  reals ["-rZ"] "rZ" 0.0,
  reals ["-sW"] "sW" 1.0,
  reals ["-sB"] "sB" 1.0,
  reals ["-sZ"] "sZ" 1.0,
  whole ["-pS", "--print-step"] "print_step" 200,
  whole ["-vS", "--val-step"] "val_step" 3,
  texts ["-o", "--output-dir"] "output_dir" "./"]

def stackedTraining : List Opt := [
  needed ["-d", "--data-dir"] "data_dir",
  count ["-h0", "--hidden-dim0"] "hidden_dim0" 64,
  count ["-h1", "--hidden-dim1"] "hidden_dim1" 32,
  ⟨["-bz", "--brick-size"],"brick_size",.positiveInt,true,.absent,[]⟩,
  texts ["-c", "--cell-type"] "cell_type" "LSTM",
  count ["-p", "--num-prototypes"] "num_prototypes" 20,
  optional ["-g", "--gamma"] "gamma" .positiveReal,
  count ["-e", "--epochs"] "epochs" 10,
  count ["-b", "--batch-size"] "batch_size" 128,
  amount ["-r", "--learning-rate"] "learning_rate" 0.01,
  whole ["-pS", "--print-step"] "print_step" 200,
  whole ["-vS", "--val-step"] "val_step" 5]

inductive Trainer where
  | tree (regression : Bool)
  | cell (batchFirst : Bool)
  | prototype
  | stacked
  deriving Repr, DecidableEq

def Trainer.options : Trainer → List Opt
  | .tree r => treeTraining r
  | .cell b => cellTraining b
  | .prototype => prototypeTraining
  | .stacked => stackedTraining

def Trainer.quantizing? : Trainer → Option (List Opt)
  | .tree _ => some (quantization false)
  | .cell _ => some (quantization true)
  | .prototype | .stacked => none

end MicroLearn.Options
