import MicroLearn.Lower.Program

/-!
# Compiling a program

From the parse tree to the generated file. A run that fails tells at which stage,
and keeps what the stages before it have found.
-/

set_option autoImplicit false

namespace MicroLearn.Lower

open Code

def includes (target : Target) (algorithm : String) : Except Fault String :=
  match target with
  | .x86 => do
    let space ← Text.expand ("using namespace "++algorithm++"_fixed;\n\n")
    return "#include <iostream>\n#include <cstring>\n#include <cmath>\n\n" ++
      "#include \"datatypes.h\"\n#include \"predictors.h\"\n#include \"library.h\"\n" ++
      "#include \"seedot_fixed_model.h\"\n\nusing namespace std;\n"++space
  | .arduino =>
    .ok ("#include <Arduino.h>\n\n#include \"config.h\"\n#include \"predict.h\"\n" ++
      "#include \"library.h\"\n#include \"model.h\"\n\nusing namespace model;\n\n")

def tableText (target : Target) (name : String) (row : List Int) : String :=
  let front := match target with
    | .x86 => "const MYINT "
    | .arduino => "const PROGMEM MYINT "
  front++name++"["++toString row.length++"] = \x7b\n\t" ++
    Text.join "" (row.map fun n => toString n++", ")++"\n\x7d;\n"

def tablesText (target : Target) (tables : List (Int × ExpTable)) : String :=
  Text.join "" (tables.map fun (p,t) =>
    tableText target (tableNames p).1 t.high++tableText target (tableNames p).2 t.low++"\n")

def functionHead : Target → String
  | .x86 => "int seedotFixed(MYINT **X) \x7b\n"
  | .arduino => "int predict() \x7b\n"

def declarations (s : State) : String :=
  let own := s.types.filter fun (name,_) => !s.globals.contains name
  Text.join "" (own.map fun (name,type) =>
    let dims := match type with
      | .tensor shape => Text.join "" (shape.map fun n => "["++toString n++"]")
      | _ => ""
    "\tMYINT "++name++dims++";\n")++"\n"

def constantsText (s : State) : String :=
  Text.join "" (s.constants.map fun (name,n) => "\t"++name++" = "++intText n++";\n")

def sourceText (settings : Settings) (algorithm : String) (s : State) (code : List Instr)
    (result : Term) : Except Fault String := do
  let p : Printer := ⟨settings,s.types⟩
  let front ← includes settings.target algorithm
  let body ← p.body 1 code
  let ending ← p.ending s.scales 1 (.term result)
  return front++tablesText settings.target s.tables++functionHead settings.target ++
    declarations s++constantsText s++"\n"++body++ending

open Lang (Tree Expr Ty)

structure Job where
  tree : Tree
  target : String
  algorithm : String
  word : Nat
  shift : ShiftStyle
  exp : ExpStyle
  expBits : Nat
  maxScale : Option Int
  profile : Option String

inductive Stage where
  | reading | typing | lowering | writing
  deriving Repr, DecidableEq, Inhabited

structure Outcome where
  outline : Option String := none
  type : Option Ty := none
  state : Option State := none
  code : Option String := none
  fault : Option (Stage × Fault) := none
  deriving Inhabited

def Job.settings (job : Job) : Except Fault Settings := do
  let target ← Target.named job.target
  let s : Settings := ⟨target,job.word,job.shift,job.exp,job.expBits⟩
  let _ ← Code.number s 0
  return s

def Job.typed (job : Job) (e : Expr Unit) : Except Fault (Expr Ty × Settings) := do
  let e ← e.infer []
  return (e,← job.settings)

def Job.context (job : Job) (s : Settings) : Except Fault Context :=
  match job.maxScale with
  | some p => .ok ⟨s,p,job.profile⟩
  | none => do return ⟨s,← maxScaleOfProfile s.word job.profile,job.profile⟩

def Job.lowered (job : Job) (s : Settings) (e : Expr Ty) : Except Fault (Lowered × State) := do
  let cx ← job.context s
  (lower cx e).run {}

def compile (job : Job) : Outcome :=
  match job.tree.read with
  | .error f => { fault := some (.reading,f) }
  | .ok e =>
    let found : Outcome := { outline := some (e.outline 0) }
    match job.typed e with
    | .error f => { found with fault := some (.typing,f) }
    | .ok (e,settings) =>
      let found := { found with type := some e.note }
      match job.lowered settings e with
      | .error f => { found with fault := some (.lowering,f) }
      | .ok ((code,result),state) =>
        let found := { found with state := some state }
        match sourceText settings job.algorithm state code result with
        | .error f => { found with fault := some (.writing,f) }
        | .ok text => { found with code := some text }

end MicroLearn.Lower
