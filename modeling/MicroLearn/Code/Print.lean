import MicroLearn.Code.Term
import MicroLearn.Lang.Expr

/-!
# Source text of target code

Terms are written with all their parentheses, instructions on lines of their own,
one tab per level. A tensor is passed to a library call by the address of its
first element.
-/

set_option autoImplicit false

namespace MicroLearn.Text

/-- What stands between a percent sign and its conversion letter: flags, a width, a precision and a
size. -/
def afterFlags (cs : List Char) : List Char :=
  cs.dropWhile fun c => c == '-' || c == '+' || c == ' ' || c == '#' || c == '0'

def afterPrecision : List Char → List Char
  | '.'::rest => rest.dropWhile Char.isDigit
  | cs => cs

def afterSize : List Char → List Char
  | c::rest => if c == 'h' || c == 'l' || c == 'L' then rest else c::rest
  | [] => []

/-- The conversion that follows a percent sign: what is left after it, if it stands for a percent
sign. -/
def percentTail (cs : List Char) : Except Fault (List Char) :=
  match cs with
  | '('::_ => .error .wrongKind
  | _ =>
    match afterFlags cs with
    | '*'::_ => .error .wrongKind
    | flags =>
      match afterPrecision (flags.dropWhile Char.isDigit) with
      | '*'::_ => .error .wrongKind
      | rest =>
        match afterSize rest with
        | [] => .error .incompleteFormat
        | '%'::tail => .ok tail
        | _ => .error .wrongKind

def expandChars : Nat → List Char → Except Fault (List Char)
  | 0, _ => .ok []
  | _+1, [] => .ok []
  | fuel+1, c::rest =>
    if c = '%' then do
      let tail ← percentTail rest
      return '%'::(← expandChars fuel tail)
    else do return c::(← expandChars fuel rest)

def expand (s : String) : Except Fault String := do
  if s.toList.contains '%' then return String.ofList (← expandChars (s.length+1) s.toList)
  else return s

end MicroLearn.Text

namespace MicroLearn.Code

open Lang (Ty)

structure Printer where
  settings : Settings
  types : List (String × Ty)

def intText (n : Int) : String :=
  if -32768 ≤ n ∧ n ≤ 32767 then toString n
  else if -2147483648 ≤ n ∧ n ≤ 2147483647 then toString n++"L"
  else toString n++"LL"

def powerText (exponent : Int) : String :=
  if 0 ≤ exponent then toString (Number.twoPow exponent.toNat)
  else Number.floatText (Number.scaleBinary 1.0 exponent)

def Printer.flashAccess (p : Printer) : Except Fault String :=
  if p.settings.word = 16 then .ok "((MYINT) pgm_read_word_near(&"
  else if p.settings.word = 32 then .ok "((MYINT) pgm_read_dword_near(&"
  else .error .requirement

mutual

def Printer.term (p : Printer) : Term → Except Fault String
  | .int n => .ok (intText n)
  | .var name index inFlash => do
    let special := inFlash && p.settings.target == .arduino
    let front ← if special then p.flashAccess else pure ""
    let indices ← p.indices index
    return front++name++indices++(if special then "))" else "")
  | .bool b => .ok (if b then "true" else "false")
  | .unary op e => do return "("++op.text++(← p.term e)++")"
  | .arith a op b | .logic a op b | .compare a op b => do
    let a ← p.term a
    return "("++a++" "++op.text++" "++(← p.term b)++")"
  | .select c a b => do
    let c ← p.term c
    let a ← p.term a
    return "("++c++" ? "++a++" : "++(← p.term b)++")"
  | .exp e => do return "(exp("++(← p.term e)++"))"
  | .cast type e => do
    let front ← Text.expand ("("++type++")")
    return "("++front++(← p.term e)++")"

def Printer.indices (p : Printer) : List Term → Except Fault String
  | [] => .ok ""
  | e::es => do
    let e ← p.term e
    return "["++e++"]"++(← p.indices es)

end

def tabs (depth : Nat) : String := String.ofList (List.replicate depth '\t')

/-- What surrounds an argument: nothing for a number, an address for a declared variable, and one
index for each dimension that is left. -/
def Printer.addressing (p : Printer) : Term → String × String
  | .var name index _ =>
    if name == "X" then ("","")
    else
      match p.types.lookup name with
      | some (.tensor []) => ("&","")
      | some (.tensor shape) =>
        let left : Int := (shape.length : Int)-index.length
        if left = 0 then ("","") else ("&",Text.join "" (List.replicate left.toNat "[0]"))
      | some _ => ("&","")
      | none => ("","")
  | _ => ("","")

/-- The arguments of a call. On the small device the input `X` is not passed. -/
def Printer.args (p : Printer) : List Term → Except Fault String
  | [] => .ok ""
  | t::ts => do
    if p.settings.target == .arduino && t.isVar "X" then p.args ts
    else
      let (front,back) := p.addressing t
      let text ← p.term t
      return front++text++back++(if ts.isEmpty then "" else ", ")++(← p.args ts)

mutual

def Printer.instr (p : Printer) (depth : Nat) : Instr → Except Fault String
  | .assign target value => do
    let target ← p.term target
    if p.settings.target == .arduino && value.isVar "X" then
      return tabs depth++target++" = getIntFeature(i0);\n"
    else return tabs depth++target++" = "++(← p.term value)++";\n"
  | .branch c yes no => do
    let c ← p.term c
    let yes ← p.body (depth+1) yes
    let head := tabs depth++"if ("++c++") \x7b\n"++yes
    if no.isEmpty then return head++tabs depth++"\x7d\n"
    let no ← p.body (depth+1) no
    return head++tabs depth++"\x7d else \x7b\n"++no++tabs depth++"\x7d\n"
  | .count iterator start c body => do
    let i ← p.term iterator
    let c ← p.term c
    let body ← p.body (depth+1) body
    return tabs depth++"for (MYINT "++i++" = "++toString start++"; "++c++"; "++i ++
      "++) \x7b\n"++body++tabs depth++"\x7d\n"
  | .repeatWhile c body => do
    let c ← p.term c
    let body ← p.body (depth+1) body
    return tabs depth++"while ("++c++") \x7b\n"++body++tabs depth++"\x7d\n"
  | .call f args => do
    let head ← Text.expand (f++"(")
    return tabs depth++head++(← p.args args)++");\n\n"
  | .clear e cells => do
    return tabs depth++"memset("++(← p.term e)++", 0, sizeof(MYINT) * "++toString cells ++
      ");\n"
  | .output e => do
    match p.settings.target with
    | .x86 => return tabs depth++"cout << "++(← p.term e)++" << endl;\n"
    | .arduino => return tabs depth++"Serial.println("++(← p.term e)++");\n"
  | .outputScaled e exponent => do
    match p.settings.target with
    | .x86 =>
      return tabs depth++"cout << ((float)("++(← p.term e)++")) * "++powerText exponent ++
        " << \"\";\n"
    | .arduino =>
      return tabs depth++"Serial.println(float("++(← p.term e)++") * " ++
        powerText exponent++", 6);"
  | .comment text => do
    return "\n"++tabs depth++(← Text.expand ("// "++text++"\n"))
  | .block body => p.body depth body

def Printer.body (p : Printer) (depth : Nat) : List Instr → Except Fault String
  | [] => .ok ""
  | i::is => do
    let i ← p.instr depth i
    return i++(← p.body depth is)

end

def Printer.fragment (p : Printer) : Fragment → Except Fault String
  | .term t => p.term t
  | .instr i => p.instr 0 i

def resultNames (count : Nat) : List String :=
  (List.range count).map fun (k : Nat) => String.singleton (Char.ofNat (105+k))

/-- The loops that print a result declared with a shape: one index for each dimension of the shape
is added to those the term has. -/
def resultLoops (s : Settings) (t : Term) (shape : List Int) (exponent : Int) :
    Except Fault (List Instr) :=
  let iterators := (resultNames shape.length).map plain
  nest s shape iterators [.outputScaled (t.at iterators) exponent]

def Printer.ending (p : Printer) (scales : List (String × Int)) (depth : Nat) (result : Fragment) :
    Except Fault String := do
  let t ← match result with
    | .term t => pure t
    | .instr _ => .error .missingField
  let name ← t.varName
  let body ← match p.types.lookup name with
    | none => .error (.unknownName name)
    | some .int => do
      let text ← p.term t
      pure (tabs depth++"return "++text++";\n")
    | some .absent => .error .requirement
    | some (.tensor shape) => do
      let exponent ← match scales.lookup name with
        | some e => pure e
        | none => .error (.unknownName name)
      if shape.isEmpty then
        let value ← Text.expand ("float("++name++")*"++powerText exponent)
        match p.settings.target with
        | .x86 => pure (tabs depth++"cout << "++value++" << endl;\n")
        | .arduino => pure (tabs depth++"Serial.println("++value++", 6);\n")
      else
        p.body depth (← resultLoops p.settings t shape exponent)
  return "\n"++body++tabs (depth-1)++"\x7d\n"

end MicroLearn.Code
