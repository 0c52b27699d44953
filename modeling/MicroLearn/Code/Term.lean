import MicroLearn.Number.Binary

/-!
# Target code

Terms and instructions of the code that is generated for a device, substitution in
them, and the pieces that lowering puts together. A variable may carry indices, and
a mark that it lies in the program memory of the device, from which it has to be
read by a special access.
-/

set_option autoImplicit false

namespace MicroLearn.Code

inductive Unary where
  | neg | complement
  deriving Repr, DecidableEq, Inhabited

inductive Arith where
  | add | sub | mul | div | shl | shr | and | or | xor
  deriving Repr, DecidableEq, Inhabited

inductive Logic where
  | and | or
  deriving Repr, DecidableEq, Inhabited

inductive Compare where
  | lt | le | gt | ge | eq | ne
  deriving Repr, DecidableEq, Inhabited

def Unary.text : Unary → String
  | .neg => "-"
  | .complement => "~"

def Arith.text : Arith → String
  | .add => "+"
  | .sub => "-"
  | .mul => "*"
  | .div => "/"
  | .shl => "<<"
  | .shr => ">>"
  | .and => "&"
  | .or => "|"
  | .xor => "^"

def Logic.text : Logic → String
  | .and => "&&"
  | .or => "||"

def Compare.text : Compare → String
  | .lt => "<"
  | .le => "<="
  | .gt => ">"
  | .ge => ">="
  | .eq => "=="
  | .ne => "!="

def Unary.ofText? (s : String) : Option Unary :=
  [Unary.neg, .complement].find? fun op => op.text == s

def Arith.ofText? (s : String) : Option Arith :=
  [Arith.add, .sub, .mul, .div, .shl, .shr, .and, .or, .xor].find? fun op => op.text == s

def Logic.ofText? (s : String) : Option Logic :=
  [Logic.and, .or].find? fun op => op.text == s

def Compare.ofText? (s : String) : Option Compare :=
  [Compare.lt, .le, .gt, .ge, .eq, .ne].find? fun op => op.text == s

def operators : List String :=
  ["+", "-", "*", "/", "<<", ">>", "&", "|", "^", "~", "!", "&&", "||", "<", "<=", ">", ">=",
    "==", "!="]

inductive Term where
  | int (n : Int)
  | var (name : String) (index : List Term) (inFlash : Bool)
  | bool (b : Bool)
  | unary (op : Unary) (e : Term)
  | arith (a : Term) (op : Arith) (b : Term)
  | logic (a : Term) (op : Logic) (b : Term)
  | compare (a : Term) (op : Compare) (b : Term)
  | select (c a b : Term)
  | exp (e : Term)
  | cast (type : String) (e : Term)
  deriving Inhabited

inductive Instr where
  | assign (target value : Term)
  | branch (c : Term) (yes no : List Instr)
  | count (iterator : Term) (start : Int) (c : Term) (body : List Instr)
  | repeatWhile (c : Term) (body : List Instr)
  | call (f : String) (args : List Term)
  | clear (e : Term) (cells : Int)
  | output (e : Term)
  | outputScaled (e : Term) (exponent : Int)
  | comment (text : String)
  | block (body : List Instr)
  deriving Inhabited

inductive Fragment where
  | term (t : Term)
  | instr (i : Instr)
  deriving Inhabited

def Term.varName : Term → Except Fault String
  | .var name _ _ => .ok name
  | _ => .error .missingField

def Term.isVar (x : String) : Term → Bool
  | .var name _ _ => name == x
  | _ => false

def plain (name : String) : Term := .var name [] false

def Term.at (more : List Term) : Term → Term
  | .var name index inFlash => .var name (index++more) inFlash
  | t => t

def Term.under (more : List Term) : Term → Term
  | .var name index inFlash => .var name (more++index) inFlash
  | t => t

def Term.inMemory : Term → Term
  | .var name index _ => .var name index false
  | t => t

inductive Target where
  | x86 | arduino
  deriving Repr, DecidableEq, Inhabited

def Target.name : Target → String
  | .x86 => "x86"
  | .arduino => "arduino"

def Target.named (s : String) : Except Fault Target :=
  if s == "x86" then .ok .x86
  else if s == "arduino" then .ok .arduino
  else .error (.unknownName s)

/-- How a division by `2 ^ n` that rounds towards zero is written. -/
inductive ShiftStyle where
  | divide
  | absolute
  | offset
  | complement
  | unsupported
  deriving Repr, DecidableEq, Inhabited

def ShiftStyle.named (s : String) : ShiftStyle :=
  if s == "div" then .divide
  else if s == "shr" then .absolute
  else if s == "shr+" then .offset
  else if s == "negate" then .complement
  else .unsupported

inductive ExpStyle where
  | table
  | library
  | unsupported
  deriving Repr, DecidableEq, Inhabited

def ExpStyle.named (s : String) : ExpStyle :=
  if s == "table" then .table
  else if s == "math" then .library
  else .unsupported

structure Settings where
  target : Target
  word : Nat
  shift : ShiftStyle
  exp : ExpStyle
  expBits : Nat
  deriving Repr, Inhabited

def Settings.standard : Settings := ⟨.x86,16,.divide,.table,6⟩

def wordSizes : List Nat := [8, 16, 32, 64]

inductive Replacement where
  | var (name : String) (index : List Term) (inFlash : Bool)
  | int (n : Int)
  deriving Inhabited

def Replacement.at (index : List Term) (inFlash : Bool) : Replacement → Term
  | .var name own flash => .var name (own++index) (flash && inFlash)
  | .int n => .int n

def Term.replacement? : Term → Option Replacement
  | .var name index inFlash => some (.var name index inFlash)
  | .int n => some (.int n)
  | _ => none

def Replacement.isInt : Replacement → Bool
  | .int _ => true
  | _ => false

mutual

def Term.subst (x : String) (r : Replacement) : Term → Term
  | .int n => .int n
  | .var name index inFlash =>
    let index := Term.substAll x r index
    if name = x then r.at index inFlash else .var name index inFlash
  | .bool b => .bool b
  | .unary op e => .unary op (e.subst x r)
  | .arith a op b => .arith (a.subst x r) op (b.subst x r)
  | .logic a op b => .logic (a.subst x r) op (b.subst x r)
  | .compare a op b => .compare (a.subst x r) op (b.subst x r)
  | .select c a b => .select (c.subst x r) (a.subst x r) (b.subst x r)
  | .exp e => .exp (e.subst x r)
  | .cast type e => .cast type (e.subst x r)

def Term.substAll (x : String) (r : Replacement) : List Term → List Term
  | [] => []
  | t::ts => t.subst x r::Term.substAll x r ts

end

/-- The arguments of a call are a set: a number that replaces several of them is passed once. -/
def substArgs (x : String) (r : Replacement) : Bool → List Term → List Term
  | _, [] => []
  | seen, t::ts =>
    if r.isInt && t.isVar x then
      if seen then substArgs x r true ts else t.subst x r::substArgs x r true ts
    else t.subst x r::substArgs x r seen ts

mutual

def Instr.subst (x : String) (r : Replacement) : Instr → Instr
  | .assign target value => .assign (target.subst x r) (value.subst x r)
  | .branch c yes no => .branch (c.subst x r) (Instr.substAll x r yes) (Instr.substAll x r no)
  | .count iterator start c body => .count iterator start (c.subst x r) (Instr.substAll x r body)
  | .repeatWhile c body => .repeatWhile (c.subst x r) (Instr.substAll x r body)
  | .call f args => .call f (substArgs x r false args)
  | .clear e cells => .clear (e.subst x r) cells
  | .output e => .output (e.subst x r)
  | .outputScaled e exponent => .outputScaled (e.subst x r) exponent
  | .comment text => .comment text
  | .block body => .block (Instr.substAll x r body)

def Instr.substAll (x : String) (r : Replacement) : List Instr → List Instr
  | [] => []
  | i::is => i.subst x r::Instr.substAll x r is

end

mutual

def Term.mentions (x : String) : Term → Bool
  | .int _ => false
  | .var name index _ => name == x || Term.anyMentions x index
  | .bool _ => false
  | .unary _ e => e.mentions x
  | .arith a _ b => a.mentions x || b.mentions x
  | .logic a _ b => a.mentions x || b.mentions x
  | .compare a _ b => a.mentions x || b.mentions x
  | .select c a b => c.mentions x || a.mentions x || b.mentions x
  | .exp e => e.mentions x
  | .cast _ e => e.mentions x

def Term.anyMentions (x : String) : List Term → Bool
  | [] => false
  | t::ts => t.mentions x || Term.anyMentions x ts

end

mutual

/-- Whether substitution would reach a variable; the variable of a loop is out of its reach. -/
def Instr.mentions (x : String) : Instr → Bool
  | .assign target value => target.mentions x || value.mentions x
  | .branch c yes no => c.mentions x || Instr.anyMentions x yes || Instr.anyMentions x no
  | .count _ _ c body => c.mentions x || Instr.anyMentions x body
  | .repeatWhile c body => c.mentions x || Instr.anyMentions x body
  | .call _ args => Term.anyMentions x args
  | .clear e _ => e.mentions x
  | .output e => e.mentions x
  | .outputScaled e _ => e.mentions x
  | .comment _ => false
  | .block body => Instr.anyMentions x body

def Instr.anyMentions (x : String) : List Instr → Bool
  | [] => false
  | i::is => i.mentions x || Instr.anyMentions x is

end

def Fragment.mentions (x : String) : Fragment → Bool
  | .term t => t.mentions x
  | .instr i => i.mentions x

/-- Only variables and numbers can take the place of a variable that occurs. -/
def Fragment.replace (x : String) (by' : Term) (f : Fragment) : Except Fault Fragment :=
  match by'.replacement? with
  | some r =>
    match f with
    | .term t => .ok (.term (t.subst x r))
    | .instr i => .ok (.instr (i.subst x r))
  | none => if f.mentions x then .error .requirement else .ok f

def number (s : Settings) (n : Int) : Except Fault Int :=
  if wordSizes.contains s.word then Number.fitWord s.word n else .error (.unknownNumber s.word)

def literal (s : Settings) (n : Int) : Except Fault Term := do return .int (← number s n)

def zero : Term := .int 0

def one : Term := .int 1

variable (a b : Term)

variable (e : Term)

def add : Term := .arith a .add b
def sub : Term := .arith a .sub b
def mul : Term := .arith a .mul b
def div : Term := .arith a .div b
def bitwiseAnd : Term := .arith a .and b
def inc : Term := add e one
def dec : Term := sub e one
def both : Term := .logic a .and b
def either : Term := .logic a .or b
def eq : Term := .compare a .eq b
def ne : Term := .compare a .ne b
def lt : Term := .compare a .lt b
def le : Term := .compare a .le b
def gt : Term := .compare a .gt b
def ge : Term := .compare a .ge b
def negate : Term := .unary .neg e

def ifPositive (e a b : Term) : Term := .select (gt e zero) a b

def max : Term := .select (gt a b) a b

def maxBySign : Term :=
  ifPositive a (ifPositive b (max a b) a) (ifPositive b b (max a b))

def rectify : Term := ifPositive e e zero

def intType : String := "MYINT"

def integerCast : Term := .cast intType e

def castToReal : Term := .cast "float" e

def shiftLeft (s : Settings) (e : Term) (n : Int) : Except Fault Term := do
  demand (0 ≤ n)
  if n = 0 then return e
  return .arith e .shl (← literal s n)

def shiftRight (s : Settings) (e : Term) (n : Int) : Except Fault Term := do
  demand (0 ≤ n)
  if n = 0 then return e
  return .arith e .shr (← literal s n)

def absoluteShift (e n : Term) : Term :=
  ifPositive e (.arith e .shr n) (negate (.arith (negate e) .shr n))

def scaleDown (s : Settings) (e : Term) (n : Int) : Except Fault Term := do
  demand (0 ≤ n)
  if n = 0 then return e
  match s.shift with
  | .absolute => return absoluteShift e (← literal s n)
  | .offset =>
    let mask ← literal s (Number.twoPow n.toNat-1)
    let n ← literal s n
    return ifPositive e (.arith e .shr n) (.arith (add e mask) .shr n)
  | .divide =>
    let d ← literal s (Number.twoPow n.toNat)
    return div e d
  | .complement =>
    let n ← literal s n
    return ifPositive e (.arith e .shr n)
      (.arith (.arith (.arith e .xor (.int (-1))) .shr n) .xor (.int (-1)))
  | .unsupported => .error .requirement

def nest (s : Settings) : List Int → List Term → List Instr → Except Fault (List Instr)
  | [], _, body => .ok body
  | _::shape, [], body => do
    let _ ← nest s shape [] body
    .error .outOfRange
  | n::shape, i::iterators, body => do
    let inner ← nest s shape iterators body
    let n ← literal s n
    return [.count i 0 (lt i n) inner]

def nestWithLines (s : Settings) : List Int → List Term → List Instr → Except Fault (List Instr)
  | [], _, body => .ok body
  | _::shape, [], body => do
    let _ ← nestWithLines s shape [] body
    .error .outOfRange
  | n::shape, i::iterators, body => do
    let inner ← nestWithLines s shape iterators body
    let n ← literal s n
    return [.count i 0 (lt i n) inner, .output (plain "\"\"")]

def nestScaleDown (s : Settings) (target source : Term) (shape : List Int) (iterators : List Term)
    (n : Int) : Except Fault (List Instr) := do
  let value ← scaleDown s (source.at iterators) n
  nest s shape iterators [.assign (target.at iterators) value]

def increment : Instr := .assign e (inc e)

def decrement : Instr := .assign e (dec e)

def setZero : Instr := .assign e (.int 0)

end MicroLearn.Code
