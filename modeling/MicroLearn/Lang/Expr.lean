import MicroLearn.Number.Decimal

/-!
# Programs of the tensor language

A program is one expression. `Tree` is what the grammar delivers: constants are
still the text of their tokens. `Expr` has their values, and a note at each node
that later passes fill in: `infer` notes the type.
-/

set_option autoImplicit false

namespace MicroLearn.Lang

inductive Token where
  | openParen | closeParen | openBracket | comma | closeBracket | transpose | equals | colon
  | atLeast | question | plus | minus | times | sparseTimes | pointwiseTimes | convolve
  | addBias | subtractBias | relu | exp | argmax | sgn | tanh | reshape | maxpool | sum
  | letWord | inWord
  deriving Repr, DecidableEq, Inhabited

namespace Token

def literal : Token → String
  | openParen => "("
  | closeParen => ")"
  | openBracket => "["
  | comma => ","
  | closeBracket => "]"
  | transpose => "^T"
  | equals => "="
  | colon => ":"
  | atLeast => ">="
  | question => "?"
  | plus => "+"
  | minus => "-"
  | times => "*"
  | sparseTimes => "|*|"
  | pointwiseTimes => "<*>"
  | convolve => "#"
  | addBias => "<+>"
  | subtractBias => "<->"
  | relu => "relu"
  | exp => "exp"
  | argmax => "argmax"
  | sgn => "sgn"
  | tanh => "tanh"
  | reshape => "reshape"
  | maxpool => "maxpool"
  | sum => "$"
  | letWord => "let"
  | inWord => "in"

def all : List Token :=
  [openParen, closeParen, openBracket, comma, closeBracket, transpose, equals, colon, atLeast,
    question, plus, minus, times, sparseTimes, pointwiseTimes, convolve, addBias, subtractBias,
    relu, exp, argmax, sgn, tanh, reshape, maxpool, sum, letWord, inWord]

def ofLiteral? (s : String) : Option Token :=
  all.find? fun t => t.literal == s

def shown (t : Token) : String := "'"++t.literal++"'"

end Token

inductive Tree where
  | int (text : String)
  | real (text : String)
  | name (id : String)
  | decl (shape : List String) (low high : String)
  | transpose (e : Tree)
  | reshape (e : Tree) (shape order : List String)
  | maxpool (e : Tree) (stride : String)
  | index (e i : Tree)
  | call (f : String) (args : List Tree)
  | unary (op : Token) (e : Tree)
  | product (op : Token) (a b : Tree)
  | additive (op : Token) (a b : Tree)
  | apply (op : Token) (e : Tree)
  | sum (v first last : String) (e : Tree)
  | cond (e : Tree) (bound : String) (t f : Tree)
  | bind (v : String) (d e : Tree)
  | paren (e : Tree)
  deriving Inhabited

inductive Expr (α : Type) where
  | int (note : α) (value : Int)
  | real (note : α) (value : Float)
  | name (note : α) (id : String)
  | decl (note : α) (shape : List Int) (low high : Float)
  | transpose (note : α) (e : Expr α)
  | reshape (note : α) (e : Expr α) (shape order : List Int)
  | maxpool (note : α) (e : Expr α) (stride : Int)
  | index (note : α) (e i : Expr α)
  | call (note : α) (f : String) (args : List (Expr α))
  | unary (note : α) (op : Token) (e : Expr α)
  | product (note : α) (op : Token) (a b : Expr α)
  | additive (note : α) (op : Token) (a b : Expr α)
  | apply (note : α) (op : Token) (e : Expr α)
  /-- the sum of `e` over `v` from `first` to below `last` -/
  | sum (note : α) (v : String) (first last : Int) (e : Expr α)
  /-- `t` where `e` is at least zero, else `f` -/
  | cond (note : α) (e t f : Expr α)
  | bind (note : α) (v : String) (d e : Expr α)
  deriving Inhabited

def Expr.note {α : Type} : Expr α → α
  | .int n _ | .real n _ | .name n _ | .decl n _ _ _ | .transpose n _ | .reshape n _ _ _
  | .maxpool n _ _ | .index n _ _ | .call n _ _ | .unary n _ _ | .product n _ _ _
  | .additive n _ _ _ | .apply n _ _ | .sum n _ _ _ _ | .cond n _ _ _ | .bind n _ _ _ => n

def Expr.isDecl {α : Type} : Expr α → Bool
  | .decl _ _ _ _ => true
  | _ => false

def readInt (s : String) : Except Fault Int :=
  match Number.readInt? s with
  | some n => .ok n
  | none => .error (.notInteger s)

def readReal (s : String) : Except Fault Float :=
  match Number.readFloat? s with
  | some x => .ok x
  | none => .error (.notReal s)

mutual

/-- The program with the values of its constants; conditions compare with zero only. -/
def Tree.read : Tree → Except Fault (Expr Unit)
  | .int text => do return .int () (← readInt text)
  | .real text => do return .real () (← readReal text)
  | .name id => .ok (.name () id)
  | .decl shape low high => do
    let shape ← shape.mapM readInt
    let low ← readReal low
    let high ← readReal high
    return .decl () shape low high
  | .transpose e => do return .transpose () (← e.read)
  | .reshape e shape order => do
    let e ← e.read
    let shape ← shape.mapM readInt
    let order ← order.mapM readInt
    return .reshape () e shape order
  | .maxpool e stride => do
    let e ← e.read
    return .maxpool () e (← readInt stride)
  | .index e i => do
    let e ← e.read
    return .index () e (← i.read)
  | .call f args => do return .call () f (← Tree.readAll args)
  | .unary op e => do return .unary () op (← e.read)
  | .product op a b => do
    let a ← a.read
    return .product () op a (← b.read)
  | .additive op a b => do
    let a ← a.read
    return .additive () op a (← b.read)
  | .apply op e => do return .apply () op (← e.read)
  | .sum v first last e => do
    let first ← readInt first
    let last ← readInt last
    return .sum () v first last (← e.read)
  | .cond e bound t f => do
    let e ← e.read
    demand (bound == "0")
    let t ← t.read
    return .cond () e t (← f.read)
  | .bind v d e => do
    let d ← d.read
    return .bind () v d (← e.read)
  | .paren e => e.read

def Tree.readAll : List Tree → Except Fault (List (Expr Unit))
  | [] => .ok []
  | t::ts => do
    let e ← t.read
    return e::(← Tree.readAll ts)

end

inductive Ty where
  | int
  | tensor (shape : List Int)
  /-- a call without arguments -/
  | absent
  deriving Repr, DecidableEq, Inhabited

def volume (shape : List Int) : Int := shape.foldl (· * ·) 1

namespace Ty

def isSingle (shape : List Int) : Bool := shape.isEmpty || volume shape == 1

def shape : Ty → Except Fault (List Int)
  | .tensor s => .ok s
  | _ => .error .missingField

def tensorShape : Ty → Except Fault (List Int)
  | .tensor s => .ok s
  | _ => .error .requirement

end Ty

def faultOfCount (expected : Nat) (s : List Int) : Fault :=
  if s.length < expected then .tooFewValues expected s.length else .tooManyValues expected

def twoOf : List Int → Except Fault (Int × Int)
  | [m, n] => .ok (m,n)
  | s => .error (faultOfCount 2 s)

def fourOf : List Int → Except Fault (Int × Int × Int × Int)
  | [a, b, c, d] => .ok (a,b,c,d)
  | s => .error (faultOfCount 4 s)

def productTy : Ty → Ty → Except Fault Ty
  | .int, .int => .ok .int
  | .tensor [], .tensor t => .ok (.tensor t)
  | .tensor s, .tensor [] => .ok (.tensor s)
  | .tensor [n1, n2], .tensor [n3, n4] => do
    demand (n2 == n3)
    return .tensor [n1, n4]
  | _, _ => .error .requirement

def biasTy : Ty → Ty → Except Fault Ty
  | .tensor s, .tensor [n] => do
    demand (s.getLast? == some n)
    return .tensor s
  | _, _ => .error .requirement

def pointwiseTy : Ty → Ty → Except Fault Ty
  | .tensor s, .tensor t => do
    demand (!s.isEmpty && s == t)
    return .tensor s
  | _, _ => .error .requirement

def convolveTy : Ty → Ty → Except Fault Ty
  | .tensor [n, h, w, cin], .tensor [_, _, cin', cout] => do
    demand (cin == cin')
    return .tensor [n, h, w, cout]
  | _, _ => .error .requirement

def productOpTy (op : Token) (e f : Ty) : Except Fault Ty :=
  match op with
  | .times | .sparseTimes => productTy e f
  | .addBias | .subtractBias => biasTy e f
  | .pointwiseTimes => pointwiseTy e f
  | .convolve => convolveTy e f
  | _ => .error .requirement

def additiveTy : Ty → Ty → Except Fault Ty
  | .int, .int => .ok .int
  | .tensor s, .tensor t => do
    demand (s == t)
    return .tensor s
  | _, _ => .error .requirement

def applyTy (op : Token) (e : Ty) : Except Fault Ty := do
  match op with
  | .relu =>
    let s ← e.tensorShape
    demand (!s.isEmpty)
    return e
  | .exp =>
    let s ← e.tensorShape
    demand (Ty.isSingle s)
    return e
  | .argmax =>
    let s ← e.tensorShape
    demand (!s.isEmpty)
    return .int
  | .sgn =>
    let s ← e.tensorShape
    demand (Ty.isSingle s)
    return .int
  | .tanh =>
    let s ← e.tensorShape
    demand (s.length == 2)
    return e
  | _ => .error .requirement

def condTy (e t f : Ty) : Except Fault Ty := do
  match e with
  | .int => pure ()
  | .tensor s => demand (Ty.isSingle s)
  | .absent => .error .requirement
  match t, f with
  | .int, .int => return .int
  | .tensor s, .tensor s' => do
    demand (s == s')
    return t
  | _, _ => .error .requirement

def maxpoolTy (e : Ty) (stride : Int) : Except Fault Ty := do
  let (n1,n2,n3,n4) ← fourOf (← e.shape)
  if stride = 0 then .error .zeroDivision
  demand (n2 % stride == 0 && n3 % stride == 0)
  return .tensor [n1, n2.fdiv stride, n3.fdiv stride, n4]

def joinTy : Ty → Ty → Except Fault Ty
  | .absent, t => .ok t
  | .int, .int => .ok .int
  | .tensor s, .tensor t => do
    demand (s == t)
    return .tensor s
  | _, _ => .error .requirement

abbrev Scope := List (String × Ty)

def Scope.find (scope : Scope) (id : String) : Except Fault Ty :=
  match scope.lookup id with
  | some t => .ok t
  | none => .error (.unknownName id)

mutual

def Expr.infer {α : Type} (scope : Scope) : Expr α → Except Fault (Expr Ty)
  | .int _ v => .ok (.int .int v)
  | .real _ v => .ok (.real (.tensor []) v)
  | .name _ id => do return .name (← scope.find id) id
  | .decl _ shape low high => .ok (.decl (.tensor shape) shape low high)
  | .transpose _ e => do
    let e ← e.infer scope
    match e.note with
    | .tensor [m, n] => return .transpose (.tensor [n, m]) e
    | _ => .error .requirement
  | .reshape _ e shape order => do
    let e ← e.infer scope
    let s ← e.note.tensorShape
    demand (!s.isEmpty)
    demand (volume s == volume shape)
    return .reshape (.tensor shape) e shape order
  | .maxpool _ e stride => do
    let e ← e.infer scope
    return .maxpool (← maxpoolTy e.note stride) e stride
  | .index _ e i => do
    let e ← e.infer scope
    let s ← e.note.tensorShape
    demand (!s.isEmpty)
    let i ← i.infer scope
    demand (i.note == .int)
    return .index (.tensor s.tail) e i
  | .call _ f args => do
    let (t,args) ← Expr.inferArgs scope .absent args
    return .call t f args
  | .unary _ op e => do
    let e ← e.infer scope
    return .unary e.note op e
  | .product _ op a b => do
    let a ← a.infer scope
    let b ← b.infer scope
    return .product (← productOpTy op a.note b.note) op a b
  | .additive _ op a b => do
    let a ← a.infer scope
    let b ← b.infer scope
    return .additive (← additiveTy a.note b.note) op a b
  | .apply _ op e => do
    let e ← e.infer scope
    return .apply (← applyTy op e.note) op e
  | .sum _ v first last e => do
    let e ← e.infer ((v,.int)::scope)
    let s ← e.note.tensorShape
    return .sum (.tensor s) v first last e
  | .cond _ e t f => do
    let e ← e.infer scope
    let t ← t.infer scope
    let f ← f.infer scope
    return .cond (← condTy e.note t.note f.note) e t f
  | .bind _ v d e => do
    let d ← d.infer scope
    let e ← e.infer ((v,d.note)::scope)
    return .bind e.note v d e

def Expr.inferArgs {α : Type} (scope : Scope) (seen : Ty) :
    List (Expr α) → Except Fault (Ty × List (Expr Ty))
  | [] => .ok (seen,[])
  | e::es => do
    let e ← e.infer scope
    let (t,es) ← Expr.inferArgs scope (← joinTy seen e.note) es
    return (t,e::es)

end

mutual

/-- An expression in the notation of the language; a tree has its brackets as nodes of its own. A
sum and a binding go on after a line break. -/
def Tree.text : Tree → String
  | .int text => text
  | .real text => text
  | .name id => id
  | .decl shape low high => "("++Text.join ", " shape++") in ["++low++", "++high++"]"
  | .transpose e => e.text++Token.transpose.literal
  | .reshape e shape order =>
    "reshape("++e.text++", ("++Text.join ", " shape++"), ("++Text.join ", " order++"))"
  | .maxpool e stride => "maxpool("++e.text++", "++stride++")"
  | .index e i => e.text++"["++i.text++"]"
  | .call f args => f++"("++Text.join ", " (Tree.texts args)++")"
  | .unary op e => op.literal++e.text
  | .product op a b => a.text++" "++op.literal++" "++b.text
  | .additive op a b => a.text++" "++op.literal++" "++b.text
  | .apply op e => op.literal++"("++e.text++")"
  | .sum v first last e => "$("++v++" = ["++first++":"++last++"])\n"++e.text
  | .cond e bound t f => e.text++" >= "++bound++"? "++t.text++" : "++f.text
  | .bind v d e => "\n\tlet "++v++" = "++d.text++" in\n\t"++e.text++"\n"
  | .paren e => "("++e.text++")"

def Tree.texts : List Tree → List String
  | [] => []
  | t::ts => t.text::Tree.texts ts

end

def blanks (n : Nat) : String := String.ofList (List.replicate n ' ')

structure Line where
  name : String
  before : Nat
  value : Tree
  after : Nat := 1

def Line.text (l : Line) : String :=
  "let "++l.name++blanks l.before++"= "++l.value.text++blanks l.after++"in\n"

structure Declaration where
  name : String
  before : Nat
  shape : List Nat
  after : Nat := 1

def Declaration.text (d : Declaration) (low high : String) : String :=
  "let "++d.name++blanks d.before++"= ("++Text.join ", " (d.shape.map toString)++")" ++
    blanks d.after++"in ["++low++", "++high++"] in\n"

structure Block where
  title : Option String := none
  lines : List Line

def Block.text (b : Block) : String :=
  (b.title.map fun title => "// "++title++"\n").getD "" ++
    Text.join "" (b.lines.map Line.text)++"\n"

def outlineLine (level : Nat) (parts : List String) : String :=
  String.ofList (List.replicate (2*level) ' ')++" "++Text.join " " parts++"\n"

def intsText (ns : List Int) : String :=
  "["++Text.join ", " (ns.map toString)++"]"

def rangeText (low high : Float) : String :=
  "("++Number.floatText low++", "++Number.floatText high++")"

mutual

def Expr.outline {α : Type} (level : Nat) : Expr α → String
  | .int _ v => outlineLine level [toString v]
  | .real _ v => outlineLine level [Number.floatText v]
  | .name _ id => outlineLine level [id]
  | .decl _ shape low high => outlineLine level [intsText shape, "in", rangeText low high]
  | .transpose _ e => e.outline (level+1)++outlineLine level ["^T"]
  | .reshape _ e shape order =>
    outlineLine level ["reshape"]++e.outline (level+1) ++
      outlineLine level [intsText shape, "order", intsText order]
  | .maxpool _ e stride =>
    outlineLine level ["maxpool"]++e.outline (level+1)++outlineLine level [toString stride]
  | .index _ e i =>
    e.outline (level+1)++outlineLine level ["["]++i.outline (level+1) ++
      outlineLine level ["]"]
  | .call _ f args =>
    outlineLine level [f++" ("]++Expr.outlineAll level args++outlineLine level [")"]
  | .unary _ op e => outlineLine level [op.shown]++e.outline (level+1)
  | .product _ op a b =>
    a.outline (level+1)++outlineLine level [op.shown]++b.outline (level+1)
  | .additive _ op a b =>
    a.outline (level+1)++outlineLine level [op.shown]++b.outline (level+1)
  | .apply _ op e => outlineLine level [op.shown]++e.outline (level+1)
  | .sum _ v first last e =>
    outlineLine level [v, toString first, toString last]++e.outline (level+1)
  | .cond _ e t f =>
    e.outline (level+1)++outlineLine level [">", "0"]++t.outline (level+1) ++
      outlineLine level [":"]++f.outline (level+1)
  | .bind _ v d e =>
    outlineLine level ["let", v, "="]++d.outline (level+1)++outlineLine level ["in"] ++
      e.outline (level+1)

def Expr.outlineAll {α : Type} (level : Nat) : List (Expr α) → String
  | [] => ""
  | e::es => e.outline (level+1)++outlineLine level [","]++Expr.outlineAll level es

end

end MicroLearn.Lang
