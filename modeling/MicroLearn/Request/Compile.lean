import MicroLearn.Request.Basic
import MicroLearn.Lower.Compile

/-!
# Requests to compile
-/

set_option autoImplicit false

namespace MicroLearn.Request

open Text (Json)

def treeWithin : Nat → Json → Lang.Tree
  | 0, _ => .int "0"
  | fuel+1, j =>
  let e (k : String) := treeWithin fuel (field j k)
  let op := (Lang.Token.ofLiteral? (str j "op")).getD .openParen
  let texts := texts j
  match str j "k" with
  | "int" => .int (str j "v")
  | "float" => .real (str j "v")
  | "id" => .name (str j "v")
  | "decl" => .decl (texts "shape") (str j "lo") (str j "hi")
  | "transp" => .transpose (e "e")
  | "reshape" => .reshape (e "e") (texts "shape") (texts "order")
  | "maxpool" => .maxpool (e "e") (str j "dim")
  | "index" => .index (e "e") (e "i")
  | "call" => .call (str j "name") ((items j "args").map (treeWithin fuel))
  | "uop" => .unary op (e "e")
  | "bop1" => .product op (e "a") (e "b")
  | "bop2" => .additive op (e "a") (e "b")
  | "func" => .apply op (e "e")
  | "sum" => .sum (str j "v") (str j "from") (str j "to") (e "e")
  | "cond" => .cond (e "e") (str j "num") (e "t") (e "f")
  | "let" => .bind (str j "v") (e "d") (e "e")
  | _ => .paren (e "e")

def treeOf (j : Json) : Lang.Tree := treeWithin (depth j+1) j

def settingsOf (req : Json) (target : Code.Target) : Code.Settings :=
  ⟨target,natOr 16 req "word",.named (strOr "div" req "shr"),.named (strOr "table" req "exp"),
    natOr 6 req "expBits"⟩

def encTy : Lang.Ty → Json
  | .int => .str "int"
  | .tensor s => encInts s
  | .absent => .null

def encInterval (a : Lower.Interval) : Json := encInts [a.low, a.high]

def encTable {α : Type} (enc : α → Json) (t : List (String × α)) : Json :=
  .arr (t.map fun (k,v) => .arr [.str k, enc v])

def stateFields (s : Lower.State) : List (String × Json) :=
  [("decls",encTable encTy s.types), ("scales",encTable .int s.scales),
    ("intvs",encTable encInterval s.intervals), ("consts",encTable .int s.constants),
    ("expTables",encInts (s.tables.map (·.1))), ("globals",.arr (s.globals.map .str))]

def stageName : Lower.Stage → String
  | .reading => "ast"
  | .typing => "type"
  | .lowering => "ir"
  | .writing => "codegen"

def jobOf (req : Json) : Lower.Job where
  tree := treeOf (field req "tree")
  target := strOr "x86" req "target"
  algorithm := strOr "bonsai" req "algo"
  word := natOr 16 req "word"
  shift := .named (strOr "div" req "shr")
  exp := .named (strOr "table" req "exp")
  expBits := natOr 6 req "expBits"
  maxScale := int? req "maxScale"
  profile := textOr? req "profile"

def compiled (req : Json) : Answer :=
  let out := Lower.compile (jobOf req)
  let part {α : Type} (o : Option α) (f : α → List (String × Json)) : List (String × Answer) :=
    ((o.map f).getD []).map fun (k,v) => (k,.data v)
  .record (part out.outline (fun t => [("ast",.str t)]) ++
    part out.type (fun t => [("type",encTy t)]) ++
    part out.state stateFields++part out.code (fun t => [("code",.str t)]) ++
    part out.fault (fun (s,_) => [("stage",.str (stageName s))])) (out.fault.map (·.2))

end MicroLearn.Request
