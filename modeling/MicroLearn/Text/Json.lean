import MicroLearn.Number.Decimal

/-!
# JSON values

Reading and writing JSON text. A number is an integer unless it has a point or
an exponent; `NaN`, `Infinity` and `-Infinity` are numbers too. Objects keep the
order in which their keys came; a repeated key keeps its place and takes the
last value.
-/

set_option autoImplicit false

namespace MicroLearn.Text

inductive Json where
  | null
  | bool (b : Bool)
  | int (n : Int)
  | float (x : Float)
  | str (s : String)
  | arr (items : List Json)
  | obj (entries : List (String × Json))
  deriving Inhabited

namespace Json

def put {α : Type} (k : String) (v : α) : List (String × α) → List (String × α)
  | [] => [(k,v)]
  | (k',v')::rest => if k' = k then (k,v)::rest else (k',v')::put k v rest

def isSpace (c : Char) : Bool := c == ' ' || c == '\t' || c == '\n' || c == '\r'

def skip (cs : List Char) : List Char := cs.dropWhile isSpace

def hexValue? (c : Char) : Option Nat :=
  if '0' ≤ c ∧ c ≤ '9' then some (c.toNat-48)
  else if 'a' ≤ c ∧ c ≤ 'f' then some (c.toNat-87)
  else if 'A' ≤ c ∧ c ≤ 'F' then some (c.toNat-55)
  else none

def hex4? : List Char → Option (Nat × List Char)
  | a::b::c::d::rest => do
    let a ← hexValue? a
    let b ← hexValue? b
    let c ← hexValue? c
    let d ← hexValue? d
    pure (((a*16+b)*16+c)*16+d,rest)
  | _ => none

/-- A character given by its code, after the letter `u`; two surrogate halves make one character. -/
def unicode? (cs : List Char) : Option (Char × List Char) := do
  let (hi,rest) ← hex4? cs
  if 0xD800 ≤ hi ∧ hi < 0xDC00 then
    match rest with
    | '\\' :: 'u'::rest' =>
      match hex4? rest' with
      | some (lo,rest'') =>
        if 0xDC00 ≤ lo ∧ lo < 0xE000 then
          pure (Char.ofNat (0x10000+(hi-0xD800)*1024+(lo-0xDC00)),rest'')
        else pure (Char.ofNat 0xFFFD,rest)
      | none => none
    | _ => pure (Char.ofNat 0xFFFD,rest)
  else if 0xDC00 ≤ hi ∧ hi < 0xE000 then pure (Char.ofNat 0xFFFD,rest)
  else pure (Char.ofNat hi,rest)

def readString? : Nat → List Char → List Char → Option (List Char × List Char)
  | 0, _, _ => none
  | _+1, [], _ => none
  | _+1, '"'::rest, acc => some (acc.reverse,rest)
  | fuel+1, '\\'::c::rest, acc =>
    match c with
    | '"' => readString? fuel rest ('"'::acc)
    | '\\' => readString? fuel rest ('\\'::acc)
    | '/' => readString? fuel rest ('/'::acc)
    | 'b' => readString? fuel rest (Char.ofNat 8::acc)
    | 'f' => readString? fuel rest (Char.ofNat 12::acc)
    | 'n' => readString? fuel rest ('\n'::acc)
    | 'r' => readString? fuel rest ('\r'::acc)
    | 't' => readString? fuel rest ('\t'::acc)
    | 'u' =>
      match unicode? rest with
      | some (ch,rest') => readString? fuel rest' (ch::acc)
      | none => none
    | _ => none
  | fuel+1, c::rest, acc =>
    if c = '\\' ∨ c.toNat < 32 then none else readString? fuel rest (c::acc)

def readNumber? (cs : List Char) : Option (Json × List Char) :=
  let (negative,body) : Bool × List Char :=
    match cs with
    | '-'::r => (true,r)
    | r => (false,r)
  let whole := body.takeWhile Char.isDigit
  let rest := body.dropWhile Char.isDigit
  match whole with
  | [] => none
  | d::more =>
    let (whole,rest) : List Char × List Char :=
      if d = '0' then ([d],more++rest) else (whole,rest)
    let (fraction,rest) : List Char × List Char :=
      match rest with
      | '.'::c::r =>
        if c.isDigit then ((c::r).takeWhile Char.isDigit,(c::r).dropWhile Char.isDigit)
        else ([],rest)
      | _ => ([],rest)
    let (power,rest) : Option Int × List Char :=
      match rest with
      | e::r =>
        if e = 'e' ∨ e = 'E' then
          let (neg,ds) := Number.splitSign r
          let k := ds.takeWhile Char.isDigit
          if k.isEmpty then (none,rest)
          else
            let n : Int := Number.digitsValue k
            (some (if neg then -n else n),ds.dropWhile Char.isDigit)
        else (none,rest)
      | [] => (none,rest)
    if fraction.isEmpty && power.isNone then
      let n : Int := Number.digitsValue whole
      some (.int (if negative then -n else n),rest)
    else
      some (.float (Number.decimalFloat negative (Number.digitsValue (whole++fraction))
        (power.getD 0-fraction.length)),rest)

def readWord? (cs : List Char) : Option (Json × List Char) :=
  let table : List (String × Json) :=
    [("null",.null), ("true",.bool true), ("false",.bool false), ("NaN",.float (0.0/0.0)),
      ("Infinity",.float (1.0/0.0)), ("-Infinity",.float (-(1.0/0.0)))]
  table.findSome? fun (w,v) => (afterStart w.toList cs).map fun rest => (v,rest)

/-- What a nested reader still has to close: the items or entries read so far, newest first. -/
inductive Frame where
  | arr (items : List Json)
  | obj (entries : List (String × Json)) (key : String)

/-- What comes next: a value, or the end of the value just read. -/
inductive Next where
  | value
  | after (v : Json)

def readKey? (fuel : Nat) (cs : List Char) : Option (String × List Char) :=
  match skip cs with
  | '"'::rest =>
    match readString? fuel rest [] with
    | some (k,rest) =>
      match skip rest with
      | ':'::rest => some (String.ofList k,rest)
      | _ => none
    | none => none
  | _ => none

/-- Reads with an explicit stack; each step consumes a character or closes a frame. -/
def run : Nat → Next → List Frame → List Char → Option (Json × List Char)
  | 0, _, _, _ => none
  | fuel+1, .value, stack, cs =>
    match skip cs with
    | '"'::rest =>
      match readString? (rest.length+1) rest [] with
      | some (s,rest) => run fuel (.after (.str (String.ofList s))) stack rest
      | none => none
    | '['::rest =>
      match skip rest with
      | ']'::rest => run fuel (.after (.arr [])) stack rest
      | rest => run fuel .value (.arr []::stack) rest
    | '\x7b'::rest =>
      match skip rest with
      | '\x7d'::rest => run fuel (.after (.obj [])) stack rest
      | rest =>
        match readKey? (rest.length+1) rest with
        | some (k,rest) => run fuel .value (.obj [] k::stack) rest
        | none => none
    | rest =>
      match readWord? rest with
      | some (v,rest) => run fuel (.after v) stack rest
      | none =>
        match readNumber? rest with
        | some (v,rest) => run fuel (.after v) stack rest
        | none => none
  | _+1, .after v, [], cs => some (v,cs)
  | fuel+1, .after v, .arr items::stack, cs =>
    match skip cs with
    | ','::rest => run fuel .value (.arr (v::items)::stack) rest
    | ']'::rest => run fuel (.after (.arr (v::items).reverse)) stack rest
    | _ => none
  | fuel+1, .after v, .obj entries key::stack, cs =>
    match skip cs with
    | ','::rest =>
      match readKey? (rest.length+1) rest with
      | some (k,rest) => run fuel .value (.obj (put key v entries) k::stack) rest
      | none => none
    | '\x7d'::rest => run fuel (.after (.obj (put key v entries))) stack rest
    | _ => none

def parse? (s : String) : Option Json :=
  match run (2*s.length+2) .value [] s.toList with
  | some (v,rest) => if (skip rest).isEmpty then some v else none
  | none => none

def unicodeEscape (n : Nat) : List Char := '\\' :: 'u'::hexText 4 n

def escapeChar (c : Char) : List Char :=
  if c = '"' then ['\\', '"']
  else if c = '\\' then ['\\', '\\']
  else if c = '\n' then ['\\', 'n']
  else if c = '\r' then ['\\', 'r']
  else if c = '\t' then ['\\', 't']
  else if c.toNat = 8 then ['\\', 'b']
  else if c.toNat = 12 then ['\\', 'f']
  else if c.toNat < 32 then unicodeEscape c.toNat
  else if c.toNat < 127 then [c]
  else if c.toNat < 0x10000 then unicodeEscape c.toNat
  else
    let n := c.toNat-0x10000
    unicodeEscape (0xD800+n/1024)++unicodeEscape (0xDC00+n % 1024)

def quote (s : String) : String :=
  String.ofList ('"'::s.toList.flatMap escapeChar++['"'])

def floatLiteral (x : Float) : String :=
  match Number.Binary.ofFloat x with
  | .undefined => "NaN"
  | .infinite negative => if negative then "-Infinity" else "Infinity"
  | b => b.text

structure Layout where
  indent : Option Nat
  itemSep : String
  keySep : String

def Layout.newline (l : Layout) (depth : Nat) : String :=
  match l.indent with
  | none => ""
  | some n => "\n"++String.ofList (List.replicate (n*depth) ' ')

mutual

def write (l : Layout) (depth : Nat) : Json → String
  | .null => "null"
  | .bool b => if b then "true" else "false"
  | .int n => toString n
  | .float x => floatLiteral x
  | .str s => quote s
  | .arr [] => "[]"
  | .arr (v::vs) =>
    "["++l.newline (depth+1)++write l (depth+1) v++writeItems l (depth+1) vs ++
      l.newline depth++"]"
  | .obj [] => "\x7b\x7d"
  | .obj ((k,v)::es) =>
    "\x7b"++l.newline (depth+1)++quote k++l.keySep++write l (depth+1) v ++
      writeEntries l (depth+1) es++l.newline depth++"\x7d"

def writeItems (l : Layout) (depth : Nat) : List Json → String
  | [] => ""
  | v::vs => l.itemSep++l.newline depth++write l depth v++writeItems l depth vs

def writeEntries (l : Layout) (depth : Nat) : List (String × Json) → String
  | [] => ""
  | (k,v)::es =>
    l.itemSep++l.newline depth++quote k++l.keySep++write l depth v++writeEntries l depth es

end

def compactLayout : Layout := ⟨none,",",":"⟩

def compact (v : Json) : String := write compactLayout 0 v

end Json

end MicroLearn.Text
