/-!
# Blanks, lines and fields

How text is cut into lines and fields. A line ends at a line feed, a carriage
return, or the two together; blanks are the white space characters of Unicode.
-/

set_option autoImplicit false

namespace MicroLearn.Text

def isBlank (c : Char) : Bool :=
  let n := c.toNat
  (9 ≤ n && n ≤ 13) || (28 ≤ n && n ≤ 32) || n == 0x85 || n == 0xA0 || n == 0x1680 ||
    (0x2000 ≤ n && n ≤ 0x200A) || n == 0x2028 || n == 0x2029 || n == 0x202F || n == 0x205F ||
    n == 0x3000

def trimChars (s : List Char) : List Char :=
  ((s.dropWhile isBlank).reverse.dropWhile isBlank).reverse

def trim (s : String) : String := String.ofList (trimChars s.toList)

/-- The lines of a text, each without its end; a last line may lack an end. -/
def linesOf : List Char → List Char → List (List Char)
  | [], [] => []
  | [], cur => [cur.reverse]
  | '\r' :: '\n'::rest, cur => cur.reverse::linesOf rest []
  | '\r'::rest, cur => cur.reverse::linesOf rest []
  | '\n'::rest, cur => cur.reverse::linesOf rest []
  | c::rest, cur => linesOf rest (c::cur)

def lines (s : String) : List String := (linesOf s.toList []).map String.ofList

def wordsOf : List Char → List Char → List (List Char)
  | [], [] => []
  | [], cur => [cur.reverse]
  | c::rest, cur =>
    if isBlank c then
      (if cur.isEmpty then wordsOf rest [] else cur.reverse::wordsOf rest [])
    else wordsOf rest (c::cur)

def words (s : String) : List String := (wordsOf s.toList []).map String.ofList

def afterStart : List Char → List Char → Option (List Char)
  | [], s => some s
  | _::_, [] => none
  | p::ps, c::cs => if p = c then afterStart ps cs else none

/-- Fields between occurrences of a nonempty separator, taken from the left. -/
def fieldsOf (sep : List Char) : Nat → List Char → List Char → List (List Char)
  | 0, _, cur => [cur.reverse]
  | _+1, [], cur => [cur.reverse]
  | fuel+1, c::rest, cur =>
    match afterStart sep (c::rest) with
    | some tail => cur.reverse::fieldsOf sep fuel tail []
    | none => fieldsOf sep fuel rest (c::cur)

def fields (sep : String) (s : String) : List String :=
  (fieldsOf sep.toList (s.length+1) s.toList []).map String.ofList

def join (sep : String) (parts : List String) : String := String.intercalate sep parts

def lower (s : String) : String := s.map Char.toLower

def zeros : List Nat :=
  [0x30, 0x660, 0x6f0, 0x7c0, 0x966, 0x9e6, 0xa66, 0xae6, 0xb66, 0xbe6, 0xc66, 0xce6, 0xd66, 0xde6,
    0xe50, 0xed0, 0xf20, 0x1040, 0x1090, 0x17e0, 0x1810, 0x1946, 0x19d0, 0x1a80, 0x1a90, 0x1b50,
    0x1bb0, 0x1c40, 0x1c50, 0xa620, 0xa8d0, 0xa900, 0xa9d0, 0xa9f0, 0xaa50, 0xabf0, 0xff10, 0x104a0,
    0x10d30, 0x11066, 0x110f0, 0x11136, 0x111d0, 0x112f0, 0x11450, 0x114d0, 0x11650, 0x116c0,
    0x11730, 0x118e0, 0x11950, 0x11c50, 0x11d50, 0x11da0, 0x16a60, 0x16ac0, 0x16b50, 0x1d7ce,
    0x1d7d8, 0x1d7e2, 0x1d7ec, 0x1d7f6, 0x1e140, 0x1e2f0, 0x1e950, 0x1fbf0]

def digitValue? (c : Char) : Option Nat :=
  (zeros.find? fun z => z ≤ c.toNat && c.toNat < z+10).map fun z => c.toNat-z

/-- The digit `0` to `9` of the same value; other characters stay. -/
def westernDigit (c : Char) : Char :=
  if c.toNat < 128 then c
  else match digitValue? c with
    | some d => Char.ofNat (48+d)
    | none => c

def hexDigit (n : Nat) : Char :=
  if n < 10 then Char.ofNat (48+n) else Char.ofNat (87+n)

def hexText : Nat → Nat → List Char
  | 0, _ => []
  | width+1, n => hexText width (n/16)++[hexDigit (n % 16)]

/-- The characters beyond ASCII that are written by their codes: controls, blanks, marks of format
and private ones. -/
def unprintedRanges : List (Nat × Nat) :=
  [(0x80,0xa0), (0xad,0xad), (0x600,0x605), (0x61c,0x61c), (0x6dd,0x6dd), (0x70f,0x70f),
    (0x890,0x891), (0x8e2,0x8e2), (0x1680,0x1680), (0x180e,0x180e), (0x2000,0x200f),
    (0x2028,0x202f), (0x205f,0x206f), (0x3000,0x3000), (0xe000,0xf8ff), (0xfeff,0xfeff),
    (0xfff9,0xfffb), (0x110bd,0x110bd), (0x110cd,0x110cd), (0x13430,0x13438),
    (0x1bca0,0x1bca3), (0x1d173,0x1d17a), (0xe0001,0x10ffff)]

def unprinted (n : Nat) : Bool := unprintedRanges.any fun (a,b) => a ≤ n && n ≤ b

def quotedChar (quote : Char) (c : Char) : List Char :=
  if c = quote ∨ c = '\\' then ['\\', c]
  else if c = '\n' then ['\\', 'n']
  else if c = '\r' then ['\\', 'r']
  else if c = '\t' then ['\\', 't']
  else if c.toNat < 32 ∨ c.toNat = 127 then '\\' :: 'x'::hexText 2 c.toNat
  else if unprinted c.toNat then
    if c.toNat < 0x100 then '\\' :: 'x'::hexText 2 c.toNat
    else if c.toNat < 0x10000 then '\\' :: 'u'::hexText 4 c.toNat
    else '\\' :: 'U'::hexText 8 c.toNat
  else [c]

def quoted (s : String) : String :=
  let cs := s.toList
  let quote := if cs.contains '\'' && !cs.contains '"' then '"' else '\''
  String.ofList (quote::cs.flatMap (quotedChar quote)++[quote])

end MicroLearn.Text
