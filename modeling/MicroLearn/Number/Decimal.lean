import MicroLearn.Number.Binary

/-!
# Numbers as text

Three ways to write a binary number in decimal: with a fixed count of places,
with a fixed count of significant digits, and with the fewest digits that read
back. All rounding is exact, halves going to the even digit. Then the grammar of
numbers in programs, model files and command lines, and the entries of such files.
-/

set_option autoImplicit false

namespace MicroLearn.Number

def digits (n : Nat) : String := toString n

def padLeft (width : Nat) (c : Char) (s : String) : String :=
  String.ofList (List.replicate (width-s.length) c)++s

structure Scientific where
  coefficient : Nat
  count : Nat
  exponent : Int
  deriving Repr, DecidableEq, Inhabited

/-- The power of ten below a positive ratio: the greatest `k` with `10 ^ k ≤ num / den`. -/
def decimalExponent (num den : Nat) : Int :=
  if den ≤ num then
    ((digits (num/den)).length : Int)-1
  else
    let k := (digits (den/num)).length
    if den ≤ num*tenPow (k-1) then -((k : Int)-1) else -(k : Int)

def roundAt (num den : Nat) (p : Int) : Nat :=
  if 0 ≤ p then roundDiv (num*tenPow p.toNat) den else roundDiv num (den*tenPow (-p).toNat)

def significant (count : Nat) (num den : Nat) : Scientific :=
  let k := decimalExponent num den
  let q := roundAt num den ((count : Int)-1-k)
  if q = tenPow count then ⟨tenPow (count-1),count,k+1⟩ else ⟨q,count,k⟩

def Scientific.strip (s : Scientific) : Scientific :=
  go s.count s
where
  go : Nat → Scientific → Scientific
    | 0, s => s
    | fuel+1, s =>
      if 1 < s.count ∧ s.coefficient % 10 = 0 then go fuel ⟨s.coefficient/10,s.count-1,s.exponent⟩
        else s

/-- Where positional notation ends and how an exponent is written. -/
structure NumberFormat where
  lowest : Int
  beyond : Int
  keepPoint : Bool
  deriving Repr

def exponentText (e : Int) : String :=
  (if e < 0 then "e-" else "e+")++padLeft 2 '0' (digits e.natAbs)

def Scientific.render (f : NumberFormat) (s : Scientific) : String :=
  let ds := (digits s.coefficient).toList
  if s.exponent < f.lowest ∨ f.beyond ≤ s.exponent then
    let head := String.ofList (ds.take 1)
    let tail := ds.drop 1
    (if tail.isEmpty then head else head++"."++String.ofList tail)++exponentText s.exponent
  else if s.exponent < 0 then
    "0."++String.ofList (List.replicate (-s.exponent-1).toNat '0'++ds)
  else
    let whole := s.exponent.toNat+1
    if ds.length ≤ whole then
      let body := String.ofList (ds++List.replicate (whole-ds.length) '0')
      if f.keepPoint then body++".0" else body
    else String.ofList (ds.take whole)++"."++String.ofList (ds.drop whole)

/-- Whether a positive ratio lies in the interval of reals that round to `mantissa * 2 ^ exponent`.
The ends belong to it when the mantissa is even; below a power of two the spacing is halved. -/
def readsBack (mantissa : Nat) (exponent : Int) (num den : Nat) : Bool :=
  let narrow := mantissa = twoPow 52 ∧ exponent ≠ -1074
  let (lowMantissa,lowExponent) : Nat × Int :=
    if narrow then (4*mantissa-1,exponent-2) else (2*mantissa-1,exponent-1)
  let (ln,ld) := ratio lowMantissa lowExponent
  let (hn,hd) := ratio (2*mantissa+1) (exponent-1)
  let even := mantissa % 2 = 0
  if even then decide (ln*den ≤ num*ld) && decide (num*hd ≤ hn*den)
  else decide (ln*den < num*ld) && decide (num*hd < hn*den)

def Scientific.ratio (s : Scientific) : Nat × Nat :=
  let p := s.exponent-(s.count : Int)+1
  if 0 ≤ p then (s.coefficient*tenPow p.toNat,1) else (s.coefficient,tenPow (-p).toNat)

def gridNeighbours (count : Nat) (num den : Nat) : Scientific × Scientific :=
  let k := decimalExponent num den
  let p := (count : Int)-1-k
  let low := if 0 ≤ p then num*tenPow p.toNat/den else num/(den*tenPow (-p).toNat)
  let above : Scientific :=
    if low+1 = tenPow count then ⟨tenPow (count-1),count,k+1⟩ else ⟨low+1,count,k⟩
  (⟨low,count,k⟩,above)

/-- The decimal with the fewest digits that reads back as the positive number `mantissa * 2 ^
exponent`. -/
def shortest (mantissa : Nat) (exponent : Int) : Scientific :=
  let (num,den) := Number.ratio mantissa exponent
  let rec go : Nat → Nat → Scientific
    | 0, count => significant count num den
    | fuel+1, count =>
      let (low,high) := gridNeighbours count num den
      let hit (s : Scientific) : Bool := let (a,b) := s.ratio; readsBack mantissa exponent a b
      match hit low, hit high with
      | true, true => significant count num den
      | true, false => low
      | false, true => high
      | false, false => go fuel (count+1)
  (go 16 1).strip

def plainFormat : NumberFormat := ⟨-4,16,true⟩

def Binary.text : Binary → String
  | .undefined => "nan"
  | .infinite negative => if negative then "-inf" else "inf"
  | .finite negative m e =>
    (if negative then "-" else "") ++
      if m = 0 then "0.0" else (shortest m e).render plainFormat

def floatText (x : Float) : String := (Binary.ofFloat x).text

def Binary.fixed (places : Nat) : Binary → String
  | .undefined => "nan"
  | .infinite negative => if negative then "-inf" else "inf"
  | .finite negative m e =>
    let (num,den) := Number.ratio m e
    let q := roundDiv (num*tenPow places) den
    let body :=
      if places = 0 then digits q
      else digits (q/tenPow places)++"."++padLeft places '0' (digits (q % tenPow places))
    if negative then "-"++body else body

def fixedText (places : Nat) (x : Float) : String := (Binary.ofFloat x).fixed places

/-- At most `count` significant digits, without zeros at the end; the exponent decides the
notation. -/
def Binary.general (count : Nat) : Binary → String
  | .undefined => "nan"
  | .infinite negative => if negative then "-inf" else "inf"
  | .finite negative m e =>
    (if negative then "-" else "") ++
      if m = 0 then "0"
      else
        let (num,den) := Number.ratio m e
        (significant count num den).strip.render ⟨-4,count,false⟩

def Binary.scientific (places : Nat) : Binary → String
  | .undefined => "nan"
  | .infinite negative => if negative then "-inf" else "inf"
  | .finite negative m e =>
    let (coefficient,exponent) : Nat × Int :=
      if m = 0 then (0,0)
      else
        let (num,den) := Number.ratio m e
        let s := significant (places+1) num den
        (s.coefficient,s.exponent)
    let ds := padLeft (places+1) '0' (digits coefficient)
    (if negative then "-" else "")++String.ofList (ds.toList.take 1)++"." ++
      String.ofList (ds.toList.drop 1)++exponentText exponent

def scientificText (places : Nat) (x : Float) : String := (Binary.ofFloat x).scientific places

def generalText (count : Nat) (x : Float) : String := (Binary.ofFloat x).general count

def withoutUnderscores : Bool → List Char → Option (List Char)
  | _, [] => some []
  | afterDigit, '_'::rest =>
    match rest with
    | c::_ => if afterDigit && c.isDigit then withoutUnderscores false rest else none
    | [] => none
  | _, c::rest => (withoutUnderscores c.isDigit rest).map (c :: ·)

def digitsValue (ds : List Char) : Nat :=
  ds.foldl (fun n c => 10*n+(c.toNat-48)) 0

def splitSign : List Char → Bool × List Char
  | '-'::rest => (true,rest)
  | '+'::rest => (false,rest)
  | cs => (false,cs)

def readInt? (s : String) : Option Int :=
  match withoutUnderscores false ((Text.trimChars s.toList).map Text.westernDigit) with
  | none => none
  | some cs =>
    let (negative,ds) := splitSign cs
    if ds.isEmpty || !ds.all Char.isDigit then none
    else some (if negative then -(digitsValue ds : Int) else digitsValue ds)

def readDecimal? (cs : List Char) : Option (Nat × Int) :=
  let whole := cs.takeWhile Char.isDigit
  let rest := cs.dropWhile Char.isDigit
  let (fraction,rest) : List Char × List Char :=
    match rest with
    | '.'::r => (r.takeWhile Char.isDigit,r.dropWhile Char.isDigit)
    | r => ([],r)
  if whole.isEmpty && fraction.isEmpty then none
  else
    let coefficient := digitsValue (whole++fraction)
    let base : Int := -(fraction.length : Int)
    match rest with
    | [] => some (coefficient,base)
    | e::r =>
      if e = 'e' ∨ e = 'E' then
        let (negative,ds) := splitSign r
        if ds.isEmpty || !ds.all Char.isDigit then none
        else
          let k : Int := digitsValue ds
          some (coefficient,if negative then base-k else base+k)
      else none

def decimalFloat (negative : Bool) (coefficient : Nat) (power : Int) : Float :=
  if coefficient = 0 then (if negative then -0.0 else 0.0)
  else if power > 400 then (Binary.infinite negative).toFloat
  else if 0 ≤ power then Binary.nearest negative (coefficient*tenPow power.toNat) 1
  else if (coefficient.log2 : Int)+3*power < -1200 then (if negative then -0.0 else 0.0)
  else Binary.nearest negative coefficient (tenPow (-power).toNat)

def readFloat? (s : String) : Option Float :=
  match withoutUnderscores false ((Text.trimChars s.toList).map Text.westernDigit) with
  | none => none
  | some cs =>
    let (negative,body) := splitSign cs
    let word := String.ofList (body.map Char.toLower)
    if word = "nan" then some (0.0/0.0)
    else if word = "inf" ∨ word = "infinity" then some (Binary.infinite negative).toFloat
    else (readDecimal? body).map fun (c,p) => decimalFloat negative c p

inductive Cell where
  | int (n : Int)
  | real (x : Float)
  deriving Inhabited

namespace Cell

def toFloat : Cell → Float
  | .int n => floatOfInt n
  | .real x => x

instance : Zero Cell := ⟨.int 0⟩

instance : Add Cell where
  add
    | .int a, .int b => .int (a+b)
    | a, b => .real (a.toFloat+b.toFloat)

instance : Sub Cell where
  sub
    | .int a, .int b => .int (a-b)
    | a, b => .real (a.toFloat-b.toFloat)

instance : Mul Cell where
  mul
    | .int a, .int b => .int (a*b)
    | a, b => .real (a.toFloat*b.toFloat)

instance : Neg Cell where
  neg
    | .int a => .int (-a)
    | .real x => .real (-x)

def isBelow : Cell → Cell → Bool
  | .int a, .int b => decide (a < b)
  | a, b => decide (a.toFloat < b.toFloat)

instance : LT Cell := ⟨fun a b => a.isBelow b = true⟩

instance : DecidableLT Cell := fun a b => inferInstanceAs (Decidable (a.isBelow b = true))

def isZero : Cell → Bool
  | .int n => n == 0
  | .real x => x == 0.0

def quotient (a b : Cell) : Except Fault Cell :=
  if b.isZero then .error .zeroDivision
  else match a, b with
    | .int m, .int n => .ok
        (.real (Binary.nearest (decide (m < 0) != decide (n < 0)) m.natAbs n.natAbs))
    | a, b => .ok (.real (a.toFloat/b.toFloat))

def abs : Cell → Cell
  | .int n => .int n.natAbs
  | .real x => .real (magnitude x)

def truncate : Cell → Except Fault Int
  | .int n => .ok n
  | .real x => integerPart x

/-- A double times a power of two; a finite one that leaves the range is refused. -/
def scaled (c : Cell) (k : Int) : Except Fault Float :=
  let x := c.toFloat
  let y := scaleBinary x k
  match Binary.ofFloat x, Binary.ofFloat y with
  | .finite _ _ _, .infinite _ => .error .rangeExceeded
  | _, _ => .ok y

end Cell

inductive CellFormat where
  | whole
  | fixed
  deriving Repr, DecidableEq, Inhabited

namespace CellFormat

def ofCell : Cell → CellFormat
  | .int _ => .whole
  | .real _ => .fixed

def typeName : CellFormat → String
  | .whole => "MYINT"
  | .fixed => "float"

def text : CellFormat → Cell → Except Fault String
  | .whole, c => do return toString (← c.truncate)
  | .fixed, c => .ok (fixedText 6 c.toFloat)

end CellFormat

end MicroLearn.Number
