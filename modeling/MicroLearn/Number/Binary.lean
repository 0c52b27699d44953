import MicroLearn.Fault

/-!
# Exact binary numbers

A double is a sign, a natural mantissa and a power of two. Everything that has
to be exact (truncation, scaling by powers of two, decimal text) is computed on
these parts and never on rounded intermediate doubles.
-/

set_option autoImplicit false

namespace MicroLearn.Number

def twoPow (n : Nat) : Nat := Nat.pow 2 n

def tenPow (n : Nat) : Nat := Nat.pow 10 n

def total (xs : List Int) : Int := xs.foldr (fun x s => x+s) 0

def sumOver (count : Nat) (term : Nat → Int) : Int := total ((List.range count).map term)

/-- The value of a double: `± mantissa * 2 ^ exponent`, an infinity, or no number. -/
inductive Binary where
  | finite (negative : Bool) (mantissa : Nat) (exponent : Int)
  | infinite (negative : Bool)
  | undefined
  deriving Repr, DecidableEq, Inhabited

def roundDiv (num den : Nat) : Nat :=
  let q := num/den
  let r := num % den
  if 2*r < den then q
  else if den < 2*r then q+1
  else if q % 2 = 0 then q else q+1

def ratio (mantissa : Nat) (exponent : Int) : Nat × Nat :=
  if 0 ≤ exponent then (mantissa*twoPow exponent.toNat,1) else (mantissa,twoPow (-exponent).toNat)

variable (x : Float)

variable (bits : Nat)

namespace Binary

def ofBits : Binary :=
  let negative := decide (twoPow 63 ≤ bits)
  let exponent : Nat := bits/twoPow 52 % twoPow 11
  let fraction : Nat := bits % twoPow 52
  if exponent = 2047 then
    if fraction = 0 then .infinite negative else .undefined
  else if exponent = 0 then .finite negative fraction (-1074)
  else .finite negative (fraction+twoPow 52) ((exponent : Int)-1075)

def ofFloat : Binary :=
  ofBits x.toBits.toNat

/-- The word of a finite double with mantissa below `2 ^ 53`; larger exponents give infinity. -/
def pack (negative : Bool) (mantissa : Nat) (exponent : Int) : Nat :=
  let sign := if negative then twoPow 63 else 0
  if mantissa < twoPow 52 then sign+mantissa
  else if 971 < exponent then sign+2047*twoPow 52
  else sign+(exponent+1075).toNat*twoPow 52+(mantissa-twoPow 52)

def nearestBits (negative : Bool) (num den : Nat) : Nat :=
  if num = 0 then (if negative then twoPow 63 else 0)
  else
    let guess : Int := (num.log2 : Int)-(den.log2 : Int)-52
    let fit (e : Int) : Nat :=
      if 0 ≤ e then roundDiv num (den*twoPow e.toNat) else roundDiv (num*twoPow (-e).toNat) den
    let floorAt (e : Int) : Nat :=
      if 0 ≤ e then num/(den*twoPow e.toNat) else num*twoPow (-e).toNat/den
    let e := if floorAt guess < twoPow 52 then guess-1 else guess
    let e := max e (-1074)
    let m := fit e
    if m = twoPow 53 then pack negative (twoPow 52) (e+1) else pack negative m e

def nearest (negative : Bool) (num den : Nat) : Float :=
  Float.ofBits (nearestBits negative num den).toUInt64

def truncate : Binary → Option Int
  | .finite negative m e =>
    let (num,den) := ratio m e
    let q : Int := (num/den : Nat)
    some (if negative then -q else q)
  | _ => none

def ceiling : Binary → Option Int
  | .finite negative m e =>
    let (num,den) := ratio m e
    some (if negative then -((num/den : Nat) : Int) else ((num+den-1)/den : Nat))
  | _ => none

def toFloat : Binary → Float
  | .finite negative m e => let (num,den) := ratio m e; nearest negative num den
  | .infinite negative => if negative then -(1.0/0.0) else 1.0/0.0
  | .undefined => 0.0/0.0

end Binary

def scaleBinary (k : Int) : Float :=
  match Binary.ofFloat x with
  | .finite negative m e =>
    if m = 0 then x
    else if k+e > 1100 then (Binary.infinite negative).toFloat
    else if k+e < -2300 then (Binary.finite negative 0 0).toFloat
    else (Binary.finite negative m (e+k)).toFloat
  | _ => x

def floatOfInt (n : Int) : Float :=
  Binary.nearest (decide (n < 0)) n.natAbs 1

def logWorking : Nat := 320

def logPlaces : Nat := 128

/-- Repeated squaring: appends `steps` binary places of the logarithm of `x / 2 ^ logWorking`, a
number in `[1, 2)`, to `found`. -/
def logDigits : Nat → Nat → Nat → Nat
  | 0, _, found => found
  | steps+1, x, found =>
    let square := x*x/twoPow logWorking
    if twoPow (logWorking+1) ≤ square then logDigits steps (square/2) (2*found+1)
    else logDigits steps square (2*found)

/-- The binary logarithm of a positive number `mantissa * 2 ^ exponent`, in units of `2 ^
-logPlaces`. -/
def logUnits (mantissa : Nat) (exponent : Int) : Int :=
  let top := mantissa.log2
  let unit := mantissa*twoPow logWorking/twoPow top
  ((top : Int)+exponent)*twoPow logPlaces+logDigits logPlaces unit 0

/-- The binary logarithm. Zero has the logarithm minus infinity, a negative number none. -/
def logTwo : Float :=
  match Binary.ofFloat x with
  | .undefined => x
  | .infinite negative => if negative then 0.0/0.0 else x
  | .finite negative m e =>
    if m = 0 then (Binary.infinite true).toFloat
    else if negative then 0.0/0.0
    else
      let units := logUnits m e
      Binary.nearest (decide (units < 0)) units.natAbs (twoPow logPlaces)

def expPlaces : Nat := 320

/-- How often the argument is halved before the series and the result squared after it. -/
def expHalvings : Nat := 20

/-- The series `1 + y + y² / 2 + …` from term number `k` on, for `y / 2 ^ expPlaces` below one. -/
def expSeries (y : Nat) : Nat → Nat → Nat → Nat → Nat
  | 0, _, _, total => total
  | fuel+1, k, term, total =>
    let next := term*y/twoPow expPlaces/k
    expSeries y fuel (k+1) next (total+next)

def squareTimes : Nat → Nat → Nat
  | 0, x => x
  | n+1, x => squareTimes n (x*x/twoPow expPlaces)

/-- The exponential of a number at least zero, in units of `2 ^ -expPlaces`. -/
def expUnits (num den : Nat) : Nat :=
  let y := num*twoPow (expPlaces-expHalvings)/den
  squareTimes expHalvings (expSeries y 40 1 (twoPow expPlaces) (twoPow expPlaces))

def exponential : Float :=
  match Binary.ofFloat x with
  | .undefined => x
  | .infinite negative => if negative then 0.0 else x
  | .finite negative m e =>
    let (num,den) := ratio m e
    if 750*den < num then (if negative then 0.0 else (Binary.infinite false).toFloat)
    else if num*twoPow 64 < den then 1.0
    else
      let units := expUnits num den
      if negative then Binary.nearest false (twoPow expPlaces) units
      else Binary.nearest false units (twoPow expPlaces)

def wordMax : Int := twoPow (bits-1)-1

def wordMin : Int := -twoPow (bits-1)

def fitWord (n : Int) : Except Fault Int :=
  if n < wordMin 64 ∨ wordMax 64 < n then .error .exceedsWidest
  else if n < wordMin bits ∨ wordMax bits < n then .error (.exceedsWord n bits)
  else .ok n

def integerPart : Except Fault Int :=
  match Binary.ofFloat x with
  | .undefined => .error .undefinedInteger
  | .infinite _ => .error .infiniteInteger
  | b => .ok (b.truncate.getD 0)

def integerAbove : Except Fault Int :=
  match Binary.ofFloat x with
  | .undefined => .error .undefinedInteger
  | .infinite _ => .error .infiniteInteger
  | b => .ok (b.ceiling.getD 0)

def doubleOfInt (n : Int) : Except Fault Float :=
  if n < wordMin 64 ∨ twoPow 64 ≤ n then .error .wrongKind else .ok (floatOfInt n)

def greater (a b : Float) : Float := if b > a then b else a

def magnitude : Float := if x < 0.0 then -x else x+0.0

def addAll (xs : List Float) : Float := xs.foldl (· + ·) 0.0

def lanes : Nat → List Float → List Float → List Float × List Float
  | 0, acc, xs => (acc,xs)
  | fuel+1, acc, xs =>
    if xs.length < 8 then (acc,xs)
    else lanes fuel (acc.zipWith (· + ·) (xs.take 8)) (xs.drop 8)

def blockSum (xs : List Float) : Float :=
  if xs.length < 8 then addAll xs
  else
    match lanes xs.length (xs.take 8) (xs.drop 8) with
    | ([a, b, c, d, e, f, g, h],rest) =>
      rest.foldl (· + ·) (((a+b)+(c+d))+((e+f)+(g+h)))
    | _ => 0.0

/-- The sum of a sequence; the fuel bounds the number of halvings. -/
def halvedSum : Nat → List Float → Float
  | 0, xs => blockSum xs
  | fuel+1, xs =>
    let n := xs.length
    if n ≤ 128 then blockSum xs
    else
      let half := n/2-n/2 % 8
      halvedSum fuel (xs.take half)+halvedSum fuel (xs.drop half)

def sequenceSum (xs : List Float) : Float := halvedSum xs.length xs

def roundEven : Float :=
  if x.abs < 4503599627370496.0 then
    let below := x.floor
    let part := x-below
    if part < 0.5 then below
    else if 0.5 < part then below+1.0
    else if (below/2.0).floor*2.0 == below then below
    else below+1.0
  else x

/-- The low bits of the integer part, where a word of 32 bits holds that part; otherwise those of
the lowest word. -/
def lowBits (x : Float) : Int :=
  match (Binary.ofFloat x).truncate with
  | some n => if wordMin 32 ≤ n ∧ n ≤ wordMax 32 then n % twoPow bits else wordMin 32 % twoPow bits
  | none => wordMin 32 % twoPow bits

def signedWord (x : Float) : Int :=
  let n := lowBits bits x
  if n ≤ wordMax bits then n else n-twoPow bits

end MicroLearn.Number
