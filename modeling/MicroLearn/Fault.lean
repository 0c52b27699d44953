import MicroLearn.Text.Blank

/-!
# Faults

Every way in which a step can refuse its input, with the text that describes it.
A fault carries the data its description needs and nothing else.
-/

set_option autoImplicit false

namespace MicroLearn

inductive Fault where
  /-- a condition that the step demands of its arguments does not hold -/
  | requirement
  | unknownName (name : String)
  | unknownNumber (n : Int)
  | notInteger (text : String)
  | notReal (text : String)
  | tooFewValues (expected got : Nat)
  | tooManyValues (expected : Nat)
  | incompleteFormat
  | undefinedInteger
  | infiniteInteger
  | exceedsWord (n : Int) (bits : Nat)
  | exceedsByte (n : Int)
  | exceedsWidest
  | rangeExceeded
  | emptyLeast
  | emptyGreatest
  | noLogarithm
  /-- a comparison of whole arrays where one truth value is asked for -/
  | ambiguousTruth
  /-- another refusal of a value -/
  | value (text : String)
  | missingField
  | wrongKind
  | unassigned
  | outOfRange
  | zeroDivision
  | missingFile
  | endless
  | badAxis
  | undefinedName
  /-- a step that is left to be filled in -/
  | unfilled
  | unreadable
  /-- the first of a sequence that has none -/
  | exhausted
  /-- more of a sequence that has come to its end -/
  | ended
  | interrupted
  | exit (status : Nat)
  | stopped
  | refused (text : String)
  | failure (text : String)
  deriving Repr, DecidableEq, Inhabited

namespace Fault

def message : Fault → String
  | .unknownName name => Text.quoted name
  | .unknownNumber n => toString n
  | .notInteger text => "invalid literal for int() with base 10: "++Text.quoted text
  | .notReal text => "could not convert string to float: "++Text.quoted text
  | .tooFewValues expected got =>
    "not enough values to unpack (expected "++toString expected++", got "++toString got++")"
  | .tooManyValues expected => "too many values to unpack (expected "++toString expected++")"
  | .incompleteFormat => "incomplete format"
  | .undefinedInteger => "cannot convert float NaN to integer"
  | .infiniteInteger => "cannot convert float infinity to integer"
  | .exceedsWord n bits =>
    "Python integer "++toString n++" out of bounds for int"++toString bits
  | .exceedsByte n => "Python integer "++toString n++" out of bounds for uint8"
  | .exceedsWidest => "Python int too large to convert to C long"
  | .rangeExceeded => "math range error"
  | .emptyLeast => "min() arg is an empty sequence"
  | .emptyGreatest => "max() arg is an empty sequence"
  | .noLogarithm => "math domain error"
  | .ambiguousTruth =>
    "The truth value of an array with more than one element is ambiguous. Use a.any() or a.all()"
  | .value text => text
  | .refused text => text
  | .failure text => text
  | _ => ""

end Fault

def demand (condition : Bool) : Except Fault Unit :=
  if condition then .ok () else .error .requirement

end MicroLearn
