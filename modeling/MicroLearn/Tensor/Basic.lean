import MicroLearn.Fault

/-!
# Tensors

Elements in row-major order under a shape. Without dimensions a tensor has one
element.
-/

set_option autoImplicit false

namespace MicroLearn

structure Tensor (α : Type) where
  shape : List Nat
  data : Array α
  deriving Inhabited, Repr

def shapeSize (shape : List Nat) : Nat := shape.foldl (· * ·) 1

def place (n : Nat) (i : Int) : Except Fault Nat :=
  if 0 ≤ i then if i < n then .ok i.toNat else .error .outOfRange
  else if 0 ≤ i+n then .ok (i+n).toNat else .error .outOfRange

namespace Tensor

variable {α β : Type}

def rank (t : Tensor α) : Nat := t.shape.length

def map (f : α → β) (t : Tensor α) : Tensor β := ⟨t.shape,t.data.map f⟩

def scalar (x : α) : Tensor α := ⟨[],#[x]⟩

def vector (xs : List α) : Tensor α := ⟨[xs.length],xs.toArray⟩

def ofRows (rows : List (List α)) : Tensor α :=
  ⟨[rows.length, (rows.head?.map List.length).getD 0],rows.flatten.toArray⟩

def fill (shape : List Nat) (x : α) : Tensor α := ⟨shape,Array.replicate (shapeSize shape) x⟩

def parts (t : Tensor α) : List (Tensor α) :=
  match t.shape with
  | [] => []
  | n::rest =>
    let width := shapeSize rest
    (List.range n).map fun i => ⟨rest,t.data.extract (i*width) ((i+1)*width)⟩

def toList? (t : Tensor α) : Option (List α) :=
  if t.rank = 1 then some t.data.toList else none

def toRows? (t : Tensor α) : Option (List (List α)) :=
  if t.rank = 2 then some (t.parts.map fun p => p.data.toList) else none

def toCube? (t : Tensor α) : Option (List (List (List α))) :=
  if t.rank = 3 then some (t.parts.map fun p => p.parts.map fun q => q.data.toList) else none

def need {γ : Type} : Option γ → Except Fault γ
  | some x => .ok x
  | none => .error .requirement

def unravel : List Nat → Nat → List Nat
  | [], _ => []
  | _::rest, k => k/shapeSize rest::unravel rest (k % shapeSize rest)

def ravel : List Nat → List Nat → Except Fault Nat
  | _, [] => .ok 0
  | [], _::_ => .error .outOfRange
  | n::rest, i::is =>
    if i < n then do return i*shapeSize rest+(← ravel rest is) else .error .outOfRange

end Tensor

def shapeWords (shape : List Nat) : String :=
  match shape with
  | [n] => "("++toString n++",)"
  | _ => "("++",".intercalate (shape.map toString)++")"

def shapesApart (a b : List Nat) : Fault :=
  .value ("operands could not be broadcast together with shapes "++shapeWords a++" " ++
    shapeWords b++" ")

def cannotReshape (size : Nat) (shape : List Nat) : Fault :=
  .value ("cannot reshape array of size "++toString size++" into shape "++shapeWords shape)

def meetReversed : List Nat → List Nat → Option (List Nat)
  | [], bs => some bs
  | as, [] => some as
  | a::as, b::bs => do
    let rest ← meetReversed as bs
    if a = b then some (a::rest) else if a = 1 then some (b::rest)
    else if b = 1 then some (a::rest) else none

def meetShape (a b : List Nat) : Except Fault (List Nat) :=
  match meetReversed a.reverse b.reverse with
  | some s => .ok s.reverse
  | none => .error (shapesApart a b)

/-- The position in a tensor of a shape of the element that stands at places of a wider shape. -/
def meetPlace (shape places : List Nat) : Nat :=
  let own := places.drop (places.length-shape.length)
  (shape.zip own).foldl (fun k (n,i) => k*n+if n = 1 then 0 else i) 0

namespace Tensor

variable {α β γ : Type} [Inhabited α] [Inhabited β]

def zip (f : α → β → γ) (a : Tensor α) (b : Tensor β) : Except Fault (Tensor γ) := do
  if a.shape = b.shape then return ⟨a.shape,Array.zipWith f a.data b.data⟩
  let shape ← meetShape a.shape b.shape
  return ⟨shape,(Array.range (shapeSize shape)).map fun k =>
    let places := unravel shape k
    f (a.data.getD (meetPlace a.shape places) default)
      (b.data.getD (meetPlace b.shape places) default)⟩

def reshape (t : Tensor α) (shape : List Nat) : Except Fault (Tensor α) :=
  if shapeSize shape = t.data.size then
    .ok ⟨shape,t.data⟩ else .error (cannotReshape t.data.size shape)

def inRows (t : Tensor α) (width : Nat) : Except Fault (Tensor α) :=
  if width != 0 && t.data.size % width == 0 then .ok ⟨[t.data.size/width, width],t.data⟩
  else .error (.value ("cannot reshape array of size "++toString t.data.size++" into shape (" ++
    toString width++")"))

def ofParts (shape : List Nat) (parts : List (Tensor α)) : Tensor α :=
  ⟨parts.length::shape,(parts.map (·.data)).foldl (· ++ ·) #[]⟩

def pick (t : Tensor α) (places : List Nat) : Except Fault (Tensor α) := do
  let parts := t.parts.toArray
  let chosen ← places.mapM fun i =>
    match parts[i]? with
    | some p => pure p
    | none => throw .outOfRange
  return ofParts (t.shape.drop 1) chosen

def range (t : Tensor α) (start stop : Nat) : Tensor α :=
  ofParts (t.shape.drop 1) ((t.parts.take stop).drop start)

def permute (t : Tensor α) (order : List Nat) : Tensor α :=
  let shape := order.map fun d => t.shape.getD d 0
  ⟨shape,(Array.range (shapeSize shape)).map fun k =>
    let places := unravel shape k
    let own := (List.range t.rank).map fun d => (places[order.idxOf d]?).getD 0
    t.data.getD ((t.shape.zip own).foldl (fun k (n,i) => k*n+i) 0) default⟩

def squeeze (t : Tensor α) : Tensor α := ⟨t.shape.filter (· != 1),t.data⟩

end Tensor

end MicroLearn
