import MicroLearn.Fixed.Word
import MicroLearn.Learn.Record

/-!
# Updating the labels of instances

A bag has one label and its instances have labels of their own, as one-hot rows.
Two policies bring these closer to what a model predicts: the first keeps the best
of the longest runs of the bag's class, the second turns instances at the two ends
into class 0, a few at a time.
-/

set_option autoImplicit false

namespace MicroLearn.Bag

def runsFrom (label : Int) : Nat → List Int → List Nat
  | _, [] => []
  | before, x::xs =>
    let n := if x == label then before+1 else 0
    n::runsFrom label n xs

def runs (label : Int) (bag : List Int) : List Nat := runsFrom label 0 bag

def runEnds (label : Int) (length : Nat) (bag : List Int) : List Nat :=
  ((runs label bag).zipIdx.filter fun (n,_) => n == length).map (·.2)

def noMaximum : Fault :=
  .value "zero-size array to reduction operation maximum which has no identity"

def longest (label : Int) (bag : List Int) : Except Fault Nat :=
  match runs label bag with
  | [] => .error noMaximum
  | n::ns => .ok (Model.greatest n ns)

def longestOfClasses (classes : Nat) (bag : List Int) : Except Fault (List Nat) :=
  (List.range (classes-1)).mapM fun c => longest (c+1 : Nat) bag

/-- The class with the longest run, if that run is long enough, else 0. -/
def prediction (classes : Nat) (shortest : Int) (bag : List Int) : Except Fault Nat := do
  let lengths ← longestOfClasses classes bag
  let best := Fixed.argmax lengths
  if shortest ≤ (lengths.getD best 0 : Nat) then return best+1 else return 0

def predictions (classes : Nat) (shortest : Int) (bags : List (List Int)) :
    Except Fault (List Nat) := do
  let out ← bags.mapM (prediction classes shortest)
  demand (2 ≤ classes)
  return out

def lastStep {α : Type} [LT α] [DecidableLT α] (instance' : List (List α)) :
    Except Fault (Nat × Int) :=
  match instance'.getLast? with
  | some scores => .ok (Fixed.argmax scores,instance'.length-1)
  | none => .error .outOfRange

section

variable {α β : Type} [LT α] [DecidableLT α]

abbrev Scores (α : Type) := List (List α)

def oneHot [Zero β] [One β] (classes label : Nat) : List β :=
  (List.range classes).map fun c => if c = label then 1 else 0

def windowSum [Zero α] [Add α] (scores : Scores α) (label : Nat) : Nat → Nat → α → α
  | 0, _, sum => sum
  | count+1, last, sum =>
    windowSum scores label count (last-1) (sum+((scores.getD last []).getD label 0))

def bestPlace [Zero α] [Add α] (scores : Scores α) (label length : Nat) : List Nat → Option Nat
  | [] => none
  | p::ps =>
    let value (q : Nat) := windowSum scores label length q 0
    some (ps.foldl (fun best q => if value best < value q then q else best) p)

/-- The labels of a bag whose longest run is that of its own class: one run keeps the class, all
else becomes class 0. -/
def relabel [Zero β] [One β] (label length last : Nat) (labels : List (List β)) :
    Except Fault (List (List β)) :=
  labels.zipIdx.mapM fun (row,q) =>
    if row.isEmpty then .error .outOfRange
    else if last+1 ≤ q+length ∧ q ≤ last then
      if label < row.length then .ok (oneHot row.length label) else .error .outOfRange
    else .ok (oneHot row.length 0)

def moveTo [Zero β] [One β] (c length : Nat) (labels : List (List β)) :
    Option Nat → Except Fault (List (List β))
  | some last => relabel c length last labels
  | none => .ok labels

def topBag [Zero α] [Add α] [Zero β] [One β] (classes : Nat) (k label : Int) (scores : Scores α)
    (labels : List (List β)) : Except Fault (List (List β)) := do
  let predicted := scores.map fun row => (Fixed.argmax row : Int)
  let lengths ← longestOfClasses classes predicted
  let best := Fixed.argmax lengths
  let length := lengths.getD best 0
  if label == 0 || label != (best+1 : Nat) || decide ((length : Int) < k) then return labels
  moveTo (best+1) length labels (bestPlace scores (best+1) length (runEnds label length predicted))

/-- The new labels of the bag at a place; one without labels must be of class 0. -/
def topAt [Zero α] [Add α] [Zero β] [One β] (classes : Nat) (k : Int)
    (labels : List (List (List β)))
    (label : Int) (s : Scores α) (i : Nat) : Except Fault (Option (List (List β))) :=
  match labels[i]? with
  | some own => some <$> topBag classes k label s own
  | none => if label == 0 then .ok none else .error .outOfRange

def topRuns [Zero α] [Add α] [Zero β] [One β] (classes : Nat) (k : Int)
    (labels : List (List (List β))) (scores : List (Scores α)) (bagLabels : List Int) :
    Except Fault (List (List (List β))) := do
  demand (labels.all fun own => decide (k ≤ own.length))
  demand (decide (0 < k))
  if classes < 2 then .error .badAxis
  let _ ← scores.mapM fun s => longestOfClasses classes (s.map fun row => (Fixed.argmax row : Int))
  demand (scores.length == bagLabels.length)
  let updated ← ((bagLabels.zip scores).zipIdx).mapM fun x => topAt classes k labels x.1.1 x.1.2 x.2
  return updated.filterMap id++labels.drop updated.length

end

section

variable {α β : Type} [LE α] [DecidableLE α] [LE β] [DecidableLE β]

def noGreatest : Fault := .value "attempt to get argmax of an empty sequence"

/-- The place and the value of the first greatest entry, starting from a best pair. An entry that is
not comparable to itself counts as greater than all others. -/
def topFrom : Nat → α → Nat → List α → Nat × α
  | best, value, _, [] => (best,value)
  | best, value, i, x::xs =>
    if x ≤ value then topFrom best value (i+1) xs
    else if x ≤ x then topFrom i x (i+1) xs
    else (i,x)

def top : List α → Except Fault (Nat × α)
  | [] => .error noGreatest
  | x::xs => .ok (if x ≤ x then topFrom 0 x 1 xs else (0,x))

def negatives : List (List β) → Except Fault Nat
  | [] => .ok 0
  | row::rows => do
    let (label,_) ← top row
    if label = 0 then return (← negatives rows)+1 else return 0

structure Pruning (α : Type) where
  least : α
  perCall : Int
  allowed : Int

inductive End where
  | left
  | right
  deriving Repr, DecidableEq

/-- The end to turn next, given the predictions at both: a negative prediction against another wins,
of two the more certain one, and the left one of equal ones. -/
def nextEnd (s : Pruning α) (left right : Nat × α) : Option End :=
  let pass (score : α) (e : End) : Option End := if s.least ≤ score then some e else none
  if left.1 ≠ 0 ∧ right.1 ≠ 0 then none
  else if right.1 ≠ 0 then pass left.2 .left
  else if left.1 ≠ 0 then pass right.2 .right
  else if right.2 ≤ left.2 then pass left.2 .left
  else if left.2 ≤ right.2 then pass right.2 .right
  else none

def turned (s : Pruning α) (scores : Scores α) : Nat → Int → Int → Except Fault (List Nat)
  | 0, _, _ => .ok []
  | count+1, left, right => do
    demand (decide (left < scores.length))
    demand (decide (0 ≤ left))
    demand (decide (right < scores.length))
    demand (decide (0 ≤ right))
    let atLeft ← top (scores.getD left.toNat [])
    let atRight ← top (scores.getD right.toNat [])
    match nextEnd s atLeft atRight with
    | none => return []
    | some .left => return left.toNat::(← turned s scores count (left+1) right)
    | some .right => return right.toNat::(← turned s scores count left (right-1))

def pruneBag [Zero β] [One β] (s : Pruning α) (scores : Scores α) (labels : List (List β)) :
    Except Fault (List (List β)) := do
  let front ← negatives labels
  let back ← negatives labels.reverse
  demand (decide ((front+back : Int) ≤ s.allowed))
  let count := min s.perCall (s.allowed-front-back)
  let places ← turned s scores count.toNat front ((labels.length : Int)-back-1)
  return labels.zipIdx.map fun (row,q) =>
    if places.contains q then oneHot row.length 0 else row

/-- Prunes the ends of all bags whose label is not 0. The labels are those of `instances` instances
a bag, the scores those of `scored` instances. -/
def pruneEnds [Zero β] [One β] (s : Pruning α) (instances scored : Nat)
    (labels : List (List (List β))) (scores : List (Scores α)) (bagLabels : List Int) :
    Except Fault (List (List (List β))) := do
  demand (labels.length == scores.length)
  demand (scores.length == bagLabels.length)
  demand (decide (s.allowed < instances))
  demand (scored == instances)
  ((labels.zip scores).zip bagLabels).mapM fun ((own,sc),label) =>
    if label == 0 then .ok own else pruneBag s sc own

end

/-- Where windows start. A stride of zero never reaches the end, unless the first window does; the
fuel then runs out. -/
def windowStarts (steps length stride : Nat) : Nat → Nat → Except Fault (List Nat)
  | 0, _ => .error .endless
  | fuel+1, start =>
    if steps ≤ start+length then .ok [start]
    else do return start::(← windowStarts steps length stride fuel (start+stride))

section

variable {α : Type} [Zero α]

def windowAt (width length : Nat) (signal : List (List α)) (start : Nat) : List (List α) :=
  let found := (signal.drop start).take length
  found++List.replicate (length-found.length) (List.replicate width 0)

def windows (width length stride : Nat) (signal : List (List α)) :
    Except Fault (List (List (List α))) := do
  let starts ← windowStarts signal.length length stride (signal.length+1) 0
  return starts.map (windowAt width length signal)

end

structure Signal where
  steps : Nat := 128
  features : Nat := 9
  classes : Nat := 6

/-- The bags of signals with the labels of their instances. A row of scores gives the label of a
whole signal. -/
def bags {α β : Type} [Zero α] [Zero β] [One β] [LT β] [DecidableLT β] (s : Signal)
    (length stride : Int) (signals : List (List (List α))) (scores : List (List β)) :
    Except Fault (List (List (List (List α)) × List (List β))) := do
  demand (signals.all fun x => x.length == s.steps && x.all fun r => r.length == s.features)
  demand (decide (length ≤ s.steps) && decide (0 < length))
  demand (decide (stride ≤ s.steps) && decide (0 ≤ stride))
  demand (signals.length == scores.length)
  demand (scores.all fun r => r.length == s.classes)
  (signals.zip scores).mapM fun (x,y) => do
    let bag ← windows s.features length.toNat stride.toNat x
    return (bag,bag.map fun _ => oneHot s.classes (Fixed.argmax y))

def overhangs (steps length stride : Nat) : Bool :=
  match windowStarts steps length stride (steps+1) 0 with
  | .ok starts => starts.any fun a => decide (steps < a+length)
  | .error _ => false

open Tensor (need)

inductive Policy (α : Type) where
  | topRuns (k : Int)
  | pruneEnds (s : Pruning α)

def update (p : Policy Float) (classes : Nat) (labels scores : Tensor Float)
    (bagLabels : Tensor Int) : Except Fault (List (List (List Float))) := do
  let own ← need labels.toCube?
  match p with
  | .topRuns k =>
    demand (decide (k ≤ (labels.shape.getD 1 0 : Nat)) && decide (0 < k))
    match scores.toCube? with
    | some s => topRuns classes k own s (← need bagLabels.toList?)
    | none => .error .badAxis
  | .pruneEnds s =>
    pruneEnds s (labels.shape.getD 1 0) (scores.shape.getD 1 0) own (← need scores.toCube?)
      (← need bagLabels.toList?)

def joinRefusal (first other : List Nat) (index : Nat) : Option Fault :=
  if first.length != other.length then
    some (.value ("all the input arrays must have same number of dimensions, but the array at index 0 has " ++
      toString first.length++" dimension(s) and the array at index "++toString index++" has " ++
      toString other.length++" dimension(s)"))
  else
    (((first.zip other).zipIdx.drop 1).find? fun ((a,b),_) => a != b).map fun ((a,b),d) =>
      .value ("all the input array dimensions except for the concatenation axis must match exactly, but along dimension " ++
        toString d++", the array at index 0 has size "++toString a++" and the array at index " ++
        toString index++" has size "++toString b)

def join : List (Tensor Float) → Except Fault (Tensor Float)
  | [] => .error (.value "need at least one array to concatenate")
  | t::ts => do
    for (u,i) in ts.zipIdx do
      match joinRefusal t.shape u.shape (i+1) with
      | some f => throw f
      | none => pure ()
    let count := (t::ts).foldl (fun n u => n+u.shape.headD 0) 0
    return ⟨count::t.shape.tail,ts.foldl (fun d u => d++u.data) t.data⟩

def atStep (step : Int) (scores : List (List Float)) : Except Fault (Nat × Int) := do
  let i ← place scores.length step
  return (Fixed.argmax (scores.getD i []),step)

def instancePredictions (policy : List (List Float) → Except Fault (Nat × Int))
    (batches : List (Tensor Float)) : Except Fault (List (List (Nat × Int))) := do
  let all ← join batches
  demand (all.rank == 4)
  all.parts.mapM fun bag => do
    (← need bag.toCube?).mapM policy

structure Score where
  accuracy : Float
  macroF : Float
  macroPrecision : Float
  macroRecall : Float
  microF : Float
  microPrecision : Float
  microRecall : Float
  classes : List (Float × Float)

def shareRight (found right : List Int) : Float :=
  let hits := (List.zipWith (fun a b => if a == b then (1.0 : Float) else 0.0) found right)
  hits.foldl (· + ·) 0.0/Nat.toFloat hits.length

def scoreOf (classes : Nat) (found labels : List Int) : Except Fault Score := do
  let counts ← Learn.confusion classes found labels
  let m := counts.map fun row => row.map Nat.toFloat
  let (macroF,microF) ← Learn.fScores m
  let (macroPrecision,macroRecall) ← Learn.macroScores m
  let (microPrecision,microRecall) ← Learn.microScores m
  let each ← (List.range classes).mapM fun (c : Nat) => Learn.classScores m c
  return ⟨shareRight found labels,macroF,macroPrecision,macroRecall,microF,microPrecision,
    microRecall,each⟩

def analysis (classes instances : Nat) (bags : List (List Int)) (labels : List Int) :
    Except Fault (List Score) :=
  (List.range instances).mapM fun i => do
    let found ← predictions classes (i+1 : Nat) bags
    scoreOf classes (found.map Int.ofNat) labels

def secondF (s : Score) : Float :=
  let (p,r) := s.classes.getD 1 (0.0,0.0)
  2.0*p*r/(if p+r == 0.0 then 1.0 else p+r)

structure Rounds (m : Type → Type) (Labels Trained Scores : Type) where
  openRound : (round : Nat) → m Unit
  train : (round iteration : Nat) → Labels → m Trained
  choose : List Trained → m Trained
  restore : Trained → m Unit
  score : m Scores
  update : Labels → Scores → m Labels

namespace Rounds

variable {m : Type → Type} [Monad m] {Labels Trained Scores : Type}

def once (w : Rounds m Labels Trained Scores) (labels : Labels) (iterations round : Nat) :
    m (Labels × Trained) := do
  w.openRound round
  let tried ← (List.range iterations).mapM fun i => w.train round i labels
  let best ← w.choose tried
  w.restore best
  let scores ← w.score
  let new ← w.update labels scores
  return (new,best)

/-- The rounds one after another. Every one of them starts from the labels given first; the outcome
is the labels of the last round and the models that were chosen. -/
def fromRound (w : Rounds m Labels Trained Scores) (labels : Labels) (iterations : Nat) :
    Nat → Nat → Option Labels → List Trained → m (Option Labels × List Trained)
  | _, 0, last, chosen => pure (last,chosen)
  | round, n+1, _, chosen => do
    let (new,best) ← w.once labels iterations round
    w.fromRound labels iterations (round+1) n (some new) (chosen++[best])

def all (w : Rounds m Labels Trained Scores) (labels : Labels) (iterations rounds : Nat) :
    m (Option Labels × List Trained) := w.fromRound labels iterations 0 rounds none []

end Rounds

end MicroLearn.Bag
