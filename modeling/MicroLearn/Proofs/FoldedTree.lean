import Mathlib.Algebra.CharZero.Defs
import Mathlib.Algebra.Field.Basic
import Mathlib.Algebra.Order.Field.Basic
import Mathlib.Data.Sign.Basic
import Mathlib.Tactic.FieldSimp
import MicroLearn.Learn.Record
import MicroLearn.Model.Tree
import MicroLearn.Net.Tree
import MicroLearn.Proofs.Word

/-!
# Trees with their constants folded in

A trained tree is deployed with its rows in the order of the classes, and made ready
for use in the order of the nodes again. Its projection takes in the deviation of the
features and the width; the rows of the gains take in their factor. Over a field,
the folded projection of a plain input differs from that of the mean by the trained
projection of the normalised input.
-/

set_option autoImplicit false

namespace MicroLearn

open Number (twoPow twoPow_pos twoPow_succ)
open Model
open List (map_congr_left map_map map_nil range range' zipWith)
open Net

namespace Model

variable {α : Type}
variable {classes nodes k : Nat} {m : Rows α}

/-- The place, among rows in the order of the nodes, of the `k`-th row in the order of the
classes. -/
def nodePlace (classes nodes k : Nat) : Nat := k % nodes*classes+k/nodes

theorem nodePlace_lt (hk : k < classes*nodes) : nodePlace classes nodes k < classes*nodes := by
  have hnodes : 0 < nodes := Nat.pos_of_mul_pos_left (Nat.zero_lt_of_lt hk)
  have hclass := (Nat.div_lt_iff_lt_mul hnodes).2 hk
  have := Fixed.row_end_le classes (Nat.mod_lt k hnodes)
  rw [nodePlace, Nat.mul_comm classes]
  omega

theorem mul_add_div_of_lt {a b c : Nat} (h : c < b) : (a*b+c)/b = a := by
  rw [Nat.mul_comm, Nat.mul_add_div (Nat.zero_lt_of_lt h), Nat.div_eq_of_lt h, Nat.add_zero]

theorem nodePlace_nodePlace (hk : k < classes*nodes) :
    nodePlace classes nodes (k % classes*nodes+k/classes) = k := by
  have hclasses : 0 < classes := Nat.pos_of_mul_pos_right (Nat.zero_lt_of_lt hk)
  have hquotient : k/classes < nodes := (Nat.div_lt_iff_lt_mul hclasses).2 (by rwa [Nat.mul_comm])
  unfold nodePlace
  rw [Nat.mul_add_mod_of_lt hquotient, mul_add_div_of_lt hquotient]
  exact Nat.div_add_mod' k classes

theorem sources_eq (step classes nodes : Nat) :
    ((range classes).flatMap fun i => (range nodes).map fun j => j*step+i) =
      (range (classes*nodes)).map fun k => k % nodes*step+k/nodes := by
  rw [Fixed.range_mul, List.map_flatMap]
  refine List.flatMap_congr fun i _ => ?_
  rw [map_map]
  apply map_congr_left
  intro j hj
  have hj : j < nodes := List.mem_range.1 hj
  simp only [Function.comp_apply]
  rw [Nat.mul_add_mod_of_lt hj, mul_add_div_of_lt hj]

def classMajor (classes nodes : Nat) (m : Rows α) : Rows α :=
  (range (classes*nodes)).map fun k => (m[nodePlace classes nodes k]?).getD []

theorem groupByClass_ok [Zero α] (h : m.length = classes*nodes) :
    Learn.groupByClass classes nodes m = .ok (classMajor classes nodes m) := by
  unfold Learn.groupByClass
  rw [sources_eq]
  dsimp only
  rw [mapM_ok_of_getElem _ _ (classMajor classes nodes m)]
  · show Except.ok (_++(m.drop _).map _) = _
    rw [List.drop_of_length_le (by simp [classMajor, h]), map_nil, List.append_nil]
  · simp [classMajor]
  · intro j p hj
    rw [List.getElem?_zipIdx, List.getElem?_map] at hj
    obtain ⟨source,hsource,rfl⟩ := Option.map_eq_some_iff.1 hj
    obtain ⟨k,hk,rfl⟩ := Option.map_eq_some_iff.1 hsource
    obtain ⟨hlt,rfl⟩ := List.getElem?_eq_some_iff.1 hk
    rw [List.length_range] at hlt
    rw [List.getElem_range]
    have hplace : nodePlace classes nodes j < m.length := h ▸ nodePlace_lt hlt
    have hread : m[j % nodes*classes+j/nodes]? = some m[nodePlace classes nodes j] :=
      List.getElem?_eq_getElem hplace
    refine ⟨m[nodePlace classes nodes j],?_,?_⟩
    · simp [classMajor, hlt, List.getElem?_eq_getElem hplace]
    · simp only [hread, Nat.zero_add, h, hlt, if_true]

theorem byNode_classMajor (h : m.length = classes*nodes) :
    byNode classes nodes (classMajor classes nodes m) = m := by
  unfold byNode
  apply List.ext_getElem
  · simp [classMajor, h]
  · intro k hk hkm
    have hk : k < classes*nodes := h ▸ hkm
    have hplace : k % classes*nodes+k/classes < classes*nodes := by
      rw [Nat.mul_comm classes]
      exact nodePlace_lt (by rwa [Nat.mul_comm])
    simp [classMajor, hk, hplace, nodePlace_nodePlace hk, List.getElem?_eq_getElem hkm]

theorem classMajor_map (m : Rows α) (f : α → α) :
    (classMajor classes nodes m).map (fun row => row.map f) =
      classMajor classes nodes (m.map fun row => row.map f) := by
  unfold classMajor
  rw [map_map]
  apply map_congr_left
  intro k _
  rw [Function.comp_apply, List.getElem?_map]
  exact (Option.getD_map ..).symm

theorem classMajor_shaped {width}
    (h : Shaped (classes*nodes) width m) :
    Shaped (classes*nodes) width (classMajor classes nodes m) := by
  constructor
  · simp [classMajor]
  · intro row hrow
    obtain ⟨k,hk,rfl⟩ := List.mem_map.1 hrow
    have hplace : nodePlace classes nodes k < m.length :=
      h.length.symm ▸ nodePlace_lt (List.mem_range.1 hk)
    rw [List.getElem?_eq_getElem hplace]
    exact h.width _ (List.getElem_mem hplace)

section Division

variable {F : Type} [Field F] [DecidableEq F]

/-- The entries of a field are divided exactly, except by zero. -/
instance exactEntry : Entry F :=
  ⟨fun n => n,fun a b => if b = 0 then .error .zeroDivision else .ok (a/b)⟩

theorem quotient_ok (a : F) {b} (hb : b ≠ 0) : Entry.quotient a b = .ok (a/b) := if_neg hb

theorem quotients_ok (m : Rows F) {b} (hb : b ≠ 0) :
    (m.mapM fun row => row.mapM fun a => Entry.quotient a b) =
      .ok (m.map fun row => row.map (· / b)) := by
  exact mapM_ok_of_forall _ _ _ fun row _ => mapM_ok_of_forall _ _ _ fun a _ => quotient_ok a hb

theorem divideColumns_ok (m : Rows F) {d} (hd : ∀ a ∈ d, a ≠ 0) :
    divideColumns m (asColumn d) = .ok (m.map fun row => zipWith (· / ·) row d) := by
  apply mapM_ok_of_forall
  intro row hrow
  clear hrow
  induction row generalizing d with
  | nil => rfl
  | cons a row ih =>
    cases d with
    | nil => rfl
    | cons b d =>
      show ((a,[b])::row.zip (asColumn d)).mapM _ = _
      rw [List.mapM_cons, ih fun c hc => hd c (by simp [hc])]
      show (Entry.quotient a b >>= _) = _
      rw [quotient_ok a (hd b (by simp))]
      rfl

theorem setLast_asColumn (x : List F) (a : F) (n : Int) :
    setLast (asColumn (x++[a])) n = asColumn (x++[(n : F)]) := by
  simp [setLast, asColumn, Entry.whole]

end Division

end Model

open Model (Rows Shaped asColumn TreeModel PreparedTree)

/-- The means and deviations of the features. The bias that follows them is taken as it is. -/
structure Standard (F : Type) [Zero F] where
  mean : List F
  deviation : List F
  length_deviation : deviation.length = mean.length
  nonzero : ∀ d ∈ deviation, d ≠ 0

namespace Standard

variable {F : Type} [Field F] (s : Standard F)

def normalised (x : List F) : List F := zipWith (· / ·) (Net.minus x s.mean) s.deviation

def folded (width : F) (row : List F) : List F :=
  zipWith (· / ·) (row.map (· / width)) (s.deviation++[1])

theorem dot_divided (row d : List F) {x y : List F} (h : x.length = y.length) :
    dot (zipWith (· / ·) row d) x-dot (zipWith (· / ·) row d) y =
      dot row (zipWith (· / ·) (Net.minus x y) d) := by
  induction x generalizing row d y with
  | nil => simp [List.eq_nil_of_length_eq_zero h.symm, Net.minus]
  | cons a x ih =>
    obtain ⟨b,y,rfl⟩ := List.exists_cons_of_length_eq_add_one h.symm
    cases row with
    | nil => simp
    | cons r row =>
      cases d with
      | nil => simp
      | cons c d =>
        have hrest := ih row d (by simpa using h)
        simp only [Net.minus, List.zipWith_cons_cons, dot_cons] at hrest ⊢
        rw [← hrest]
        ring

theorem length_folded {width} {row} (h : row.length = s.mean.length+1) :
    (s.folded width row).length = row.length := by
  simp [folded, h, s.length_deviation]

theorem dot_folded {width b} (row : List F) {x} (hx : x.length = s.mean.length) :
    dot (s.folded width row) (x++[b])-dot (s.folded width row) (s.mean++[0]) =
      dot row (s.normalised x++[b])/width := by
  have hbias : zipWith (· / ·) (Net.minus (x++[b]) (s.mean++[0])) (s.deviation++[1]) =
      s.normalised x++[b] := by
    rw [Net.minus, List.zipWith_append hx, List.zipWith_append (by simp [hx, s.length_deviation])]
    simp [normalised, Net.minus]
  have hdivided : dot (s.folded width row) (x++[b])-dot (s.folded width row) (s.mean++[0]) = _ :=
    dot_divided _ _ (by simp [hx])
  rw [hdivided, hbias]
  simp only [div_eq_mul_inv, dot_map_mul]

end Standard

namespace Net.Tree

section Shape

variable {F : Type} [NatCast F]

/-- A tree of so many levels below the root, for inputs of so many coordinates. -/
structure Complete (t : Tree F) (depth inputs : Nat) : Prop where
  classes_pos : 1 ≤ t.classes
  nodes_eq : t.nodes = twoPow (depth+1)-1
  width_pos : 1 ≤ t.projection.length
  width_eq : t.width = t.projection.length
  projection : ∀ row ∈ t.projection, row.length = inputs
  scores : Shaped (t.classes*t.nodes) t.projection.length t.scores
  gains : Shaped (t.classes*t.nodes) t.projection.length t.gains
  routes : Shaped (twoPow depth-1) t.projection.length t.routes

variable {t : Tree F} {depth inputs : Nat}

theorem Complete.nodes_pos (h : t.Complete depth inputs) : 1 ≤ t.nodes := by
  rw [h.nodes_eq, twoPow_succ]
  have := twoPow_pos depth
  omega

theorem Complete.rows_pos (h : t.Complete depth inputs) : 1 ≤ t.classes*t.nodes :=
  Nat.mul_pos h.classes_pos h.nodes_pos

end Shape

variable {F : Type} [Field F]

/-- A tree as it is deployed. What is written of the bias as its mean and deviation is not used. -/
def deployed (t : Tree F) (s : Standard F) (biasMean biasDeviation : F) :
    Except Fault (TreeModel F) := do
  let W ← Learn.groupByClass t.classes t.nodes t.scores
  let V ← Learn.groupByClass t.classes t.nodes t.gains
  return ⟨t.projection,W,V,t.routes,[[t.sigma]],asColumn (s.mean++[biasMean]),
    asColumn (s.deviation++[biasDeviation])⟩

def scaledGains (t : Tree F) : Rows F := t.gains.map fun row => row.map (· * t.sigma)

def prepared (t : Tree F) (s : Standard F) (depth : Nat) : PreparedTree F :=
  let Z := t.projection.map (s.folded t.width)
  { inputs := s.mean.length+1
    projected := t.projection.length
    internalNodes := t.routes.length
    depth := depth
    totalNodes := t.nodes
    classes := t.classes
    Z := Z
    W := t.scores
    V := t.scaledGains
    T := t.routes
    mean := Net.applyMat Z (s.mean++[0]) }

variable {t : Tree F} {s : Standard F} {depth : Nat}

theorem folded_shaped (h : t.Complete depth (s.mean.length+1)) :
    Shaped t.projection.length (s.mean.length+1) (t.projection.map (s.folded t.width)) :=
  Shaped.map ⟨rfl,h.projection⟩ _ fun row hrow => s.length_folded (h.projection row hrow)

theorem divide_projection [DecidableEq F] :
    divideColumns (t.projection.map fun row => row.map (· / t.width))
      (asColumn (s.deviation++[1])) = .ok (t.projection.map (s.folded t.width)) := by
  rw [divideColumns_ok, map_map]
  · rfl
  · intro d hd
    rcases List.mem_append.1 hd with hd | hd
    · exact s.nonzero d hd
    · rw [List.mem_singleton.1 hd]
      exact one_ne_zero

theorem validate_deployed (h : t.Complete depth (s.mean.length+1)) {W V}
    (hW : Shaped (t.classes*t.nodes) t.projection.length W)
    (hV : Shaped (t.classes*t.nodes) t.projection.length V) (biasMean biasDeviation : F) :
    (TreeModel.mk t.projection W V t.routes [[t.sigma]] (asColumn (s.mean++[biasMean]))
      (asColumn (s.deviation++[biasDeviation]))).validate = .ok () := by
  have hZ : size t.projection = .ok (t.projection.length,s.mean.length+1) :=
    Shaped.size_ok ⟨rfl,h.projection⟩ h.width_pos
  have hmean := (asColumn_shaped (s.mean++[biasMean])).size_ok (by simp)
  have hdeviation := (asColumn_shaped (s.deviation++[biasDeviation])).size_ok (by simp)
  have hsigma : size [[t.sigma]] = .ok (1,1) := rfl
  unfold TreeModel.validate
  simp only [hZ, hW.size_ok h.rows_pos, hV.size_ok h.rows_pos, hsigma, hmean, hdeviation, bind,
    Except.bind, List.length_append, s.length_deviation]
  by_cases hempty : t.routes = []
  · simp [demand, hempty, pure, Except.pure]
  · have hT : size t.routes = .ok (t.routes.length,t.projection.length) :=
      Shaped.size_ok ⟨rfl,h.routes.width⟩ (List.length_pos_iff.2 hempty)
    simp [demand, hempty, hT]

theorem prepare_deployed [DecidableEq F] [CharZero F] (h : t.Complete depth (s.mean.length+1))
    (biasMean biasDeviation : F) :
    ∃ m, t.deployed s biasMean biasDeviation = .ok m ∧ m.validate = .ok () ∧
      m.prepare = .ok (t.prepared s depth) := by
  have hdeployed : t.deployed s biasMean biasDeviation = .ok ⟨t.projection,
      classMajor t.classes t.nodes t.scores,classMajor t.classes t.nodes t.gains,t.routes,
      [[t.sigma]],asColumn (s.mean++[biasMean]),asColumn (s.deviation++[biasDeviation])⟩ := by
    rw [deployed, groupByClass_ok h.scores.length, groupByClass_ok h.gains.length]
    rfl
  refine ⟨_,hdeployed,validate_deployed h (classMajor_shaped h.scores)
    (classMajor_shaped h.gains) _ _,?_⟩
  have hZ : size t.projection = .ok (t.projection.length,s.mean.length+1) :=
    Shaped.size_ok ⟨rfl,h.projection⟩ h.width_pos
  have hwidth : (Entry.whole t.projection.length : F) = t.width := by
    rw [h.width_eq]
    exact Int.cast_natCast _
  have hnonzero : t.width ≠ 0 := by
    rw [h.width_eq]
    exact Nat.cast_ne_zero.2 (Nat.ne_of_gt h.width_pos)
  have hlevels : (t.routes.length+1).log2 = depth := by
    rw [h.routes.length, Nat.sub_add_cancel (twoPow_pos depth)]
    exact Nat.log2_two_pow
  have hclasses : (classMajor t.classes t.nodes t.scores).length/t.nodes = t.classes := by
    rw [(classMajor_shaped h.scores).length, Nat.mul_div_cancel _ h.nodes_pos]
  have hmean : product (t.projection.map (s.folded t.width)) (asColumn (s.mean++[0])) =
      .ok (asColumn (Net.applyMat (t.projection.map (s.folded t.width)) (s.mean++[0]))) :=
    product_asColumn (by simpa using folded_shaped h) h.width_pos (by simp)
  have hmeanSize := (asColumn_shaped (Net.applyMat (t.projection.map (s.folded t.width))
    (s.mean++[0]))).size_ok (by simpa [Net.applyMat] using h.width_pos)
  have hentry : entry [[t.sigma]] 0 0 = .ok t.sigma := rfl
  unfold TreeModel.prepare
  simp only [hZ, hentry, setLast_asColumn, Int.cast_zero, Int.cast_one, hwidth,
    quotients_ok _ hnonzero, divide_projection, hmean, hmeanSize, bind, Except.bind]
  rw [hlevels, ← h.nodes_eq, hclasses, classMajor_map, byNode_classMajor h.scores.length,
    byNode_classMajor (by rw [List.length_map, h.gains.length]), flatten_asColumn]
  rfl

theorem minus_folded {x : List F} (hx : x.length = s.mean.length) (b : F) :
    Net.minus (Net.applyMat (t.prepared s depth).Z (x++[b])) (t.prepared s depth).mean =
      t.project (s.normalised x++[b]) := by
  show zipWith (· - ·) ((t.projection.map (s.folded t.width)).map _)
    ((t.projection.map (s.folded t.width)).map _) = (t.projection.map _).map _
  rw [map_map, map_map, map_map, List.zipWith_map, List.zipWith_self]
  exact map_congr_left fun row _ => s.dot_folded row hx

end Net.Tree

namespace Net

def level : Nat → List Nat
  | 0 => [0]
  | k+1 => (level k).flatMap fun p => [2*p+1, 2*p+2]

theorem mem_level_succ {k i} : i ∈ level (k+1) ↔ ∃ p ∈ level k, i = 2*p+1 ∨ i = 2*p+2 := by
  simp [level]

theorem flatMap_children (start count : Nat) :
    ((range' start count).flatMap fun p => [2*p+1, 2*p+2]) =
      range' (2*start+1) (2*count) := by
  induction count generalizing start with
  | zero => rfl
  | succ count ih =>
    rw [List.range'_succ, List.flatMap_cons, ih]
    rfl

theorem level_eq (k : Nat) : level k = range' (twoPow k-1) (twoPow k) := by
  induction k with
  | zero => rfl
  | succ k ih =>
    have hpos := twoPow_pos k
    have hstart : twoPow (k+1)-1 = 2*(twoPow k-1)+1 := by
      rw [twoPow_succ]
      omega
    rw [level, ih, flatMap_children, hstart, twoPow_succ]

theorem lt_of_mem_level {k i} (hi : i ∈ level k) : i < twoPow (k+1)-1 := by
  rw [level_eq, List.mem_range'_1] at hi
  rw [twoPow_succ]
  omega

theorem nodup_level (k : Nat) : (level k).Nodup := by
  rw [level_eq]
  exact List.nodup_range'

theorem twoPow_le {k n} (h : k ≤ n) : twoPow k ≤ twoPow n :=
  Nat.pow_le_pow_right (by decide) h

section Sums

variable {F : Type} [Field F]

theorem plus_scale_zero {a v : Vec F} (h : v.length = a.length) : plus a (scale 0 v) = a := by
  induction a generalizing v with
  | nil => simp [plus]
  | cons x a ih =>
    obtain ⟨y,v,rfl⟩ := List.exists_cons_of_length_eq_add_one h
    have := ih (v := v) (by simpa using h)
    simpa [plus, scale] using this

theorem plus_scale_one (a v : Vec F) : plus a (scale 1 v) = plus a v := by
  simp [scale]

theorem length_plus {a v : Vec F} (h : v.length = a.length) : (plus a v).length = a.length := by
  simp [plus, h]

theorem foldl_weighted {w : Nat → F} {v : Nat → Vec F} {a} (ns : List Nat) (sum : Vec F)
    (hnodup : ns.Nodup) (hw : ∀ i ∈ ns, w i = if i = a then 1 else 0)
    (hv : ∀ i ∈ ns, (v i).length = sum.length) :
    ns.foldl (fun sum i => plus sum (scale (w i) (v i))) sum =
      if a ∈ ns then plus sum (v a) else sum := by
  induction ns generalizing sum with
  | nil => simp
  | cons i ns ih =>
    obtain ⟨hi,hns⟩ := List.nodup_cons.1 hnodup
    have hlength := hv i (by simp)
    rw [List.foldl_cons, hw i (by simp)]
    by_cases hia : i = a
    · subst hia
      rw [if_pos rfl, plus_scale_one, ih _ hns (fun j hj => hw j (by simp [hj])), if_neg hi,
        if_pos (by simp)]
      intro j hj
      rw [length_plus hlength]
      exact hv j (by simp [hj])
    · rw [if_neg hia, plus_scale_zero hlength, ih _ hns (fun j hj => hw j (by simp [hj]))
        fun j hj => hv j (by simp [hj])]
      simp [Ne.symm hia]

end Sums

namespace Tree

theorem lt_nodes_of_mem_level {F} [NatCast F] {t : Tree F} {depth inputs}
    (h : t.Complete depth inputs) {k i} (hk : k ≤ depth) (hi : i ∈ level k) : i < t.nodes := by
  have hle : twoPow (k+1) ≤ twoPow (depth+1) := twoPow_le (by omega)
  have := lt_of_mem_level hi
  rw [h.nodes_eq]
  omega

section Shares

variable {F : Type} [Field F] (t : Tree F) (route : F → F) (z : Vec F)

def turn (p : Nat) : F := dot ((t.routes[p]?).getD []) z

theorem share_left (p : Nat) :
    t.share route z (2*p+1) = t.share route z p*((1+route (t.turn z p))/(1+1)) := by
  rw [share]
  have hhalf : 2*p/2 = p := by omega
  simp only [hhalf, Nat.mul_mod_right]
  rfl

theorem share_right (p : Nat) :
    t.share route z (2*p+2) = t.share route z p*((1-route (t.turn z p))/(1+1)) := by
  rw [share]
  have hhalf : (2*p+1)/2 = p := by omega
  have hodd : ¬(2*p+1) % 2 = 0 := by omega
  simp only [hhalf, hodd]
  rfl

theorem share_children [CharZero F] (p : Nat) :
    t.share route z (2*p+1)+t.share route z (2*p+2) = t.share route z p := by
  rw [share_left, share_right]
  ring

theorem sum_children [CharZero F] (ps : List Nat) :
    ((ps.flatMap fun p => [2*p+1, 2*p+2]).map (t.share route z)).sum =
      (ps.map (t.share route z)).sum := by
  induction ps with
  | nil => rfl
  | cons p ps ih =>
    rw [List.flatMap_cons, List.map_append, List.sum_append, ih]
    simp only [List.map_cons, map_nil, List.sum_cons, List.sum_nil, add_zero, share_children]

theorem sum_level [CharZero F] (k : Nat) : ((level k).map (t.share route z)).sum = 1 := by
  induction k with
  | zero => simp [level, share]
  | succ k ih => rw [level, sum_children, ih]

theorem length_nodeScore {depth inputs} (h : t.Complete depth inputs) (curve : F → F) {i}
    (hi : i < t.nodes) : (t.nodeScore curve z i).length = t.classes := by
  have hscores := (h.scores.part hi).length
  have hgains := (h.gains.part hi).length
  simp only [nodeScore, times, applyMat, rowsAt, List.length_zipWith, List.length_map, hscores,
    hgains, Nat.min_self]

end Shares

section Path

variable {F : Type} [Field F] [LinearOrder F] (t : Tree F) (z : Vec F)
variable {depth inputs k p : Nat} {y : F}

/-- The node of each level that an input comes to, by the sign of its products. -/
def path : Nat → Nat
  | 0 => 0
  | k+1 => if 0 ≤ t.turn z (path k) then 2*path k+1 else 2*path k+2

theorem path_succ (k : Nat) :
    t.path z (k+1) = 2*t.path z k+1 ∨ t.path z (k+1) = 2*t.path z k+2 := by
  by_cases h : 0 ≤ t.turn z (t.path z k)
  · exact .inl (if_pos h)
  · exact .inr (if_neg h)

theorem path_mem_level (k : Nat) : t.path z k ∈ level k := by
  induction k with
  | zero => simp [path, level]
  | succ k ih => exact mem_level_succ.2 ⟨_,ih,t.path_succ z k⟩

def pathScore (curve : F → F) : Nat → Vec F
  | 0 => t.nodeScore curve z 0
  | k+1 => plus (pathScore curve k) (t.nodeScore curve z (t.path z (k+1)))

theorem length_pathScore (h : t.Complete depth inputs) (curve : F → F)
    (hk : k ≤ depth) : (t.pathScore z curve k).length = t.classes := by
  induction k with
  | zero => exact length_nodeScore t z h curve h.nodes_pos
  | succ k ih =>
    have hnode := length_nodeScore t z h
      curve (lt_nodes_of_mem_level h hk (t.path_mem_level z (k+1)))
    rw [pathScore, length_plus (hnode.trans (ih (by omega)).symm), ih (by omega)]

def signRoute (y : F) : F := (SignType.sign y : SignType)

theorem signRoute_of_nonneg (hy : y ≠ 0) (h : 0 ≤ y) : signRoute y = 1 := by
  rw [signRoute, sign_pos (lt_of_le_of_ne h hy.symm)]
  rfl

theorem signRoute_of_neg (h : ¬0 ≤ y) : signRoute y = -1 := by
  rw [signRoute, sign_neg (not_le.1 h)]
  rfl

variable [IsStrictOrderedRing F]

theorem share_children_sign (hp : t.turn z p ≠ 0) :
    (t.share signRoute z (2*p+1) = if 0 ≤ t.turn z p then t.share signRoute z p else 0) ∧
      t.share signRoute z (2*p+2) = if 0 ≤ t.turn z p then 0 else t.share signRoute z p := by
  rw [share_left, share_right]
  by_cases h : 0 ≤ t.turn z p
  · rw [if_pos h, if_pos h, signRoute_of_nonneg hp h]
    constructor <;> ring
  · rw [if_neg h, if_neg h, signRoute_of_neg h]
    constructor <;> ring

theorem share_sign (hz : ∀ p < twoPow depth-1, t.turn z p ≠ 0)
    (hk : k ≤ depth) {i} (hi : i ∈ level k) :
    t.share signRoute z i = if i = t.path z k then 1 else 0 := by
  induction k generalizing i with
  | zero =>
    obtain rfl : i = 0 := by simpa [level] using hi
    simp [share, path]
  | succ k ih =>
    obtain ⟨p,hp,hchild⟩ := mem_level_succ.1 hi
    have hshare := ih (by omega) hp
    obtain ⟨hleft,hright⟩ := share_children_sign t z (hz p ((lt_of_mem_level hp).trans_le
      (Nat.sub_le_sub_right (twoPow_le hk) 1)))
    by_cases hpath : p = t.path z k
    · subst hpath
      rcases hchild with rfl | rfl
      · rw [hleft, hshare, path]
        by_cases h : 0 ≤ t.turn z (t.path z k) <;> simp
      · rw [hright, hshare, path]
        by_cases h : 0 ≤ t.turn z (t.path z k) <;> simp [h]
    · rw [if_neg hpath] at hshare
      have hoff : i ≠ t.path z (k+1) := by
        have := t.path_succ z k
        omega
      rw [if_neg hoff]
      rcases hchild with rfl | rfl
      · rw [hleft, hshare, ite_self]
      · rw [hright, hshare, ite_self]

section

variable (h : t.Complete depth inputs) (curve : F → F) (hz : ∀ p < twoPow depth-1, t.turn z p ≠ 0)
include h curve hz

theorem foldl_levels (hk : k ≤ depth) : (range (twoPow (k+1)-2)).foldl
      (fun sum i => plus sum (scale (t.share signRoute z (i+1)) (t.nodeScore curve z (i+1))))
      (t.nodeScore curve z 0) = t.pathScore z curve k := by
  induction k with
  | zero => rfl
  | succ k ih =>
    have hpos := twoPow_pos k
    -- the nodes of the next level come right after those of the levels above it
    have hsplit : twoPow (k+1+1)-2 = twoPow (k+1)-2+twoPow (k+1) := by
      rw [twoPow_succ (k+1), twoPow_succ k]
      omega
    have hlevel : level (k+1) = ((range (twoPow (k+1))).map
        (twoPow (k+1)-2 + ·)).map (· + 1) := by
      rw [level_eq, List.range'_eq_map_range, map_map]
      apply map_congr_left
      intro j _
      rw [Function.comp_apply, twoPow_succ]
      omega
    have hweighted := foldl_weighted (v := t.nodeScore curve z) (level (k+1))
      (t.pathScore z curve k)
      (nodup_level _) (fun i hi => share_sign t z hz hk hi) fun i hi => by
        rw [length_nodeScore t z h curve (lt_nodes_of_mem_level h hk hi),
          length_pathScore t z h curve (by omega)]
    rw [if_pos (t.path_mem_level z (k+1)), hlevel, List.foldl_map] at hweighted
    rw [hsplit, List.range_add, List.foldl_append, ih (by omega), hweighted]
    rfl

theorem score_sign : t.score curve signRoute z = t.pathScore z curve depth := by
  have hnodes : t.nodes-1 = twoPow (depth+1)-2 := by
    rw [h.nodes_eq]
    omega
  rw [score, hnodes]
  exact foldl_levels t z h curve hz (Nat.le_refl depth)

end

end Path

end Tree

end Net

end MicroLearn
