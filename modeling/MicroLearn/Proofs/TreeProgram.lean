import Mathlib.Algebra.Order.Ring.Rat
import MicroLearn.Proofs.FoldedTree
import MicroLearn.Proofs.ProgramValues

/-!
# The program of a tree

The program written for a tree follows one path from the root: at each level it turns
by the sign of one product and adds the score of the node it comes to. On exact numbers
its last score is that of the trained tree with the sign for its routing curve.
-/

set_option autoImplicit false

open Option (bind_eq_bind bind_some map_some)
open Function (update update_of_ne update_self)

namespace MicroLearn.Model

open Lang (Value Env Line Declaration)
open Lang
open Net
open String (toList_inj)

section Program

variable {F : Type}

def PreparedTree.tensors (p : PreparedTree F) (x : List F) (name : String) : Option (Value F) :=
  [("X",Value.column x), ("Z",.matrix p.Z),
    ("W",.stack (Recurrent.rowsOf p.classes p.totalNodes p.W)),
    ("V",.stack (Recurrent.rowsOf p.classes p.totalNodes p.V)),
    ("T",.stack (p.T.map fun row => [row])), ("mean",Value.column p.mean)].lookup name

/-- What the program of a tree binds, the ranges of its tensors being given. -/
def PreparedTree.names (p : PreparedTree F) (sparse : Bool) (width : Nat)
    (range : String → String × String) : List (String × Tree) :=
  Lang.declared range (p.declarations width)++bindings
    ((treeBlocks sparse p.depth).flatMap (·.lines))

def PreparedTree.programScores [Field F] [LinearOrder F] (p : PreparedTree F) (curve : F → F)
    (sparse : Bool) (range : String → String × String) (x : List F) : Option (Value F) :=
  (Lang.binds (p.names sparse x.length range) (.name (numbered "score" p.depth))).value
    (fun _ => curve) (p.tensors x) fun _ => none

/-- The values that every level reads. -/
structure Reads (env : Env F) (ws vs ts : List (Rows F)) (z : List F) : Prop where
  scores : env "W" = some (.stack ws)
  gains : env "V" = some (.stack vs)
  routes : env "T" = some (.stack ts)
  input : env "ZX" = some (Value.column z)

theorem Reads.update {env ws vs ts z} (h : Reads env ws vs ts z)
    {v} (hv : v ∉ ["W", "V", "T", "ZX"]) (x : Value F) :
    Reads (update env v (some x)) ws vs ts z := by
  simp only [List.mem_cons, List.not_mem_nil, or_false, not_or] at hv
  obtain ⟨hw,hv,ht,hz⟩ := hv
  exact ⟨(update_of_ne (Ne.symm hw) _ _).trans h.scores,
    (update_of_ne (Ne.symm hv) _ _).trans h.gains,
    (update_of_ne (Ne.symm ht) _ _).trans h.routes,
    (update_of_ne (Ne.symm hz) _ _).trans h.input⟩

/-- What a level leaves behind: its node and its score. -/
structure Reached (env : Env F) (ws vs ts : List (Rows F)) (z : List F) (i k : Nat)
    (score : List F) : Prop extends Reads env ws vs ts z where
  node : env (numbered "node" i) = some (.int k)
  score : env (numbered "score" i) = some (Value.column score)

/-- The rows of a node in the stacks of scores and gains. -/
structure NodeRows (ws vs : List (Rows F)) (classes width k : Nat) (w v : Rows F) : Prop where
  scores : ws[k]? = some w
  gains : vs[k]? = some v
  scoresShaped : Shaped classes width w
  gainsShaped : Shaped classes width v

end Program

section Level

variable {F : Type} [Field F] [LinearOrder F] {curve : F → F} {tensors env : Env F}
  {ws vs ts : List (Rows F)} {z : List F}
variable {i k classes : Nat}

theorem nodeProduct_value {rows ms m}
    (hrows : env rows = some (.stack ms)) (hnode : env (numbered "node" i) = some (.int k))
    (hz : env "ZX" = some (Value.column z)) (hk : ms[k]? = some m) (hm : Shaped classes z.length m)
    (hclasses : 1 ≤ classes) (hlength : 1 ≤ z.length) :
    (nodeProduct rows i).value (fun _ => curve) tensors env =
      some (Value.column (applyMat m z)) := by
  have hindex : Value.index (.stack ms) (.int k) = some (.matrix m) := by
    simp [Value.index, hk]
  simp only [nodeProduct, Tree.value, hrows, hnode, hz, bind_eq_bind, bind_some, hindex]
  exact Value.product_column (.inl rfl) hm hclasses hlength

theorem childNode_value {row} (h : Reads env ws vs ts z)
    (hnode : env (numbered "node" i) = some (.int k)) (hk : ts[k]? = some [row])
    (hrow : row.length = z.length) (hlength : 1 ≤ z.length) :
    (childNode i).value (fun _ => curve) tensors env =
      some (.int (if 0 ≤ dot row z then 2*k+1 else 2*k+2 : Nat)) := by
  have hproduct : (nodeProduct "T" i).value (fun _ => curve) tensors env =
      some (Value.column [dot row z]) :=
    nodeProduct_value h.routes hnode h.input hk ⟨rfl,by simpa using hrow⟩ (Nat.le_refl 1) hlength
  have hsign : (Value.column [dot row z]).atLeastZero = some (decide (0 ≤ dot row z)) := rfl
  have hone : Number.readInt? "1" = some 1 := by decide
  have htwo : Number.readInt? "2" = some 2 := by decide
  simp only [childNode, Tree.value, hproduct, hsign, hnode, hone, htwo, bind_eq_bind,
    bind_some, map_some, Value.product, Value.additive, if_true]
  by_cases hroute : 0 ≤ dot row z
  · simp [hroute]
  · simp [hroute]

theorem nodeScore_value {a b} (ha : env (numbered "W" i) = some (Value.column a))
    (hb : env (numbered "V" i++"_tanh") = some (Value.column b)) (h : a.length = b.length) :
    (nodeScore i).value (fun _ => curve) tensors env = some (Value.column (Net.times a b)) := by
  simp only [nodeScore, Tree.value, ha, hb, bind_eq_bind, bind_some]
  exact Value.entrywise_asColumn _ h

/-- The lines of a level find its node, take the products with the rows of the node, and bind the
score; how the score comes from that of the node is left to the level. -/
theorem levelLines_leads {node score w v sum}
    (h : Reads env ws vs ts z) (hname : node.name = numbered "node" i)
    (hdecl : node.value.declared = none)
    (hnode : node.value.value (fun _ => curve) tensors env = some (.int k))
    (hk : NodeRows ws vs classes z.length k w v) (hclasses : 1 ≤ classes) (hlength : 1 ≤ z.length)
    (hscoreDecl : score.declared = none)
    (hscore : ∀ env' : Env F, (∀ j, env' (numbered "score" j) = env (numbered "score" j)) →
      (nodeScore i).value (fun _ => curve) tensors env' =
        some (Value.column (Net.times (applyMat w z) ((applyMat v z).map curve))) →
      score.value (fun _ => curve) tensors env' = some (Value.column sum)) :
    ∃ env', Reached env' ws vs ts z i k sum ∧
      Leads (fun _ => curve) tensors env (bindings (levelLines i node score)) env' := by
  let env1 := update env (numbered "node" i) (some (.int k))
  let env2 := update env1 (numbered "W" i) (some (Value.column (applyMat w z)))
  let env3 := update env2 (numbered "V" i) (some (Value.column (applyMat v z)))
  let env4 := update env3 (numbered "V" i++"_tanh")
    (some (Value.column ((applyMat v z).map curve)))
  let env5 := update env4 (numbered "score" i) (some (Value.column sum))
  -- no line binds a name that the levels read, so each finds the values it needs
  have h1 : Reads env1 ws vs ts z := h.update (by simp [numbered, ← toList_inj]) _
  have h2 : Reads env2 ws vs ts z := h1.update (by simp [numbered, ← toList_inj]) _
  have h3 : Reads env3 ws vs ts z := h2.update (by simp [numbered, ← toList_inj]) _
  have h4 : Reads env4 ws vs ts z := h3.update (by simp [numbered, ← toList_inj]) _
  have h5 : Reads env5 ws vs ts z := h4.update (by simp [numbered, ← toList_inj]) _
  have hnode1 : env1 (numbered "node" i) = some (.int k) := update_self ..
  have hnode2 : env2 (numbered "node" i) = some (.int k) :=
    (update_of_ne (by simp [numbered, ← toList_inj]) _ _).trans hnode1
  have hwv : (nodeProduct "W" i).value (fun _ => curve) tensors env1 =
      some (Value.column (applyMat w z)) :=
    nodeProduct_value h1.scores hnode1 h1.input hk.scores hk.scoresShaped hclasses hlength
  have hvv : (nodeProduct "V" i).value (fun _ => curve) tensors env2 =
      some (Value.column (applyMat v z)) :=
    nodeProduct_value h2.gains hnode2 h2.input hk.gains hk.gainsShaped hclasses hlength
  have htv : (Tree.apply .tanh (.name (numbered "V" i))).value (fun _ => curve) tensors env3 =
      some (Value.column ((applyMat v z).map curve)) := by
    have : env3 (numbered "V" i) = some (Value.column (applyMat v z)) := update_self ..
    simp only [Tree.value, this, true_or, if_true, bind_eq_bind, bind_some]
    exact Value.curved_column _ _
  have hsv : score.value (fun _ => curve) tensors env4 = some (Value.column sum) := by
    apply hscore
    · intro j
      simp [env4, env3, env2, env1, numbered, ← toList_inj]
    · apply nodeScore_value
      · simp [env4, env3, env2, numbered, ← toList_inj]
      · exact update_self ..
      · simp [applyMat, hk.scoresShaped.length, hk.gainsShaped.length]
  refine ⟨env5,⟨h5,?_,update_self ..⟩,?_⟩
  · simp [env5, env4, env3, env2, env1, numbered, ← toList_inj]
  · show Leads _ _ _ ((node.name,node.value)::(numbered "W" i,nodeProduct "W" i) ::
      (numbered "V" i,nodeProduct "V" i) ::
      [(numbered "V" i++"_tanh",.apply .tanh (.name (numbered "V" i))), (numbered "score" i,score)])
        _
    rw [hname]
    exact leads_cons hdecl hnode (leads_cons rfl hwv (leads_cons rfl hvv
      (leads_cons rfl htv (leads_cons hscoreDecl hsv Lang.leads_nil))))

end Level

theorem rowsOf_shaped {α : Type} {classes nodes width : Nat} {m : Rows α}
    (h : Shaped (classes*nodes) width m) :
    ∀ rows ∈ Recurrent.rowsOf classes nodes m, Shaped classes width rows := by
  intro rows hrows
  obtain ⟨k,hrows⟩ := List.mem_iff_getElem?.1 hrows
  have hk : k < nodes := by
    rw [← Fixed.length_rowsOf classes nodes m]
    exact (List.getElem?_eq_some_iff.1 hrows).1
  rw [Fixed.getElem_rowsOf _ _ _ k hk] at hrows
  rw [← Option.some.inj hrows]
  exact h.part hk

end MicroLearn.Model

namespace MicroLearn.Net.Tree

open Model (Rows Shaped numbered Reads Reached NodeRows)
open Lang (Value Env)
open Lang
open Net

section Levels

variable {F : Type} [Field F]

def stacked (t : Tree F) (m : Rows F) : List (Rows F) := Recurrent.rowsOf t.classes t.nodes m

variable (t : Tree F) {depth inputs : Nat} (z : Vec F)

theorem scaledGains_shaped {t : Tree F} (h : t.Complete depth inputs) :
    Shaped (t.classes*t.nodes) t.projection.length t.scaledGains :=
  h.gains.map _ fun _ _ => List.length_map ..

theorem nodeRows {t : Tree F} (h : t.Complete depth inputs) {k : Nat} (hk : k < t.nodes) :
    NodeRows (t.stacked t.scores) (t.stacked t.scaledGains) t.classes t.projection.length k
      (t.rowsAt t.scores k) (t.rowsAt t.scaledGains k) where
  scores := Fixed.getElem_rowsOf _ _ _ k hk
  gains := Fixed.getElem_rowsOf _ _ _ k hk
  scoresShaped := h.scores.part hk
  gainsShaped := (scaledGains_shaped h).part hk

theorem nodeScore_scaled (curve : F → F) (k : Nat) :
    times (applyMat (t.rowsAt t.scores k) z) ((applyMat (t.rowsAt t.scaledGains k) z).map curve) =
      t.nodeScore curve z k := by
  unfold nodeScore
  congr 1
  simp only [rowsAt, scaledGains, applyMat, ← List.map_drop, ← List.map_take, List.map_map]
  apply List.map_congr_left
  intro row _
  simp only [Function.comp_apply]
  rw [Model.dot_map_mul, mul_comm]

end Levels

section Branches

variable {F : Type} [Field F] [LinearOrder F] {t : Tree F} {depth inputs : Nat} {z : Vec F}
  {curve : F → F} {tensors env : Env F}

def routeRows (t : Tree F) : List (Rows F) := t.routes.map fun row => [row]

def Prepares (t : Tree F) (env : Env F) (z : Vec F) : Prop :=
  Reads env (t.stacked t.scores) (t.stacked t.scaledGains) t.routeRows z

def Arrives (t : Tree F) (curve : F → F) (env : Env F) (z : Vec F) (k : Nat) : Prop :=
  Reached env (t.stacked t.scores) (t.stacked t.scaledGains) t.routeRows z k (t.path z k)
    (t.pathScore z curve k)

section

variable (h : t.Complete depth inputs)
include h

theorem rootLines_leads (hz : z.length = t.projection.length)
    (henv : t.Prepares env z) : ∃ env', t.Arrives curve env' z 0 ∧
      Leads (fun _ => curve) tensors env (Lang.bindings Model.rootLines) env' := by
  have hzero : Number.readInt? "0" = some 0 := by decide
  apply Model.levelLines_leads henv rfl rfl
  · simp only [Tree.value, hzero, map_some]
    rfl
  · exact hz ▸ nodeRows h h.nodes_pos
  · exact h.classes_pos
  · exact hz ▸ h.width_pos
  · rfl
  · intro env' _ hscore
    rw [nodeScore_scaled] at hscore
    exact hscore

theorem routes_path {k} (hk : k < depth) :
    ∃ row ∈ t.routes, t.routes[t.path z k]? = some row ∧
    t.turn z (t.path z k) = Model.dot row z := by
  have hlevel := lt_of_mem_level (t.path_mem_level z k)
  have hle : Number.twoPow (k+1) ≤ Number.twoPow depth := twoPow_le hk
  have hlt : t.path z k < t.routes.length := by
    rw [h.routes.length]
    omega
  have hrow := List.getElem?_eq_getElem hlt
  exact ⟨_,List.getElem_mem hlt,hrow,by rw [turn, hrow]; rfl⟩

theorem branchLines_leads (hz : z.length = t.projection.length) {k : Nat}
    (hk : k < depth) (henv : t.Arrives curve env z k) : ∃ env', t.Arrives curve env' z (k+1) ∧
      Leads (fun _ => curve) tensors env (Lang.bindings (Model.branchLines k)) env' := by
  obtain ⟨row,hmem,hrow,hturn⟩ := routes_path (z := z) h hk
  have hnode := lt_nodes_of_mem_level h hk (t.path_mem_level z (k+1))
  apply Model.levelLines_leads henv.toReads rfl rfl
  · rw [path, hturn]
    apply Model.childNode_value henv.toReads henv.node
    · simp [routeRows, hrow]
    · rw [h.routes.width row hmem, hz]
    · exact hz ▸ h.width_pos
  · exact hz ▸ nodeRows h hnode
  · exact h.classes_pos
  · exact hz ▸ h.width_pos
  · rfl
  · intro env' hkept hscore
    rw [nodeScore_scaled] at hscore
    simp only [Tree.value, hkept, henv.score, hscore, bind_eq_bind, bind_some]
    apply Value.entrywise_asColumn
    rw [length_pathScore t z h curve hk.le, length_nodeScore t z h curve hnode]

theorem branches_lead (hz : z.length = t.projection.length) {k}
    (hk : k ≤ depth) (henv : t.Arrives curve env z 0) :
    ∃ env', t.Arrives curve env' z k ∧ Leads (fun _ => curve) tensors env
      (Lang.bindings ((List.range k).flatMap Model.branchLines)) env' := by
  induction k with
  | zero => exact ⟨env,henv,Lang.leads_nil⟩
  | succ k ih =>
    obtain ⟨env1,harrives,hleads⟩ := ih (by omega)
    obtain ⟨env2,harrives',hleads'⟩ := branchLines_leads h hz hk harrives
    refine ⟨env2,harrives',?_⟩
    rw [List.range_succ, List.flatMap_append, Lang.bindings_append, List.flatMap_singleton]
    exact hleads.append hleads'

end

end Branches

theorem declarations_fit {F : Type} [Field F] {t : Tree F} {s : Standard F} {depth : Nat}
    (h : t.Complete depth (s.mean.length+1)) (x : List F) :
    ∀ d ∈ (t.prepared s depth).declarations x.length, ∃ v,
      (t.prepared s depth).tensors x d.name = some v ∧ v.fits (d.shape.map toString) = true := by
  have hmean : (t.prepared s depth).mean.length = (t.prepared s depth).projected := by
    simp [prepared, applyMat]
  intro d hd
  simp only [Model.PreparedTree.declarations, List.mem_cons, List.not_mem_nil, or_false] at hd
  rcases hd with rfl | rfl | rfl | rfl | rfl | rfl
  · exact ⟨_,rfl,Value.fits_matrix (Model.asColumn_shaped x)⟩
  · exact ⟨_,rfl,Value.fits_matrix (folded_shaped h)⟩
  · exact ⟨_,rfl,Value.fits_stack (Fixed.length_rowsOf ..) (Model.rowsOf_shaped h.scores)⟩
  · exact ⟨_,rfl,Value.fits_stack (Fixed.length_rowsOf ..)
      (Model.rowsOf_shaped (scaledGains_shaped h))⟩
  · refine ⟨_,rfl,Value.fits_stack (List.length_map ..) ?_⟩
    intro rows hrows
    obtain ⟨row,hrow,rfl⟩ := List.mem_map.1 hrows
    refine ⟨rfl,?_⟩
    rw [List.forall_mem_singleton]
    exact h.routes.width row hrow
  · exact ⟨_,rfl,Value.fits_matrix (hmean ▸ Model.asColumn_shaped _)⟩

section Whole

variable {F : Type} [Field F] [LinearOrder F] {t : Tree F} {s : Standard F} {depth : Nat}
  {x : List F} {bias : F}

theorem projectLine_value {sparse curve tensors env}
    (h : t.Complete depth (s.mean.length+1)) (hx : x.length = s.mean.length)
    (hX : env "X" = some (Value.column (x++[bias])))
    (hZ : env "Z" = some (.matrix (t.prepared s depth).Z))
    (hmean : env "mean" = some (Value.column (t.prepared s depth).mean)) :
    (Model.projectLine sparse).value.value (fun _ => curve) tensors env =
      some (Value.column (t.project (s.normalised x++[bias]))) := by
  have hshaped : Shaped t.projection.length (x++[bias]).length (t.prepared s depth).Z := by
    rw [List.length_append, List.length_singleton, hx]
    exact folded_shaped h
  have hproduct := Value.product_column (Value.times_or_sparse sparse) hshaped h.width_pos (by simp)
  have hlength : (applyMat (t.prepared s depth).Z (x++[bias])).length =
      (t.prepared s depth).mean.length := by
    simp [prepared, applyMat]
  simp only [Model.projectLine, Tree.value, hX, hZ, hmean, bind_eq_bind, bind_some]
  rw [hproduct, ← minus_folded hx bias]
  exact Value.entrywise_asColumn _ hlength

theorem scores_prepared (h : t.Complete depth (s.mean.length+1)) (hx : x.length = s.mean.length)
    (curve : F → F) (sparse : Bool) (range : String → String × String) :
    (t.prepared s depth).programScores curve sparse range (x++[bias]) =
      some (Value.column (t.pathScore (t.project (s.normalised x++[bias])) curve depth)) := by
  obtain ⟨env1,hvalues,hdeclared⟩ := Lang.declared_leads (fun _ => curve) range
    ((t.prepared s depth).declarations (x++[bias]).length) (declarations_fit h _) fun _ => none
  have hproject : (Model.projectLine sparse).value.value (fun _ => curve)
      ((t.prepared s depth).tensors (x++[bias])) env1 =
      some (Value.column (t.project (s.normalised x++[bias]))) :=
    projectLine_value h hx (hvalues _) (hvalues _) (hvalues _)
  have hprepares : t.Prepares (update env1 "ZX"
      (some (Value.column (t.project (s.normalised x++[bias])))))
          (t.project (s.normalised x++[bias])) :=
    ⟨hvalues _,hvalues _,hvalues _,update_self ..⟩
  have hlength : (t.project (s.normalised x++[bias])).length = t.projection.length := by
    simp [project, applyMat]
  obtain ⟨env2,harrives,hroot⟩ := rootLines_leads h hlength hprepares
  obtain ⟨env3,harrives,hbranches⟩ := branches_lead h hlength (Nat.le_refl depth) harrives
  have hlines : (Model.treeBlocks sparse depth).flatMap (·.lines) =
      Model.projectLine sparse::(Model.rootLines++(List.range depth).flatMap
        Model.branchLines) := by
    simp [Model.treeBlocks, List.flatMap_map]
  have hnames := hdeclared.append (Lang.leads_cons rfl hproject (hroot.append hbranches)) []
    (.name (numbered "score" depth))
  rw [← Lang.bindings_append, List.append_nil] at hnames
  show (Lang.binds (_++Lang.bindings ((Model.treeBlocks sparse depth).flatMap (·.lines))) _).value
    _ _ _ = _
  rw [hlines]
  exact hnames.trans harrives.score

/-- A deployed tree is accepted, and its program comes to the scores of the trained tree with the
sign for its routing curve, if no product at an inner node is zero. Whatever the routing curve, the
shares of the nodes of a level add up to one. -/
theorem program_scores_trained [IsStrictOrderedRing F] (t : Net.Tree F) (depth inputs : Nat)
    (h : t.Complete depth (inputs+1)) (curve : F → F) :
    (∀ (s : Standard F) (biasMean biasDeviation : F) (sparse : Bool)
      (range : String → String × String)
      (x : List F) (bias : F), s.mean.length = inputs → x.length = inputs →
      (∀ row ∈ t.routes, Model.dot row (t.project (s.normalised x++[bias])) ≠ 0) →
      ∃ m p, t.deployed s biasMean biasDeviation = .ok m ∧ m.validate = .ok () ∧ m.prepare = .ok p ∧
        p.depth = depth ∧ p.programScores curve sparse range (x++[bias]) =
          some (Value.column (t.score curve signRoute (t.project (s.normalised x++[bias]))))) ∧
    ∀ (route : F → F) (z : Vec F) (k : Nat), k ≤ depth →
      ((List.range' (Number.twoPow k-1) (Number.twoPow k)).map (t.share route z)).sum = 1 := by
  constructor
  · rintro s biasMean biasDeviation sparse range x bias rfl hx hturns
    obtain ⟨m,hdeployed,hvalid,hprepared⟩ := prepare_deployed h biasMean biasDeviation
    refine ⟨m,_,hdeployed,hvalid,hprepared,rfl,?_⟩
    rw [scores_prepared h hx, score_sign t _ h curve]
    intro p hp
    rw [← h.routes.length] at hp
    rw [turn, List.getElem?_eq_getElem hp]
    exact hturns _ (List.getElem_mem hp)
  · intro route z k _
    rw [← level_eq]
    exact sum_level t route z k

end Whole

def sevenNodes : Tree ℚ where
  classes := 2
  nodes := 7
  projection := [[1, 2], [0, 1]]
  width := 2
  scores := (List.range 14).map fun i => [(i : ℚ), 1]
  gains := (List.range 14).map fun i => [1, (i : ℚ)]
  routes := [[1, -1], [-1, 1], [1, 1]]
  sigma := 3

theorem sevenNodes_complete : sevenNodes.Complete 2 2 where
  classes_pos := by decide
  nodes_eq := rfl
  width_pos := by decide
  width_eq := by norm_num [sevenNodes]
  projection := by decide
  scores := ⟨rfl,by decide⟩
  gains := ⟨rfl,by decide⟩
  routes := ⟨rfl,by decide⟩

def oneFeature : Standard ℚ where
  mean := [1]
  deviation := [2]
  length_deviation := rfl
  nonzero := by decide +kernel

/-- The input turns left at the root and right below it. -/
theorem program_scores_trained_seven_nodes : sevenNodes.Complete 2 2 ∧ (∀ row ∈ sevenNodes.routes,
      Model.dot row (sevenNodes.project (oneFeature.normalised [3]++[1])) ≠ 0) ∧
    (∃ m p, sevenNodes.deployed oneFeature 5 0 = .ok m ∧ m.validate = .ok () ∧ m.prepare = .ok p ∧
      p.depth = 2 ∧ p.programScores (fun y => y*y) true (fun _ => ("-1.0","1.0")) [3, 1] =
        some (Value.column (sevenNodes.score (fun y => y*y) signRoute
          (sevenNodes.project (oneFeature.normalised [3]++[1]))))) ∧
    ((List.range' 3 4).map (sevenNodes.share (fun y => y*y) [3, 1])).sum = 1 := by
  have hturns : ∀ row ∈ sevenNodes.routes,
      Model.dot row (sevenNodes.project (oneFeature.normalised [3]++[1])) ≠ 0 := by
    decide +kernel
  have h := program_scores_trained sevenNodes 2 1 sevenNodes_complete fun y => y*y
  exact ⟨sevenNodes_complete,hturns,h.1 oneFeature 5 0 true _ [3] 1 rfl rfl hturns,
    h.2 _ [3, 1] 2 (Nat.le_refl 2)⟩

end MicroLearn.Net.Tree
