import MicroLearn.Proofs.Operands

/-!
# Expressions as operations

Numbers, names, sums and bindings apart, a typed expression is an operation: its operands are
lowered one after the other, and then its own code is added. How it reads its operands tells
which name its value shares and which arrays of sparse matrices it uses.
-/

set_option autoImplicit false

namespace MicroLearn.Lang

/-- A product with a sparse matrix, by the name that stands for it, or a call of some function. -/
inductive Product where
  | sparse (left : Option String)
  | foreign (f : String)
  deriving DecidableEq

/-- The name that stands for the tensor of an expression; one that is computed has none. -/
def Expr.stem : Expr Ty → Option String
  | .name _ x => some x
  | .index _ e _ | .unary _ .plus e | .apply _ .relu e | .apply _ .tanh e
  | .product _ .addBias e _ => e.stem
  | .bind _ v d e => if e.stem = some v ∧ d.keepsName = false then d.stem else e.stem
  | _ => none

mutual

/-- The products and calls in an expression, in the order of their code. -/
@[simp] def Expr.products : Expr Ty → List Product
  | .int _ _ | .real _ _ | .name _ _ | .decl _ _ _ _ => []
  | .transpose _ e | .reshape _ e _ _ | .maxpool _ e _ | .unary _ _ e | .apply _ _ e
  | .sum _ _ _ _ e => e.products
  | .index _ a b | .additive _ _ a b | .bind _ _ a b => a.products++b.products
  | .product _ op a b =>
    a.products++(b.products++if op = .sparseTimes then [.sparse a.stem] else [])
  | .call _ f args => Expr.productsAll args++[.foreign f]
  | .cond _ e t f => e.products++(t.products++f.products)

@[simp] def Expr.productsAll : List (Expr Ty) → List Product
  | [] => []
  | e::es => e.products++Expr.productsAll es

end

end MicroLearn.Lang

namespace MicroLearn.Lower

open Code
open Lang (Ty Expr Token Scope Typed)
open Lowering

def Reading.stem : Reading → List (Option String) → Option String
  | .passed, r::_ | .indexed, r::_ | .updated, r::_ => r
  | _, _ => none

@[simp] def Reading.products : Reading → List (Option String) → List Lang.Product
  | .sparse, r::_ => [.sparse r]
  | .called f, _ => [.foreign f]
  | _, _ => []

structure Reading.Describes (how : Reading) (e : Expr Ty) (es : List (Expr Ty)) : Prop where
  suits : how.Suits (es.map Expr.note) e.note
  present : (∀ a ∈ es, a.note ≠ .absent) → e.note ≠ .absent
  stem : e.stem = how.stem (es.map Expr.stem)
  products : e.products = Expr.productsAll es++how.products (es.map Expr.stem)

/-- What the operation does with the terms of its operands. -/
structure Reading.Performs (how : Reading) (e : Expr Ty) (es : List (Expr Ty)) (ts : List Term)
    (b b' : Tally) (r : Lowered) : Prop extends how.Describes e es where
  fulfils : how.Fulfils ts b.nextVar b.nextIterator b'.nextVar b'.nextIterator r
  spells : how.Spells ts (Instr.arraysAll r.1)
  leaves : e.modelsBound = true → e.ordersFit = true → how.Leaves ts e.note b b' r

/-- The expression is an operation on these operands. -/
structure Operation (e : Expr Ty) (es : List (Expr Ty)) (how : Reading) : Prop where
  mark : ∀ cx, ∃ (before : Lowering Unit) (make : List Term → Lowering Lowered),
    Neutral before ∧ (mark cx e = do
      before
      let xs ← markAll cx es
      return .operate how xs (← make (xs.map Marked.term))) ∧
    ∀ ts b, ts.length = es.length → Ends b (make ts) (how.Performs e es ts b)
  scan : ∀ s, scan e s = (scanAll es s).2.operate how (scanAll es s).1
  names : e.binders = Expr.bindersAll es ∧ e.declared = Expr.declaredAll es ∧
    (e.modelsBound = true → Expr.modelsBoundAll es = true) ∧
    (e.ordersFit = true → Expr.ordersFitAll es = true)

section Operation

variable {e : Expr Ty} {es : List (Expr Ty)} {how : Reading} {b : Tally}

theorem Reading.Meets.performs {ts b' r} (h : how.Meets ts e.note b b' r)
    (hdescribes : how.Describes e es) : how.Performs e es ts b b' r :=
  ⟨hdescribes,h.fulfils,h.spells,fun _ _ => h.leaves⟩

theorem markAll_length {cx es xs st st'} (h : markAll cx es st = .ok (xs,st')) :
    xs.length = es.length := by
  induction es generalizing xs st st' with
  | nil => rw [(run_pure.1 h).1]; rfl
  | cons e es ih =>
    obtain ⟨x,st1,-,hrest⟩ := run_bind.1 h
    obtain ⟨xs',st2,hxs,hpure⟩ := run_bind.1 hrest
    rw [(run_pure.1 hpure).1, List.length_cons, List.length_cons, ih hxs]

theorem Operation.run (h : Operation e es how) {cx st st' x}
    (hrun : Lower.mark cx e st = .ok (x,st')) :
    ∃ st0 xs st1 own, st0.tally = st.tally ∧ markAll cx es st0 = .ok (xs,st1) ∧
      how.Performs e es (xs.map Marked.term) st1.tally st'.tally own ∧ x = .operate how xs own := by
  obtain ⟨before,make,hneutral,hmark,hmake⟩ := h.mark cx
  rw [hmark] at hrun
  obtain ⟨_,st0,hbefore,hrest⟩ := run_bind.1 hrun
  obtain ⟨xs,st1,hxs,hrest⟩ := run_bind.1 hrest
  obtain ⟨own,st2,hown,hpure⟩ := run_bind.1 hrest
  obtain ⟨rfl,rfl⟩ := run_pure.1 hpure
  refine ⟨st0,xs,st1,own,hneutral.same st _ st0 hbefore,hxs,?_,rfl⟩
  exact hmake _ _ (by rw [List.length_map, markAll_length hxs]) st1 own _ rfl hown

theorem Operation.ends (h : Operation e es how) {cx} {Q}
    (hargs : Ends b (lowerAll cx es) fun b1 r => ∀ b2 own, how.Performs e es r.2 b1 b2 own →
      Q b2 (Lowered.after r.1 own)) : Ends b (lower cx e) Q := by
  intro st r st' hst hrun
  rw [lower_eq_erase, map_eq_pure_bind] at hrun
  obtain ⟨x,st2,hx,hpure⟩ := run_bind.1 hrun
  obtain ⟨rfl,rfl⟩ := run_pure.1 hpure
  obtain ⟨st0,xs,st1,own,hsame,hxs,hown,rfl⟩ := h.run hx
  have hall : lowerAll cx es st0 =
      .ok ((Step.eraseAll (xs.flatMap Marked.steps),xs.map Marked.term),st1) := by
    rw [lowerAll_eq_erase, map_eq_pure_bind]
    exact run_bind.2 ⟨xs,st1,hxs,run_pure.2 ⟨rfl,rfl⟩⟩
  simpa [Marked.erase, Lowered.after] using hargs st0 _ st1 (hsame.trans hst) hall _ own hown

attribute [local simp] Expr.binders Expr.bindersAll Expr.declared Expr.declaredAll
  Expr.modelsBound Expr.modelsBoundAll Expr.ordersFit Expr.ordersFitAll

theorem scan_zero {e} (h : ∀ s, scan e s = ({},s)) (s : Scan) :
    scan e s = (scanAll [] s).2.operate .consumed (scanAll [] s).1 := by
  simp [h, scanAll, Scan.operate, Scan.use, Scan.overwrite, Reading.uses, Reading.rereads,
    Reading.overwritten, Reading.result]

theorem visits_of_orderFits {order s} {t} (h : Lang.orderFits order t = true)
    (hs : t.shape = .ok s) : Visits order s.length := by
  cases t with
  | tensor s =>
    cases hs
    intro k hk
    rw [Lang.orderFits, List.isPerm_iff] at h
    exact h.mem_iff.2 (List.mem_map.2 ⟨k,List.mem_range.2 hk,rfl⟩)
  | int => cases hs
  | absent => cases hs

section Describes

variable {op : Token} {t : Ty} {a c : Expr Ty}

theorem plain_describes {type e es} (hsuits : t = .int → type = .int) (hnote : e.note = type)
    (hpresent : ∃ a ∈ es, a.note = type) (hstem : e.stem = none)
    (hproducts : e.products = Expr.productsAll es) : (plainReading t).Describes e es := by
  have hpresent' : (∀ a ∈ es, a.note ≠ .absent) → e.note ≠ .absent := by
    obtain ⟨a,ha,rfl⟩ := hpresent
    exact fun h => hnote ▸ h a ha
  unfold plainReading
  split
  · exact ⟨hnote.trans (hsuits (by assumption)),hpresent',hstem,by simp [hproducts]⟩
  · exact ⟨trivial,hpresent',hstem,by simp [hproducts]⟩

theorem unary_describes : (unaryReading a.note op).Describes (.unary a.note op a) [a] := by
  unfold unaryReading
  split
  · rename_i hop
    subst hop
    exact ⟨rfl,fun h => h a (by simp),rfl,by simp⟩
  · refine plain_describes id rfl (by simp) ?_ (by simp)
    cases op <;> trivial

theorem product_describes (h : Lang.productOpTy op a.note c.note = .ok t)
    (hop : op ≠ .subtractBias) (hsparse : op = .sparseTimes → a.note ≠ .int) :
    (productReading t op).Describes (.product t op a c) [a, c] := by
  have hpresent : (∀ u ∈ [a, c], u.note ≠ .absent) → t ≠ .absent :=
    fun _ => Lang.productOpTy_ne_absent h
  cases op with
  | times =>
    unfold productReading
    dsimp only
    split
    · exact ⟨by assumption,hpresent,rfl,by simp⟩
    · exact ⟨trivial,hpresent,rfl,by simp⟩
  | sparseTimes =>
    exact ⟨by simpa [productReading, Reading.Suits] using hsparse rfl,hpresent,rfl,
      by simp [productReading]⟩
  | pointwiseTimes | convolve => exact ⟨trivial,hpresent,rfl,by simp [productReading]⟩
  | addBias =>
    obtain rfl := Lang.biasTy_ok h
    refine ⟨And.intro (fun hnote => ?_) rfl,hpresent,rfl,by simp [productReading]⟩
    rw [Option.some.inj hnote] at h
    cases h
  | subtractBias => exact absurd rfl hop
  | _ => cases h

theorem apply_describes (h : Lang.applyTy op a.note = .ok t) :
    (applyReading op).Describes (.apply t op a) [a] := by
  have hproducts : (Expr.apply t op a).products = Expr.productsAll [a] ++
      (applyReading op).products [a.stem] := by
    unfold applyReading
    split <;> simp
  have hint := Lang.applyTy_tensor h
  rcases Lang.applyTy_ok h with ⟨rfl, rfl | rfl | rfl⟩ | ⟨rfl, rfl | rfl⟩
  · exact ⟨And.intro (by simpa using hint) rfl,fun h => h a (by simp),rfl,hproducts⟩
  · exact ⟨trivial,fun h => h a (by simp),rfl,hproducts⟩
  · exact ⟨And.intro (by simpa using hint) rfl,fun h => h a (by simp),rfl,hproducts⟩
  · exact ⟨trivial,nofun,rfl,hproducts⟩
  · exact ⟨trivial,nofun,rfl,hproducts⟩

end Describes

theorem typed_induction {motive : Scope → Expr Ty → Prop} (int : ∀ {Γ n}, motive Γ (.int .int n))
    (name : ∀ {Γ id t}, Γ.lookup id = some t → motive Γ (.name t id))
    (operation : ∀ {Γ e} es how, Operation e es how → (∀ e' ∈ es, motive Γ e') → motive Γ e)
    (sum : ∀ {Γ v first last e s}, motive ((v,.int)::Γ) e →
      motive Γ (.sum (.tensor s) v first last e))
    (bind : ∀ {Γ v d e}, Typed Γ d → motive Γ d → motive ((v,d.note)::Γ) e →
      motive Γ (.bind e.note v d e)) {Γ e} (h : Typed Γ e) : motive Γ e := by
  induction h with
  | int => exact int
  | name found => exact name found
  | @real _ x =>
    refine operation [] .consumed ⟨fun cx => ⟨pure (),fun _ => lowerReal cx (.tensor []) x,
      inferInstance,by simp [mark, markAll],fun ts b hts => ?_⟩,scan_zero fun _ => rfl,
      by simp⟩ (by simp)
    obtain rfl := List.length_eq_zero_iff.1 hts
    exact (lowerReal_produces cx _ x).imp fun _ _ h => h.meets.performs ⟨trivial,nofun,rfl,rfl⟩
  | @decl _ _ low high =>
    refine operation [] .consumed ⟨fun cx => ⟨pure (),fun _ => lowerDecl cx low high,
      inferInstance,by simp [mark, markAll],fun _ b _ => ?_⟩,scan_zero fun _ => rfl,by simp⟩
      (by simp)
    exact (lowerDecl_leaves cx low high).imp fun _ _ h => ⟨⟨trivial,nofun,rfl,rfl⟩,h.1,h.2,nofun⟩
  | @transpose _ a s _ _ ih =>
    refine operation [a] .consumed ⟨fun cx => ⟨pure (),
      fun ts => lowerTranspose cx (.tensor s) (ts.headD zero),inferInstance,
      by simp [mark, markAll],fun ts b hts => ?_⟩,fun _ => rfl,by simp⟩ (by simpa using ih)
    obtain ⟨t,rfl⟩ := List.length_eq_one_iff.1 hts
    exact (lowerTranspose_produces cx _ t).imp fun _ _ h =>
      h.meets.performs ⟨trivial,nofun,rfl,by simp⟩
  | @reshape _ a s order _ _ ih =>
    refine operation [a] .consumed ⟨fun cx => ⟨pure (),
      fun ts => lowerReshape cx a.note (.tensor s) order (ts.headD zero),inferInstance,
      by simp [mark, markAll],fun ts b hts => ?_⟩,fun _ => rfl,by simp⟩ (by simpa using ih)
    obtain ⟨t,rfl⟩ := List.length_eq_one_iff.1 hts
    refine (lowerReshape_leaves cx _ _ t order).imp fun _ _ h =>
      ⟨⟨trivial,nofun,rfl,by simp⟩,h.1,h.2.1,fun _ horders => h.2.2 fun s hs => ?_⟩
    rw [Expr.ordersFit, Bool.and_eq_true] at horders
    exact visits_of_orderFits horders.1 hs
  | @maxpool _ a t stride _ type ih =>
    refine operation [a] .consumed ⟨fun cx => ⟨pure (),
      fun ts => lowerMaxpool cx a.note t stride (ts.headD zero),inferInstance,
      by simp [mark, markAll],fun ts b hts => ?_⟩,fun _ => rfl,by simp⟩ (by simpa using ih)
    obtain ⟨e,rfl⟩ := List.length_eq_one_iff.1 hts
    exact (lowerMaxpool_produces cx _ _ e stride).imp fun _ _ h =>
      h.meets.performs ⟨trivial,fun _ => Lang.maxpoolTy_ne_absent type,rfl,by simp⟩
  | @index _ a c s _ _ shape iha ihc =>
    refine operation [a, c] .indexed ⟨fun cx => ⟨pure (),fun ts => pure ([],
      (ts.headD zero).at ts.tail),inferInstance,by simp [mark, markAll],fun ts b hts => ?_⟩,
      fun _ => rfl,by simp⟩ (by simpa using ⟨iha,ihc⟩)
    obtain ⟨ea,ec,rfl⟩ := List.length_eq_two.1 hts
    refine ends_pure ⟨⟨And.intro ?_ ⟨s,?_,rfl⟩,nofun,rfl,by simp⟩,⟨rfl,rfl,rfl⟩,rfl,
      fun _ _ => ⟨rfl,fun _ _ => trivial⟩⟩
    · simp [shape]
    · simp [shape]
  | @call _ t f args _ ints ih =>
    refine operation args (.called f) ⟨fun cx => ⟨pure (),lowerCall cx t f,inferInstance,
      by simp [mark],fun ts b _ => (lowerCall_makes cx t f ts).imp fun _ r hr => ?_⟩,
      fun _ => rfl,by simp⟩ ih
    obtain ⟨hmakes,hv,hi,⟨s,rfl⟩,c,ns,rfl⟩ := hr
    refine ⟨⟨fun hmem => ?_,nofun,rfl,rfl⟩,⟨hv,hi,c,ns,rfl⟩,
      fun hf => arrays_call hf c _,fun _ _ => hmakes⟩
    obtain ⟨e,he,hnote⟩ := List.mem_map.1 hmem
    cases ints e he hnote
  | @unary _ op a _ ih =>
    refine operation [a] (unaryReading a.note op) ⟨fun cx => ⟨pure (),
      fun ts => lowerUnary cx a.note op (ts.headD zero),inferInstance,by simp [mark, markAll],
      fun ts b hts => ?_⟩,fun _ => rfl,by simp⟩ (by simpa using ih)
    obtain ⟨t,rfl⟩ := List.length_eq_one_iff.1 hts
    exact (unary_meets cx _ op t).imp fun _ _ h =>
      h.performs (e := .unary a.note op a) unary_describes
  | @product _ op a c t _ _ type iha ihc =>
    refine operation [a, c] (productReading t op) ⟨fun cx => ⟨pure (),fun ts =>
      lowerProduct cx a.note c.note t op (ts.headD zero) (ts.getD 1 zero),inferInstance,
      by simp [mark, markAll],fun ts b hts => ?_⟩,fun _ => rfl,by simp⟩
      (by simpa using ⟨iha,ihc⟩)
    obtain ⟨ea,ec,rfl⟩ := List.length_eq_two.1 hts
    by_cases hop : op = .subtractBias
    · subst hop
      exact ends_bind ends_fail
    by_cases hint : op = .sparseTimes ∧ a.note = .int
    · obtain ⟨rfl,hint⟩ := hint
      rw [hint]
      exact ends_attempt fun _ h => by cases h
    · refine (product_meets cx _ _ _ op ea ec).imp fun _ _ h => h.performs ?_
      exact product_describes type hop fun hsparse hnote => hint ⟨hsparse,hnote⟩
  | @additive _ op a c t _ _ type iha ihc =>
    refine operation [a, c] (plainReading t) ⟨fun cx => ⟨pure (),fun ts =>
      lowerAdditive cx t op (ts.headD zero) (ts.getD 1 zero),inferInstance,
      by simp [mark, markAll],fun ts b hts => ?_⟩,fun _ => rfl,by simp⟩
      (by simpa using ⟨iha,ihc⟩)
    obtain ⟨ea,ec,rfl⟩ := List.length_eq_two.1 hts
    refine (additive_meets cx t op ea ec).imp fun _ _ h => h.performs ?_
    exact plain_describes id rfl ⟨a,by simp,(Lang.additiveTy_ok type).1.symm⟩ rfl (by simp)
  | @apply _ op a t _ type ih =>
    refine operation [a] (applyReading op) ⟨fun cx => ⟨prepare cx op,
      fun ts => lowerApply cx a.note t op (ts.headD zero),inferInstance,by simp [mark, markAll],
      fun ts b hts => ?_⟩,fun _ => rfl,by simp⟩ (by simpa using ih)
    obtain ⟨e,rfl⟩ := List.length_eq_one_iff.1 hts
    exact (apply_meets cx _ _ op e type).imp fun _ _ h => h.performs (apply_describes type)
  | sum _ _ ih => exact sum ih
  | @cond _ e a c t _ _ _ type ihe iha ihc =>
    obtain ⟨rfl,-⟩ := Lang.condTy_ok type
    refine operation [e, a, c] (plainReading a.note) ⟨fun cx => ⟨pure (),fun ts =>
      lowerCond cx e.note a.note (ts.headD zero) (ts.getD 1 zero) (ts.getD 2 zero),inferInstance,
      by simp [mark, markAll],fun ts b hts => ?_⟩,fun _ => rfl,by simp⟩
      (by simpa using ⟨ihe,iha,ihc⟩)
    obtain ⟨ec,ea,eb,rfl⟩ := List.length_eq_three.1 hts
    refine (cond_meets cx a.note e.note ea eb ec).imp fun _ _ h =>
      h.performs (e := .cond a.note e a c) ?_
    exact plain_describes id rfl ⟨a,by simp,rfl⟩ rfl (by simp)
  | bind hd _ ihd ihe => exact bind hd ihd ihe

end Operation

end MicroLearn.Lower
