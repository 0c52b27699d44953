import MicroLearn.Proofs.Places
import MicroLearn.Proofs.Operations

/-!
# The code of a program is closed

All variables in the code of a program are declared, except those of loops and the tables of
the exponential, and the result of a program lies in a variable of a shape that fits its type.
The body of a binding is lowered with the bound name open, and closed by substitution.
-/

set_option autoImplicit false

namespace MicroLearn.Lower

open Code
open Lang (Ty Token Expr Scope Typed)
open Lowering

structure Lowers (P D : List String) (b b' : Tally) (code : List Instr) (ts : List Term) :
    Prop where
  extended : Extends D b b'
  code : Instr.ClosedAll Iterates (Open P b') code
  terms : ∀ t ∈ ts, t.Within (Open P b')

theorem Lowers.nil (P : List String) (b : Tally) : Lowers P [] b b [] [] :=
  ⟨.refl _ _,trivial,nofun⟩

theorem Lowers.append {P D1 D2 b b₁ b2 code1 code2 ts1 ts2} (h1 : Lowers P D1 b b₁ code1 ts1)
    (h2 : Lowers P D2 b₁ b2 code2 ts2) : Lowers P (D1++D2) b b2 (code1++code2) (ts1++ts2) where
  extended := h1.extended.trans h2.extended fun _ => List.mem_append.2
  code := closedAll_append.2 ⟨h1.code.mono (fun _ => Open.extend h2.extended) _,h2.code⟩
  terms t ht := by
    rcases List.mem_append.1 ht with ht | ht
    · exact (h1.terms t ht).mono fun _ => Open.extend h2.extended
    · exact h2.terms t ht

structure Closes (Γ : Scope) (A P : List String) (e : Expr Ty) (b b' : Tally) (r : Lowered) :
    Prop where
  lowers : Lowers P e.declared b b' r.1 [r.2]
  value : Valued Γ (A++e.declared) P b' e.note r.2

section Assembly

variable {Γ : Scope} {A P : List String} {e : Expr Ty} {b b₁ : Tally} {code : List Instr}
    {ts : List Term}

theorem Open.defined {b'} (x : String) (h : Defined b' x) : Open P b' x := .inl h

theorem makes_closes {b2 own} (hown : Makes ts e.note b₁ b2 own)
    (hl : Lowers P e.declared b b₁ code ts) (htype : e.note ≠ .absent) :
    Closes Γ A P e b b2 (Lowered.after code own) := by
  have hopen : ∀ x, Open P b₁ x → Open P b2 x := fun _ => Open.extend hown.extended
  obtain ⟨n,hn,hout,hlookup⟩ := hown.out
  refine ⟨⟨hl.extended.trans hown.extended (by simp),closedAll_append.2 ⟨hl.code.mono hopen _,?_⟩,
    ?_⟩,?_⟩
  · exact hown.code _ Open.defined fun t ht => (hl.terms t ht).mono hopen
  · rw [List.forall_mem_singleton, Lowered.after, hout, within_plain]
    exact .inl (.inl ⟨_,hlookup⟩)
  · rw [Lowered.after, hout]
    cases hnote : e.note with
    | int => exact .inl rfl
    | tensor shape => exact .inr ⟨shape,rfl,.of_variable hn (hnote ▸ hlookup)⟩
    | absent => exact absurd hnote htype

theorem keeps_closes {how : Reading} {es} {own v i v' i'} (hl : Lowers P e.declared b b₁ code ts)
    (hvalues : List.Forall₂ (fun a t => Valued Γ (A++e.declared) P b₁ a.note t) es ts)
    (hcode : ∀ K : String → Prop, (∀ t ∈ ts, t.Within K) → Instr.ClosedAll Iterates K own.1)
    (hfulfils : how.Fulfils ts v i v' i' own) (hsuits : how.Suits (es.map Expr.note) e.note)
    (hhow : how = .passed ∨ how = .carried ∨ how = .indexed ∨ how = .updated) :
    Closes Γ A P e b b₁ (Lowered.after code own) := by
  have hkept : own.2.Within (Open P b₁) ∧ Valued Γ (A++e.declared) P b₁ e.note own.2 := by
    rcases hhow with rfl | rfl | rfl | rfl
    · rcases hvalues with _ | ⟨hvalue, _ | _⟩
      · cases hfulfils
      · obtain ⟨-,-,rfl⟩ := hfulfils
        obtain ⟨hnote,-⟩ := List.cons.inj hsuits
        exact ⟨hl.terms _ (by simp),hnote ▸ hvalue⟩
      · cases hfulfils
    · refine ⟨fun x hx => ?_,.inl hsuits⟩
      have hmentions := hfulfils.2.2.2 [] nofun x
      simp only [Term.resolve_nil, id] at hmentions
      rw [hmentions, List.any_eq_true] at hx
      obtain ⟨t,ht,hx⟩ := hx
      exact hl.terms t ht x hx
    · rcases hvalues with _ | ⟨hvalue, _ | ⟨_, _ | _⟩⟩
      · cases hfulfils
      · cases hfulfils
      · obtain ⟨-,-,rfl⟩ := hfulfils
        obtain ⟨-,s,hs,hnote⟩ := hsuits
        refine ⟨Term.Within.at (hl.terms _ (by simp)) (by simpa using hl.terms _ (by simp)),?_⟩
        exact .inr ⟨s.tail,hnote,(hvalue.holds (Option.some.inj hs)).index _⟩
      · cases hfulfils
    · rcases hvalues with _ | ⟨hvalue,_⟩
      · cases hfulfils
      · obtain ⟨-,-,c,f,rest,-,rfl⟩ := hfulfils
        refine ⟨within_inMemory.2 (hl.terms _ (by simp)),?_⟩
        rw [← Option.some.inj hsuits.2]
        exact hvalue.imp fun _ hholds => hholds.inMemory
  refine ⟨⟨hl.extended,closedAll_append.2 ⟨hl.code,hcode _ hl.terms⟩,?_⟩,hkept.2⟩
  rw [List.forall_mem_singleton]
  exact hkept.1

end Assembly

/-- Lowering closes the expression wherever all names in scope are in order. -/
def Closing (cx : Context) (Γ : Scope) (e : Expr Ty) : Prop :=
  ∀ A P (b : Tally), e.modelsBound = true → e.ordersFit = true → Fresh A P e.binders →
    Scoped Γ A P b → Ends b (lower cx e) (Closes Γ A P e b)

section Cases

variable {cx : Context} {Γ : Scope} {A P : List String} {b : Tally}
variable {t : Ty} {β : Type} {s : List Int} {Q : Tally → β → Prop}

theorem closing_name {id} (found : Γ.lookup id = some t) : Closing cx Γ (.name t id) := by
  intro A P b _ _ _ hscoped
  refine ends_neutral fun s => ends_pure ?_
  rcases hscoped id t found with ⟨hmem,shape,rfl⟩ | ⟨hsettled,hpresent⟩
  · refine ⟨⟨.refl _ _,trivial,?_⟩,.inr ⟨shape,rfl,id,[],_,shape,rfl,rfl,?_⟩⟩
    · rw [List.forall_mem_singleton]
      exact within_var.2 ⟨.inr hmem,nofun⟩
    · exact .inl ⟨hmem,found⟩
  · refine ⟨⟨.refl _ _,trivial,?_⟩,?_⟩
    · rw [List.forall_mem_singleton]
      exact within_var.2 ⟨.inl (.inl ⟨t,hsettled.1⟩),nofun⟩
    · cases t with
      | int => exact .inl rfl
      | tensor shape =>
        refine .inr ⟨shape,rfl,id,[],_,shape,rfl,rfl,.inr (hsettled.mono ?_)⟩
        exact fun y => List.mem_append_left _
      | absent => exact absurd rfl hpresent

theorem one_lowered {e} (ih : Closing cx Γ e) (hmodels : e.modelsBound = true)
    (horders : e.ordersFit = true) (hfresh : Fresh A P e.binders) (hscoped : Scoped Γ A P b)
    {f} (h : ∀ (b' : Tally) code t, Lowers P e.declared b b' code [t] →
      Valued Γ (A++e.declared) P b' e.note t → Ends b' (f (code,t)) Q) :
    Ends b (lower cx e >>= f) Q :=
  ends_bind ((ih A P b hmodels horders hfresh hscoped).imp fun b' r hr =>
    h b' r.1 r.2 hr.lowers hr.value)

theorem all_lowered {es} (ih : ∀ e ∈ es, Closing cx Γ e)
    (hmodels : Expr.modelsBoundAll es = true) (horders : Expr.ordersFitAll es = true)
    (hfresh : Fresh A P (Expr.bindersAll es)) (hscoped : Scoped Γ A P b) :
    Ends b (lowerAll cx es) fun b' r => Lowers P (Expr.declaredAll es) b b' r.1 r.2 ∧
      List.Forall₂ (fun e t => Valued Γ (A++Expr.declaredAll es) P b' e.note t) es r.2 := by
  induction es generalizing b with
  | nil =>
    exact ends_pure ⟨.nil P b,.nil⟩
  | cons e es ihs =>
    rw [List.forall_mem_cons] at ih
    rw [Expr.modelsBoundAll, Bool.and_eq_true] at hmodels
    rw [Expr.ordersFitAll, Bool.and_eq_true] at horders
    refine ends_bind ((ih.1 A P b hmodels.1 horders.1 hfresh.left hscoped).imp fun b₁ r he => ?_)
    have hscoped1 := hscoped.extend he.lowers.extended hfresh.left.spares
    refine ends_bind ((ihs ih.2 hmodels.2 horders.2 hfresh.right hscoped1).imp fun b2 rs hs => ?_)
    have hnext := hfresh.spares_before (D := e.declared) (fun _ => Lang.mem_binders_of_declared)
      fun _ => Lang.mem_bindersAll_of_declaredAll
    refine ends_pure ⟨he.lowers.append hs.1,.cons ?_ (hs.2.imp fun _ _ h => h.mono ?_)⟩
    · exact (he.value.extend hs.1.extended hnext).mono (by simp [Expr.declaredAll]; tauto)
    · simp [Expr.declaredAll]
      tauto

theorem closing_operation {e es how} (hop : Operation e es how) (ih : ∀ a ∈ es, Closing cx Γ a) :
    Closing cx Γ e := by
  intro A P b hmodels horders hfresh hscoped
  obtain ⟨hbinders,hdeclared,hmodels',horders'⟩ := hop.names
  rw [hbinders] at hfresh
  refine hop.ends ((all_lowered ih (hmodels' hmodels) (horders' horders) hfresh hscoped).imp
    fun b₁ r ⟨hl,hvalues⟩ b2 own hown => ?_)
  rw [← hdeclared] at hl hvalues
  have hpresent : e.note ≠ .absent :=
    hown.present ((List.forall₂_and_left _ _).1 (hvalues.imp fun _ _ h => ⟨h.not_absent,h⟩)).1
  have hleaves := hown.leaves hmodels horders
  cases how with
  | consumed | sparse | called => exact makes_closes hleaves hl hpresent
  | passed | carried | indexed | updated =>
    obtain ⟨rfl,hcode⟩ := hleaves
    exact keeps_closes hl hvalues hcode hown.fulfils hown.suits (by simp)

theorem closing_sum {v first last e}
    (ih : Closing cx ((v,.int)::Γ) e) : Closing cx Γ (.sum (.tensor s) v first last e) := by
  intro A P ⟨⟨types,tables,n⟩,i⟩ hmodels horders hfresh hscoped
  refine ends_declare ?_
  refine one_lowered ih hmodels horders hfresh.declare (hscoped.declare (t := .int) hfresh nofun)
    fun b₁ code t hl _ => ?_
  refine ends_bind ((lowerSum_sums cx _ t first last).imp fun b2 loop hloop => ends_pure ?_)
  have hall : Extends (v::e.declared) ⟨types,tables,n⟩ b2 :=
    hl.extended.declare.trans hloop.adds.extended (by simp)
  have hopen : ∀ x, Open P b₁ x → Open P b2 x := fun _ => Open.extend hloop.adds.extended
  obtain ⟨k,hk,hresult,hlookup⟩ := hloop.adds.out
  have hout : loop.out = plain (variableName k) := hloop.out.trans hresult
  have hi := hloop.iterator
  obtain ⟨start,hstart⟩ := hloop.first
  have hturns := hloop.turns
  have hv : Open P b2 v := .inl (hloop.adds.extended.defined v (hl.extended.defined v
    (.inl ⟨.int,by simp [lookup_put]⟩)))
  have hresult : loop.out.Within (Open P b2) := by
    rw [hout, within_plain]
    exact .inl (.inl ⟨_,hlookup⟩)
  refine ⟨⟨hall,⟨hresult,⟨within_plain.2 hv,?_⟩,⟨_,hi,⟨_,rfl⟩,?_,?_⟩,trivial⟩,
    by simpa using hresult⟩,.inr ⟨s,rfl,?_⟩⟩
  · rw [hstart]
    exact within_int start
  · rw [hi, hturns]
    simp [lt]
  · refine Instr.ClosedAll.mono (fun _ => Or.inl) _ ?_
    rw [closedAll_append, closedAll_append]
    refine ⟨⟨hl.code.mono hopen _,?_⟩,⟨within_plain.2 hv,?_⟩,trivial⟩
    · exact hloop.adds.code _ Open.defined (by simpa using (hl.terms t (by simp)).mono hopen)
    · simp [inc, add, one, hv]
  · rw [hout]
    exact .of_variable hk hlookup

theorem closing_bind_int {v d e} (hnote : d.note = .int)
    (hdecl : d.isDecl = false) (ihd : Closing cx Γ d) (ihe : Closing cx ((v,d.note)::Γ) e) :
    Closing cx Γ (.bind e.note v d e) := by
  intro A P b hmodels horders hfresh hscoped
  rw [Expr.modelsBound, hdecl, Bool.and_eq_true] at hmodels
  rw [Expr.ordersFit, Bool.and_eq_true] at horders
  rw [hnote] at ihe
  rw [lower_bind_int hnote]
  refine one_lowered ihd hmodels.1 horders.1 hfresh.left hscoped fun b₁ codeD value hd _ => ?_
  obtain ⟨⟨types,tables,n⟩,i⟩ := b₁
  have hscoped1 := hscoped.extend hd.extended hfresh.left.spares
  refine ends_declare ?_
  refine one_lowered ihe hmodels.2 horders.2 hfresh.right.declare
    (hscoped1.declare (t := .int) hfresh.right nofun) fun b2 codeE result he hvalue => ends_pure ?_
  have hdeclared : (Expr.bind e.note v d e).declared = d.declared++v::e.declared := by
    simp [Expr.declared, Expr.keepsName, hnote]
  have hbody : Extends (v::e.declared) ⟨types,tables,n⟩ b2 := he.extended.declare
  have hopen : ∀ x, Open P ⟨types,tables,n⟩ x → Open P b2 x := fun _ => Open.extend hbody
  have hv : Open P b2 v := .inl (he.extended.defined v (.inl ⟨.int,by simp [lookup_put]⟩))
  refine ⟨⟨?_,?_,he.terms⟩,?_⟩
  · rw [hdeclared]
    exact hd.extended.trans hbody (by simp)
  · rw [closedAll_append, closedAll_append]
    refine ⟨⟨hd.code.mono hopen _,⟨within_plain.2 hv,?_⟩,trivial⟩,he.code⟩
    exact (hd.terms value (by simp)).mono hopen
  · refine hvalue.imp fun shape hholds => (hholds.leave (hfresh.right.apart v (by simp)).2).mono ?_
    simp [hdeclared]
    tauto

section Tensors

variable {v : String} {d e : Expr Ty}

theorem closing_bind_model {shape low high} (ihe : Closing cx ((v,.tensor shape)::Γ) e) :
    Closing cx Γ (.bind e.note v (.decl (.tensor shape) shape low high) e) := by
  rintro A P ⟨⟨types,tables,n⟩,i⟩ hmodels horders hfresh hscoped
  have hnote : (Expr.decl (Ty.tensor shape) shape low high).note ≠ .int := by simp [Expr.note]
  refine ends_lowerDecl (ends_bindTensor_model rfl ?_)
  have hmade : Extends [] ⟨types,tables,n⟩ ⟨types,tables,n+1⟩ :=
    extends_puts [] (fun q t h => ⟨t,h⟩) (by simp)
  have hscoped1 := hscoped.extend hmade ⟨fun x hx => ⟨by simp,hfresh.free x (.inl hx)⟩,by simp⟩
  refine one_lowered ihe hmodels horders hfresh.declare (hscoped1.declare hfresh (by simp))
    fun b' code result hl hvalue => ends_replacementOf fun r hr => ends_pure ?_
  obtain rfl := Option.some.inj hr
  have hall : Extends (v::e.declared) ⟨types,tables,n⟩ b' :=
    hmade.trans hl.extended.declare (by simp)
  rw [instr_substAll_unchanged rfl _ fun _ => rfl, subst_unchanged _ fun _ => rfl]
  refine ⟨⟨hall,hl.code,hl.terms⟩,hvalue.imp fun s hholds => ?_⟩
  refine (hholds.leave (hfresh.apart v (by simp [Expr.binders])).2).mono ?_
  simp
  tauto

theorem closing_bind_tensor (hnote : d.note ≠ .int) (hdecl : d.isDecl = false)
    (ihd : Closing cx Γ d) (ihe : Closing cx ((v,d.note)::Γ) e) :
    Closing cx Γ (.bind e.note v d e) := by
  intro A P b hmodels horders hfresh hscoped
  rw [Expr.modelsBound, hdecl, Bool.and_eq_true] at hmodels
  rw [Expr.ordersFit, Bool.and_eq_true] at horders
  rw [lower_bind_tensor hnote]
  refine one_lowered ihd hmodels.1 horders.1 hfresh.left hscoped fun b₁ codeD value hd hvalue => ?_
  obtain ⟨dims,hdims,hvalue⟩ := hvalue.resolve_left hnote
  rw [hdims] at ihe
  refine ends_bindTensor hdecl ?_
  have hscoped1 := hscoped.extend hd.extended hfresh.left.spares
  refine one_lowered ihe hmodels.2 horders.2 hfresh.right.suspend hscoped1.suspend
    fun b2 codeE result he hresult => ends_replacementOf fun r hr => ends_pure ?_
  have hdeclared : (Expr.bind e.note v d e).declared = d.declared++e.declared := by
    simp [Expr.declared, Expr.keepsName, hdims, hdecl]
  have hopen : ∀ x, Open P b₁ x → Open P b2 x := fun _ => Open.extend he.extended
  have hplace : r.Within (Open P b2) :=
    replacement_within hr ((hd.terms value (by simp)).mono hopen)
  have hbody : ∀ x, Open (v::P) b2 x → Open P b2 x ∨ x = v := by
    intro x hx
    rcases hx with hx | hx
    · exact .inl (.inl hx)
    · exact (List.mem_cons.1 hx).symm.imp_left .inr
  refine ⟨⟨?_,closedAll_append.2 ⟨hd.code.mono hopen _,?_⟩,?_⟩,?_⟩
  · rw [hdeclared]
    exact hd.extended.trans he.extended fun _ => List.mem_append.2
  · exact closedAll_subst hplace _ (he.code.mono hbody _)
  · rw [List.forall_mem_singleton]
    exact within_subst hplace _ ((he.terms result (by simp)).mono hbody)
  · rw [hdeclared]
    have hsplit : Fresh A P ((d.binders++[v])++e.binders) := by simpa [Expr.binders] using hfresh
    have hspares := hsplit.spares_before (D := d.declared)
      (fun x hx => List.mem_append_left _ (Lang.mem_binders_of_declared hx))
      fun _ => Lang.mem_binders_of_declared
    have hv : v ∉ A++(d.declared++e.declared) := by
      simp only [List.mem_append, not_or]
      refine ⟨(hfresh.right.apart v (by simp)).1,fun hmem => ?_,fun hmem => ?_⟩
      · exact hfresh.disjoint (.inr (Lang.mem_binders_of_declared hmem)) (by simp)
      · exact (List.nodup_cons.1 hfresh.right.nodup).1 (Lang.mem_binders_of_declared hmem)
    refine hresult.imp fun shape hholds => ?_
    refine Holds.subst (hholds.mono ?_) ((hvalue.extend he.extended hspares).mono ?_) hr hv
      (hfresh.right.free v (by simp)).1
    · simp; tauto
    · simp; tauto

end Tensors

theorem typed_closing {e} (h : Typed Γ e) : Closing cx Γ e := by
  refine typed_induction (motive := Closing cx) ?_ closing_name (fun _ _ => closing_operation)
    closing_sum (fun {_ _ d _} hd ihd ihe => ?_) h
  · intro _ _ A P b _ _ _ _
    exact ends_number (ends_pure ⟨⟨.refl _ _,trivial,by simp⟩,.inl rfl⟩)
  · by_cases hdecl : d.isDecl = true
    · obtain ⟨shape,low,high,rfl⟩ := Lang.typed_model hd hdecl
      exact closing_bind_model ihe
    rw [Bool.not_eq_true] at hdecl
    by_cases hnote : d.note = .int
    · exact closing_bind_int hnote hdecl ihd ihe
    · exact closing_bind_tensor hnote hdecl ihd ihe

end Cases

theorem iterates_generated {x} (h : Iterates x) : Generated x := by
  obtain ⟨i,rfl⟩ := h
  exact ⟨i,.inr rfl⟩

/-- A variable that has been declared is one that lowering has made, belongs to a sparse matrix, or
has the name of a binder. -/
theorem Extends.declared_of_empty {D b'} (h : Extends D ⟨[],[],0⟩ b')
    {x t} (hx : b'.types.lookup x = some t) :
    Generated x ∨ SparseName x ∨ x ∈ D := by
  by_contra hnot
  simp only [not_or] at hnot
  obtain ⟨hgen,hsparse,hD⟩ := hnot
  rw [h.kept x hD hsparse fun n _ _ heq => hgen ⟨n,.inl heq⟩] at hx
  cases hx

/-- Take a program that is typed and lowered, whose binders are different from one another and from
the names that lowering makes, that has tensors of the model only as definitions of bindings, and
that reshapes in orders that are permutations. Every variable in its code and in its result is
declared, or belongs to a loop around it, or is a table of the exponential. If the program is a
tensor, its result is a variable, and what is left of the shape of this variable behind the indices
is the type of the program. No name of a computed tensor is left. -/
theorem lowered_closed {job : Job} {e₀ : Expr Unit} {e : Expr Ty} {s : Settings}
    {code : List Instr} {result : Term} {st : State} (htyped : job.typed e₀ = .ok (e,s))
    (hlowered : job.lowered s e = .ok ((code,result),st)) (hnodup : e₀.binders.Nodup)
    (hnames : ∀ v ∈ e₀.binders, ¬ Reserved v) (hmodels : e.modelsBound = true)
    (horders : e.ordersFit = true) :
    Instr.ClosedAll Iterates (Defined st.book) code ∧ result.Within (Defined st.book) ∧
      (∀ shape, e.note = .tensor shape → ∃ x index inFlash dims,
        result = .var x index inFlash ∧ st.types.lookup x = some (.tensor dims) ∧
          dims.drop index.length = shape) ∧
      ∀ v ∈ e.substituted, Instr.anyMentions v code = false ∧ result.mentions v = false := by
  obtain ⟨htype,-,hbinders,-,-⟩ := job.typed_ok htyped
  rw [← hbinders] at hnodup hnames
  obtain ⟨cx,-,hrun⟩ := bind_ok hlowered
  have hfresh : Fresh [] [] e.binders := by
    refine ⟨hnodup,by simp,fun x hx => ?_⟩
    have hx' := hnames x (by simpa using hx)
    exact ⟨fun h => hx' (.inl h),fun h => hx' (.inr (.inl h))⟩
  obtain ⟨⟨hext,hcode,hterms⟩,hvalue⟩ := typed_closing htype [] [] ⟨⟨[],[],0⟩,0⟩ hmodels horders
    hfresh nofun {} _ st rfl hrun
  have hopen : ∀ x, Open [] st.book x → Defined st.book x := by
    rintro x (hx | hx)
    · exact hx
    · cases hx
  have hclosed := hcode.mono hopen code
  have hresult := (hterms result (by simp)).mono hopen
  refine ⟨hclosed,hresult,fun shape hshape => ?_,fun v hv => ?_⟩
  · obtain ⟨x,index,inFlash,dims,rfl,hdims,hx⟩ := hvalue.holds hshape
    rcases hx with ⟨hmem,-⟩ | ⟨hlookup,-⟩
    · cases hmem
    · exact ⟨x,index,inFlash,dims,rfl,hlookup,hdims⟩
  · have hperm := Lang.declared_append_substituted e
    have hv' := hnames v (hperm.mem_iff.1 (List.mem_append_right _ hv))
    have hunknown : ¬ Defined st.book v := by
      rintro (⟨t,ht⟩ | ⟨p,t,-,htable⟩)
      · rcases hext.declared_of_empty ht with h | h | h
        · exact hv' (.inl h)
        · exact hv' (.inr (.inl h))
        · exact (List.nodup_append.1 (hperm.nodup_iff.2 hnodup)).2.2 v h v hv rfl
      · exact hv' (.inr (.inr ⟨p,htable⟩))
    have hloop : ¬ Iterates v := fun h => hv' (.inl (iterates_generated h))
    exact ⟨hclosed.not_mentions hloop hunknown code,hresult.not_mentions hunknown⟩

namespace ReshapedSum

open Lang (Tree)

/-- `let a = [2,2] in … in let s = $(k = [0:2]) (a * a) in reshape(s, (2, 2), (2, 1))[1]` -/
def job : Job where
  tree := .bind "a" (.decl ["2", "2"] "-1.0" "1.0")
    (.bind "s" (.sum "k" "0" "2" (.product .times (.name "a") (.name "a")))
      (.index (.reshape (.name "s") ["2", "2"] ["2", "1"]) (.int "1")))
  target := "x86"
  algorithm := "bonsai"
  word := 16
  shift := .divide
  exp := .table
  expBits := 6
  maxScale := some (-12)
  profile := none

theorem covered : job.passes (fun e0 e => e0.binders == ["a", "k", "s"] && e.modelsBound &&
    e.ordersFit && e.note == .tensor [2] && e.substituted == ["s"]) = true := by decide +kernel

theorem not_reserved : ∀ v ∈ ["a", "k", "s"], ¬ Reserved v := by
  have h : ∀ v ∈ ["a", "k", "s"], v.toList.length < 3 ∧ v.toList.head? ≠ some 'i' := by decide
  exact fun v hv => short_not_reserved (h v hv)

end ReshapedSum

open ReshapedSum in
/-- The code of `reshape(s, (2, 2), (2, 1))[1]` is closed, and its result has the shape `[2]`. -/
theorem lowered_closed_reshaped : ∃ e₀ e s code result st, job.tree.read = .ok e₀ ∧
    job.typed e₀ = .ok (e,s) ∧ job.lowered s e = .ok ((code,result),st) ∧
    Instr.ClosedAll Iterates (Defined st.book) code ∧ result.Within (Defined st.book) ∧
    (∃ x index inFlash dims, result = .var x index inFlash ∧
      st.types.lookup x = some (.tensor dims) ∧ dims.drop index.length = [2]) ∧
    Instr.anyMentions "s" code = false := by
  obtain ⟨e₀,e,s,code,result,st,hread,htyped,hlowered,h⟩ := Job.of_passes covered
  simp only [Bool.and_eq_true, beq_iff_eq] at h
  obtain ⟨⟨⟨⟨hbinders,hmodels⟩,horders⟩,hnote⟩,hsubstituted⟩ := h
  obtain ⟨hcode,hresult,hshape,hgone⟩ := lowered_closed htyped hlowered
    (by rw [hbinders]; decide) (hbinders ▸ not_reserved) hmodels horders
  exact ⟨e₀,e,s,code,result,st,hread,htyped,hlowered,hcode,hresult,hshape [2] hnote,
    (hgone "s" (by simp [hsubstituted])).1⟩

end MicroLearn.Lower
