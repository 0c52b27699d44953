import MicroLearn.Proofs.ClosedPrograms

/-!
# The names of arrays and tables

A sparse product finds its matrix in arrays. They are named after the first letter of the name
that the matrix has where the product stands, and not after the variable that holds it in the
end. The tables of the exponential are named after the size of their scale.
-/

set_option autoImplicit false

namespace MicroLearn.Code

open Instr

variable {x : String} {r : Replacement}

mutual

theorem arrays_subst (hr : r.isInt = false) :
    ∀ i : Instr, (i.subst x r).arrays = i.arrays.map (List.map (renamed x r))
  | .call f args => by
    rw [subst, substArgs_eq_map hr, arrays, arrays, roots_subst hr]
    split
    · rw [← List.map_take, List.map_singleton]
    · rfl
  | .branch _ yes no => by
    rw [subst, arrays, arrays, List.map_append, arraysAll_subst hr, arraysAll_subst hr]
  | .count _ _ _ body | .repeatWhile _ body | .block body => arraysAll_subst hr body
  | .assign _ _ | .clear _ _ | .output _ | .outputScaled _ _ | .comment _ => rfl

theorem arraysAll_subst (hr : r.isInt = false) : ∀ is : List Instr,
    arraysAll (substAll x r is) = (arraysAll is).map (List.map (renamed x r))
  | [] => rfl
  | i::is => by
    rw [substAll, arraysAll, arraysAll, List.map_append, arrays_subst hr,
      arraysAll_subst hr]

end

end MicroLearn.Code

namespace MicroLearn.Lower

open Code
open Lang (Ty Expr Product Typed)
open Lowering
open Instr

/-- The names of the arrays that a product uses. A computed matrix has a variable made for it. -/
def arraysOf : Product → List (List String)
  | .sparse left =>
    match sparseNames (left.getD (variableName 0)) with
    | .ok (index,value) => [[index, value]]
    | .error _ => []
  | .foreign _ => []

theorem sparseName_of_mem {p as x} (has : as ∈ arraysOf p) (hx : x ∈ as) : SparseName x := by
  cases p with
  | foreign f => cases has
  | sparse left =>
    cases hnames : sparseNames (left.getD (variableName 0)) with
    | error f =>
      rw [arraysOf, hnames] at has
      cases has
    | ok names =>
      rw [arraysOf, hnames] at has
      obtain rfl := List.mem_singleton.1 has
      exact ⟨_,names.1,names.2,hnames,List.mem_pair.1 hx⟩

/-- The term is a place in the variable of this name, or in one that has been made. -/
def Rooted (root : Option String) (t : Term) : Prop :=
  ∃ x, t.root? = some x ∧ (root = some x ∨ root = none ∧ ∃ n, x = variableName n)

theorem Own.rooted {v i v' i' r} (h : Own v i v' i' r) : Rooted none r.2 := by
  obtain ⟨n,inFlash,-,-,hr⟩ := h.out
  exact ⟨variableName n,by rw [hr]; rfl,.inr ⟨rfl,n,rfl⟩⟩

theorem Rooted.sparseNames {root t x} (h : Rooted root t) (hx : t.varName = .ok x) :
    Lower.sparseNames x = Lower.sparseNames (root.getD (variableName 0)) := by
  obtain ⟨y,hy,hroot⟩ := h
  obtain rfl : x = y := by
    cases t with
    | var name index inFlash => exact (Except.ok.inj hx).symm.trans (Option.some.inj hy)
    | _ => cases hy
  rcases hroot with rfl | ⟨rfl,n,rfl⟩
  · rfl
  · simp [Lower.sparseNames, variableName]

theorem root_at (t : Term) (index : List Term) : (t.at index).root? = t.root? := by
  cases t <;> rfl

structure Spelled (e : Expr Ty) (r : Lowered) : Prop where
  arrays : arraysAll r.1 = e.products.flatMap arraysOf
  root : e.note ≠ .int → Rooted e.stem r.2

/-- The code of the expression uses the arrays of its products. -/
def Spelling (e : Expr Ty) : Prop :=
  ∀ cx b, (∀ v ∈ e.binders, ¬ Reserved v) →
    Ends b (lower cx e) fun _ r => .foreign "SparseMatMul" ∉ e.products → Spelled e r

section Cases

variable {e d : Expr Ty} {es : List (Expr Ty)} {how : Reading} {v : String} {b : Tally}

theorem spelled_all (h : ∀ e ∈ es, Spelling e) (cx : Context)
    (hnames : ∀ v ∈ Expr.bindersAll es, ¬ Reserved v) :
    Ends b (lowerAll cx es) fun _ r => .foreign "SparseMatMul" ∉ Expr.productsAll es →
      arraysAll r.1 = (Expr.productsAll es).flatMap arraysOf ∧
        List.Forall₂ (fun e t => e.note ≠ .int → Rooted e.stem t) es r.2 := by
  induction es generalizing b with
  | nil =>
    exact ends_pure fun _ => ⟨rfl,.nil⟩
  | cons e es ih =>
    rw [List.forall_mem_cons] at h
    rw [Expr.bindersAll, List.forall_mem_append] at hnames
    refine ends_bind ((h.1 cx b hnames.1).imp fun _ r he => ?_)
    refine ends_bind ((ih h.2 hnames.2).imp fun _ rs hs => ends_pure fun hforeign => ?_)
    rw [Expr.productsAll, List.mem_append, not_or] at hforeign
    obtain ⟨harrays,hroots⟩ := hs hforeign.2
    refine ⟨?_,.cons (he hforeign.1).root hroots⟩
    rw [arraysAll_append, (he hforeign.1).arrays, harrays, Expr.productsAll, List.flatMap_append]

/-- An operation uses the arrays of its own product, and hands on the root of its first operand
or makes a new one. -/
theorem Reading.Performs.spelled {ts b' own} (h : how.Performs e es ts b b' own)
    (hroots : List.Forall₂ (fun e t => e.note ≠ .int → Rooted e.stem t) es ts)
    (hforeign : .foreign "SparseMatMul" ∉ how.products (es.map Expr.stem)) :
    arraysAll own.1 = (how.products (es.map Expr.stem)).flatMap arraysOf ∧
      (e.note ≠ .int → Rooted (how.stem (es.map Expr.stem)) own.2) := by
  obtain ⟨⟨hsuits,-,-,-⟩,hown,hspells,-⟩ := h
  cases how with
  | passed =>
    rcases hroots with _ | ⟨hroot, _ | _⟩
    · exact hown.elim
    · obtain ⟨-,-,rfl⟩ := hown
      exact ⟨hspells,fun hnote => hroot (by rw [(List.cons.inj hsuits).1]; exact hnote)⟩
    · exact hown.elim
  | carried => exact ⟨hspells,fun hnote => absurd hsuits hnote⟩
  | indexed =>
    rcases hroots with _ | ⟨hroot, _ | ⟨-, _ | _⟩⟩
    · exact hown.elim
    · exact hown.elim
    · obtain ⟨-,-,rfl⟩ := hown
      obtain ⟨z,hz,hroot⟩ := hroot (by simpa using hsuits.1)
      refine ⟨hspells,fun _ => ⟨z,?_,hroot⟩⟩
      rw [← hz]
      exact root_at _ _
    · exact hown.elim
  | consumed => exact ⟨hspells,fun _ => hown.rooted⟩
  | sparse =>
    rcases hroots with _ | ⟨hroot,_⟩
    · exact ⟨hspells,fun _ => hown.rooted⟩
    · obtain ⟨x,index,value,hx,hnames,hspells⟩ := hspells
      rw [(hroot (by simpa [Reading.Suits] using hsuits)).sparseNames hx] at hnames
      refine ⟨?_,fun _ => hown.rooted⟩
      simp [arraysOf, hspells, hnames]
  | updated =>
    rcases hroots with _ | ⟨hroot,_⟩
    · exact hown.elim
    · obtain ⟨-,-,c,f,rest,-,rfl⟩ := hown
      refine ⟨hspells,fun _ => ?_⟩
      simpa [Rooted, Reading.stem] using hroot (by simpa using hsuits.1)
  | called f =>
    obtain ⟨-,-,c,ns,rfl⟩ := hown
    refine ⟨hspells ?_,fun _ => ⟨_,rfl,.inr ⟨rfl,_,rfl⟩⟩⟩
    rintro rfl
    simp at hforeign

theorem spelling_operation (hop : Operation e es how) (h : ∀ e' ∈ es, Spelling e') :
    Spelling e := by
  intro cx b hnames
  rw [hop.names.1] at hnames
  refine hop.ends ((spelled_all h cx hnames).imp fun b1 r hall b2 own hown hforeign => ?_)
  rw [hown.products, List.mem_append, not_or] at hforeign
  obtain ⟨harrays,hroots⟩ := hall hforeign.1
  obtain ⟨hown',hroot⟩ := hown.spelled hroots hforeign.2
  refine ⟨?_,fun hnote => ?_⟩
  · rw [Lowered.after, arraysAll_append, harrays, hown', hown.products, List.flatMap_append]
  · rw [hown.stem]
    exact hroot hnote

theorem spelling_sum {first last s} (h : Spelling e) :
    Spelling (.sum (.tensor s) v first last e) := by
  intro cx ⟨⟨types,tables,n⟩,i⟩ hnames
  have hbody := fun u hu => hnames u (List.mem_cons_of_mem _ hu)
  refine ends_declare (ends_bind ((h cx _ hbody).imp fun _ r he => ?_))
  refine ends_bind ((lowerSum_sums cx _ r.2 first last).imp fun _ loop hloop => ?_)
  refine ends_pure fun hforeign => ⟨?_,fun _ => ⟨_,by rw [hloop.out]; rfl,.inr ⟨rfl,_,rfl⟩⟩⟩
  simpa [SumLoop.around, arraysAll, arrays, arraysAll_append, increment,
    hloop.adds.arrays] using (he hforeign).arrays

theorem spelling_bind_int (hnote : d.note = .int) (ihd : Spelling d) (ihe : Spelling e) :
    Spelling (.bind e.note v d e) := by
  intro cx b hnames
  rw [Expr.binders, List.forall_mem_append, List.forall_mem_cons] at hnames
  rw [lower_bind_int hnote]
  refine ends_bind ((ihd cx b hnames.1).imp fun ⟨⟨types,tables,n⟩,i⟩ rd hd => ?_)
  refine ends_declare (ends_bind ((ihe cx _ hnames.2.2).imp fun _ re he => ?_))
  refine ends_pure fun hforeign => ?_
  rw [Expr.products, List.mem_append, not_or] at hforeign
  refine ⟨?_,fun htype => ?_⟩
  · simp [arraysAll_append, arraysAll, arrays, (hd hforeign.1).arrays, (he hforeign.2).arrays]
  · rw [Expr.stem, if_neg (by simp [Expr.keepsName, hnote])]
    exact (he hforeign.2).root htype

/-- In the body of a binding the name of a tensor is replaced by its variable. The arrays keep the
names that they have. -/
theorem Spelled.bind {rd re} {value : Term} {r} (hd : Spelled d rd) (he : Spelled e re)
    (hnote : d.note ≠ .int) (hv : ¬ Reserved v)
    (hvalue : value.root? = if d.isDecl then some v else rd.2.root?)
    (hr : value.replacement? = some r) :
    Spelled (.bind e.note v d e) (rd.1++substAll v r re.1,re.2.subst v r) := by
  obtain ⟨w,hw,hstem⟩ := hd.root hnote
  have hplain : r.isInt = false ∧ renamed v r v = if d.isDecl then v else w := by
    cases value with
    | var name own inFlash =>
      obtain rfl := Option.some.inj hr
      refine ⟨rfl,(if_pos rfl).trans (Option.some.inj (hvalue.trans ?_))⟩
      rw [hw]
      split <;> rfl
    | _ => rw [hw] at hvalue; split at hvalue <;> cases hvalue
  refine ⟨?_,fun htype => ?_⟩
  · have hkept : (e.products.flatMap arraysOf).map (List.map (renamed v r)) =
        e.products.flatMap arraysOf := by
      refine (List.map_congr_left fun as has => ?_).trans (List.map_id _)
      refine (List.map_congr_left fun u hu => renamed_of_ne ?_).trans (List.map_id _)
      rintro rfl
      obtain ⟨p,-,has⟩ := List.mem_flatMap.1 has
      exact hv (.inr (.inl (sparseName_of_mem has hu)))
    rw [arraysAll_append, arraysAll_subst hplain.1, hd.arrays, he.arrays, hkept, Expr.products,
      List.flatMap_append]
  · obtain ⟨u,hu,hroot⟩ := he.root htype
    refine ⟨renamed v r u,by rw [root_subst hplain.1, hu, Option.map_some],?_⟩
    have hkeeps : d.keepsName = d.isDecl := by simp [Expr.keepsName, hnote]
    rw [Expr.stem, hkeeps]
    by_cases huv : u = v
    · subst huv
      have hstem' : e.stem = some u :=
        hroot.resolve_right fun h => hv (.inl (h.2.imp fun _ => .inl))
      rw [hplain.2]
      cases d.isDecl with
      | true => exact .inl (by simpa using hstem')
      | false => simpa [hstem'] using hstem
    · rw [renamed_of_ne huv, if_neg]
      · exact hroot
      · rintro ⟨hstem',-⟩
        rw [hstem'] at hroot
        exact huv (by simpa [eq_comm] using hroot)

theorem spelling_bind_tensor (hnote : d.note ≠ .int) (ihd : Spelling d) (ihe : Spelling e) :
    Spelling (.bind e.note v d e) := by
  intro cx b hnames
  rw [Expr.binders, List.forall_mem_append, List.forall_mem_cons] at hnames
  rw [lower_bind_tensor hnote]
  refine ends_bind ((ihd cx b hnames.1).imp fun ⟨⟨types,tables,n⟩,i⟩ rd hd => ?_)
  have hbody : ∀ b value, value.root? = (if d.isDecl then some v else rd.2.root?) → Ends b (do
        let re ← lower cx e
        let r ← replacementOf value
        return (rd.1++substAll v r re.1,re.2.subst v r)) fun _ r =>
          .foreign "SparseMatMul" ∉ d.products++e.products → Spelled (.bind e.note v d e) r := by
    intro b value hvalue
    refine ends_bind ((ihe cx b hnames.2.2).imp fun _ re he => ends_replacementOf fun r hr => ?_)
    refine ends_pure fun hforeign => ?_
    rw [List.mem_append, not_or] at hforeign
    exact (hd hforeign.1).bind (he hforeign.2) hnote hnames.2.1 hvalue hr
  cases hdecl : d.isDecl with
  | true => exact ends_bindTensor_model hdecl (hbody _ _ (by rw [hdecl]; rfl))
  | false => exact ends_bindTensor hdecl (hbody _ _ (by rw [hdecl]; rfl))

theorem typed_spelling {Γ} (h : Typed Γ e) : Spelling e := by
  refine typed_induction (motive := fun _ => Spelling) ?_ ?_
    (fun _ _ => spelling_operation) spelling_sum (fun {_ _ d _} _ ihd ihe => ?_) h
  · intro _ n cx b _
    exact ends_number (ends_pure fun _ => ⟨rfl,fun h => absurd rfl h⟩)
  · intro _ id t _ cx b _
    exact ends_neutral fun s => ends_pure fun _ => ⟨rfl,fun _ => ⟨id,rfl,.inl rfl⟩⟩
  · by_cases hnote : d.note = .int
    · exact spelling_bind_int hnote ihd ihe
    · exact spelling_bind_tensor hnote ihd ihe

end Cases

section Letters

theorem sparseNames_inj {x y} :
    sparseNames x = sparseNames y ↔ x.toList.head? = y.toList.head? := by
  unfold sparseNames
  cases x.toList with
  | nil => cases y.toList <;> simp
  | cons c cs =>
    cases y.toList with
    | nil => simp
    | cons d ds => simp

theorem sparseNames_whole {x} : sparseNames x = .ok (x++"idx",x++"val") ↔ x.toList.length = 1 := by
  unfold sparseNames
  cases hx : x.toList with
  | nil => simp
  | cons c cs => simp [← String.toList_inj, hx]

theorem tableNames_inj {p q} : tableNames p = tableNames q ↔ p.natAbs = q.natAbs := by
  simp only [tableNames, Prod.mk.injEq, String.append_left_inj, String.append_right_inj, and_self]
  exact Nat.repr_inj

end Letters

/-- In the code of a typed program without names that are reserved, and without calls of the
routine for sparse products by its name, the arrays are those of the products, in their order. Each
is named by the first letter of the name that its matrix has at the product. So two matrices share
their arrays if and only if their names have the same first letter, a matrix has arrays of its full
name if and only if that is one letter, and an alias has arrays of its own. Tables share their names
if and only if their scales differ at most in the sign. -/
theorem products_name_arrays {job : Job} {e₀ : Expr Unit} {e : Expr Ty} {s : Settings}
    {code : List Instr} {result : Term} {st : State} (htyped : job.typed e₀ = .ok (e,s))
    (hlowered : job.lowered s e = .ok ((code,result),st))
    (hnames : ∀ v ∈ e₀.binders, ¬ Reserved v) (hforeign : .foreign "SparseMatMul" ∉ e.products) :
    Instr.arraysAll code = e.products.flatMap arraysOf ∧
      (∀ x y, sparseNames x = sparseNames y ↔ x.toList.head? = y.toList.head?) ∧
      (∀ x, sparseNames x = .ok (x++"idx",x++"val") ↔ x.toList.length = 1) ∧
      ∀ p q, tableNames p = tableNames q ↔ p.natAbs = q.natAbs := by
  obtain ⟨htype,hsame⟩ := job.typed_ok htyped
  obtain ⟨cx,-,hrun⟩ := bind_ok hlowered
  rw [← hsame.binders] at hnames
  refine ⟨?_,fun _ _ => sparseNames_inj,fun _ => sparseNames_whole,fun _ _ => tableNames_inj⟩
  exact (typed_spelling htype cx _ hnames {} _ st rfl hrun hforeign).arrays

namespace SharedLetter

/-- `let W = [2,2] in … in let Wx = [2,2] in … in let x = [2,1] in … in let A = W in
(W |*| x) + ((Wx |*| x) + (A |*| x))` -/
def job : Job :=
  { ReshapedSum.job with
    tree := .bind "W" (.decl ["2", "2"] "-1.0" "1.0") (.bind "Wx" (.decl ["2", "2"] "-1.0" "1.0")
    (.bind "x" (.decl ["2", "1"] "-1.0" "1.0") (.bind "A" (.name "W")
      (.additive .plus (.product .sparseTimes (.name "W") (.name "x"))
        (.additive .plus (.product .sparseTimes (.name "Wx") (.name "x"))
          (.product .sparseTimes (.name "A") (.name "x"))))))) }

theorem covered : job.passes (fun e0 e => e0.binders == ["W", "Wx", "x", "A"] &&
    e.products == [.sparse "W", .sparse "Wx", .sparse "A"]) = true := by decide +kernel

end SharedLetter

open SharedLetter in
/-- The matrices `W` and `Wx` share their arrays, and `A`, which is `W`, has arrays of its own. -/
theorem products_name_arrays_shared : ∃ e₀ e s code result st, job.tree.read = .ok e₀ ∧
    job.typed e₀ = .ok (e,s) ∧ job.lowered s e = .ok ((code,result),st) ∧
    Instr.arraysAll code = [["Widx", "Wval"], ["Widx", "Wval"], ["Aidx", "Aval"]] := by
  obtain ⟨e₀,e,s,code,result,st,hread,htyped,hlowered,h⟩ := Job.of_passes covered
  simp only [Bool.and_eq_true, beq_iff_eq] at h
  obtain ⟨hbinders,hproducts⟩ := h
  have hshort : ∀ v ∈ e₀.binders, v.toList.length < 3 ∧ v.toList.head? ≠ some 'i' := by
    rw [hbinders]
    decide
  have harrays := (products_name_arrays htyped hlowered
    (fun v hv => short_not_reserved (hshort v hv)) (by rw [hproducts]; decide)).1
  refine ⟨e₀,e,s,code,result,st,hread,htyped,hlowered,harrays.trans ?_⟩
  rw [hproducts]
  decide

end MicroLearn.Lower
