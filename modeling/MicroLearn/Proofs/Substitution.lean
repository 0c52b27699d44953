import MicroLearn.Proofs.Execution

/-!
# Substitution, step by step

Every binding of a name to a tensor substitutes its variable in the code behind it, the
innermost binding first. `resolve` carries out a list of such substitutions. They put
variables in the place of variables, so they keep the shape of terms and instructions.
-/

set_option autoImplicit false

open Bool (or_eq_true)

namespace MicroLearn.Code

open Instr

mutual

def Step.subst (x : String) (r : Replacement) : Step → Step
  | .instr i => .instr (i.subst x r)
  | .bound v t => .bound v (t.subst x r)
  | .used v t => .used v (t.subst x r)
  | .loop iterator start c body => .loop iterator start (c.subst x r) (Step.substAll x r body)

def Step.substAll (x : String) (r : Replacement) : List Step → List Step
  | [] => []
  | s::ss => s.subst x r::Step.substAll x r ss

end

theorem instr_substAll_eq_map (x : String) (r : Replacement) (is : List Instr) :
    substAll x r is = is.map (subst x r) := by
  induction is with
  | nil => rfl
  | cons i is ih => simp [substAll, ih]

mutual

theorem erase_subst (x : String) (r : Replacement) :
    ∀ s : Step, (s.subst x r).erase = substAll x r s.erase
  | .instr _ => rfl
  | .bound _ _ => rfl
  | .used _ _ => rfl
  | .loop iterator start c body => by
    simp [Step.subst, Step.erase, substAll, subst, eraseAll_substAll x r body]

theorem eraseAll_substAll (x : String) (r : Replacement) :
    ∀ ss : List Step, Step.eraseAll (Step.substAll x r ss) = substAll x r (Step.eraseAll ss)
  | [] => rfl
  | s::ss => by
    simp [Step.substAll, Step.eraseAll, erase_subst x r s, eraseAll_substAll x r ss,
      instr_substAll_eq_map]

end

theorem substAll_eq_map (x : String) (r : Replacement) (ts : List Term) :
    Term.substAll x r ts = ts.map (Term.subst x r) := by
  induction ts with
  | nil => rfl
  | cons t ts ih => simp [Term.substAll, ih]

theorem step_substAll_eq_map (x : String) (r : Replacement) (ss : List Step) :
    Step.substAll x r ss = ss.map (Step.subst x r) := by
  induction ss with
  | nil => rfl
  | cons s ss ih => simp [Step.substAll, ih]

theorem substArgs_eq_map {x} {r} (h : r.isInt = false) (seen : Bool)
    (ts : List Term) : substArgs x r seen ts = ts.map (Term.subst x r) := by
  induction ts generalizing seen with
  | nil => rfl
  | cons t ts ih => simp [substArgs, h, ih]

/-- Substitutions to be carried out one after the other. -/
abbrev Renaming := List (String × Replacement)

def Renaming.Plain (θ : Renaming) : Prop := ∀ p ∈ θ, p.2.isInt = false

def Renaming.names (θ : Renaming) : List String := θ.map Prod.fst

def Term.resolve (θ : Renaming) (t : Term) : Term := θ.foldl (fun t p => t.subst p.1 p.2) t

def Instr.resolve (θ : Renaming) (i : Instr) : Instr := θ.foldl (fun i p => i.subst p.1 p.2) i

def Step.resolve (θ : Renaming) (s : Step) : Step := θ.foldl (fun s p => s.subst p.1 p.2) s

def Step.resolveAll (θ : Renaming) (ss : List Step) : List Step := ss.map (Step.resolve θ)

@[simp] theorem Term.resolve_nil : Term.resolve [] = id := rfl

@[simp] theorem Instr.resolve_nil : Instr.resolve [] = id := rfl

@[simp] theorem Step.resolve_nil : Step.resolve [] = id := rfl

section

variable (v : String) (r : Replacement) (θ : Renaming)
include v r θ

theorem Term.resolve_cons (t : Term) : t.resolve ((v,r)::θ) = (t.subst v r).resolve θ := rfl

theorem Step.resolveAll_cons (ss : List Step) :
    Step.resolveAll ((v,r)::θ) ss = Step.resolveAll θ (Step.substAll v r ss) := by
  simp [Step.resolveAll, step_substAll_eq_map, Step.resolve]

end

variable (θ : Renaming)

theorem Step.resolveAll_append (a b : List Step) :
    Step.resolveAll θ (a++b) = Step.resolveAll θ a++Step.resolveAll θ b := List.map_append

theorem Step.resolve_instr (i : Instr) :
    (Step.instr i).resolve θ = .instr (i.resolve θ) := List.foldl_hom _ fun _ _ => rfl

theorem Step.resolve_bound (v : String) (t : Term) :
    (Step.bound v t).resolve θ = .bound v (t.resolve θ) := List.foldl_hom _ fun _ _ => rfl

theorem Step.resolve_used (v : String) (t : Term) :
    (Step.used v t).resolve θ = .used v (t.resolve θ) := List.foldl_hom _ fun _ _ => rfl

theorem Step.resolve_loop (iterator : Term) (start : Int) (c : Term)
    (body : List Step) : (Step.loop iterator start c body).resolve θ =
      .loop iterator start (c.resolve θ) (Step.resolveAll θ body) := by
  induction θ generalizing c body with
  | nil => simp [Step.resolveAll]
  | cons p θ ih =>
    rw [Step.resolveAll_cons]
    exact ih (c.subst p.1 p.2) (Step.substAll p.1 p.2 body)

section Terms

variable {θ : Renaming}
variable {x : String} {r : Replacement}

@[simp] theorem resolve_int (n : Int) : (Term.int n).resolve θ = .int n := by
  induction θ with
  | nil => rfl
  | cons p θ ih => exact ih

@[simp] theorem resolve_unary (op : Unary) (e : Term) :
    (Term.unary op e).resolve θ = .unary op (e.resolve θ) := List.foldl_hom _ fun _ _ => rfl

@[simp] theorem resolve_arith (a : Term) (op : Arith) (b : Term) :
    (Term.arith a op b).resolve θ = .arith (a.resolve θ) op (b.resolve θ) := by
  induction θ generalizing a b with
  | nil => rfl
  | cons p θ ih => exact ih _ _

@[simp] theorem resolve_compare (a : Term) (op : Compare) (b : Term) :
    (Term.compare a op b).resolve θ = .compare (a.resolve θ) op (b.resolve θ) := by
  induction θ generalizing a b with
  | nil => rfl
  | cons p θ ih => exact ih _ _

@[simp] theorem resolve_select (c a b : Term) :
    (Term.select c a b).resolve θ = .select (c.resolve θ) (a.resolve θ) (b.resolve θ) := by
  induction θ generalizing c a b with
  | nil => rfl
  | cons p θ ih => exact ih _ _ _

theorem resolve_var (h : x ∉ θ.names) (index : List Term) (inFlash : Bool) :
    (Term.var x index inFlash).resolve θ = .var x (index.map (Term.resolve θ)) inFlash := by
  induction θ generalizing index with
  | nil => simp
  | cons p θ ih =>
    simp only [Renaming.names, List.map_cons, List.mem_cons, not_or] at h
    rw [Term.resolve_cons, Term.subst, if_neg h.1, substAll_eq_map, ih h.2, List.map_map]
    rfl

theorem resolve_plain (h : x ∉ θ.names) : (plain x).resolve θ = plain x :=
  resolve_var h [] false

theorem subst_var (hr : r.isInt = false) (x y : String) (index : List Term)
    (inFlash : Bool) : ∃ name index' inFlash',
      (Term.var y index inFlash).subst x r = .var name index' inFlash' := by
  rw [Term.subst]
  split
  · cases r with
    | var name own flash => exact ⟨_,_,_,rfl⟩
    | int n => cases hr
  · exact ⟨_,_,_,rfl⟩

theorem resolve_isVar (hθ : θ.Plain) (x : String) (index : List Term) (inFlash : Bool) :
    ∃ name index' inFlash', (Term.var x index inFlash).resolve θ = .var name index' inFlash' := by
  induction θ generalizing x index inFlash with
  | nil => exact ⟨x,index,inFlash,rfl⟩
  | cons p θ ih =>
    obtain ⟨hp,hθ⟩ := List.forall_mem_cons.1 hθ
    obtain ⟨name,index',inFlash',h⟩ := subst_var hp p.1 x index inFlash
    rw [Term.resolve_cons, h]
    exact ih hθ ..

theorem subst_at (hr : r.isInt = false) (x y : String) (index : List Term)
    (inFlash : Bool) (more : List Term) : ((Term.var y index inFlash).at more).subst x r =
      ((Term.var y index inFlash).subst x r).at (more.map (Term.subst x r)) := by
  simp only [Term.at, Term.subst, substAll_eq_map, List.map_append]
  split
  · cases r with
    | var name own flash => simp [Replacement.at]
    | int n => cases hr
  · rfl

theorem resolve_at (hθ : θ.Plain) (x : String) (index : List Term) (inFlash : Bool)
    (more : List Term) : ((Term.var x index inFlash).at more).resolve θ =
      ((Term.var x index inFlash).resolve θ).at (more.map (Term.resolve θ)) := by
  induction θ generalizing x index inFlash more with
  | nil => simp
  | cons p θ ih =>
    obtain ⟨hp,hθ⟩ := List.forall_mem_cons.1 hθ
    obtain ⟨name,index',inFlash',h⟩ := subst_var hp p.1 x index inFlash
    rw [Term.resolve_cons, Term.resolve_cons, subst_at hp, h, ih hθ, List.map_map]
    rfl

theorem subst_inMemory (hr : r.isInt = false) (x : String) (t : Term) :
    t.inMemory.subst x r = (t.subst x r).inMemory := by
  cases t with
  | var y index inFlash =>
    simp only [Term.inMemory, Term.subst]
    split
    · cases r with
      | var name own flash => simp [Replacement.at]
      | int n => cases hr
    · rfl
  | _ => rfl

theorem resolve_inMemory (hθ : θ.Plain) (t : Term) :
    t.inMemory.resolve θ = (t.resolve θ).inMemory := by
  induction θ generalizing t with
  | nil => rfl
  | cons p θ ih =>
    obtain ⟨hp,hθ⟩ := List.forall_mem_cons.1 hθ
    rw [Term.resolve_cons, subst_inMemory hp, ih hθ]
    rfl

@[simp] theorem mentions_inMemory (x : String) (t : Term) :
    t.inMemory.mentions x = t.mentions x := by
  cases t <;> rfl

@[simp] theorem root_inMemory (t : Term) : t.inMemory.root? = t.root? := by
  cases t <;> rfl

theorem anyMentions_append (x : String) (a b : List Term) :
    Term.anyMentions x (a++b) = (Term.anyMentions x a || Term.anyMentions x b) := by
  induction a with
  | nil => rfl
  | cons t a ih => simp [Term.anyMentions, ih, Bool.or_assoc]

theorem mentions_at (x y : String) (index : List Term) (inFlash : Bool) (more : List Term) :
    ((Term.var y index inFlash).at more).mentions x =
      ((Term.var y index inFlash).mentions x || Term.anyMentions x more) := by
  simp [Term.at, Term.mentions, anyMentions_append, Bool.or_assoc]

theorem mentions_of_root {t : Term} (h : t.root? = some x) : t.mentions x = true := by
  cases t with
  | var name index inFlash =>
    obtain rfl : name = x := by simpa [Term.root?] using h
    simp [Term.mentions]
  | _ => simp [Term.root?] at h

end Terms

theorem Instr.resolve_call {θ} (hθ : θ.Plain) (f : String) (args : List Term) :
    (Instr.call f args).resolve θ = .call f (args.map (Term.resolve θ)) := by
  induction θ generalizing args with
  | nil => simp
  | cons p θ ih =>
    obtain ⟨hp,hθ⟩ := List.forall_mem_cons.1 hθ
    change ((Instr.call f args).subst p.1 p.2).resolve θ = _
    rw [subst, substArgs_eq_map hp, ih hθ, List.map_map]
    rfl

theorem Instr.resolve_assign {θ} (target value : Term) :
    (Instr.assign target value).resolve θ = .assign (target.resolve θ) (value.resolve θ) := by
  induction θ generalizing target value with
  | nil => rfl
  | cons p θ ih => exact ih _ _

section Unchanged

variable {x : String} {r : Replacement}

mutual

/-- Nothing changes where the variable does not occur, and where it is replaced by itself. -/
theorem subst_unchanged : ∀ t : Term, (t.mentions x = true → r = .var x [] true) → t.subst x r = t
  | .int _, _ | .bool _, _ => rfl
  | .var name index inFlash, h => by
    simp only [Term.mentions, or_eq_true, or_imp, beq_iff_eq] at h
    rw [Term.subst, substAll_unchanged index h.2]
    split
    · next hname => simp [h.1 hname, hname, Replacement.at]
    · rfl
  | .unary _ e, h | .exp e, h | .cast _ e, h => by rw [Term.subst, subst_unchanged e h]
  | .arith a _ b, h | .logic a _ b, h | .compare a _ b, h => by
    simp only [Term.mentions, or_eq_true, or_imp] at h
    rw [Term.subst, subst_unchanged a h.1, subst_unchanged b h.2]
  | .select c a b, h => by
    simp only [Term.mentions, or_eq_true, or_imp] at h
    rw [Term.subst, subst_unchanged c h.1.1, subst_unchanged a h.1.2, subst_unchanged b h.2]

theorem substAll_unchanged : ∀ ts : List Term,
    (Term.anyMentions x ts = true → r = .var x [] true) → Term.substAll x r ts = ts
  | [], _ => rfl
  | t::ts, h => by
    simp only [Term.anyMentions, or_eq_true, or_imp] at h
    rw [Term.substAll, subst_unchanged t h.1, substAll_unchanged ts h.2]

end

mutual

theorem instr_subst_unchanged (hr : r.isInt = false) : ∀ i : Instr,
    (i.mentions x = true → r = .var x [] true) → i.subst x r = i
  | .assign target value, h => by
    simp only [mentions, or_eq_true, or_imp] at h
    rw [subst, subst_unchanged target h.1, subst_unchanged value h.2]
  | .branch c yes no, h => by
    simp only [mentions, or_eq_true, or_imp] at h
    rw [subst, subst_unchanged c h.1.1, instr_substAll_unchanged hr yes h.1.2,
      instr_substAll_unchanged hr no h.2]
  | .count _ _ c body, h | .repeatWhile c body, h => by
    simp only [mentions, or_eq_true, or_imp] at h
    rw [subst, subst_unchanged c h.1, instr_substAll_unchanged hr body h.2]
  | .call _ args, h => by
    rw [subst, substArgs_eq_map hr, ← substAll_eq_map, substAll_unchanged args h]
  | .clear e _, h | .output e, h | .outputScaled e _, h => by rw [subst, subst_unchanged e h]
  | .comment _, _ => rfl
  | .block body, h => by rw [subst, instr_substAll_unchanged hr body h]

theorem instr_substAll_unchanged (hr : r.isInt = false) : ∀ code : List Instr,
    (Instr.anyMentions x code = true → r = .var x [] true) → substAll x r code = code
  | [], _ => rfl
  | i::code, h => by
    simp only [Instr.anyMentions, or_eq_true, or_imp] at h
    rw [substAll, instr_subst_unchanged hr i h.1, instr_substAll_unchanged hr code h.2]

end

end Unchanged

/-- With `y` replaced by `b`, a replacement `a` becomes `c`, and `b` does not change if `x` is
replaced by `c`. -/
structure Crossing (x y : String) (a b c : Replacement) : Prop where
  ne : x ≠ y
  plain : a.isInt = false ∧ b.isInt = false ∧ c.isInt = false
  first (index : List Term) (inFlash : Bool) :
    (a.at index inFlash).subst y b = c.at (Term.substAll y b index) inFlash
  second (index : List Term) (inFlash : Bool) :
    (b.at index inFlash).subst x c = b.at (Term.substAll x c index) inFlash

theorem Crossing.of_vars {x y a b c : String} {ai bi ci : List Term} {af bf cf : Bool} (hxy : x ≠ y)
    (hb : (Term.var b bi bf).mentions x = false)
    (hc : (Term.var a ai af).subst y (.var b bi bf) = .var c ci cf) :
    Crossing x y (.var a ai af) (.var b bi bf) (.var c ci cf) := by
  refine ⟨hxy,⟨rfl,rfl,rfl⟩,fun index inFlash => ?_,fun index inFlash => ?_⟩
  · simp only [Replacement.at, Term.subst, substAll_eq_map, List.map_append] at hc ⊢
    split
    · rw [if_pos ‹_›] at hc
      cases hc
      simp [Bool.and_assoc]
    · rw [if_neg ‹_›] at hc
      cases hc
      rfl
  · rw [Term.mentions, Bool.or_eq_false_iff, beq_eq_false_iff_ne] at hb
    have hown := @substAll_unchanged x (.var c ci cf) bi (by simp [hb.2])
    rw [substAll_eq_map] at hown
    simp [Replacement.at, Term.subst, substAll_eq_map, hb.1, hown]

section Order

variable {x y : String} {a b c : Replacement}

mutual

theorem subst_subst (h : Crossing x y a b c) :
    ∀ t : Term, (t.subst x a).subst y b = (t.subst y b).subst x c
  | .int _ | .bool _ => rfl
  | .var name index inFlash => by
    have hindex := substAll_substAll h index
    by_cases hx : name = x
    · have hy : name ≠ y := hx.trans_ne h.ne
      rw [Term.subst, if_pos hx, h.first, hindex, Term.subst, if_neg hy, Term.subst, if_pos hx]
    · by_cases hy : name = y
      · simp [Term.subst, hy, h.ne.symm, h.second, hindex]
      · simp [Term.subst, hx, hy, hindex]
  | .unary _ e | .exp e | .cast _ e => by simp only [Term.subst, subst_subst h e]
  | .arith s _ t | .logic s _ t | .compare s _ t => by
    simp only [Term.subst, subst_subst h s, subst_subst h t]
  | .select u s t => by simp only [Term.subst, subst_subst h u, subst_subst h s, subst_subst h t]

theorem substAll_substAll (h : Crossing x y a b c) : ∀ ts : List Term,
    Term.substAll y b (Term.substAll x a ts) = Term.substAll x c (Term.substAll y b ts)
  | [] => rfl
  | t::ts => by simp only [Term.substAll, subst_subst h t, substAll_substAll h ts]

end

mutual

theorem instr_subst_subst (h : Crossing x y a b c) :
    ∀ i : Instr, (i.subst x a).subst y b = (i.subst y b).subst x c
  | .assign target value => by simp only [subst, subst_subst h]
  | .branch u yes no => by
    simp only [subst, subst_subst h, instr_substAll_substAll h yes, instr_substAll_substAll h no]
  | .count _ _ u body | .repeatWhile u body => by
    simp only [subst, subst_subst h, instr_substAll_substAll h body]
  | .call _ args => by
    simp only [subst, substArgs_eq_map h.plain.1, substArgs_eq_map h.plain.2.1,
      substArgs_eq_map h.plain.2.2, ← substAll_eq_map, substAll_substAll h]
  | .clear e _ | .output e | .outputScaled e _ => by simp only [subst, subst_subst h]
  | .comment _ => rfl
  | .block body => by simp only [subst, instr_substAll_substAll h body]

theorem instr_substAll_substAll (h : Crossing x y a b c) : ∀ code : List Instr,
    substAll y b (substAll x a code) = substAll x c (substAll y b code)
  | [] => rfl
  | i::code => by simp only [substAll, instr_subst_subst h i, instr_substAll_substAll h code]

end

end Order

/-- The order of two replacements by variables does not matter, if the later one is carried out in
the earlier one too and does not mention what that replaces. In a fragment that does not mention a
name nothing is replaced. -/
theorem replacements_commute {x y a b : String} {ai bi : List Term} {af bf : Bool} (hxy : x ≠ y)
    (hb : (Term.var b bi bf).mentions x = false) (f : Fragment) :
    (∃ c f₁ f₂ g, (Fragment.term (.var a ai af)).replace y (.var b bi bf) = .ok (.term c) ∧
      f.replace x (.var a ai af) = .ok f₁ ∧ f₁.replace y (.var b bi bf) = .ok g ∧
      f.replace y (.var b bi bf) = .ok f₂ ∧ f₂.replace x c = .ok g) ∧
    (f.mentions x = false → f.replace x (.var a ai af) = .ok f) := by
  obtain ⟨c,ci,cf,hc⟩ := subst_var (r := .var b bi bf) rfl y a ai af
  have h := Crossing.of_vars hxy hb hc
  have hinner : (Fragment.term (.var a ai af)).replace y (.var b bi bf) =
      .ok (.term (.var c ci cf)) := by
    rw [← hc]
    rfl
  cases f with
  | term t =>
    refine ⟨⟨_,_,_,_,hinner,rfl,rfl,rfl,?_⟩,fun ht => ?_⟩
    · simp only [Fragment.replace, Term.replacement?, subst_subst h]
    · have hsame := @subst_unchanged x (.var a ai af) t fun hm => by cases ht.symm.trans hm
      simp only [Fragment.replace, Term.replacement?, hsame]
  | instr i =>
    refine ⟨⟨_,_,_,_,hinner,rfl,rfl,rfl,?_⟩,fun hi => ?_⟩
    · simp only [Fragment.replace, Term.replacement?, instr_subst_subst h]
    · have hsame := @instr_subst_unchanged x (.var a ai af) rfl i
        fun hm => by cases hi.symm.trans hm
      simp only [Fragment.replace, Term.replacement?, hsame]

/-- In `f(x[y], z)` the variable `x` is replaced by `y[i]` and `y` by `w[1]`. -/
theorem replacements_commute_call :
    let f : Fragment := .instr (.call "f" [.var "x" [plain "y"] true, plain "z"])
    "x" ≠ "y" ∧ (Term.var "w" [one] true).mentions "x" = false ∧ ∃ c f₁ f₂ g,
      (Fragment.term (.var "y" [plain "i"] true)).replace "y" (.var "w" [one] true) =
        .ok (.term c) ∧
      f.replace "x" (.var "y" [plain "i"] true) = .ok f₁ ∧
        f₁.replace "y" (.var "w" [one] true) = .ok g ∧
      f.replace "y" (.var "w" [one] true) = .ok f₂ ∧ f₂.replace "x" c = .ok g :=
  ⟨by decide,by decide,(replacements_commute (by decide) (by decide) _).1⟩

end MicroLearn.Code
