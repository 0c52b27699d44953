import MicroLearn.Proofs.Typing
import MicroLearn.Proofs.ClosedOperations

/-!
# Names and places

A name in scope is a variable, or is open: it stands for a tensor whose place is put in later.
`Holds` says that a term is a place of a given shape, before and after this substitution.
-/

set_option autoImplicit false

namespace MicroLearn.Lower

open Code
open Lang (Ty Token Expr Scope)
open Lowering

variable {B₁ B₂ B D : List String} {x v : String} {e : Expr Ty}

/-- The binders of a program are different from one another, from the names in `A` and `P`, which
stand for variables and for tensors that are still to be put in their place, and from the names
that lowering makes. -/
structure Fresh (A P B : List String) : Prop where
  nodup : B.Nodup
  apart : ∀ x ∈ B, x ∉ A ∧ x ∉ P
  free : ∀ x, x ∈ A ∨ x ∈ P ∨ x ∈ B → ¬ Generated x ∧ ¬ SparseName x

theorem Fresh.left {A P} (h : Fresh A P (B₁++B₂)) : Fresh A P B₁ where
  nodup := (List.nodup_append.1 h.nodup).1
  apart x hx := h.apart x (List.mem_append_left _ hx)
  free x hx := h.free x (by rw [List.mem_append]; tauto)

theorem Fresh.right {A P} (h : Fresh A P (B₁++B₂)) : Fresh A P B₂ where
  nodup := (List.nodup_append.1 h.nodup).2.1
  apart x hx := h.apart x (List.mem_append_right _ hx)
  free x hx := h.free x (by rw [List.mem_append]; tauto)

theorem Fresh.disjoint {A P} (h : Fresh A P (B₁++B₂)) (hx : x ∈ A ∨ x ∈ B₁) : x ∉ B₂ := by
  intro hmem
  rcases hx with hx | hx
  · exact (h.apart x (List.mem_append_right _ hmem)).1 hx
  · exact (List.nodup_append.1 h.nodup).2.2 x hx x hmem rfl

theorem Fresh.ne {A P} (h : Fresh A P (v::B)) (hx : x ∈ B) : x ≠ v := by
  rintro rfl
  exact (List.nodup_cons.1 h.nodup).1 hx

theorem Fresh.declare {A P} (h : Fresh A P (v::B)) : Fresh (v::A) P B where
  nodup := h.nodup.of_cons
  apart x hx := (h.apart x (List.mem_cons_of_mem _ hx)).imp_left fun hA => by simp [h.ne hx, hA]
  free x hx := h.free x (by simp only [List.mem_cons] at hx ⊢; tauto)

theorem Fresh.suspend {A P} (h : Fresh A P (v::B)) : Fresh A (v::P) B where
  nodup := h.nodup.of_cons
  apart x hx := (h.apart x (List.mem_cons_of_mem _ hx)).imp_right fun hP => by simp [h.ne hx, hP]
  free x hx := h.free x (by simp only [List.mem_cons] at hx ⊢; tauto)

/-- The names that may occur: those that are known, and those still to be replaced. -/
def Open (P : List String) (b : Book) (x : String) : Prop := Defined b x ∨ x ∈ P

theorem Open.extend {P b b'} (h : Extends B b b') (hx : Open P b x) : Open P b' x :=
  hx.imp_left (h.defined x)

/-- The variable is declared with this type, and this will not change. -/
def Settled (A : List String) (b : Book) (x : String) (t : Ty) : Prop :=
  b.types.lookup x = some t ∧ ((∃ n < b.nextVar, x = variableName n) ∨ x ∈ A)

/-- Declaring the names in `D` does not touch those in `A`. -/
structure Spares (D A : List String) : Prop where
  kept : ∀ x ∈ A, x ∉ D ∧ ¬ Generated x ∧ ¬ SparseName x
  added : ∀ x ∈ D, ¬ Generated x

theorem Settled.extend {A b b' t}
    (h : Settled A b x t) (hext : Extends D b b') (hspares : Spares D A) : Settled A b' x t := by
  obtain ⟨hlookup, ⟨n,hn,rfl⟩ | hx⟩ := h
  · refine ⟨?_,.inl ⟨n,hn.trans_le hext.vars,rfl⟩⟩
    rw [hext.kept _ (fun hmem => hspares.added _ hmem ⟨n,.inl rfl⟩), hlookup]
    · exact fun hsparse => sparseName_ne_variableName hsparse n rfl
    · intro k hk _ heq
      have := variableName_inj heq
      omega
  · obtain ⟨hxD,hgen,hsparse⟩ := hspares.kept x hx
    refine ⟨?_,.inr hx⟩
    rw [hext.kept x hxD hsparse, hlookup]
    intro k _ _ heq
    exact hgen ⟨k,.inl heq⟩

theorem Settled.mono {A A' b t} (h : Settled A b x t)
    (hA : ∀ y ∈ A, y ∈ A') : Settled A' b x t := ⟨h.1,h.2.imp_right (hA x)⟩

def Scoped (Γ : Scope) (A P : List String) (b : Book) : Prop :=
  ∀ x t, Γ.lookup x = some t → (x ∈ P ∧ ∃ shape, t = .tensor shape) ∨
    (Settled A b x t ∧ t ≠ .absent)

theorem Scoped.extend {Γ A P b b'} (h : Scoped Γ A P b)
    (hext : Extends D b b') (hspares : Spares D A) : Scoped Γ A P b' := by
  intro x t hx
  rcases h x t hx with hx | ⟨hx,ht⟩
  · exact .inl hx
  · exact .inr ⟨hx.extend hext hspares,ht⟩

/-- The term is a place in a variable, and what is left of the variable's shape behind its indices
is the given shape. -/
def Holds (Γ : Scope) (A P : List String) (b : Book) (t : Term) (shape : List Int) : Prop :=
  ∃ x index inFlash dims, t = .var x index inFlash ∧ dims.drop index.length = shape ∧
    ((x ∈ P ∧ Γ.lookup x = some (.tensor dims)) ∨ Settled A b x (.tensor dims))

section Holds

variable {Γ : Scope} {A A' P : List String} {b b' : Book} {t : Term} {shape : List Int}

variable (h : Holds Γ A P b t shape)

include h

theorem Holds.extend {D} (hext : Extends D b b') (hspares : Spares D A) :
    Holds Γ A P b' t shape := by
  obtain ⟨x,index,inFlash,dims,ht,hshape,hx⟩ := h
  exact ⟨x,index,inFlash,dims,ht,hshape,hx.imp_right fun h => h.extend hext hspares⟩

theorem Holds.mono (hA : ∀ y ∈ A, y ∈ A') : Holds Γ A' P b t shape := by
  obtain ⟨x,index,inFlash,dims,ht,hshape,hx⟩ := h
  exact ⟨x,index,inFlash,dims,ht,hshape,hx.imp_right fun h => h.mono hA⟩

theorem Holds.inMemory : Holds Γ A P b t.inMemory shape := by
  obtain ⟨x,index,inFlash,dims,rfl,hshape,hx⟩ := h
  exact ⟨x,index,false,dims,rfl,hshape,hx⟩

theorem Holds.index (i : Term) : Holds Γ A P b (t.at [i]) shape.tail := by
  obtain ⟨x,index,inFlash,dims,rfl,rfl,hx⟩ := h
  refine ⟨x,index++[i],inFlash,dims,rfl,?_,hx⟩
  rw [List.length_append, List.length_singleton, ← List.drop_drop, List.drop_one]

omit h

theorem Holds.of_variable {n} (hn : n < b.nextVar)
    (h : b.types.lookup (variableName n) = some (.tensor shape)) :
    Holds Γ A P b (plain (variableName n)) shape :=
  ⟨_,[],false,shape,rfl,rfl,.inr ⟨h,.inl ⟨n,hn,rfl⟩⟩⟩

theorem length_substAll (x : String) (r : Replacement) (ts : List Term) :
    (Term.substAll x r ts).length = ts.length := by
  rw [substAll_eq_map, List.length_map]

theorem Holds.subst {v value dims r}
    (h : Holds ((v,.tensor dims)::Γ) A (v::P) b t shape) (hv : Holds Γ A P b value dims)
    (hr : value.replacement? = some r) (hA : v ∉ A) (hgen : ¬ Generated v) :
    Holds Γ A P b (t.subst v r) shape := by
  obtain ⟨y,own,flash,whole,rfl,rfl,hy⟩ := hv
  obtain rfl := Option.some.inj hr
  obtain ⟨x,index,inFlash,dims',rfl,hshape,hx⟩ := h
  rw [Term.subst]
  by_cases hxv : x = v
  · subst hxv
    have hdims : dims' = whole.drop own.length := by
      rcases hx with ⟨-,hlookup⟩ | ⟨-, ⟨n,-,hn⟩ | hmem⟩
      · simpa using hlookup.symm
      · exact absurd ⟨n,.inl hn⟩ hgen
      · exact absurd hmem hA
    rw [if_pos rfl]
    refine ⟨y,_,_,whole,rfl,?_,hy⟩
    rw [List.length_append, length_substAll, ← List.drop_drop, ← hdims, hshape]
  · rw [if_neg hxv]
    refine ⟨x,_,inFlash,dims',rfl,by rwa [length_substAll],hx.imp_left fun hpending => ?_⟩
    obtain ⟨hmem,hlookup⟩ := hpending
    rw [List.lookup_cons, beq_eq_false_iff_ne.2 hxv] at hlookup
    exact ⟨(List.mem_cons.1 hmem).resolve_left hxv,hlookup⟩

theorem Holds.leave {v type} (h : Holds ((v,type)::Γ) A P b t shape)
    (hv : v ∉ P) : Holds Γ A P b t shape := by
  obtain ⟨x,index,inFlash,dims,rfl,hshape,hx⟩ := h
  refine ⟨x,index,inFlash,dims,rfl,hshape,hx.imp_left fun ⟨hmem,hlookup⟩ => ⟨hmem,?_⟩⟩
  have hxv : x ≠ v := by
    rintro rfl
    exact hv hmem
  rwa [List.lookup_cons, beq_eq_false_iff_ne.2 hxv] at hlookup

end Holds

/-- The value of an expression of this type: a tensor lies in a place of its shape. -/
def Valued (Γ : Scope) (A P : List String) (b : Book) (type : Ty) (t : Term) : Prop :=
  type = .int ∨ ∃ shape, type = .tensor shape ∧ Holds Γ A P b t shape

section Valued

variable {Γ : Scope} {A A' P : List String} {b b' : Book} {t : Term} {type : Ty}

variable (h : Valued Γ A P b type t)

include h

theorem Valued.holds {shape} (htype : type = .tensor shape) : Holds Γ A P b t shape := by
  rcases h with h | ⟨s,hs,hholds⟩
  · rw [h] at htype
    cases htype
  · rw [htype] at hs
    cases hs
    exact hholds

theorem Valued.imp {Γ' P' t'}
    (hholds : ∀ shape, Holds Γ A P b t shape → Holds Γ' A' P' b' t' shape) :
    Valued Γ' A' P' b' type t' :=
  h.imp_right fun ⟨shape,htype,h⟩ => ⟨shape,htype,hholds shape h⟩

theorem Valued.extend {D} (hext : Extends D b b')
    (hspares : Spares D A) : Valued Γ A P b' type t := h.imp fun _ h => h.extend hext hspares

theorem Valued.mono (hA : ∀ y ∈ A, y ∈ A') : Valued Γ A' P b type t :=
  h.imp fun _ h => h.mono hA

theorem Valued.not_absent : type ≠ .absent := by
  rcases h with rfl | ⟨s,rfl,-⟩
  · exact nofun
  · exact nofun

end Valued

theorem Fresh.spares_before {A P D'} (h : Fresh A P (B₁++B₂)) (hD : ∀ x ∈ D, x ∈ B₁)
    (hD' : ∀ x ∈ D', x ∈ B₂) : Spares D' (A++D) where
  kept x hx := by
    have hx' : x ∈ A ∨ x ∈ B₁ := (List.mem_append.1 hx).imp_right (hD x)
    refine ⟨fun hmem => h.disjoint hx' (hD' x hmem),h.free x ?_⟩
    rw [List.mem_append]
    tauto
  added x hx := (h.right.free x (.inr (.inr (hD' x hx)))).1

theorem Fresh.spares {A P} (h : Fresh A P e.binders) : Spares e.declared A := by
  have h' : Fresh A P ([]++e.binders) := h
  simpa using h'.spares_before (D := []) nofun fun _ => Lang.mem_binders_of_declared

section Declaring

variable {Γ : Scope} {A P : List String} {b : Book} {types : List (String × Ty)}
  {tables : List (Int × ExpTable)} {n : Nat}
variable {v : String} {B : List String}

theorem extends_declare (v : String) (t : Ty) :
    Extends [v] ⟨types,tables,n⟩ ⟨put v t types,tables,n⟩ where
  vars := Nat.le_refl n
  defined x hx := by
    refine hx.imp_left fun ⟨u,hu⟩ => ?_
    rw [lookup_put]
    split
    · exact ⟨t,rfl⟩
    · exact ⟨u,hu⟩
  kept x hx _ _ := by
    rw [lookup_put, beq_eq_false_iff_ne.2 (by simpa using hx)]
    rfl

theorem Extends.declare {D t b'}
    (h : Extends D ⟨put v t types,tables,n⟩ b') : Extends (v::D) ⟨types,tables,n⟩ b' :=
  (extends_declare v t).trans h (by simp)

theorem Fresh.spares_first (h : Fresh A P (v::B)) : Spares [v] A where
  kept x hx := by
    refine ⟨fun hmem => ?_,h.free x (.inl hx)⟩
    rw [List.mem_singleton.1 hmem] at hx
    exact (h.apart v (by simp)).1 hx
  added x hx := by
    rw [List.mem_singleton.1 hx]
    exact (h.free v (by simp)).1

theorem Scoped.declare {t} (h : Scoped Γ A P ⟨types,tables,n⟩)
    (hfresh : Fresh A P (v::B)) (ht : t ≠ .absent) :
    Scoped ((v,t)::Γ) (v::A) P ⟨put v t types,tables,n⟩ := by
  intro x u hx
  by_cases hxv : x = v
  · subst hxv
    obtain rfl : t = u := by simpa using hx
    exact .inr ⟨⟨by simp [lookup_put],.inr (by simp)⟩,ht⟩
  · rw [List.lookup_cons, beq_eq_false_iff_ne.2 hxv] at hx
    refine (h.extend (extends_declare v t) hfresh.spares_first x u hx).imp_right fun hx => ?_
    exact ⟨hx.1.mono fun y => List.mem_cons_of_mem v,hx.2⟩

theorem Scoped.suspend {shape} (h : Scoped Γ A P b) : Scoped ((v,.tensor shape)::Γ) A (v::P) b := by
  intro x u hx
  by_cases hxv : x = v
  · subst hxv
    exact .inl ⟨by simp,shape,by simpa using hx.symm⟩
  · rw [List.lookup_cons, beq_eq_false_iff_ne.2 hxv] at hx
    exact (h x u hx).imp_left fun hx => ⟨List.mem_cons_of_mem v hx.1,hx.2⟩

end Declaring

end MicroLearn.Lower
