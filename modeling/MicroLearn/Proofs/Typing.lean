import MicroLearn.Lower.Compile
import MicroLearn.Proofs.Confined

/-!
# Typed programs

What the notes of a program that has been typed say of one another, and the names it binds.
-/

set_option autoImplicit false

namespace MicroLearn.Lang

open Code (bind_ok demand_ok)
open Expr

variable {t a b : Ty} {Γ : Scope} {op : Token} {stride : Int}

mutual

def Expr.binders {α : Type} : Expr α → List String
  | .int _ _ | .real _ _ | .name _ _ | .decl _ _ _ _ => []
  | .transpose _ e | .reshape _ e _ _ | .maxpool _ e _ | .unary _ _ e | .apply _ _ e => e.binders
  | .index _ a b | .product _ _ a b | .additive _ _ a b => a.binders++b.binders
  | .call _ _ args => bindersAll args
  | .sum _ v _ _ e => v::e.binders
  | .cond _ e t f => e.binders++(t.binders++f.binders)
  | .bind _ v d e => d.binders++v::e.binders

def Expr.bindersAll {α : Type} : List (Expr α) → List String
  | [] => []
  | e::es => e.binders++bindersAll es

end

mutual

def Expr.models {α : Type} : Expr α → List String
  | .int _ _ | .real _ _ | .name _ _ | .decl _ _ _ _ => []
  | .transpose _ e | .reshape _ e _ _ | .maxpool _ e _ | .unary _ _ e | .apply _ _ e
  | .sum _ _ _ _ e => e.models
  | .index _ a b | .product _ _ a b | .additive _ _ a b => a.models++b.models
  | .call _ _ args => modelsAll args
  | .cond _ e t f => e.models++(t.models++f.models)
  | .bind _ v d e => d.models++((if d.isDecl then [v] else [])++e.models)

def Expr.modelsAll {α : Type} : List (Expr α) → List String
  | [] => []
  | e::es => e.models++modelsAll es

end

mutual

def Expr.locals {α : Type} : Expr α → List String
  | .int _ _ | .real _ _ | .name _ _ | .decl _ _ _ _ => []
  | .transpose _ e | .reshape _ e _ _ | .maxpool _ e _ | .unary _ _ e | .apply _ _ e => e.locals
  | .index _ a b | .product _ _ a b | .additive _ _ a b => a.locals++b.locals
  | .call _ _ args => localsAll args
  | .sum _ v _ _ e => v::e.locals
  | .cond _ e t f => e.locals++(t.locals++f.locals)
  | .bind _ v d e => d.locals++((if d.isDecl then [] else [v])++e.locals)

def Expr.localsAll {α : Type} : List (Expr α) → List String
  | [] => []
  | e::es => e.locals++localsAll es

end

inductive Typed : Scope → Expr Ty → Prop
  | int {Γ : Scope} {v : Int} : Typed Γ (.int .int v)
  | real {Γ : Scope} {v : Float} : Typed Γ (.real (.tensor []) v)
  | name {Γ : Scope} {id : String} {t : Ty} (found : Γ.lookup id = some t) : Typed Γ (.name t id)
  | decl {Γ : Scope} {shape : List Int} {low high : Float} :
      Typed Γ (.decl (.tensor shape) shape low high)
  | transpose {Γ : Scope} {e : Expr Ty} {shape : List Int} (he : Typed Γ e)
      (tensor : e.note ≠ .int) : Typed Γ (.transpose (.tensor shape) e)
  | reshape {Γ : Scope} {e : Expr Ty} {shape order : List Int} (he : Typed Γ e)
      (tensor : e.note ≠ .int) : Typed Γ (.reshape (.tensor shape) e shape order)
  | maxpool {Γ : Scope} {e : Expr Ty} {t : Ty} {stride : Int} (he : Typed Γ e)
      (type : maxpoolTy e.note stride = .ok t) : Typed Γ (.maxpool t e stride)
  | index {Γ : Scope} {e i : Expr Ty} {s : List Int} (he : Typed Γ e) (hi : Typed Γ i)
      (shape : e.note = .tensor s) : Typed Γ (.index (.tensor s.tail) e i)
  | call {Γ : Scope} {t : Ty} {f : String} {args : List (Expr Ty)} (h : ∀ e ∈ args, Typed Γ e)
      (ints : ∀ e ∈ args, e.note = .int → t = .int) : Typed Γ (.call t f args)
  | unary {Γ : Scope} {op : Token} {e : Expr Ty} (he : Typed Γ e) : Typed Γ (.unary e.note op e)
  | product {Γ : Scope} {op : Token} {a b : Expr Ty} {t : Ty} (ha : Typed Γ a) (hb : Typed Γ b)
      (type : productOpTy op a.note b.note = .ok t) : Typed Γ (.product t op a b)
  | additive {Γ : Scope} {op : Token} {a b : Expr Ty} {t : Ty} (ha : Typed Γ a) (hb : Typed Γ b)
      (type : additiveTy a.note b.note = .ok t) : Typed Γ (.additive t op a b)
  | apply {Γ : Scope} {op : Token} {e : Expr Ty} {t : Ty} (he : Typed Γ e)
      (type : applyTy op e.note = .ok t) : Typed Γ (.apply t op e)
  | sum {Γ : Scope} {v : String} {first last : Int} {e : Expr Ty} {s : List Int}
      (he : Typed ((v,.int)::Γ) e) (shape : e.note = .tensor s) :
      Typed Γ (.sum (.tensor s) v first last e)
  | cond {Γ : Scope} {e t f : Expr Ty} {type : Ty} (he : Typed Γ e) (ht : Typed Γ t)
      (hf : Typed Γ f) (types : condTy e.note t.note f.note = .ok type) :
      Typed Γ (.cond type e t f)
  | bind {Γ : Scope} {v : String} {d e : Expr Ty} (hd : Typed Γ d)
      (he : Typed ((v,d.note)::Γ) e) : Typed Γ (.bind e.note v d e)

theorem tensorShape_ok {s : List Int} (h : t.tensorShape = .ok s) : t = .tensor s := by
  cases t with
  | tensor shape => rw [Except.ok.inj h]
  | int => cases h
  | absent => cases h

theorem find_ok {id : String} (h : Γ.find id = .ok t) : Γ.lookup id = some t := by
  unfold Scope.find at h
  split at h
  · rename_i hlookup
    rw [hlookup, Except.ok.inj h]
  · cases h

theorem joinTy_int {seen joined : Ty} (h : joinTy seen t = .ok joined) :
    (seen = .int → joined = .int) ∧ (t = .int → joined = .int) := by
  unfold joinTy at h
  split at h
  · cases h
    exact ⟨nofun,id⟩
  · cases h
    exact ⟨id,id⟩
  · exact ⟨nofun,nofun⟩
  · cases h

/-- Typing notes types and leaves the names as they are. -/
structure SameNames {α : Type} (p : Expr α) (e : Expr Ty) : Prop where
  decl : e.isDecl = p.isDecl
  binders : e.binders = p.binders
  models : e.models = p.models
  locals : e.locals = p.locals

structure SameNamesAll {α : Type} (ps : List (Expr α)) (es : List (Expr Ty)) : Prop where
  binders : bindersAll es = bindersAll ps
  models : modelsAll es = modelsAll ps
  locals : localsAll es = localsAll ps

mutual

theorem infer_typed {α : Type} : ∀ (e0 : Expr α) (Γ : Scope) (e : Expr Ty),
    e0.infer Γ = .ok e → Typed Γ e ∧ SameNames e0 e
  | .int _ v, Γ, e, h => by
    cases h
    exact ⟨.int,rfl,rfl,rfl,rfl⟩
  | .real _ v, Γ, e, h => by
    cases h
    exact ⟨.real,rfl,rfl,rfl,rfl⟩
  | .name _ id, Γ, e, h => by
    obtain ⟨t,ht,h⟩ := bind_ok h
    cases h
    exact ⟨.name (find_ok ht),rfl,rfl,rfl,rfl⟩
  | .decl _ shape low high, Γ, e, h => by
    cases h
    exact ⟨.decl,rfl,rfl,rfl,rfl⟩
  | .transpose _ a, Γ, e, h => by
    obtain ⟨a',ha,h⟩ := bind_ok h
    obtain ⟨ih,-,hb,hm,hl⟩ := infer_typed a Γ a' ha
    split at h
    · rename_i hnote
      cases h
      exact ⟨.transpose ih (by simp [hnote]),rfl,hb,hm,hl⟩
    · cases h
  | .reshape _ a shape order, Γ, e, h => by
    obtain ⟨a',ha,h⟩ := bind_ok h
    obtain ⟨ih,-,hb,hm,hl⟩ := infer_typed a Γ a' ha
    obtain ⟨s,hs,h⟩ := bind_ok h
    obtain ⟨-,-,h⟩ := bind_ok h
    obtain ⟨-,-,h⟩ := bind_ok h
    cases h
    have hint : a'.note ≠ .int := by
      intro hint
      rw [hint] at hs
      cases hs
    exact ⟨.reshape ih hint,rfl,hb,hm,hl⟩
  | .maxpool _ a stride, Γ, e, h => by
    obtain ⟨a',ha,h⟩ := bind_ok h
    obtain ⟨ih,-,hb,hm,hl⟩ := infer_typed a Γ a' ha
    obtain ⟨t,ht,h⟩ := bind_ok h
    cases h
    exact ⟨.maxpool ih ht,rfl,hb,hm,hl⟩
  | .index _ a i, Γ, e, h => by
    obtain ⟨a',ha,h⟩ := bind_ok h
    obtain ⟨iha,hna⟩ := infer_typed a Γ a' ha
    obtain ⟨s,hs,h⟩ := bind_ok h
    obtain ⟨-,-,h⟩ := bind_ok h
    obtain ⟨i',hi,h⟩ := bind_ok h
    obtain ⟨ihi,hni⟩ := infer_typed i Γ i' hi
    obtain ⟨-,-,h⟩ := bind_ok h
    cases h
    exact ⟨.index iha ihi (tensorShape_ok hs),rfl,congrArg₂ _ hna.binders hni.binders,
      congrArg₂ _ hna.models hni.models,congrArg₂ _ hna.locals hni.locals⟩
  | .call _ f args, Γ, e, h => by
    obtain ⟨⟨t,args'⟩,hargs,h⟩ := bind_ok h
    cases h
    obtain ⟨iht,-,hints,hb,hm,hl⟩ := inferArgs_typed args Γ .absent t args' hargs
    exact ⟨.call iht hints,rfl,hb,hm,hl⟩
  | .unary _ op a, Γ, e, h => by
    obtain ⟨a',ha,h⟩ := bind_ok h
    obtain ⟨ih,-,hb,hm,hl⟩ := infer_typed a Γ a' ha
    cases h
    exact ⟨.unary ih,rfl,hb,hm,hl⟩
  | .product _ op a b, Γ, e, h => by
    obtain ⟨a',ha,h⟩ := bind_ok h
    obtain ⟨b',hb,h⟩ := bind_ok h
    obtain ⟨t,ht,h⟩ := bind_ok h
    obtain ⟨iha,hna⟩ := infer_typed a Γ a' ha
    obtain ⟨ihb,hnb⟩ := infer_typed b Γ b' hb
    cases h
    exact ⟨.product iha ihb ht,rfl,congrArg₂ _ hna.binders hnb.binders,
      congrArg₂ _ hna.models hnb.models,congrArg₂ _ hna.locals hnb.locals⟩
  | .additive _ op a b, Γ, e, h => by
    obtain ⟨a',ha,h⟩ := bind_ok h
    obtain ⟨b',hb,h⟩ := bind_ok h
    obtain ⟨t,ht,h⟩ := bind_ok h
    obtain ⟨iha,hna⟩ := infer_typed a Γ a' ha
    obtain ⟨ihb,hnb⟩ := infer_typed b Γ b' hb
    cases h
    exact ⟨.additive iha ihb ht,rfl,congrArg₂ _ hna.binders hnb.binders,
      congrArg₂ _ hna.models hnb.models,congrArg₂ _ hna.locals hnb.locals⟩
  | .apply _ op a, Γ, e, h => by
    obtain ⟨a',ha,h⟩ := bind_ok h
    obtain ⟨ih,-,hb,hm,hl⟩ := infer_typed a Γ a' ha
    obtain ⟨t,ht,h⟩ := bind_ok h
    cases h
    exact ⟨.apply ih ht,rfl,hb,hm,hl⟩
  | .sum _ v first last a, Γ, e, h => by
    obtain ⟨a',ha,h⟩ := bind_ok h
    obtain ⟨ih,-,hb,hm,hl⟩ := infer_typed a _ a' ha
    obtain ⟨s,hs,h⟩ := bind_ok h
    cases h
    exact ⟨.sum ih (tensorShape_ok hs),rfl,congrArg _ hb,hm,congrArg _ hl⟩
  | .cond _ a t f, Γ, e, h => by
    obtain ⟨a',ha,h⟩ := bind_ok h
    obtain ⟨t',ht,h⟩ := bind_ok h
    obtain ⟨f',hf,h⟩ := bind_ok h
    obtain ⟨type,htype,h⟩ := bind_ok h
    obtain ⟨iha,hna⟩ := infer_typed a Γ a' ha
    obtain ⟨iht,hnt⟩ := infer_typed t Γ t' ht
    obtain ⟨ihf,hnf⟩ := infer_typed f Γ f' hf
    cases h
    exact ⟨.cond iha iht ihf htype,rfl,by simp [binders, hna.binders, hnt.binders, hnf.binders],
      by simp [models, hna.models, hnt.models, hnf.models],
      by simp [locals, hna.locals, hnt.locals, hnf.locals]⟩
  | .bind _ v d a, Γ, e, h => by
    obtain ⟨d',hd,h⟩ := bind_ok h
    obtain ⟨a',ha,h⟩ := bind_ok h
    obtain ⟨ihd,hnd⟩ := infer_typed d Γ d' hd
    obtain ⟨iha,hna⟩ := infer_typed a _ a' ha
    cases h
    exact ⟨.bind ihd iha,rfl,by simp [binders, hnd.binders, hna.binders],
      by simp [models, hnd.decl, hnd.models, hna.models],
      by simp [locals, hnd.decl, hnd.locals, hna.locals]⟩

theorem inferArgs_typed {α : Type} : ∀ (es0 : List (Expr α)) (Γ : Scope) (seen t : Ty)
    (es : List (Expr Ty)), Expr.inferArgs Γ seen es0 = .ok (t,es) →
      (∀ e ∈ es, Typed Γ e) ∧ (seen = .int → t = .int) ∧ (∀ e ∈ es, e.note = .int → t = .int) ∧
        SameNamesAll es0 es
  | [], Γ, seen, t, es, h => by
    cases h
    exact ⟨nofun,id,nofun,rfl,rfl,rfl⟩
  | e0::es0, Γ, seen, t, es, h => by
    obtain ⟨e,he,h⟩ := bind_ok h
    obtain ⟨joined,hj,h⟩ := bind_ok h
    obtain ⟨⟨t',es'⟩,hes,h⟩ := bind_ok h
    obtain ⟨ih,hn⟩ := infer_typed e0 Γ e he
    obtain ⟨ihs,hseen,hints,hns⟩ := inferArgs_typed es0 Γ joined t' es' hes
    cases h
    obtain ⟨hleft,hright⟩ := joinTy_int hj
    refine ⟨?_,fun hs => hseen (hleft hs),?_,congrArg₂ _ hn.binders hns.binders,
      congrArg₂ _ hn.models hns.models,congrArg₂ _ hn.locals hns.locals⟩
    · simpa using ⟨ih,ihs⟩
    · simpa using ⟨fun hn => hseen (hright hn),hints⟩

end

theorem additiveTy_ok (h : additiveTy a b = .ok t) : t = a ∧ t = b := by
  unfold additiveTy at h
  split at h
  · exact ⟨(Except.ok.inj h).symm,(Except.ok.inj h).symm⟩
  · obtain ⟨_,hsame,h⟩ := bind_ok h
    cases h
    obtain rfl := eq_of_beq (demand_ok hsame)
    exact ⟨rfl,rfl⟩
  · cases h

theorem biasTy_ok (h : biasTy a b = .ok t) : t = a := by
  unfold biasTy at h
  split at h
  · obtain ⟨_,-,h⟩ := bind_ok h
    exact (Except.ok.inj h).symm
  · cases h

theorem condTy_ok {c : Ty} (h : condTy a b c = .ok t) : t = b ∧ t = c := by
  have hbranches : condTy .int b c = .ok t → t = b ∧ t = c := by
    intro h
    cases b with
    | int =>
      cases c with
      | int => exact ⟨(Except.ok.inj h).symm,(Except.ok.inj h).symm⟩
      | _ => cases h
    | tensor s =>
      cases c with
      | tensor s' =>
        obtain ⟨_,hsame,h⟩ := bind_ok h
        cases h
        obtain rfl := eq_of_beq (demand_ok hsame)
        exact ⟨rfl,rfl⟩
      | _ => cases h
    | absent => cases h
  cases a with
  | int => exact hbranches h
  | tensor s =>
    obtain ⟨_,-,h⟩ := bind_ok h
    exact hbranches h
  | absent => cases h

theorem applyTy_tensor (h : applyTy op a = .ok t) : a ≠ .int := by
  rintro rfl
  cases op <;> cases h

theorem applyTy_ok (h : applyTy op a = .ok t) :
    (t = a ∧ (op = .relu ∨ op = .exp ∨ op = .tanh)) ∨ (t = .int ∧ (op = .argmax ∨ op = .sgn)) := by
  unfold applyTy at h
  split at h
  case h_6 => cases h
  all_goals
    obtain ⟨_,-,h⟩ := bind_ok h
    obtain ⟨_,-,h⟩ := bind_ok h
    cases h
    simp

theorem maxpoolTy_ne_absent (h : maxpoolTy a stride = .ok t) : t ≠ .absent := by
  rintro rfl
  unfold maxpoolTy at h
  obtain ⟨_,-,h⟩ := bind_ok h
  obtain ⟨⟨_,_,_,_⟩,-,h⟩ := bind_ok h
  dsimp only at h
  split at h
  · cases h
  · obtain ⟨_,-,h⟩ := bind_ok h
    cases h

theorem productOpTy_ne_absent (h : productOpTy op a b = .ok t) : t ≠ .absent := by
  rintro rfl
  unfold productOpTy at h
  split at h
  case h_7 => cases h
  all_goals
    simp only [productTy, biasTy, pointwiseTy, convolveTy] at h
    split at h
    all_goals first
      | (obtain ⟨_,-,h⟩ := bind_ok h; cases h)
      | cases h

theorem typed_model {d : Expr Ty} (h : Typed Γ d) (hd : d.isDecl = true) :
    ∃ shape low high, d = .decl (.tensor shape) shape low high := by
  cases h with
  | @decl _ shape low high => exact ⟨shape,low,high,rfl⟩
  | _ => cases hd

open Code (bind_ok)

mutual

/-- Tensors of the model occur only as the definition of a binding. -/
def Expr.modelsBound {α : Type} : Expr α → Bool
  | .int _ _ | .real _ _ | .name _ _ => true
  | .decl _ _ _ _ => false
  | .transpose _ e | .reshape _ e _ _ | .maxpool _ e _ | .unary _ _ e | .apply _ _ e
  | .sum _ _ _ _ e => e.modelsBound
  | .index _ a b | .product _ _ a b | .additive _ _ a b => a.modelsBound && b.modelsBound
  | .call _ _ args => Expr.modelsBoundAll args
  | .cond _ e t f => e.modelsBound && (t.modelsBound && f.modelsBound)
  | .bind _ _ d e => (d.isDecl || d.modelsBound) && e.modelsBound

def Expr.modelsBoundAll {α : Type} : List (Expr α) → Bool
  | [] => true
  | e::es => e.modelsBound && Expr.modelsBoundAll es

end

def dimensions (shape : List Int) : List Int := (List.range shape.length).map fun (k : Nat) => k+1

def orderFits (order : List Int) : Ty → Bool
  | .tensor s => order.isPerm (dimensions s)
  | _ => true

mutual

/-- The order of every reshape is a permutation of the dimensions of what is reshaped. -/
def Expr.ordersFit : Expr Ty → Bool
  | .int _ _ | .real _ _ | .name _ _ | .decl _ _ _ _ => true
  | .reshape _ e _ order => orderFits order e.note && e.ordersFit
  | .transpose _ e | .maxpool _ e _ | .unary _ _ e | .apply _ _ e | .sum _ _ _ _ e => e.ordersFit
  | .index _ a b | .product _ _ a b | .additive _ _ a b => a.ordersFit && b.ordersFit
  | .call _ _ args => Expr.ordersFitAll args
  | .cond _ e t f => e.ordersFit && (t.ordersFit && f.ordersFit)
  | .bind _ _ d e => d.ordersFit && e.ordersFit

def Expr.ordersFitAll : List (Expr Ty) → Bool
  | [] => true
  | e::es => e.ordersFit && Expr.ordersFitAll es

end

/-- The definition's name becomes a variable: it stands for a number or for a tensor of the
model. -/
def Expr.keepsName (d : Expr Ty) : Bool := d.note == .int || d.isDecl

mutual

/-- The names that are declared as variables: of sums, of integers and of tensors of the model. -/
def Expr.declared : Expr Ty → List String
  | .int _ _ | .real _ _ | .name _ _ | .decl _ _ _ _ => []
  | .transpose _ e | .reshape _ e _ _ | .maxpool _ e _ | .unary _ _ e | .apply _ _ e => e.declared
  | .index _ a b | .product _ _ a b | .additive _ _ a b => a.declared++b.declared
  | .call _ _ args => declaredAll args
  | .sum _ v _ _ e => v::e.declared
  | .cond _ e t f => e.declared++(t.declared++f.declared)
  | .bind _ v d e => d.declared++((if d.keepsName then [v] else [])++e.declared)

def Expr.declaredAll : List (Expr Ty) → List String
  | [] => []
  | e::es => e.declared++declaredAll es

end

mutual

/-- The names that substitution removes: those of computed tensors. -/
def Expr.substituted : Expr Ty → List String
  | .int _ _ | .real _ _ | .name _ _ | .decl _ _ _ _ => []
  | .transpose _ e | .reshape _ e _ _ | .maxpool _ e _ | .unary _ _ e | .apply _ _ e
  | .sum _ _ _ _ e => e.substituted
  | .index _ a b | .product _ _ a b | .additive _ _ a b => a.substituted++b.substituted
  | .call _ _ args => Expr.substitutedAll args
  | .cond _ e t f => e.substituted++(t.substituted++f.substituted)
  | .bind _ v d e => d.substituted++((if d.keepsName then [] else [v])++e.substituted)

def Expr.substitutedAll : List (Expr Ty) → List String
  | [] => []
  | e::es => e.substituted++Expr.substitutedAll es

end

theorem perm_interleave {α : Type} {a b c d p q : List α} (h : (a++c).Perm p)
    (h' : (b++d).Perm q) : ((a++b)++(c++d)).Perm (p++q) := by
  refine .trans ?_ (h.append h')
  rw [List.append_assoc, List.append_assoc]
  exact (List.perm_append_comm_assoc b c d).append_left a

mutual

theorem declared_append_substituted : ∀ e : Expr Ty, (e.declared++e.substituted).Perm e.binders
  | .int _ _ | .real _ _ | .name _ _ | .decl _ _ _ _ => .refl _
  | .transpose _ e | .reshape _ e _ _ | .maxpool _ e _ | .unary _ _ e | .apply _ _ e =>
    declared_append_substituted e
  | .index _ a b | .product _ _ a b | .additive _ _ a b =>
    perm_interleave (declared_append_substituted a) (declared_append_substituted b)
  | .call _ _ args => declared_append_substituted_all args
  | .sum _ v _ _ e => (declared_append_substituted e).cons v
  | .cond _ e t f => perm_interleave (declared_append_substituted e)
    (perm_interleave (declared_append_substituted t) (declared_append_substituted f))
  | .bind _ v d e => by
    have hv : ((if d.keepsName then [v] else [])++if d.keepsName then [] else [v]).Perm [v] := by
      split <;> exact .refl _
    exact perm_interleave (declared_append_substituted d)
      (perm_interleave hv (declared_append_substituted e))

theorem declared_append_substituted_all : ∀ es : List (Expr Ty),
    (declaredAll es++Expr.substitutedAll es).Perm (bindersAll es)
  | [] => .refl _
  | e::es =>
    perm_interleave (declared_append_substituted e) (declared_append_substituted_all es)

end

theorem mem_binders_of_declared {e : Expr Ty} {x : String} (h : x ∈ e.declared) : x ∈ e.binders :=
  (declared_append_substituted e).mem_iff.1 (List.mem_append_left _ h)

theorem mem_bindersAll_of_declaredAll {es : List (Expr Ty)} {x : String}
    (h : x ∈ declaredAll es) : x ∈ bindersAll es :=
  (declared_append_substituted_all es).mem_iff.1 (List.mem_append_left _ h)

end MicroLearn.Lang

namespace MicroLearn.Lower

open Lang (Expr Ty Typed SameNames)

theorem Job.typed_ok {job : Job} {e0 e s} (h : job.typed e0 = .ok (e,s)) :
    Typed [] e ∧ SameNames e0 e := by
  obtain ⟨_,hinfer,hsettings⟩ := Code.bind_ok h
  obtain ⟨_,-,hpure⟩ := Code.bind_ok hsettings
  cases hpure
  exact Lang.infer_typed e0 [] _ hinfer

/-- The program is read, typed and lowered, and passes the test. -/
def Job.passes (job : Job) (test : Expr Unit → Expr Ty → Bool) : Bool :=
  match job.tree.read with
  | .error _ => false
  | .ok e₀ =>
    match job.typed e₀ with
    | .error _ => false
    | .ok (e,s) => test e₀ e && (job.lowered s e).isOk

theorem Job.of_passes {job : Job} {test} (h : job.passes test = true) :
    ∃ e0 e s code result st, job.tree.read = .ok e0 ∧ job.typed e0 = .ok (e,s) ∧
      job.lowered s e = .ok ((code,result),st) ∧ test e0 e = true := by
  unfold Job.passes at h
  split at h
  · cases h
  rename_i e0 hread
  split at h
  · cases h
  rename_i e s htyped
  rw [Bool.and_eq_true] at h
  cases hlower : job.lowered s e with
  | error f => rw [hlower] at h; cases h.2
  | ok r => exact ⟨e0,e,s,r.1.1,r.1.2,r.2,hread,htyped,hlower,h.1⟩

end MicroLearn.Lower
