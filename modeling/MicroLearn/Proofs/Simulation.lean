import MicroLearn.Proofs.Operations

/-!
# Whole programs, in the scan and in the run

The marked code of a typed program runs to its end from every memory, and at every point the
scan of the program agrees with the watch over the run.
-/

set_option autoImplicit false

namespace MicroLearn.Lower

open Code
open Lang (Ty Expr Token Scope Typed)
open Lowering
open Marked

/-- What the names in scope stand for, once `θ` has replaced those that are bound to tensors. -/
structure InScope (Γ : Scope) (θ : Renaming) (F : String → Prop) (s : Scan) (w : Watch) : Prop where
  plain : θ.Plain
  names : ∀ x ∈ θ.names, ¬ Generated x ∧ ¬ F x
  known : ∀ id t, Γ.lookup id = some t → ¬ Generated id ∧ ¬ F id
  ints : ∀ id, Γ.lookup id = some .int → id ∉ θ.names ∧ s.table id = none
  tensors : ∀ id t, Γ.lookup id = some t → t ≠ .int →
    (∃ b, s.table id = some b) ∧ w.place id = some ((Code.plain id).resolve θ)

section Scope

variable {Γ : Scope} {θ : Renaming} {F F' : String → Prop} {s s' : Scan} {w w' : Watch}
variable {v : String} {t : Ty}

theorem InScope.kept {N} (h : InScope Γ θ F s w) (hN : ∀ x ∈ N, F x)
    (hF : ∀ x, F' x → F x) (hk : Kept N s w s' w') : InScope Γ θ F' s' w' where
  plain := h.plain
  names x hx := ⟨(h.names x hx).1,fun hx' => (h.names x hx).2 (hF x hx')⟩
  known id t hid := ⟨(h.known id t hid).1,fun hx => (h.known id t hid).2 (hF id hx)⟩
  ints id hid := by
    obtain ⟨hθ,hnone⟩ := h.ints id hid
    exact ⟨hθ,hk.to_none (fun hmem => (h.known id _ hid).2 (hN id hmem)) hnone⟩
  tensors id t hid ht := by
    obtain ⟨⟨b,hb⟩,hplace⟩ := h.tensors id t hid ht
    have hmem : id ∉ N := fun hmem => (h.known id t hid).2 (hN id hmem)
    obtain ⟨b',hb',-,-⟩ := hk.to_table hmem hb
    exact ⟨⟨b',hb'⟩,by rw [hk.place id b hmem hb, hplace]⟩

theorem lookup_cons_self : List.lookup v ((v,t)::Γ) = some t := by
  simp

theorem lookup_cons_of_ne {id} (h : id ≠ v) : List.lookup id ((v,t)::Γ) = Γ.lookup id := by
  rw [List.lookup_cons, beq_false_of_ne h]

/-- The name `v` becomes bound: it is among the names `F` that are still to come, and no longer
among the names `F'`. -/
structure Binder (F F' : String → Prop) (v : String) : Prop where
  before : F v
  after : ¬ F' v
  name : ¬ Generated v
  sub : ∀ u, F' u → F u

variable (h : InScope Γ θ F s w) (hv : Binder F F' v)

include h hv

theorem InScope.narrow {x} (hx : x ∈ θ.names) : ¬ Generated x ∧ ¬ F' x :=
  (h.names x hx).imp_right fun hF hx' => hF (hv.sub x hx')

theorem InScope.known_cons (id : String) (t' : Ty)
    (hid : List.lookup id ((v,t)::Γ) = some t') : ¬ Generated id ∧ ¬ F' id := by
  by_cases heq : id = v
  · subst heq
    exact ⟨hv.name,hv.after⟩
  · rw [lookup_cons_of_ne heq] at hid
    exact (h.known id t' hid).imp_right fun hF hid' => hF (hv.sub id hid')

theorem InScope.int (hnone : s.table v = none) : InScope ((v,.int)::Γ) θ F' s w where
  plain := h.plain
  names _ := h.narrow hv
  known := h.known_cons hv
  ints id hid := by
    by_cases heq : id = v
    · subst heq
      exact ⟨fun hmem => (h.names id hmem).2 hv.before,hnone⟩
    · rw [lookup_cons_of_ne heq] at hid
      exact h.ints id hid
  tensors id t hid ht := by
    by_cases heq : id = v
    · subst heq
      rw [lookup_cons_self] at hid
      exact absurd (Option.some.inj hid).symm ht
    · rw [lookup_cons_of_ne heq] at hid
      exact h.tensors id t hid ht

theorem InScope.tensor {r held p m} (ht : t ≠ .int)
    (hr : r.isInt = false) (hp : (Code.plain v).resolve ((v,r)::θ) = p) :
    InScope ((v,t)::Γ) ((v,r)::θ) F' (s.bind v held) (w.step (.bound v p m)) where
  plain := List.forall_mem_cons.2 ⟨hr,h.plain⟩
  names := List.forall_mem_cons.2 ⟨⟨hv.name,hv.after⟩,fun _ => h.narrow hv⟩
  known := h.known_cons hv
  ints id hid := by
    by_cases heq : id = v
    · subst heq
      rw [lookup_cons_self] at hid
      exact absurd (Option.some.inj hid) ht
    · rw [lookup_cons_of_ne heq] at hid
      obtain ⟨hθ,hnone⟩ := h.ints id hid
      exact ⟨fun hmem => (List.mem_cons.1 hmem).elim heq hθ,by rw [bind_table_of_ne heq, hnone]⟩
  tensors id t' hid ht' := by
    by_cases heq : id = v
    · subst heq
      refine ⟨?_,by rw [bound_place, hp]⟩
      cases hroot : held.root with
      | none => exact ⟨_,bind_table_of_none hroot⟩
      | some o => exact ⟨_,bind_table_of_some hroot⟩
    · rw [lookup_cons_of_ne heq] at hid
      obtain ⟨hb,hplace⟩ := h.tensors id t' hid ht'
      refine ⟨by rw [bind_table_of_ne heq]; exact hb,?_⟩
      rw [bound_place_of_ne heq, hplace, Term.resolve_cons, Code.plain, Term.subst, if_neg heq]
      rfl

end Scope

def State.later (st : State) (B : List String) : String → Prop :=
  Later st.nextVar st.nextIterator B

theorem State.later_eq {st st' : State} (hv : st'.nextVar = st.nextVar)
    (hi : st'.nextIterator = st.nextIterator) : st'.later = st.later := by
  unfold State.later
  rw [hv, hi]

def State.Before (st st' : State) : Prop :=
  st.nextVar ≤ st'.nextVar ∧ st.nextIterator ≤ st'.nextIterator

theorem State.Before.later {st st' : State} (h : st.Before st') {B B'}
    (hB : ∀ b ∈ B', b ∈ B) (x : String) : st'.later B' x → st.later B x :=
  Later.mono h.1 h.2 hB

theorem State.Before.trans {st1 st2 st3 : State} (h : st1.Before st2) (h' : st2.Before st3) :
    st1.Before st3 := ⟨h.1.trans h'.1,h.2.trans h'.2⟩

theorem State.not_later {st : State} {B} {v} (hg : ¬ Generated v) (hB : v ∉ B) :
    ¬ st.later B v := by
  rintro (⟨n,-,hn⟩ | ⟨n,-,hn⟩ | hmem)
  · exact hg ⟨n,.inl hn⟩
  · exact hg ⟨n,.inr hn⟩
  · exact hB hmem

def placed (θ : Renaming) (p : String × Term) : String × Term := (p.1,p.2.resolve θ)

def Marked.item (x : Marked) (θ : Renaming) (type : Ty) (held : Held) : Item :=
  ⟨x.term.resolve θ,x.pending.map (placed θ),held,type⟩

/-- The code has run, and the scan agrees with the watch over the run. -/
structure Follows (F : String → Prop) (N : List String) (s : Scan) (w : Watch) (s' : Scan)
    (tr : List Event) (stack : List Item) : Prop where
  agrees : Agrees F s' (w.after tr) stack
  kept : Kept N s w s' (w.after tr)
  writes : ∀ x, .wrote x ∈ tr → ¬ F x

/-- Whatever the names in scope stand for, the marked code of the expression runs to its end, and
its scan agrees with the watch. -/
def Simulated (M : Machine) (Γ : Scope) (e : Expr Ty) : Prop :=
  ∀ (cx : Context) (θ : Renaming) (st st' : State) (x : Marked) (B : List String) (s : Scan)
    (w : Watch) (stack : List Item), mark cx e st = .ok (x,st') → (e.binders++B).Nodup →
    (∀ b ∈ e.binders++B, ¬ Generated b) → InScope Γ θ (st.later (e.binders++B)) s w →
    Agrees (st.later (e.binders++B)) s w stack → ∀ m, st.Before st' ∧ ∃ tr m',
      Exec M (Step.resolveAll θ x.steps) m tr m' ∧
      Follows (st'.later B) e.binders s w (scan e s).2 tr (x.item θ e.note (scan e s).1::stack)

/-- The operands of an operation, as they lie on the stack. -/
structure Operands (θ : Renaming) (es : List (Expr Ty)) (xs : List Marked) (hs : List Held)
    (its : List Item) : Prop where
  terms : its.map Item.term = (xs.map Marked.term).map (Term.resolve θ)
  pending : its.map Item.pending = (xs.map Marked.pending).map (Pending.map (placed θ))
  types : its.map Item.type = es.map Expr.note
  held : its.map Item.held = hs

def SimulatedAll (M : Machine) (Γ : Scope) (es : List (Expr Ty)) : Prop :=
  ∀ (cx : Context) (θ : Renaming) (st st' : State) (xs : List Marked) (B : List String) (s : Scan)
    (w : Watch) (stack : List Item), markAll cx es st = .ok (xs,st') →
    (Expr.bindersAll es++B).Nodup → (∀ b ∈ Expr.bindersAll es++B, ¬ Generated b) →
    InScope Γ θ (st.later (Expr.bindersAll es++B)) s w →
    Agrees (st.later (Expr.bindersAll es++B)) s w stack → ∀ m, st.Before st' ∧ ∃ tr m' its,
      Operands θ es xs (scanAll es s).1 its ∧
      Exec M (Step.resolveAll θ (xs.flatMap steps)) m tr m' ∧
      Follows (st'.later B) (Expr.bindersAll es) s w (scanAll es s).2 tr (its.reverse++stack)

section Cases

variable {M : Machine} {Γ : Scope}
variable {es : List (Expr Ty)} {how : Reading} {xs : List Marked} {hs : List Held} {its : List Item}
  {e a : Expr Ty} {st st' : State} {type : Ty} {id : String}

theorem Follows.append {F F' N N' s s' s'' w tr tr' stack stack'} (hF : ∀ x, F' x → F x)
    (h : Follows F N s w s' tr stack) (h' : Follows F' N' s' (w.after tr) s'' tr' stack') :
    Follows F' (N++N') s w s'' (tr++tr') stack' where
  agrees := by rw [Watch.after_append]; exact h'.agrees
  kept := by rw [Watch.after_append]; exact h.kept.trans h'.kept
  writes x hx := by
    rcases List.mem_append.1 hx with hx | hx
    · exact fun hlater => h.writes x hx (hF x hlater)
    · exact h'.writes x hx

theorem simulatedAll (h : ∀ e ∈ es, Simulated M Γ e) : SimulatedAll M Γ es := by
  induction es with
  | nil =>
    intro cx θ st st' xs B s w stack hmark _ _ _ hagrees m
    obtain ⟨rfl,rfl⟩ := run_pure.1 hmark
    exact ⟨⟨le_rfl,le_rfl⟩,[],m,[],⟨rfl,rfl,rfl,rfl⟩,.nil,hagrees,.refl s w,by simp⟩
  | cons e es ih =>
    intro cx θ st st' xs B s w stack hmark hnodup hgen hscope hagrees m
    obtain ⟨x,st1,hx,hrest⟩ := run_bind.1 hmark
    obtain ⟨xs',st2,hxs,hpure⟩ := run_bind.1 hrest
    obtain ⟨rfl,rfl⟩ := run_pure.1 hpure
    rw [Expr.bindersAll, List.append_assoc] at hnodup hgen hscope hagrees
    obtain ⟨hbefore1,tr1,m1,hexec1,hfollows1⟩ := h e List.mem_cons_self cx θ st st1 x _ s w
      stack hx hnodup hgen hscope hagrees m
    have hscope1 := hscope.kept (fun y hy => .inr (.inr (List.mem_append_left _ hy)))
      (hbefore1.later fun b hb => List.mem_append_right _ hb) hfollows1.kept
    obtain ⟨hbefore2,tr2,m2,its,hits,hexec2,hfollows2⟩ :=
      ih (fun e' he' => h e' (List.mem_cons_of_mem _ he')) cx θ st1 st' xs' B _ _ _ hxs
        hnodup.of_append_right (fun b hb => hgen b (List.mem_append_right _ hb)) hscope1
        hfollows1.agrees m1
    refine ⟨hbefore1.trans hbefore2,tr1++tr2,m2,x.item θ e.note (scan e s).1::its,
      ⟨?_,?_,?_,?_⟩,?_,?_⟩
    · simpa [Marked.item] using hits.terms
    · simpa [Marked.item] using hits.pending
    · simpa [Marked.item] using hits.types
    · simpa [Marked.item, scanAll] using hits.held
    · rw [List.flatMap_cons, Step.resolveAll_append]
      exact hexec1.append hexec2
    · rw [List.reverse_cons, List.append_assoc]
      exact hfollows1.append (hbefore2.later fun b hb => List.mem_append_right _ hb) hfollows2

theorem resolveAll_marks (θ : Renaming) (uses : List (String × Term)) :
    Step.resolveAll θ (marks uses) = marks (uses.map (placed θ)) := by
  simp [Step.resolveAll, marks, Step.resolve_used, placed]

theorem operate_resolve {θ} (h : Operands θ es xs hs its) (own : Lowered) :
    Step.resolveAll θ (operate how xs own).steps = Step.resolveAll θ (xs.flatMap steps) ++
        how.code its (Step.resolveAll θ (own.1.map .instr)) := by
  rw [Reading.code, h.pending, Reading.uses_map, Reading.rereads_map, ← resolveAll_marks,
    ← resolveAll_marks, ← Step.resolveAll_append, ← Step.resolveAll_append,
    ← Step.resolveAll_append, operate, List.append_assoc, List.append_assoc,
    List.append_assoc]

theorem operate_item {θ} (h : Operands θ es xs hs its) (own : Lowered) (type : Ty) :
    (operate how xs own).item θ type (how.result hs) = how.item its (own.2.resolve θ) type := by
  rw [Reading.item, h.pending, Reading.keeps_map, h.held]
  rfl

theorem simulated_operation
    (hop : Operation e es how) (h : ∀ e' ∈ es, Simulated M Γ e') : Simulated M Γ e := by
  intro cx θ st st' x B s w stack hmark hnodup hgen hscope hagrees m
  obtain ⟨st0,xs,st1,own,hsame,hxs,hperforms,rfl⟩ := hop.run hmark
  have hown := hperforms.fulfils
  have hv : st0.nextVar = st.nextVar := congrArg (·.nextVar) hsame
  have hi : st0.nextIterator = st.nextIterator := congrArg (·.nextIterator) hsame
  rw [hop.names.1] at hnodup hgen hscope hagrees ⊢
  rw [← State.later_eq hv hi] at hscope hagrees
  obtain ⟨hbefore,tr1,m1,its,hits,hexec1,hfollows1⟩ := simulatedAll h cx θ st0 st1 xs B s w
    stack hxs hnodup hgen hscope hagrees m
  obtain ⟨tr2,m2,hexec2,hagrees2,hkept2,hwrites2⟩ := operation_agrees
    (fun b hb => hgen b (List.mem_append_right _ hb)) hscope.plain
    (fun y hy => (hscope.names y hy).1) hits.terms hown (by rw [hits.types]; exact hperforms.suits)
    hfollows1.agrees m1 (M := M)
  have hbefore2 : st1.Before st' := hown.counters
  refine ⟨⟨hv ▸ (hbefore.trans hbefore2).1,hi ▸ (hbefore.trans hbefore2).2⟩,tr1++tr2,m2,?_,?_⟩
  · rw [operate_resolve hits]
    exact hexec1.append hexec2
  · rw [hits.held] at hagrees2 hkept2
    have hfollows := hfollows1.append (hbefore2.later fun _ => id) ⟨hagrees2,hkept2,hwrites2⟩
    rw [List.append_nil] at hfollows
    rw [hop.scan s, Scan.operate, operate_item hits]
    exact hfollows

theorem simulated_leaf (hbinders : e.binders = [])
    (h : ∀ (cx : Context) (θ : Renaming) (st st' : State) (x : Marked) (B : List String) (s : Scan)
      (w : Watch) (stack : List Item), mark cx e st = .ok (x,st') → InScope Γ θ (st.later B) s w →
      Agrees (st.later B) s w stack → st' = st ∧ x.steps = [] ∧ (scan e s).2 = s ∧
        Stands (st.later B) s w stack (x.item θ e.note (scan e s).1)) : Simulated M Γ e := by
  intro cx θ st st' x B s w stack hmark _ _ hscope hagrees m
  rw [hbinders] at hscope hagrees ⊢
  obtain ⟨rfl,hsteps,hscan,hstands⟩ := h cx θ st st' x B s w stack hmark hscope hagrees
  refine ⟨⟨le_rfl,le_rfl⟩,[],m,by rw [hsteps]; exact .nil,?_⟩
  rw [hscan]
  exact ⟨hagrees.push hstands.fits hstands.apart,.refl s w,by simp⟩

theorem attempt_ok {α} {e} {a : α} (h : attempt e st = .ok (a,st')) : e = .ok a ∧ st' = st := by
  cases e with
  | error f => cases h
  | ok b =>
    cases h
    exact ⟨rfl,rfl⟩

theorem simulated_int (n : Int) : Simulated M Γ (.int .int n) := by
  refine simulated_leaf rfl fun cx θ st st' x B s w stack hmark _ _ => ?_
  obtain ⟨t,st1,ht,hpure⟩ := run_bind.1 hmark
  obtain ⟨rfl,rfl⟩ := run_pure.1 hpure
  obtain ⟨hliteral,rfl⟩ := attempt_ok ht
  obtain rfl := literal_ok hliteral
  refine ⟨rfl,rfl,rfl,?_⟩
  have hnone : ∀ a ∈ ([] : List Item), Stands (st'.later B) s w stack a := by simp
  refine stands_of_parts hnone rfl (by simp [Marked.item, Pending.map, Pending.all])
    (fun y => ?_) ?_ (.inl ⟨rfl,rfl⟩)
  · simp [Marked.item, Term.mentions]
  · simp [Marked.item, scan]

theorem scan_name_int (id : String) (s : Scan) : scan (.name .int id) s = ({},s) := by
  simp [scan]

theorem scan_name (h : type ≠ .int) {s b} (hb : s.table id = some b) :
    scan (.name type id) s = (⟨some b.root,b.deps,{ self := [id] }⟩,s) := by
  simp [scan, h, hb]

theorem simulated_name_int (hid : Γ.lookup id = some .int) : Simulated M Γ (.name .int id) := by
  refine simulated_leaf rfl fun cx θ st st' x B s w stack hmark hscope hagrees => ?_
  obtain ⟨_,st1,hget,hpure⟩ := run_bind.1 hmark
  cases hget
  obtain ⟨rfl,rfl⟩ := run_pure.1 hpure
  obtain ⟨hθ,hnone⟩ := hscope.ints id hid
  obtain ⟨hgen,hF⟩ := hscope.known id _ hid
  rw [scan_name_int]
  refine ⟨rfl,rfl,rfl,?_⟩
  simp only [Marked.item, resolve_var hθ, List.map_nil]
  refine ⟨⟨rfl,by simp [Pending.map, Pending.all],by simp,fun _ hn => absurd rfl hn,
    reads_variable fun o ho hx => ?_,known_variable hF⟩,fun e he => ⟨fun _ hn => absurd rfl hn,?_⟩⟩
  · rcases (hagrees.owned ho hx).2 with rfl | ⟨n,rfl⟩
    · exact ho.ne hnone rfl
    · exact hgen ⟨n,.inl rfl⟩
  · intro hroot hn x hx
    rw [← Bool.not_eq_true, mentions_variable]
    rintro rfl
    obtain ⟨n,hvar,-⟩ := (hagrees.items e he).hidden hroot hn
    rw [hvar] at hx
    exact hgen ⟨n,.inl (Option.some.inj hx).symm⟩

theorem simulated_name (hid : Γ.lookup id = some type)
    (htype : type ≠ .int) : Simulated M Γ (.name type id) := by
  refine simulated_leaf rfl fun cx θ st st' x B s w stack hmark hscope hagrees => ?_
  obtain ⟨_,st1,hget,hpure⟩ := run_bind.1 hmark
  cases hget
  obtain ⟨rfl,rfl⟩ := run_pure.1 hpure
  obtain ⟨⟨b,hb⟩,hplace⟩ := hscope.tensors id type hid htype
  obtain ⟨p,hp⟩ := hagrees.bindings id b hb
  rw [scan_name htype hb]
  refine ⟨rfl,rfl,rfl,?_⟩
  simp only [Marked.item, if_neg htype]
  generalize hterm : (Term.var id [] _).resolve θ = t
  have hpt : p = t.inMemory := by
    rw [hp.place] at hplace
    rw [Option.some.inj hplace, ← hterm, ← resolve_inMemory hscope.plain]
    rfl
  subst hpt
  refine ⟨⟨rfl,?_,?_,nofun,?_,?_⟩,fun e he => ⟨nofun,fun hroot hn x hx => ?_⟩⟩
  · simp [Pending.map, Pending.all, placed, hb, hplace, (hscope.known id type hid).2]
  · rintro o ⟨⟩
    obtain ⟨howner,y,hy,hroot⟩ := hp.root
    exact ⟨howner,y,hy,by rw [← hroot, root_inMemory]⟩
  · intro o x ho hx
    rw [← mentions_inMemory]
    exact hp.reads o x ho hx
  · exact ⟨fun x hx => by rw [← mentions_inMemory]; exact hp.known.1 x hx,hp.known.2⟩
  · obtain ⟨n,hvar,hplaces⟩ := (hagrees.items e he).hidden hroot hn
    rw [hvar] at hx
    rw [← Option.some.inj hx, ← mentions_inMemory]
    exact hplaces id b _ hb hp.place

end Cases

end MicroLearn.Lower
