import MicroLearn.Proofs.Agreement

/-!
# One operation, in the scan and in the run

The operands of an operation lie on the stack. Its code uses them, writes what it writes, and
leaves one value in their place; the scan does the same.
-/

set_option autoImplicit false

namespace MicroLearn.Lower

open Code
open Lang (Ty Expr)
open Reading

theorem marks_exec (M : Machine) (uses : List (String × Term)) (m : Memory) :
    Exec M (marks uses) m (uses.map fun p => .used p.1 p.2 m) m := by
  induction uses with
  | nil => exact .nil
  | cons p uses ih => exact .used ih

namespace Reading

variable {α β : Type} (how : Reading)
variable {ps : List (Pending α)} {a : α} (f : α → β)

theorem uses_map (ps : List (Pending α)) :
    how.uses (ps.map (Pending.map f)) = (how.uses ps).map f := by
  cases how <;> cases ps <;>
    simp [uses, Pending.map, Pending.all, List.map_flatMap, List.flatMap_map]

theorem rereads_map (ps : List (Pending α)) :
    how.rereads (ps.map (Pending.map f)) = (how.rereads ps).map f := by
  cases how <;> cases ps <;>
    simp [rereads, Pending.map, Pending.all, List.map_flatMap, List.flatMap_map]

theorem keeps_map (ps : List (Pending α)) :
    how.keeps (ps.map (Pending.map f)) = (how.keeps ps).map f := by
  cases how <;> cases ps <;>
    simp [keeps, Pending.map, Pending.all, List.map_flatMap, List.flatMap_map]

theorem overwritten_map (xs : List α) :
    how.overwritten (xs.map f) = (how.overwritten xs).map f := by
  cases how with
  | called g =>
    simp only [overwritten, List.length_map]
    split
    · rw [List.map_take]
    split
    · rw [List.map_drop]
    · rfl
  | updated => simp [overwritten]
  | _ => rfl

theorem mem_uses (h : a ∈ how.uses ps) : ∃ p ∈ ps, a ∈ p.all := by
  cases how <;> cases ps <;> simp [uses, Pending.all] at h ⊢ <;> grind

theorem mem_rereads (h : a ∈ how.rereads ps) : ∃ p ∈ ps, a ∈ p.all := by
  cases how <;> cases ps <;> simp [rereads] at h ⊢
  grind

theorem mem_keeps (h : a ∈ (how.keeps ps).all) : ∃ p ∈ ps, a ∈ p.all := by
  cases how <;> cases ps <;> simp [keeps, Pending.all] at h ⊢ <;> grind

theorem mem_overwritten {xs} (h : a ∈ how.overwritten xs) : a ∈ xs := by
  cases how with
  | called f =>
    simp only [overwritten] at h
    split at h
    · exact List.mem_of_mem_take h
    split at h
    · exact List.mem_of_mem_drop h
    · cases h
  | updated => exact List.mem_of_mem_take h
  | _ => cases h

theorem pending_result (hs : List Held) :
    (how.result hs).pending = how.keeps (hs.map Held.pending) := by
  cases how <;> cases hs <;> rfl

def Suits : Reading → List Ty → Ty → Prop
  | .passed, ts, type => ts = [type]
  | .carried, _, type => type = .int
  | .indexed, ts, type => ts.head? ≠ some .int ∧ ∃ s, ts.head? = some (.tensor s) ∧
      type = .tensor s.tail
  | .sparse, ts, _ => ts.head? ≠ some .int
  | .updated, ts, type => ts.head? ≠ some .int ∧ ts.head? = some type
  | .called _, ts, _ => .int ∉ ts
  | _, _, _ => True

end Reading

theorem root_resolve_none {θ} (hθ : θ.Plain) {t : Term} (h : t.root? = none) :
    (t.resolve θ).root? = none := by
  induction θ generalizing t with
  | nil => exact h
  | cons p θ ih =>
    refine ih (fun q hq => hθ q (List.mem_cons_of_mem _ hq)) ?_
    rw [root_subst (hθ p List.mem_cons_self), h, Option.map_none]

theorem resolve_comment (θ : Renaming) (c : String) : (Instr.comment c).resolve θ = .comment c :=
  List.foldl_fixed' (fun _ => rfl) θ

theorem resolveAll_instr (θ : Renaming) (code : List Instr) :
    Step.resolveAll θ (code.map .instr) = (code.map (Instr.resolve θ)).map .instr := by
  simp [Step.resolveAll, Step.resolve_instr]

theorem writes_of_names {F targets names}
    (only : ∀ x ∈ names, F x ∨ ∃ it ∈ targets, it.term.root? = some x)
    (all : ∀ it ∈ targets, ∃ x, it.term.root? = some x ∧ x ∈ names) :
    Writes F targets (wrote names) :=
  ⟨List.forall_mem_map.2 fun x hx => ⟨x,rfl,only x hx⟩,
    fun it hit => (all it hit).imp fun _ h => h.imp_right List.mem_map_of_mem⟩

section Code

variable {M : Machine} {θ : Renaming} {how : Reading} {its : List Item} {ts : List Term}
  {type : Ty} {v i v' i' : Nat} {own : Lowered}

theorem outputs_called {g} (hg : ∀ it ∈ its, it.term.root? = some (g it))
    (f x : String) (ns : List Int) : ∃ rest, (∀ y ∈ rest, y = x) ∧
      outputs f (its.map Item.term++plain x::ns.map .int) =
        ((called f).overwritten its).map g++rest := by
  have hnames : (its.map Item.term++plain x::ns.map .int).filterMap Term.root? =
      its.map g++[x] := by
    have hits : (its.map Item.term).filterMap Term.root? = its.map g := by
      rw [List.filterMap_map, ← List.filterMap_eq_map]
      exact List.filterMap_congr hg
    have hns : (ns.map Term.int).filterMap Term.root? = [] := numbers_root ns
    rw [List.filterMap_append, hits, List.filterMap_cons, hns]
    rfl
  simp only [outputs, hnames, overwritten]
  by_cases hf : f ∈ inPlace
  · rw [if_pos hf, if_pos hf]
    cases its with
    | nil => exact ⟨[x],by simp,rfl⟩
    | cons it its => exact ⟨[],by simp,by simp⟩
  rw [if_neg hf, if_neg hf]
  by_cases hs : f ∈ withScratch
  · rw [if_pos hs, if_pos hs, List.drop_append_of_le_length (by simp)]
    simp
  · exact ⟨[x],by simp,by simp [hs]⟩

theorem call_runs (hθ : θ.Plain) (c f : String) (args : List Term) (m : Memory) : ∃ m',
    Exec M (([.comment c, .call f args].map (Instr.resolve θ)).map .instr) m
      (wrote (outputs f (args.map (Term.resolve θ)))) m' := by
  refine ⟨M.call f (args.map (Term.resolve θ)) m,?_⟩
  rw [← List.append_nil (wrote _), List.map_cons, List.map_singleton, resolve_comment,
    Instr.resolve_call hθ]
  exact .silent rfl (.call .nil)

variable (hθ : θ.Plain) (hnames : ∀ x ∈ θ.names, ¬ Generated x)
  (hts : its.map Item.term = ts.map (Term.resolve θ))
  (hroots : ∀ it ∈ its, it.type ≠ .int → ∃ x, it.term.root? = some x)
  (hown : how.Fulfils ts v i v' i' own) (hsuits : how.Suits (its.map Item.type) type)

include hθ hnames hts hroots hown hsuits

theorem own_writes (m : Memory) : ∃ tr m', Exec M (Step.resolveAll θ (own.1.map .instr)) m tr m' ∧
      Writes (Made v i v' i') (how.overwritten its) tr := by
  rw [resolveAll_instr]
  have hconfined : Own v i v' i' own → ∃ tr m',
    Exec M ((own.1.map (Instr.resolve θ)).map .instr) m tr m' ∧
        Writes (Made v i v' i') [] tr := by
    rintro ⟨-,-,-,β,hcode⟩
    have hresolved := confinedAll_resolve hθ (fun x hx hm => hnames x hx hm.generated) hcode
    obtain ⟨tr,m',hrun,htr,-⟩ := confinedAll_runs M _ hresolved m
    refine ⟨tr,m',hrun,fun e he => ?_,by simp⟩
    obtain ⟨x,hx,rfl⟩ := htr e he
    exact ⟨x,rfl,.inl hx⟩
  have hnothing : own.1 = [] → ∃ tr m', Exec M ((own.1.map (Instr.resolve θ)).map .instr) m tr m' ∧
        Writes (Made v i v' i') [] tr := by
    intro hcode
    rw [hcode]
    exact ⟨[],m,.nil,by simp,by simp⟩
  cases how with
  | passed =>
    match ts, hown with
    | [t], ⟨_,_,h⟩ => exact hnothing (by rw [h])
  | carried => exact hnothing hown.2.2.1
  | indexed =>
    match ts, hown with
    | [e, k], ⟨_,_,h⟩ => exact hnothing (by rw [h])
  | consumed | sparse => exact hconfined hown
  | updated =>
    match ts, its, hown with
    | t::ts, it::its, ⟨_,_,c,f,rest,hf,h⟩ =>
      obtain ⟨x,hx⟩ := hroots it List.mem_cons_self (by simpa using hsuits.1)
      have ht : it.term = t.resolve θ := (List.cons.inj hts).1
      have hroot : (t.inMemory.resolve θ).root? = some x := by
        rw [resolve_inMemory hθ, root_inMemory, ← ht, hx]
      have hout : outputs f ((t.inMemory::rest).map (Term.resolve θ)) = [x] := by
        simp [outputs, hf, hroot]
      obtain ⟨m',hrun⟩ := call_runs (M := M) hθ c f (t.inMemory::rest) m
      rw [hout] at hrun
      refine ⟨_,m',by rw [h]; exact hrun,writes_of_names ?_ ?_⟩
      · simp [overwritten, hx]
      · simp [overwritten, hx]
  | called f =>
    obtain ⟨hv,-,c,ns,h⟩ := hown
    have hall : ∀ it ∈ its, ∃ x, it.term.root? = some x := fun it hit =>
      hroots it hit fun htype => hsuits (htype ▸ List.mem_map_of_mem hit)
    choose! g hg using hall
    obtain ⟨rest,hrest,hout⟩ := outputs_called hg f (variableName v) ns
    have hargs : (ts++plain (variableName v)::ns.map .int).map (Term.resolve θ) =
        its.map Item.term++plain (variableName v)::ns.map .int := by
      rw [List.map_append, List.map_cons, hts, resolve_plain fun hmem => hnames _ hmem ⟨v,.inl rfl⟩]
      simp
    obtain ⟨m',hrun⟩ := call_runs (M := M) hθ c f (ts++plain (variableName v)::ns.map .int) m
    rw [hargs, hout] at hrun
    refine ⟨_,m',by rw [h]; exact hrun,writes_of_names (fun y hy => ?_) fun it hit => ?_⟩
    · rcases List.mem_append.1 hy with hy | hy
      · obtain ⟨it,hit,rfl⟩ := List.mem_map.1 hy
        exact .inr ⟨it,hit,hg it (mem_overwritten _ hit)⟩
      · rw [hrest y hy]
        exact .inl (hv ▸ made_first)
    · exact ⟨g it,hg it (mem_overwritten _ hit),List.mem_append_left _ (List.mem_map_of_mem hit)⟩

end Code

section Result

variable {F F' : String → Prop} {s : Scan} {w : Watch} {stack : List Item}
variable {it : Item}

structure Stands (F : String → Prop) (s : Scan) (w : Watch) (stack : List Item) (it : Item) :
    Prop where
  fits : ItemFits F s w it
  apart : ∀ e ∈ stack, Apart it e ∧ Apart e it

theorem Stands.mono (hF : ∀ x, F' x → F x) (h : Stands F s w stack it) :
    Stands F' s w stack it := ⟨h.fits.mono hF,h.apart⟩

theorem Agrees.operands {its : List Item} (h : Agrees F s w (its.reverse++stack))
    (hit : it ∈ its) : Stands F s w stack it :=
  ⟨h.items it (by simp [hit]),fun e he =>
    (List.pairwise_append.1 h.apart).2.2 it (by simpa using hit) e he⟩

theorem ItemFits.root (h : ItemFits F s w it) (htype : it.type ≠ .int) :
    ∃ x, it.term.root? = some x := by
  cases hroot : it.held.root with
  | none =>
    obtain ⟨n,hn,-⟩ := h.hidden hroot htype
    exact ⟨_,hn⟩
  | some o =>
    obtain ⟨-,x,-,hx⟩ := h.lies o hroot
    exact ⟨x,hx⟩

theorem Agrees.fresh (h : Agrees F s w stack) {n} (hF : F (variableName n))
    (hF' : ¬ F' (variableName n)) (inFlash : Bool) (type : Ty) :
    Stands F' s w stack ⟨.var (variableName n) [] inFlash,{},{},type⟩ := by
  refine ⟨⟨rfl,by simp [Pending.all],by simp,fun _ _ => ⟨n,rfl,fun _ _ _ => h.unplaced hF⟩,
    reads_variable fun o ho hx => (h.owned ho hx).1 hF,known_variable hF'⟩,fun e he => ?_⟩
  have hknown := (h.items e he).known
  refine ⟨fun _ _ x hx => ?_,fun _ _ x hx => ?_⟩
  · rw [← Option.some.inj hx]
    exact hknown.1 _ hF
  · rw [← Bool.not_eq_true, mentions_variable]
    rintro rfl
    exact hknown.root hx hF

theorem stands_of_parts {parts : List Item} (h : ∀ a ∈ parts, Stands F s w stack a)
    (hpending : it.held.pending = it.pending.map Prod.fst) (hlocated : ∀ p ∈ it.pending.all,
      (∃ b, s.table p.1 = some b) ∧ w.place p.1 = some p.2 ∧ ¬ F p.1)
    (hmentions : ∀ x, it.term.mentions x = true ↔ ∃ a ∈ parts, a.term.mentions x = true)
    (hdeps : ∀ o, o ∈ it.held.deps ↔ ∃ a ∈ parts, o ∈ a.held.deps)
    (hplace : (it.type = .int ∧ it.held.root = none) ∨ ∃ a ∈ parts, a.type ≠ .int ∧
      it.term.root? = a.term.root? ∧ it.held.root = a.held.root) : Stands F s w stack it := by
  have hclear : ∀ x, (∀ a ∈ parts, a.term.mentions x = false) → it.term.mentions x = false := by
    intro x hparts
    rw [← Bool.not_eq_true, hmentions]
    rintro ⟨a,ha,hm⟩
    rw [hparts a ha] at hm
    cases hm
  refine ⟨⟨hpending,hlocated,fun o ho => ?_,fun hroot htype => ?_,fun o x ho hx => ?_,
    fun x hx => hclear x fun a ha => (h a ha).fits.known.1 x hx,fun o ho => ?_⟩,
    fun e he => ⟨fun hroot htype x hx => ?_,fun hroot htype x hx => hclear x fun a ha =>
      ((h a ha).apart e he).2 hroot htype x hx⟩⟩
  · rcases hplace with ⟨-,hnone⟩ | ⟨a,ha,-,hterm,hheld⟩
    · rw [hnone] at ho
      cases ho
    · obtain ⟨howner,y,hy,hya⟩ := (h a ha).fits.lies o (by rw [← hheld, ho])
      exact ⟨howner,y,hy,by rw [hterm, hya]⟩
  · rcases hplace with ⟨hint,-⟩ | ⟨a,ha,hna,hterm,hheld⟩
    · exact absurd hint htype
    · obtain ⟨n,hn,hplaces⟩ := (h a ha).fits.hidden (by rw [← hheld, hroot]) hna
      exact ⟨n,by rw [hterm, hn],hplaces⟩
  · rw [hmentions, hdeps]
    exact exists_congr fun a => and_congr_right fun ha => (h a ha).fits.reads o x ho hx
  · obtain ⟨a,ha,hao⟩ := (hdeps o).1 ho
    exact (h a ha).fits.known.2 o hao
  · rcases hplace with ⟨hint,-⟩ | ⟨a,ha,hna,hterm,hheld⟩
    · exact absurd hint htype
    · exact ((h a ha).apart e he).1 (by rw [← hheld, hroot]) hna x (by rw [← hterm, hx])

end Result

section Operate

variable {M : Machine} {θ : Renaming} {how : Reading} {its : List Item} {ts : List Term}
  {type : Ty} {v i v' i' : Nat} {own : Lowered} {B : List String} {s : Scan} {w : Watch}
  {stack : List Item}

def Reading.item (how : Reading) (its : List Item) (t : Term) (type : Ty) : Item :=
  ⟨t,how.keeps (its.map Item.pending),how.result (its.map Item.held),type⟩

theorem Reading.Fulfils.counters (hown : how.Fulfils ts v i v' i' own) : v ≤ v' ∧ i ≤ i' := by
  cases how with
  | passed =>
    match ts, hown with
    | [_], ⟨hv,hi,_⟩ => omega
  | carried | called f =>
    obtain ⟨hv,hi,-⟩ := hown
    omega
  | indexed =>
    match ts, hown with
    | [_, _], ⟨hv,hi,_⟩ => omega
  | consumed | sparse => exact ⟨hown.vars,hown.iterators⟩
  | updated =>
    match ts, hown with
    | _::_, ⟨hv,hi,_⟩ => omega

variable (hB : ∀ b ∈ B, ¬ Generated b) (hθ : θ.Plain) (hnames : ∀ x ∈ θ.names, ¬ Generated x)
  (hts : its.map Item.term = ts.map (Term.resolve θ)) (hown : how.Fulfils ts v i v' i' own)
  (hsuits : how.Suits (its.map Item.type) type)

theorem pending_held {F} (h : ∀ it ∈ its, ItemFits F s w it) :
    (its.map Item.held).map Held.pending = (its.map Item.pending).map (Pending.map Prod.fst) := by
  rw [List.map_map, List.map_map]
  exact List.map_congr_left fun it hit => (h it hit).pending

theorem item_located {F F' : String → Prop} (hsub : ∀ x, F' x → F x)
    (h : ∀ it ∈ its, ItemFits F s w it) {t} {p}
    (hp : p ∈ (how.item its t type).pending.all) :
    (∃ b, s.table p.1 = some b) ∧ w.place p.1 = some p.2 ∧ ¬ F' p.1 := by
  obtain ⟨q,hq,hpq⟩ := how.mem_keeps hp
  obtain ⟨it,hit,rfl⟩ := List.mem_map.1 hq
  obtain ⟨hb,hplace,hn⟩ := (h it hit).located p hpq
  exact ⟨hb,hplace,fun hx => hn (hsub _ hx)⟩

include hθ hts in
theorem carried_mentions (hown : Carries ts own.2) (x : String) :
    (own.2.resolve θ).mentions x = true ↔ ∃ it ∈ its, it.term.mentions x = true := by
  have hany : (ts.any fun u => (u.resolve θ).mentions x) =
      (its.map Item.term).any (Term.mentions x) := by
    rw [hts, List.any_map]
    rfl
  rw [hown θ hθ x, hany, List.any_map, List.any_eq_true]
  rfl

theorem item_pending {F} (h : ∀ it ∈ its, ItemFits F s w it) (t : Term) :
    (how.item its t type).held.pending = (how.item its t type).pending.map Prod.fst := by
  rw [Reading.item, Reading.pending_result, pending_held h, Reading.keeps_map]

include hθ hts hown hsuits in
theorem derived_stands {F : String → Prop} (h : ∀ it ∈ its, Stands F s w stack it)
    (hhow : how = .carried ∨ how = .indexed ∨ how = .updated) :
    Stands F s w stack (how.item its (own.2.resolve θ) type) := by
  have hfits : ∀ it ∈ its, ItemFits F s w it := fun it hit => (h it hit).fits
  have hlocated p (hp : p ∈ (how.item its (own.2.resolve θ) type).pending.all) :=
    item_located (fun _ => id) hfits hp
  rcases hhow with rfl | rfl | rfl
  · refine stands_of_parts h (item_pending hfits _) hlocated
      (carried_mentions hθ hts hown.2.2.2) ?_ (.inl ⟨hsuits,rfl⟩)
    simp [Reading.item, Reading.result]
  · match ts, hown, hts with
    | [e, k], ⟨_,_,hr⟩, hts =>
      obtain ⟨a,_,rfl,hae,hts⟩ := List.map_eq_cons_iff.1 hts
      obtain ⟨c,_,rfl,hck,hts⟩ := List.map_eq_cons_iff.1 hts
      obtain rfl := List.map_eq_nil_iff.1 hts
      have htype : a.type ≠ .int := by simpa using hsuits.1
      obtain ⟨x,hx⟩ := (hfits a List.mem_cons_self).root htype
      obtain ⟨name,index,inFlash,rfl⟩ : ∃ name index inFlash, e = .var name index inFlash := by
        cases e with
        | var name index inFlash => exact ⟨name,index,inFlash,rfl⟩
        | _ => rw [hae, root_resolve_none hθ rfl] at hx; cases hx
      have hterm : own.2.resolve θ = a.term.at [c.term] := by
        rw [hr, hae, hck, resolve_at hθ]
        rfl
      obtain ⟨name',index',inFlash',hvar⟩ := resolve_isVar hθ name index inFlash
      rw [hvar] at hae
      refine stands_of_parts h (item_pending hfits _) hlocated (fun y => ?_) ?_
        (.inr ⟨a,List.mem_cons_self ..,htype,?_,rfl⟩)
      · simp [Reading.item, hterm, hae, mentions_at, Term.anyMentions]
      · simp [Reading.item, Reading.result]
      · rw [Reading.item, hterm, hae]
        rfl
  · match ts, hown, hts with
    | t::ts, ⟨_,_,c,f,rest,_,hr⟩, hts =>
      obtain ⟨a,its,rfl,hat,-⟩ := List.map_eq_cons_iff.1 hts
      have ha : ∀ b ∈ [a], Stands F s w stack b := by simpa using h a List.mem_cons_self
      have hterm : own.2.resolve θ = a.term.inMemory := by rw [hr, resolve_inMemory hθ, hat]
      refine stands_of_parts ha (item_pending hfits _) hlocated
        (fun y => ?_) ?_ (.inr ⟨a,by simp,by simpa using hsuits.1,?_,rfl⟩)
      · simp [Reading.item, hterm]
      · simp [Reading.item, Reading.result]
      · rw [Reading.item, hterm, root_inMemory]

include hB hθ hnames hts hown hsuits in
theorem result_stands (h : Agrees (Later v i B) s w (its.reverse++stack)) :
    Stands (Later v' i' B) s w stack (how.item its (own.2.resolve θ) type) := by
  obtain ⟨hv,hi⟩ := hown.counters
  have hsub : ∀ x, Later v' i' B x → Later v i B x := fun x => Later.mono hv hi fun _ => id
  have hits : ∀ it ∈ its, Stands (Later v i B) s w stack it := fun it hit => h.operands hit
  -- a new variable comes up only now, and lowering has not replaced it
  have hnew : ∀ n inFlash, v ≤ n → n < v' → own.2 = .var (variableName n) [] inFlash →
      Stands (Later v' i' B) s w stack ⟨own.2.resolve θ,{},{},type⟩ := by
    intro n inFlash hn hn' hterm
    have hmade : Made v i v' i' (variableName n) := made_var hn hn'
    rw [hterm, resolve_var fun hmem => hnames _ hmem ⟨n,.inl rfl⟩]
    exact h.drop.fresh (hmade.later B) (hmade.not_later hB) inFlash type
  cases how with
  | passed =>
    match ts, hown, hts with
    | [t], ⟨_,_,hr⟩, hts =>
      obtain ⟨a,_,rfl,hat,hnil⟩ := List.map_eq_cons_iff.1 hts
      obtain rfl := List.map_eq_nil_iff.1 hnil
      have htype : a.type = type := by simpa [Reading.Suits] using hsuits
      have hitem : Reading.passed.item [a] (own.2.resolve θ) type = a := by
        rw [hr, ← hat, ← htype]
        rfl
      rw [hitem]
      exact (hits a List.mem_cons_self).mono hsub
  | carried | indexed | updated =>
      exact (derived_stands hθ hts hown hsuits hits (by simp)).mono hsub
  | consumed | sparse =>
    obtain ⟨n,inFlash,hn,hn',hterm⟩ := hown.out
    exact hnew n inFlash hn hn' hterm
  | called f =>
    obtain ⟨hv',-,c,ns,hr⟩ := hown
    exact hnew v false (Nat.le_refl v) (by omega) (by rw [hr]; rfl)

/-- The code that an operation adds to that of its operands, with its marks. -/
def Reading.code (how : Reading) (its : List Item) (code : List Step) : List Step :=
  marks (how.uses (its.map Item.pending))++code++marks (how.rereads (its.map Item.pending))

theorem Writes.mono {F F' targets tr}
    (hF : ∀ x, F x → F' x) (h : Writes F targets tr) : Writes F' targets tr :=
  ⟨fun e he => (h.only e he).imp fun x hx => hx.imp_right (.imp_left (hF x)),h.all⟩

include hsuits in
theorem overwritten_types {it} (hit : it ∈ how.overwritten its) : it.type ≠ .int := by
  cases how with
  | updated =>
    cases its with
    | nil => cases hit
    | cons a its =>
      obtain rfl : it = a := by simpa [overwritten] using hit
      simpa using hsuits.1
  | called f =>
    exact fun htype => hsuits (htype ▸ List.mem_map_of_mem (mem_overwritten _ hit))
  | _ => cases hit

theorem operate_scan {F} (h : ∀ it ∈ its, ItemFits F s w it) :
    (s.operate how (its.map Item.held)).2 =
      ((s.use ((how.uses (its.map Item.pending)).map Prod.fst)).overwrite
        ((how.overwritten its).filterMap fun it => it.held.root)).use
          ((how.rereads (its.map Item.pending)).map Prod.fst) := by
  rw [Scan.operate, pending_held h, Reading.uses_map, Reading.rereads_map, Reading.overwritten_map,
    List.filterMap_map]
  rfl

include hB hθ hnames hts hown hsuits in
theorem operation_agrees (h : Agrees (Later v i B) s w (its.reverse++stack)) (m : Memory) :
    ∃ tr m', Exec M (how.code its (Step.resolveAll θ (own.1.map .instr))) m tr m' ∧
      Agrees (Later v' i' B) (s.operate how (its.map Item.held)).2 (w.after tr)
        (how.item its (own.2.resolve θ) type::stack) ∧
      Kept [] s w (s.operate how (its.map Item.held)).2 (w.after tr) ∧
      ∀ x, .wrote x ∈ tr → ¬ Later v' i' B x := by
  obtain ⟨hv,hi⟩ := hown.counters
  have hsub : ∀ x, Later v' i' B x → Later v i B x := fun x => Later.mono hv hi fun _ => id
  have hfits : ∀ it ∈ its, ItemFits (Later v i B) s w it := fun it hit => (h.operands hit).fits
  obtain ⟨tr,m',hrun,hmade⟩ := own_writes hθ hnames hts
    (fun it hit htype => (hfits it hit).root htype) hown hsuits m (M := M)
  have hwrites := hmade.mono fun x hx => Made.later hx B
  -- the operands are used, then some are overwritten, and the others are used once more
  obtain ⟨hused,hkept1⟩ := h.use (fun p hp => by
    obtain ⟨q,hq,hpq⟩ := how.mem_uses hp
    obtain ⟨it,hit,rfl⟩ := List.mem_map.1 hq
    exact ((hfits it hit).located p hpq).imp_right And.left) m
  obtain ⟨hover,hkept2⟩ := hused.overwrite (fun it hit =>
    ⟨by simp [mem_overwritten _ hit],overwritten_types hsuits hit⟩) hwrites
  obtain ⟨hreread,hkept3⟩ := hover.use (fun p hp => by
    obtain ⟨q,hq,hpq⟩ := how.mem_rereads hp
    obtain ⟨it,hit,rfl⟩ := List.mem_map.1 hq
    exact ((hover.operands hit).fits.located p hpq).imp_right And.left) m'
  have hkept := (hkept1.trans hkept2).trans hkept3
  rw [← Watch.after_append, ← Watch.after_append, ← List.append_assoc] at hreread hkept
  rw [operate_scan hfits]
  refine ⟨_,m',((marks_exec M _ m).append hrun).append (marks_exec M _ m'),?_,hkept,fun x hx => ?_⟩
  · have hresult := result_stands hB hθ hnames hts hown hsuits hreread
    exact (hreread.drop.mono hsub).push hresult.fits hresult.apart
  · have hx' : .wrote x ∈ tr := by simpa using hx
    obtain ⟨y,hy,hwhere⟩ := hmade.only _ hx'
    obtain rfl := Event.wrote.inj hy
    rcases hwhere with hmade' | ⟨it,hit,hroot⟩
    · exact hmade'.not_later hB
    · exact fun hlater => (hfits it (mem_overwritten _ hit)).known.root hroot (hsub x hlater)

end Operate

end MicroLearn.Lower
