import MicroLearn.Proofs.Simulation

/-!
# Sums and bindings, in the scan and in the run

A sum repeats the code of its summand and what that binds. A binding puts a name in scope: an
integer is assigned to a variable of this name, and a tensor is known by its place.
-/

set_option autoImplicit false

namespace MicroLearn.Lower

open Code
open Lang (Ty Expr Token Scope Typed)
open Lowering
open Step
open List (append_assoc map_nil mem_append_right mem_cons_of_mem mem_cons_self)

variable {t a b : Ty} {op : Token}

section Loop

variable {M : Machine}

theorem loop_follows {body} {x} {n} {P : Scan → Watch → Prop} {W : String → Prop} {turn} (hx : W x)
    (hhead : ∀ s w, P s w → P s (w.step (.wrote x)))
    (hbody : ∀ s w m, P s w → ∃ tr m', Exec M body m tr m' ∧ P (turn s) (w.after tr) ∧
      ∀ y, .wrote y ∈ tr → W y ∧ y ≠ x)
    (k : Nat) (start : Int) (hk : (n-start).toNat = k) (s : Scan) (w : Watch) (m : Memory)
    (h : P s w) : ∃ tr m', Exec M [.loop (plain x) start (lt (plain x) (.int n)) body] m tr m' ∧
      P (Nat.iterate turn k s) (w.after tr) ∧ ∀ y, .wrote y ∈ tr → W y := by
  have htest : ∀ start m, (lt (plain x) (.int n)).value M ((plain x).store M m start) =
      truth (decide (start < n)) := by
    intro start m
    change truth (decide ((plain x).store M m start x [] < n)) = _
    simp [plain, Term.store, Term.values]
  induction k generalizing start s w m with
  | zero =>
    refine ⟨[.wrote x],(plain x).store M m start,.loopDone ?_ .nil,hhead s w h,by simpa⟩
    rw [htest]
    simp [truth, show ¬ start < n by omega]
  | succ k ih =>
    obtain ⟨tr1,m1,hexec1,hP1,hwrites1⟩ := hbody s _ ((plain x).store M m start) (hhead s w h)
    have hcount : (plain x).value M m1 = start := by
      change m1 x [] = start
      rw [coherent_frame hexec1.coherent fun hmem => (hwrites1 x hmem).2 rfl]
      simp [plain, Term.store, Term.values]
    obtain ⟨tr2,m2,hexec2,hP2,hwrites2⟩ := ih (start+1) (by omega) (turn s) _ m1 hP1
    rw [← hcount] at hexec2
    refine ⟨.wrote x::(tr1++tr2),m2,.loopMore ?_ hexec1 hexec2,?_,fun y hy => ?_⟩
    · rw [htest]
      simp [truth, show start < n by omega]
    · rw [Watch.after_cons, Watch.after_append]
      exact hP2
    · rcases List.mem_cons.1 hy with heq | hy
      · rw [Event.wrote.inj heq]
        exact hx
      rcases List.mem_append.1 hy with hy | hy
      · exact (hwrites1 y hy).1
      · exact hwrites2 y hy

end Loop

theorem Pending.all_map {α β} (f : α → β) (p : Pending α) : (p.map f).all = p.all.map f := by
  simp [Pending.map, Pending.all]

section Uses

variable {M : Machine} {F : String → Prop} {N : List String} {s s' : Scan} {w : Watch}
  {tr : List Event} {it : Item} {stack : List Item}

theorem Follows.use (h : Follows F N s w s' tr (it::stack)) (m : Memory) :
    Follows F N s w (s'.use it.held.pending.all)
      (tr++it.pending.all.map fun p => .used p.1 p.2 m) (it::stack) := by
  have hfits := h.agrees.items it mem_cons_self
  obtain ⟨hagrees,hkept⟩ := h.agrees.use (fun p hp => by
    obtain ⟨hb,hplace,-⟩ := hfits.located p hp
    exact ⟨hb,hplace⟩) m
  rw [hfits.pending, Pending.all_map]
  rw [← Watch.after_append] at hagrees hkept
  have hwhole := h.kept.trans hkept
  rw [List.append_nil] at hwhole
  refine ⟨hagrees,hwhole,fun x hx => h.writes x ?_⟩
  simpa using hx

theorem item_marks_exec (x : Marked) (θ : Renaming) (type : Ty) (held : Held) (m : Memory) :
    Exec M (resolveAll θ (marks x.pending.all)) m
      ((x.item θ type held).pending.all.map fun p => .used p.1 p.2 m) m := by
  rw [resolveAll_marks, Marked.item, Pending.all_map]
  exact marks_exec M _ m

end Uses

def Scan.turn (e : Expr Ty) (s : Scan) : Scan :=
  ((scan e s).2.use (scan e s).1.pending.all).forget e.binders

theorem resolve_clear (θ : Renaming) (t : Term) (cells : Int) :
    (Instr.clear t cells).resolve θ = .clear (t.resolve θ) cells :=
  List.foldl_hom (Instr.clear · cells) fun _ _ => rfl

theorem assign_exec {M θ v} (hv : v ∉ θ.names) (value : Term)
    (m : Memory) : ∃ m', Exec M (resolveAll θ [.instr (.assign (plain v) value)]) m [.wrote v]
        m' := by
  rw [resolveAll, List.map_singleton, Step.resolve_instr, Instr.resolve_assign, resolve_plain hv]
  exact ⟨_,.assign .nil⟩

theorem binder_of_nodup {v B} (st : State) (hnodup : (v::B).Nodup)
    (hgen : ∀ b ∈ v::B, ¬ Generated b) : Binder (st.later (v::B)) (st.later B) v where
  before := .inr (.inr mem_cons_self)
  after := State.not_later (hgen v mem_cons_self) (List.nodup_cons.1 hnodup).1
  name := hgen v mem_cons_self
  sub _ := Later.mono le_rfl le_rfl fun _ hb => mem_cons_of_mem _ hb

section Sum

variable {M : Machine} {Γ : Scope} {θ : Renaming} {v : String} {e : Expr Ty} {B : List String}

def Turning (Γ : Scope) (θ : Renaming) (F : String → Prop) (stack : List Item) (s₀ : Scan)
    (w₀ : Watch) (s : Scan) (w : Watch) : Prop :=
  Agrees F s w stack ∧ InScope Γ θ F s w ∧ Kept [] s₀ w₀ s w

theorem Turning.quiet {F stack s0 s w0 w tr} (h : Turning Γ θ F stack s0 w0 s w)
    (hw : ∀ e ∈ tr, ∃ x, e = .wrote x ∧ F x) : Turning Γ θ F stack s0 w0 s (w.after tr) := by
  obtain ⟨hagrees,hscope,hkept⟩ := h
  obtain ⟨hagrees',hkept'⟩ := hagrees.quiet hw
  exact ⟨hagrees',hscope.kept (by simp) (fun _ => id) hkept',hkept.trans hkept'⟩

theorem Turning.step {F stack s0 s w0 w x} (h : Turning Γ θ F stack s0 w0 s w) (hx : F x) :
    Turning Γ θ F stack s0 w0 s (w.step (.wrote x)) :=
  h.quiet fun _ he => ⟨x,List.mem_singleton.1 he,hx⟩

variable {cx : Context} {st st₁ st₂ : State} {x : Marked} {loop : SumLoop} {stack : List Item}
  (hmark : mark cx e st = .ok (x,st₁)) (hnodup : (v::(e.binders++B)).Nodup)
  (hgen : ∀ b ∈ v::(e.binders++B), ¬ Generated b)
  (ih : Simulated M ((v,.int)::Γ) e)

include hmark hnodup hgen ih

theorem summand_follows {s w} (hagrees : Agrees (st.later (v::(e.binders++B))) s w stack)
    (hscope : InScope Γ θ (st.later (v::(e.binders++B))) s w) (m : Memory) :
    st.Before st₁ ∧ ∃ tr m', Exec M (resolveAll θ (x.steps++marks x.pending.all)) m tr m' ∧
      Follows (st₁.later B) e.binders s w ((scan e s).2.use (scan e s).1.pending.all) tr
        (x.item θ e.note (scan e s).1::stack) := by
  have hbinder := binder_of_nodup st hnodup hgen
  obtain ⟨hbefore,tr,m',hexec,hfollows⟩ := ih cx θ st st₁ x B s w stack hmark
    (List.nodup_cons.1 hnodup).2 (fun b hb => hgen b (mem_cons_of_mem _ hb))
    (hscope.int hbinder (hagrees.unbound hbinder.before)) (hagrees.mono hbinder.sub) m
  refine ⟨hbefore,_,m',?_,hfollows.use m'⟩
  rw [resolveAll_append]
  exact hexec.append (item_marks_exec x θ e.note (scan e s).1 m')

variable (hloop : st₂.nextVar = st₁.nextVar+1 ∧ st₁.nextIterator+1 ≤ st₂.nextIterator)
  {β : String → Option Int} (hadds : Instr.ConfinedAll
    (Made st₁.nextVar (st₁.nextIterator+1) st₂.nextVar st₂.nextIterator) β loop.adds)

include hloop hadds

theorem turn_follows {s0 s w0 w}
    (h : Turning Γ θ (st.later (v::(e.binders++B))) stack s0 w0 s w) (m : Memory) :
    ∃ tr m', Exec M (resolveAll θ (x.steps++marks x.pending.all++loop.adds.map .instr ++
        [.instr (increment (plain v))])) m tr m' ∧
      Turning Γ θ (st.later (v::(e.binders++B))) stack s0 w0 (s.turn e) (w.after tr) ∧
      ∀ y, .wrote y ∈ tr → ¬ st₂.later B y ∧ y ≠ iteratorName st₁.nextIterator := by
  obtain ⟨hagrees,hscope,hkept⟩ := h
  have hvgen := hgen v mem_cons_self
  have hvB : v ∉ B := fun hmem => (List.nodup_cons.1 hnodup).1 (mem_append_right _ hmem)
  have hBgen : ∀ b ∈ B, ¬ Generated b := fun b hb =>
    hgen b (mem_cons_of_mem _ (mem_append_right _ hb))
  have hvF : st.later (v::(e.binders++B)) v := .inr (.inr mem_cons_self)
  have hnext : st₁.Before st₂ := ⟨by omega,by omega⟩
  obtain ⟨hbefore,tr1,m1,hexec1,hfollows⟩ :=
    summand_follows hmark hnodup hgen ih hagrees hscope m
  obtain ⟨hforgot,hkept1⟩ := hagrees.forget
    (fun y hy => .inr (.inr (mem_cons_of_mem _ (List.mem_append_left _ hy))))
    hfollows.agrees hfollows.kept
  -- the additions write variables of the loop only
  obtain ⟨tr2,m2,hexec2,htr2,-⟩ := confinedAll_runs M _ (confinedAll_resolve hscope.plain
    (fun y hy hm => (hscope.names y hy).1 hm.generated) hadds) m1
  obtain ⟨m3,hexec3⟩ :=
    assign_exec (M := M) (fun hmem => (hscope.names v hmem).2 hvF) (inc (plain v)) m2
  have hquiet : ∀ ev ∈ tr2++[.wrote v], ∃ y, ev = .wrote y ∧ st.later (v::(e.binders++B)) y := by
    intro ev hev
    rcases List.mem_append.1 hev with hev | hev
    · obtain ⟨y,hy,rfl⟩ := htr2 ev hev
      exact ⟨y,rfl,Later.mono hbefore.1 (by have := hbefore.2; omega) (fun _ => id)
        (hy.later (v::(e.binders++B)))⟩
    · exact ⟨v,List.mem_singleton.1 hev,hvF⟩
  have hturning : Turning Γ θ (st.later (v::(e.binders++B))) stack s0 w0 (s.turn e) (w.after tr1) :=
    ⟨hforgot,hscope.kept (by simp) (fun _ => id) hkept1,hkept.trans hkept1⟩
  refine ⟨tr1++(tr2++[.wrote v]),m3,?_,?_,fun y hy => ?_⟩
  · rw [resolveAll_append, resolveAll_append, resolveAll_instr, append_assoc]
    exact hexec1.append (hexec2.append hexec3)
  · rw [Watch.after_append]
    exact hturning.quiet hquiet
  · rcases List.mem_append.1 hy with hy | hy
    · have hnot := hfollows.writes y hy
      refine ⟨fun hlater => hnot (hnext.later (fun _ => id) y hlater),?_⟩
      rintro rfl
      exact hnot (.inr (.inl ⟨_,le_rfl,rfl⟩))
    rcases List.mem_append.1 hy with hy | hy
    · obtain ⟨z,hz,hzy⟩ := htr2 _ hy
      obtain rfl := Event.wrote.inj hzy
      refine ⟨hz.not_later hBgen,?_⟩
      rintro rfl
      rcases hz with ⟨n,-,-,hn⟩ | ⟨n,hn,-,hname⟩
      · exact variableName_ne_iteratorName n _ hn.symm
      · have := iteratorName_inj hname
        omega
    · obtain rfl : y = v := by simpa using hy
      exact ⟨State.not_later hvgen hvB,fun heq => hvgen ⟨_,.inr heq⟩⟩

end Sum

theorem marked_resolve {θ} {loop : SumLoop} {v o i} {n} {x}
    (hout : loop.out = plain o) (ho : o ∉ θ.names) (hiterator : loop.iterator = plain i)
    (hi : i ∉ θ.names) (hturns : loop.turns = .int n) :
    resolveAll θ (loop.marked v x) = .instr (.clear (plain o) loop.cells) ::
      (resolveAll θ [.instr (.assign (plain v) loop.first)] ++
        [.loop (plain i) 0 (lt (plain i) (.int n)) (resolveAll θ (x.steps ++
          marks x.pending.all++loop.adds.map .instr++[.instr (increment (plain v))]))]) := by
  simp only [SumLoop.marked, resolveAll, List.map_cons, map_nil, Step.resolve_instr,
    Step.resolve_loop, resolve_clear, hout, hiterator, hturns, resolve_plain ho, lt,
    resolve_compare, resolve_plain hi, resolve_int, List.cons_append, List.nil_append]

theorem declare_counters {name st st' u} (h : declare name t st = .ok (u,st')) :
    st'.nextVar = st.nextVar ∧ st'.nextIterator = st.nextIterator := by
  cases h
  exact ⟨rfl,rfl⟩

theorem simulated_sum {M} {Γ : Scope} {type} {v} {first last} {e}
    (ih : Simulated M ((v,.int)::Γ) e) : Simulated M Γ (.sum type v first last e) := by
  intro cx θ st st' x B s w stack hmark hnodup hgen hscope hagrees m
  obtain ⟨_,st0,hdeclare,hrest⟩ := run_bind.1 hmark
  obtain ⟨y,st₁,hy,hrest⟩ := run_bind.1 hrest
  obtain ⟨loop,st₂,hsum,hpure⟩ := run_bind.1 hrest
  obtain ⟨rfl,rfl⟩ := run_pure.1 hpure
  obtain ⟨hv,hi⟩ := declare_counters hdeclare
  rw [← State.later_eq hv hi] at hscope hagrees
  obtain ⟨hvar,hiter,hiterator,hout,-,hturns,hadds⟩ :=
    lowerSum_sums cx type y.term first last st₁ loop _ rfl hsum
  obtain ⟨β,hadds⟩ := hadds.own.code
  change st'.nextVar = st₁.nextVar+1 at hvar
  change st₁.nextIterator+1 ≤ st'.nextIterator at hiter
  obtain ⟨hbefore,-⟩ := summand_follows hy hnodup hgen ih hagrees hscope m
  have hnext : st₁.Before st' := ⟨by omega,by omega⟩
  have hBgen : ∀ b ∈ B, ¬ Generated b := fun b hb =>
    hgen b (mem_cons_of_mem _ (mem_append_right _ hb))
  have hvF : st0.later (v::(e.binders++B)) v := .inr (.inr mem_cons_self)
  have hvB : v ∉ B := fun hmem => (List.nodup_cons.1 hnodup).1 (mem_append_right _ hmem)
  have hgenerated : ∀ z, Generated z → z ∉ θ.names := fun z hz hmem => (hscope.names z hmem).1 hz
  -- the variables of the result and of the loop are made after the summand
  have hresult : Made st₁.nextVar st₁.nextIterator st'.nextVar st'.nextIterator
      (variableName st₁.nextVar) := made_var le_rfl (by omega)
  have hcounter : Made st₁.nextVar st₁.nextIterator st'.nextVar st'.nextIterator
      (iteratorName st₁.nextIterator) := .inr ⟨_,le_rfl,by omega,rfl⟩
  have hlater : ∀ z, Made st₁.nextVar st₁.nextIterator st'.nextVar st'.nextIterator z →
      st0.later (v::(e.binders++B)) z := fun z hz =>
    Later.mono hbefore.1 hbefore.2 (fun _ => id) (hz.later _)
  have hstart : Turning Γ θ (st0.later (v::(e.binders++B))) stack s w s
      ((w.step (.wrote (variableName st₁.nextVar))).step (.wrote v)) :=
    (Turning.step ⟨hagrees,hscope,.refl s w⟩ (hlater _ hresult)).step hvF
  obtain ⟨m1,hexec1⟩ := assign_exec (M := M) (fun hmem => (hscope.names v hmem).2 hvF) loop.first
    ((plain (variableName st₁.nextVar)).wipe m)
  obtain ⟨tr,m2,hexec2,⟨hagrees2,-,hkept2⟩,hwrites2⟩ := loop_follows (n := last-first)
    (P := Turning Γ θ (st0.later (v::(e.binders++B))) stack s w)
    (W := fun z => ¬ st'.later B z) (hcounter.not_later hBgen)
    (fun s w h => h.step (hlater _ hcounter))
    (fun s w m h => turn_follows hy hnodup hgen ih ⟨hvar,hiter⟩ hadds h m)
    (last-first).toNat 0 (by simp) s _ m1 hstart
  have hstands := hagrees2.fresh (hlater _ hresult) (hresult.not_later hBgen) false type
  refine ⟨⟨hv ▸ (hbefore.trans hnext).1,hi ▸ (hbefore.trans hnext).2⟩,
    .wrote (variableName st₁.nextVar) :: .wrote v::tr,m2,?_,?_,?_,fun z hz => ?_⟩
  · rw [marked_resolve hout (hgenerated _ ⟨_,.inl rfl⟩) hiterator (hgenerated _ ⟨_,.inr rfl⟩)
      hturns]
    exact .clear (hexec1.append hexec2)
  · rw [Marked.item, hout, resolve_plain (hgenerated _ ⟨_,.inl rfl⟩)]
    exact (hagrees2.mono fun z hz => (hbefore.trans hnext).later (fun b hb =>
      mem_cons_of_mem _ (mem_append_right _ hb)) z hz).push hstands.fits hstands.apart
  · exact hkept2.weaken (by simp)
  · rcases List.mem_cons.1 hz with heq | hz
    · rw [Event.wrote.inj heq]
      exact hresult.not_later hBgen
    rcases List.mem_cons.1 hz with heq | hz
    · rw [Event.wrote.inj heq]
      exact State.not_later (hgen v mem_cons_self) hvB
    · exact hwrites2 z hz

section Bind

variable {M : Machine} {Γ : Scope} {type : Ty} {v : String} {d e : Expr Ty}
variable {t value : Term} {st' : State}

theorem mark_bind_tensor (h : d.note ≠ .int) (cx : Context) : mark cx (.bind type v d e) = do
    let x ← mark cx d
    let value ← bindTensor v d x.term
    let y ← mark cx e
    let r ← replacementOf value
    return ⟨x.steps++marks x.pending.all++[.bound v value.inMemory] ++
      Step.substAll v r y.steps,y.term.subst v r,
      y.pending.map fun p => (p.1,p.2.subst v r)⟩ := by
  refine bind_congr fun x => ?_
  split
  · exact absurd (by assumption) h
  · rfl

theorem scan_bind_tensor (h : d.note ≠ .int) (s : Scan) : scan (.bind type v d e) s =
    scan e (((scan d s).2.use (scan d s).1.pending.all).bind v (scan d s).1) := by
  rw [scan]
  split
  · exact absurd (by assumption) h
  · rfl

theorem definition_follows {cx θ st st₁ x B s w stack}
    (ih : Simulated M Γ d) (hmark : mark cx d st = .ok (x,st₁))
    (hnodup : (d.binders++v::(e.binders++B)).Nodup)
    (hgen : ∀ b ∈ d.binders++v::(e.binders++B), ¬ Generated b)
    (hscope : InScope Γ θ (st.later (d.binders++v::(e.binders++B))) s w)
    (hagrees : Agrees (st.later (d.binders++v::(e.binders++B))) s w stack) (m : Memory) :
    (st.Before st₁ ∧ Binder (st₁.later (v::(e.binders++B))) (st₁.later (e.binders++B)) v ∧
      (e.binders++B).Nodup ∧ ∀ b ∈ e.binders++B, ¬ Generated b) ∧
    ∃ tr m', Exec M (resolveAll θ (x.steps++marks x.pending.all)) m tr m' ∧
      InScope Γ θ (st₁.later (v::(e.binders++B)))
        ((scan d s).2.use (scan d s).1.pending.all) (w.after tr) ∧
      Follows (st₁.later (v::(e.binders++B))) d.binders s
        w ((scan d s).2.use (scan d s).1.pending.all) tr
        (x.item θ d.note (scan d s).1::stack) := by
  obtain ⟨hbefore,tr,m',hexec,hfollows⟩ :=
    ih cx θ st st₁ x _ s w stack hmark hnodup hgen hscope hagrees m
  have hused := hfollows.use m'
  have hnodup' := hnodup.of_append_right
  have hgen' : ∀ b ∈ v::(e.binders++B), ¬ Generated b := fun b hb =>
    hgen b (mem_append_right _ hb)
  refine ⟨⟨hbefore,binder_of_nodup st₁ hnodup' hgen',(List.nodup_cons.1 hnodup').2,
    (List.forall_mem_cons.1 hgen').2⟩,_,m',?_,?_,hused⟩
  · rw [resolveAll_append]
    exact hexec.append (item_marks_exec x θ d.note (scan d s).1 m')
  · exact hscope.kept (fun y hy => .inr (.inr (List.mem_append_left _ hy)))
      (hbefore.later fun b hb => mem_append_right _ hb) hused.kept

theorem Follows.weaken {F N N' s s' w tr stack} (hN : ∀ x ∈ N, x ∈ N')
    (h : Follows F N s w s' tr stack) : Follows F N' s w s' tr stack :=
  ⟨h.agrees,h.kept.weaken hN,h.writes⟩

theorem simulated_bind_int (hnote : d.note = .int) (ihd : Simulated M Γ d)
    (ihe : Simulated M ((v,d.note)::Γ) e) : Simulated M Γ (.bind e.note v d e) := by
  intro cx θ st st' x B s w stack hmark hnodup hgen hscope hagrees m
  obtain ⟨y,st₁,hy,hrest⟩ := run_bind.1 hmark
  rw [hnote] at hrest
  obtain ⟨_,st₂,hdeclare,hrest⟩ := run_bind.1 hrest
  obtain ⟨z,st3,hz,hpure⟩ := run_bind.1 hrest
  obtain ⟨rfl,rfl⟩ := run_pure.1 hpure
  obtain ⟨hv,hi⟩ := declare_counters hdeclare
  have hsame := State.later_eq hv hi
  rw [Expr.binders, append_assoc] at hnodup hgen hscope hagrees
  obtain ⟨⟨hbefore1,hbinder,hinner⟩,tr1,m1,hexec1,hscope1,hfollows1⟩ :=
    definition_follows ihd hy hnodup hgen hscope hagrees m
  -- the variable of the integer is written
  obtain ⟨m2,hexec2⟩ :=
    assign_exec (M := M) (fun hmem => (hscope1.names v hmem).2 hbinder.before) y.term m1
  have hquiet : ∀ ev ∈ [Event.wrote v], ∃ u, ev = .wrote u ∧ st₁.later (v::(e.binders++B)) u :=
    fun ev hev => ⟨v,List.mem_singleton.1 hev,hbinder.before⟩
  obtain ⟨hagrees2,hkept2⟩ := hfollows1.agrees.pop.quiet hquiet
  have hscope2 := (hscope1.kept (by simp) (fun _ => id) hkept2).int hbinder
    (hagrees2.unbound hbinder.before)
  have hfollows2 := hfollows1.append hbinder.sub
    ⟨hagrees2.mono hbinder.sub,hkept2,by simpa using hbinder.after⟩
  rw [← Watch.after_append, ← hnote, ← hsame] at hscope2
  obtain ⟨hbefore3,tr3,m3,hexec3,hfollows3⟩ := ihe cx θ st₂ st' z B _ _ stack hz hinner.1 hinner.2
    hscope2 (by rw [hsame]; exact hfollows2.agrees) m2
  have hbefore : st₁.Before st' := ⟨hv ▸ hbefore3.1,hi ▸ hbefore3.2⟩
  refine ⟨hbefore1.trans hbefore,tr1++[.wrote v]++tr3,m3,?_,?_⟩
  · rw [resolveAll_append, resolveAll_append]
    exact (hexec1.append hexec2).append hexec3
  · simp only [scan, hnote]
    exact (hfollows2.append (hbefore.later fun b hb => mem_append_right _ hb)
      hfollows3).weaken (by simp only [Expr.binders, List.mem_append]; tauto)

theorem bindTensor_counters {st} (h : bindTensor v d t st = .ok (value,st')) :
    st'.nextVar = st.nextVar ∧ st'.nextIterator = st.nextIterator := by
  have hends : Ends st.tally (bindTensor v d t >>= pure) fun b' _ =>
      b'.nextVar = st.tally.nextVar ∧ b'.nextIterator = st.tally.nextIterator := by
    generalize st.tally = b
    cases hd : d.isDecl with
    | true => exact ends_bindTensor_model hd (ends_pure ⟨rfl,rfl⟩)
    | false => exact ends_bindTensor hd (ends_pure ⟨rfl,rfl⟩)
  rw [bind_pure] at hends
  exact hends st value st' rfl h

theorem bindTensor_value {st} (h : bindTensor v d t st = .ok (value,st')) :
    value = if d.isDecl then .var v [] true else t := by
  obtain ⟨p,st₁,-,hrest⟩ := run_bind.1 h
  obtain ⟨a,st3,-,hrest⟩ := run_bind.1 hrest
  obtain ⟨_,st4,-,hrest⟩ := run_bind.1 hrest
  by_cases hdecl : d.isDecl = true
  · rw [if_pos hdecl] at hrest ⊢
    obtain ⟨_,st6,-,hpure⟩ := run_bind.1 hrest
    exact (run_pure.1 hpure).1
  · rw [if_neg hdecl] at hrest ⊢
    exact (run_pure.1 hrest).1

theorem replacementOf_ok {r st}
    (h : replacementOf t st = .ok (r,st')) : t.replacement? = some r ∧ st' = st := by
  unfold replacementOf at h
  cases hr : t.replacement? with
  | none => rw [hr] at h; cases h
  | some r' =>
    rw [hr] at h
    obtain ⟨rfl,rfl⟩ := run_pure.1 h
    exact ⟨rfl,rfl⟩

theorem bindable_item {F s w it stack}
    (h : Agrees F s w (it::stack)) (htype : it.type ≠ .int) (v : String) :
    Bindable F s w stack v it.term.inMemory it.held := by
  have hfits := h.items it mem_cons_self
  have hapart := (List.pairwise_cons.1 h.apart).1
  refine ⟨fun o ho => ?_,fun hroot => ?_,fun o x ho hx => ?_,hfits.known.2,fun e he hroot hn x hx =>
    ?_⟩
  · obtain ⟨howner,x,hx,ht⟩ := hfits.lies o ho
    exact ⟨howner,x,hx,by rw [root_inMemory, ht]⟩
  · obtain ⟨n,hn,hplaces⟩ := hfits.hidden hroot htype
    exact ⟨_,by rw [root_inMemory, hn],.inr ⟨n,rfl⟩,hplaces,fun e he =>
      (hapart e he).1 hroot htype _ hn⟩
  · rw [mentions_inMemory]
    exact hfits.reads o x ho hx
  · rw [mentions_inMemory]
    exact (hapart e he).2 hroot hn x hx

theorem bindable_decl {F s w stack}
    (h : Agrees F s w stack) {v} (hv : F v) : Bindable F s w stack v (plain v) {} := by
  refine ⟨nofun,fun _ => ⟨v,rfl,.inl rfl,fun _ _ _ => h.unplaced hv,fun it hit =>
    (h.items it hit).known.1 v hv⟩,reads_variable fun o ho hx => (h.owned ho hx).1 hv,nofun,
    fun it hit _ _ x hx => ?_⟩
  rw [← Bool.not_eq_true, plain, mentions_variable]
  rintro rfl
  exact (h.items it hit).known.root hx hv

theorem bound_value {F} {s} {w} {stack} {θ} {x : Marked} {held} (hθ : θ.Plain)
    (hvalue : value = if d.isDecl then .var v [] true else x.term)
    (hheld : d.isDecl = true → held = {})
    (h : Agrees F s w (x.item θ d.note held::stack)) (hnote : d.note ≠ .int) (hv : F v)
    (hvθ : v ∉ θ.names) : (∃ name index inFlash, value = .var name index inFlash) ∧
      Bindable F s w stack v (value.inMemory.resolve θ) held ∧
      ∀ u, F u → u ≠ v → (value.inMemory.resolve θ).mentions u = false := by
  cases hdecl : d.isDecl with
  | true =>
    rw [hdecl, if_pos rfl] at hvalue
    subst hvalue
    rw [hheld hdecl]
    refine ⟨⟨_,_,_,rfl⟩,?_,fun u _ hu => ?_⟩
    · rw [Term.inMemory, resolve_var hvθ]
      exact bindable_decl h.pop hv
    · rw [Term.inMemory, resolve_var hvθ, ← Bool.not_eq_true, map_nil, mentions_variable]
      exact hu.symm
  | false =>
    rw [hdecl] at hvalue
    subst hvalue
    have hfits := h.items _ mem_cons_self
    refine ⟨?_,?_,fun u hu _ => ?_⟩
    · obtain ⟨y,hy⟩ := hfits.root hnote
      cases hterm : x.term with
      | var name index inFlash => exact ⟨_,_,_,rfl⟩
      | _ =>
        rw [Marked.item, hterm, root_resolve_none hθ rfl] at hy
        cases hy
    · rw [resolve_inMemory hθ]
      exact bindable_item h hnote v
    · rw [resolve_inMemory hθ, mentions_inMemory]
      exact hfits.known.1 u hu

theorem item_subst (z : Marked) (steps : List Step) (v : String) (r : Replacement) (θ : Renaming)
    (type : Ty) (held : Held) :
    Marked.item ⟨steps,z.term.subst v r,z.pending.map fun p => (p.1,p.2.subst v r)⟩ θ type held =
      z.item ((v,r)::θ) type held := by
  simp [Marked.item, Pending.map, placed, Term.resolve_cons]

theorem scan_decl (h : d.isDecl = true) (s : Scan) : (scan d s).1 = {} := by
  cases d with
  | decl => rfl
  | _ => cases h

theorem simulated_bind_tensor (hnote : d.note ≠ .int) (ihd : Simulated M Γ d)
    (ihe : Simulated M ((v,d.note)::Γ) e) : Simulated M Γ (.bind e.note v d e) := by
  intro cx θ st st' x B s w stack hmark hnodup hgen hscope hagrees m
  rw [mark_bind_tensor hnote] at hmark
  obtain ⟨y,st₁,hy,hrest⟩ := run_bind.1 hmark
  obtain ⟨value,st₂,hbound,hrest⟩ := run_bind.1 hrest
  obtain ⟨z,st3,hz,hrest⟩ := run_bind.1 hrest
  obtain ⟨r,st4,hr,hpure⟩ := run_bind.1 hrest
  obtain ⟨rfl,rfl⟩ := run_pure.1 hpure
  obtain ⟨hreplace,rfl⟩ := replacementOf_ok hr
  obtain ⟨hv,hi⟩ := bindTensor_counters hbound
  have hsame := State.later_eq hv hi
  rw [Expr.binders, append_assoc] at hnodup hgen hscope hagrees
  obtain ⟨⟨hbefore1,hbinder,hinner⟩,tr1,m1,hexec1,hscope1,hfollows1⟩ :=
    definition_follows ihd hy hnodup hgen hscope hagrees m
  -- the name is bound to the place of the value
  obtain ⟨⟨name,index,inFlash,rfl⟩,hbindable,hmentions⟩ := bound_value hscope1.plain
    (bindTensor_value hbound) (fun hdecl => scan_decl hdecl s) hfollows1.agrees hnote
    hbinder.before fun hmem => (hscope1.names v hmem).2 hbinder.before
  obtain rfl := Option.some.inj hreplace
  have hplace : (plain v).resolve ((v,.var name index inFlash)::θ) =
      (Term.var name index inFlash).inMemory.resolve θ := by
    rw [Term.resolve_cons]
    simp [plain, Term.subst, Term.substAll, Replacement.at, Term.inMemory]
  have hagrees2 := Agrees.bind (m := m1) hbindable hfollows1.agrees.pop hbinder.before
    hbinder.after hbinder.sub fun u hu => hmentions u (hbinder.sub u hu) (by
      rintro rfl
      exact hbinder.after hu)
  have hscope2 : InScope ((v,d.note)::Γ) ((v,.var name index inFlash)::θ) (st₂.later (e.binders++B))
      (((scan d s).2.use (scan d s).1.pending.all).bind v (scan d s).1)
      (w.after (tr1++[.bound v ((Term.var name index inFlash).inMemory.resolve θ) m1])) := by
    rw [hsame, Watch.after_append]
    exact hscope1.tensor (m := m1) hbinder hnote rfl hplace
  have hexec2 : Exec M (resolveAll θ [.bound v (Term.var name index inFlash).inMemory]) m1
      [.bound v ((Term.var name index inFlash).inMemory.resolve θ) m1] m1 := by
    rw [resolveAll, List.map_singleton, Step.resolve_bound]
    exact .bound .nil
  have hstep : Follows (st₁.later (e.binders++B)) [v]
      ((scan d s).2.use (scan d s).1.pending.all) (w.after tr1)
      (((scan d s).2.use (scan d s).1.pending.all).bind v (scan d s).1)
      [.bound v ((Term.var name index inFlash).inMemory.resolve θ) m1] stack :=
    ⟨hagrees2,bind_kept (m := m1),by simp⟩
  have hfollows2 := hfollows1.append hbinder.sub hstep
  obtain ⟨hbefore3,tr3,m3,hexec3,hfollows3⟩ := ihe cx _ st₂ st' z B _ _ stack hz hinner.1 hinner.2
    hscope2 (by rw [hsame]; exact hfollows2.agrees) m1
  have hbefore : st₁.Before st' := ⟨hv ▸ hbefore3.1,hi ▸ hbefore3.2⟩
  refine ⟨hbefore1.trans hbefore,
    tr1++[.bound v ((Term.var name index inFlash).inMemory.resolve θ) m1]++tr3,m3,?_,?_⟩
  · rw [resolveAll_append, resolveAll_append, ← Step.resolveAll_cons]
    exact (hexec1.append hexec2).append hexec3
  · rw [scan_bind_tensor hnote, item_subst]
    exact (hfollows2.append (hbefore.later fun b hb => mem_append_right _ hb)
      hfollows3).weaken (by simp only [Expr.binders, List.mem_append, List.mem_cons]; tauto)

end Bind

/-- The code of a typed program runs to its end, and its scan agrees with the watch over the
run. -/
theorem typed_simulated (M : Machine) {Γ e} (h : Typed Γ e) : Simulated M Γ e := by
  refine typed_induction (motive := Simulated M) (simulated_int _) (fun {_ _ t} found => ?_)
    (fun _ _ hop ih => simulated_operation hop ih) simulated_sum (fun {_ _ d _} _ ihd ihe => ?_) h
  · by_cases ht : t = .int
    · subst ht
      exact simulated_name_int found
    · exact simulated_name found ht
  · by_cases hnote : d.note = .int
    · exact simulated_bind_int hnote ihd ihe
    · exact simulated_bind_tensor hnote ihd ihe

end MicroLearn.Lower
