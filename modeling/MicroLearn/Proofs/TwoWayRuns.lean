import MicroLearn.Proofs.Unrolling

/-!
# Runs in both directions

A layer of both directions joins the states of two runs in the order in which they were computed:
beside the state after the inputs up to a time stands the state after as many inputs from the last
one back. Only in the middle of a sequence, or where these states happen to agree, it is the state
after the inputs from the last one back to that time. A second cell for the way back is refused.
-/

set_option autoImplicit false

namespace MicroLearn.Bench

open Bag.Work (after after_bind)
open Net (CellKind Layout Memory finalState inOrder table)
open List (range replicate)
open Net

structure TwoWay (s : Store) (layer run cell reverse : Nat) (batchFirst : Bool) : Prop where
  unrolled : field s layer "unrolled" = some (.part run)
  ahead : field s run "cell" = some (.part cell)
  behind : field s run "reverseCell" = some (.part reverse)
  both : field s run "bidirectional" = some (.truth true)
  layout : field s run "batchFirst" = some (.truth batchFirst)
  apart : run ≠ cell ∧ run ≠ reverse

namespace RunFrame

variable {f : RunFrame}

def blank (f : RunFrame) : Memory Float :=
  ⟨replicate f.width 0.0,if f.isLong then replicate f.width 0.0 else []⟩

/-- The state of a cell behind the inputs of some times. -/
def stateAfter (f : RunFrame) (net : Cell Float) (input : Nat → List Float) (times : List Nat) :
    Memory Float := finalState net.step f.blank (times.map input)

/-- The first `n` times from the last one back. -/
def lastTimes (f : RunFrame) (n : Nat) : List Nat := (range n).map (f.times-1 - ·)

def outputAt (f : RunFrame) (there back : Cell Float) (input : Nat → Nat → List Float) (t b : Nat) :
    List Float × List Float :=
  joinMemories (f.stateAfter there (input · b) (range (t+1)))
    (f.stateAfter back (input · b) (f.lastTimes (t+1)))

/-- The same beside the state after the inputs from the last one back to that time. -/
def alignedAt (f : RunFrame) (there back : Cell Float) (input : Nat → Nat → List Float)
    (t b : Nat) : List Float × List Float :=
  joinMemories (f.stateAfter there (input · b) (range (t+1)))
    (f.stateAfter back (input · b) (f.lastTimes (f.times-t)))

theorem outputAt_eq_alignedAt_iff (there back : Cell Float) (input : Nat → Nat → List Float)
    (t b : Nat) : f.outputAt there back input t b = f.alignedAt there back input t b ↔
      f.stateAfter back (input · b) (f.lastTimes (t+1)) =
        f.stateAfter back (input · b) (f.lastTimes (f.times-t)) := by
  simp only [outputAt, alignedAt, joinMemories, Prod.mk.injEq, List.append_cancel_left_eq]
  generalize f.stateAfter back (input · b) (f.lastTimes (t+1)) = m
  generalize f.stateAfter back (input · b) (f.lastTimes (f.times-t)) = n
  cases m
  cases n
  simp

end RunFrame

/-- Work that comes to its end and builds no part. -/
class Ends (α : Type) (m : Bench α) : Prop where
  ends : ∀ s, ∃ a t, after m s = (.ok a,t) ∧ t.parts.size = s.parts.size

section Ends

variable {α β : Type}

instance (a : α) : Ends α (pure a) := ⟨fun s => ⟨a,s,rfl,rfl⟩⟩

instance ends_bind (m : Bench α) (f : α → Bench β) [hm : Ends α m] [hf : ∀ a, Ends β (f a)] :
    Ends β (m >>= f) where
  ends s := by
    obtain ⟨a,t,hrun,hsize⟩ := hm.ends s
    obtain ⟨b,u,hrun',hsize'⟩ := (hf a).ends t
    exact ⟨b,u,(after_of_bind hrun).trans hrun',hsize'.trans hsize⟩

instance (p : Nat) (name : String) (v : Value) : Ends Unit (setField p name v) :=
  ⟨fun _ => ⟨(),_,rfl,Array.size_setIfInBounds⟩⟩

instance (g : Grid) : Ends Value (tensor g) := ⟨fun _ => ⟨_,_,rfl,rfl⟩⟩

instance : Ends Nat draw := ⟨fun _ => ⟨_,_,rfl,rfl⟩⟩

instance ends_mapM (xs : List β) (f : β → Bench α) [hf : ∀ x, Ends α (f x)] :
    Ends (List α) (xs.mapM f) := by
  induction xs with
  | nil => rw [List.mapM_nil]; infer_instance
  | cons x xs ih => rw [List.mapM_cons]; infer_instance

instance ends_forM (xs : List β) (f : β → Bench Unit) [hf : ∀ x, Ends Unit (f x)] :
    Ends Unit (xs.forM f) := by
  induction xs with
  | nil => exact inferInstanceAs (Ends Unit (pure ()))
  | cons x xs ih => exact ends_bind (f x) fun _ => xs.forM f

instance (scale : Float) (shape : List Nat) : Ends Value (drawTensor scale shape) := by
  unfold drawTensor draws drawCentred tensorOf
  infer_instance

end Ends

def rankValue : Option Nat → Value
  | none => .none
  | some r => .int r

/-- A plan of whole sizes, with numbers for the scalar weights. -/
structure Sound (plan : CellPlan) : Prop where
  input : ∃ n : Nat, plan.inputSize = .int n
  hidden : ∃ n : Nat, plan.hiddenSize = .int n
  inputRank : ∃ r, plan.inputRank = rankValue r
  stateRank : ∃ r, plan.stateRank = rankValue r
  scalars : ∀ v ∈ plan.scalars, ∃ x, v = .real x

theorem after_rankOf (s : Store) (r : Option Nat) : after (rankOf (rankValue r)) s = (.ok r,s) := by
  cases r <;> rfl

theorem setScalars_ends (p : Nat) {values} (h : ∀ e ∈ values, ∃ x, e.2 = .real x) :
    Ends Unit (setScalars p values) := by
  induction values with
  | nil => exact inferInstanceAs (Ends Unit (pure ()))
  | cons e values ih =>
    rw [List.forall_mem_cons] at h
    obtain ⟨x,hx⟩ := h.1
    have hreal : Ends Float (realOf e.2) := ⟨fun s => ⟨x,s,by rw [hx]; rfl,rfl⟩⟩
    have hrest := ih h.2
    unfold setScalars tensorOf
    exact @ends_bind _ _ _ _ inferInstance fun _ => hrest

theorem fillCell_ends {plan} (h : Sound plan) (p : Nat) (wRank uRank : Option Nat) :
    Ends Unit (fillCell p plan wRank uRank) := by
  have hsize : ∀ v, (∃ n : Nat, v = .int n) → Ends Nat (natOf v) := by
    rintro v ⟨n,rfl⟩
    exact ⟨fun s => ⟨n,s,rfl,rfl⟩⟩
  have hinput := hsize _ h.input
  have hhidden := hsize _ h.hidden
  have hscalars : Ends Unit (setScalars p ((CellNames.scalars plan.kind).zip plan.scalars)) :=
    setScalars_ends p fun e he => h.scalars _ (List.of_mem_zip he).2
  unfold fillCell drawMatrices tensorOf
  infer_instance

def built (s : Store) (kind : Kind) (fields : List (String × Value)) : Store :=
  { s with parts := s.parts.push ⟨kind,fields⟩ }

theorem after_build (s : Store) (kind : Kind) (fields : List (String × Value)) :
    after (build kind fields) s = (.ok s.parts.size,built s kind fields) := rfl

theorem buildCell_ends {plan : CellPlan} (h : Sound plan) (s : Store) :
    ∃ t, after (buildCell plan) s = (.ok s.parts.size,t) ∧ t.parts.size = s.parts.size+1 := by
  obtain ⟨wRank,hw⟩ := h.inputRank
  obtain ⟨uRank,hu⟩ := h.stateRank
  have hfilled : ∀ kind fields, ∃ t,
    after (fillCell s.parts.size plan wRank uRank) (built s kind fields) =
      (.ok (),t) ∧ t.parts.size = s.parts.size+1 := by
    intro kind fields
    obtain ⟨_,t,hrun,hsize⟩ := (fillCell_ends h s.parts.size wRank uRank).ends (built s kind fields)
    exact ⟨t,hrun,hsize.trans (Array.size_push _)⟩
  rw [buildCell, hw, hu, after_of_bind (after_rankOf s wRank), after_of_bind (after_rankOf s uRank)]
  simp only [after_of_bind (after_build ..)]
  refine (hfilled _ _).imp fun t ht => ⟨after_of_bind ht.1,ht.2⟩

theorem field_built (s : Store) (kind : Kind) (fields : List (String × Value)) (q : Nat)
    (name : String) :
    field (built s kind fields) q name =
      if q = s.parts.size then fields.lookup name else field s q name := by
  rw [field, built, Array.getElem?_push]
  split <;> rfl

section Layers

variable {plan : CellPlan} (h : Sound plan) (kind : CellKind) (batchFirst : Bool) (s : Store)
include h

theorem buildLayer_shared : ∃ layer run cell t,
    after (buildLayer kind plan (.truth batchFirst) (.truth true) (.truth true)) s = (.ok layer,t) ∧
      TwoWay t layer run cell cell batchFirst := by
  obtain ⟨t,hcell,hsize⟩ := buildCell_ends h s
  let fields : List (String × Value) :=
    [("cell",.part s.parts.size), ("batchFirst",.truth batchFirst), ("bidirectional",.truth true)]
  let t1 := built t .run fields
  let t2 := (after (setField t.parts.size "reverseCell" (.part s.parts.size)) t1).2
  have hrun : t.parts.size < t1.parts.size := by simp [t1, built]
  have hsize2 : t2.parts.size = t1.parts.size := Array.size_setIfInBounds
  refine ⟨t2.parts.size,t.parts.size,s.parts.size,built t2 (.layer kind)
    [("bidirectional",.truth true), ("batchFirst",.truth batchFirst), ("shared",.truth true),
      ("cell",.part s.parts.size), ("unrolled",.part t.parts.size)],?_,?_⟩
  · exact (after_of_bind hcell).trans ((after_of_bind (after_build t .run fields)).trans
      ((after_of_bind (a := true) (t := t1) rfl).trans
        ((after_of_bind (a := ()) (t := t2) rfl).trans
        (after_build t2 (.layer kind) _))))
  · have hne : t.parts.size ≠ t2.parts.size := by omega
    constructor <;> simp [field_built, hne, t2, field_setField, hrun, t1, fields, List.lookup]
    omega

theorem buildLayer_apart : ∃ t,
    after (buildLayer kind plan (.truth batchFirst) (.truth true) (.truth false)) s =
      (.error .wrongKind,t) := by
  obtain ⟨t,hcell,-⟩ := buildCell_ends h s
  let fields : List (String × Value) :=
    [("cell",.part s.parts.size), ("batchFirst",.truth batchFirst), ("bidirectional",.truth true)]
  let t1 := built t .run fields
  let t2 := (after (setField t.parts.size "reverseCell" (.part s.parts.size)) t1).2
  obtain ⟨t3,hsecond,-⟩ := buildCell_ends h t2
  refine ⟨t3,?_⟩
  exact (after_of_bind hcell).trans ((after_of_bind (after_build t .run fields)).trans
    ((after_of_bind (a := true) (t := t1) rfl).trans ((after_of_bind (a := ()) (t := t2) rfl).trans
      ((after_of_bind hsecond).trans rfl))))

end Layers

def layerArguments (inputs hidden : Nat) (gate update : Value) (wRank uRank : Option Nat)
    (batchFirst shared : Bool) : Arguments :=
  ⟨[.int inputs, .int hidden, gate, update, rankValue wRank, rankValue uRank],
    [("batchFirst",.truth batchFirst), ("bidirectional",.truth true), ("shared",.truth shared)]⟩

theorem newLayer_builds {kind} (hkind : kind ≠ .fast) (inputs hidden : Nat) (gate update : Value)
    (wRank uRank : Option Nat) (batchFirst shared : Bool) : ∃ plan, Sound plan ∧
      newLayer kind (layerArguments inputs hidden gate update wRank uRank batchFirst shared) =
        buildLayer kind plan (.truth batchFirst) (.truth true) (.truth shared) := by
  refine ⟨⟨kind,.int inputs,.int hidden,gate,update,rankValue wRank,rankValue uRank,.real 1.0,
    .real 1.0,
    if kind = .fastGated then [.real 1.0, .real (-4.0)]
      else [],.text (CellNames.family kind)⟩,?_,?_⟩
  · refine ⟨⟨inputs,rfl⟩,⟨hidden,rfl⟩,⟨wRank,rfl⟩,⟨uRank,rfl⟩,?_⟩
    intro v hv
    dsimp only at hv
    split at hv
    · simp only [List.mem_cons, List.not_mem_nil, or_false] at hv
      rcases hv with rfl | rfl
      · exact ⟨_,rfl⟩
      · exact ⟨_,rfl⟩
    · simp at hv
  · cases kind with
    | fast => exact absurd rfl hkind
    | fastGated | longShort | gated | updateGated => rfl

/-- A layer of both directions is built if they share a cell, and refused if not. Over any batch it
gives at a time the state after the inputs up to this time, and beside it the state of the way back
after as many inputs; this is the state after the inputs from the last one back to this time exactly
if the way back has the same state there, as it has in the middle of the sequence. -/
theorem two_way_layers (s : Store) (batchFirst : Bool) :
    (∀ (kind : CellKind) (inputs hidden : Nat) (gate update : Value) (wRank uRank : Option Nat),
        kind ≠ .fast →
      (∃ layer run cell t,
        after (newLayer kind (layerArguments inputs hidden gate update wRank uRank
          batchFirst true)) s = (.ok layer,t) ∧ TwoWay t layer run cell cell batchFirst) ∧
      ∃ t, after (newLayer
        kind (layerArguments inputs hidden gate update wRank uRank batchFirst false)) s =
        (.error .wrongKind,t)) ∧
    ∀ (layer run cell reverse first second n width : Nat) (kind : CellKind)
        (there back : Net.Cell Float) (x : Value) (g : Grid),
      TwoWay s layer run cell reverse batchFirst → CellReads s cell kind width there →
      after (netCell Net.Activation.unknown reverse) s = (.ok back,s) →
      after (gridOf x) s = (.ok g,s) → g.shape = [first, second, n] →
      let f := frameFor batchFirst first second n width kind
      f.Fits there → f.Fits back →
      let input := inOrder f.layout (vectorAt g.body)
      (∃ v t, after (forwardLayer layer x .none .none) s = (.ok v,t) ∧ f.Gives t v (2*width)
        (table first second (inOrder f.layout (f.outputAt there back input))).flatten) ∧
      ∀ t b, (f.outputAt there back input t b = f.alignedAt there back input t b ↔
          f.stateAfter back (input · b) (f.lastTimes (t+1)) =
            f.stateAfter back (input · b) (f.lastTimes (f.times-t))) ∧
        (2*t+1 = f.times → f.outputAt there back input t b = f.alignedAt there back input t b) := by
  refine ⟨?_,?_⟩
  · intro kind inputs hidden gate update wRank uRank hkind
    obtain ⟨plan,hplan,hshared⟩ :=
      newLayer_builds hkind inputs hidden gate update wRank uRank batchFirst true
    obtain ⟨plan',hplan',hapart⟩ :=
      newLayer_builds hkind inputs hidden gate update wRank uRank batchFirst false
    rw [hshared, hapart]
    exact ⟨buildLayer_shared hplan kind batchFirst s,buildLayer_apart hplan' kind batchFirst s⟩
  · intro layer run cell reverse first second n width kind there back x g h hthere hback hx hg f
      hfit hfit' input
    refine ⟨?_,fun t b =>
      ⟨RunFrame.outputAt_eq_alignedAt_iff there back input t b,fun hmiddle => ?_⟩⟩
    · let zeros : Nat → Nat → List Float := fun _ _ => replicate width 0.0
      let u : Unrolling :=
        ⟨batchFirst,f.times,f.samples,n,width,kind,there,some back,input,zeros,zeros⟩
      have hframe : u.frame = f := by cases batchFirst <;> rfl
      have hheld : u.Held s run x .none .none := by
        refine ⟨h.layout,h.both,⟨cell,h.apart.1,h.ahead,hthere⟩,?_,⟨g,hx,?_,fun _ _ _ _ => ?_⟩,
          ⟨none,rfl,fun _ _ _ _ => ?_⟩,fun _ => ⟨none,rfl,fun _ _ _ _ => ?_⟩,?_⟩
        · rintro net ⟨⟩
          exact ⟨reverse,h.apart.2,h.behind,hback⟩
        · rw [hg, hframe]
          rfl
        all_goals rw [hframe]
        · rfl
        · rfl
        · rintro net (rfl | hnet)
          · exact hfit
          · exact Option.some.inj hnet ▸ hfit'
      have hout : u.output = f.outputAt there back input := by
        funext t b
        simp only [Unrolling.output, RunFrame.outputAt, RunFrame.stateAfter, RunFrame.lastTimes,
          List.map_map]
        rfl
      obtain ⟨v,t,hrun,hgives⟩ := hheld.gives
      rw [← Unrolling.table_frame, hframe, hout] at hgives
      refine ⟨v,t,?_,hgives⟩
      exact (after_of_bind (after_fieldOf h.unrolled)).trans
        ((after_of_bind (a := run) (t := s) rfl).trans hrun)
    · rw [RunFrame.outputAt_eq_alignedAt_iff, show f.times-t = t+1 by omega]

/-- Two inputs: the layer shows the states of the way back in the wrong order. -/
theorem two_way_layers_two_steps : let f := frameFor false 2 1 1 1 .gated
    let input := inOrder f.layout (vectorAt twoSteps.body)
    (∃ v t, after (forwardLayer 2 (.grid twoSteps) .none .none) meanStore = (.ok v,t) ∧
      f.Gives t v 2
      (table 2 1 (inOrder f.layout (f.outputAt meanCell meanCell input))).flatten) ∧
    f.outputAt meanCell meanCell input 0 0 ≠ f.alignedAt meanCell meanCell input 0 0 ∧
    ∃ t, after (newLayer
      .gated (layerArguments 1 1 (.text "sigmoid") (.text "tanh") none none false false)) {} =
      (.error .wrongKind,t) := by
  have hcell : CellReads meanStore 0 .gated 1 meanCell := ⟨rfl,rfl,rfl⟩
  have hfit : (frameFor false 2 1 1 1 .gated).Fits meanCell := ⟨rfl,rfl⟩
  have hlayer : TwoWay meanStore 2 1 0 0 false := ⟨rfl,rfl,rfl,rfl,rfl,by decide⟩
  obtain ⟨hbuild,-⟩ := two_way_layers {} false
  obtain ⟨-,hrun⟩ := two_way_layers meanStore false
  refine ⟨(hrun 2 1 0 0 2 1 1 1 .gated meanCell meanCell (.grid twoSteps) twoSteps hlayer
    hcell hcell.net rfl rfl hfit hfit).1,?_,(hbuild .gated 1 1 _ _ none none (by decide)).2⟩
  intro heq
  have hbits := congrArg (fun p => p.1.map Float.toBits) heq
  revert hbits
  decide +kernel

end MicroLearn.Bench
