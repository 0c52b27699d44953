import MicroLearn.Proofs.KernelCalls
import Mathlib.Tactic.MkIffOfInductiveProp

/-!
# The recurrent cell folds over time

A step of the fixed-point cell is a function of the parameters, the input of its
place in time and the state before it. A run folds this function over the places,
in either direction. Working buffers carry nothing from one step to the next, and
only they and the state are written.
-/

set_option autoImplicit false

namespace MicroLearn.Fixed

open Function (update update_of_ne update_self)
open Call

variable (backward : Bool)

def Scaling.Proper : Scaling → Int → Prop
  | .factors, s => s ≠ 0
  | .shifts, _ => True

instance (m : Scaling) (s : Int) : Decidable (m.Proper s) :=
  match m with
  | .factors => inferInstanceAs (Decidable (s ≠ 0))
  | .shifts => inferInstanceAs (Decidable True)

theorem Scaling.Proper.join {m : Scaling} {s t} (hs : m.Proper s) (ht : m.Proper t) :
    m.Proper (m.join s t) := by
  cases m with
  | factors => exact Int.mul_ne_zero hs ht
  | shifts => trivial

theorem Scaling.Proper.down {m : Scaling} {s} (h : m.Proper s) (x : Int) :
    m.down? x s = some (m.down x s) := by
  cases m with
  | factors => exact if_neg h
  | shifts => rfl

@[mk_iff]
structure SumScale.Proper (m : Scaling) (s : SumScale) : Prop where
  left : m.Proper s.left
  right : m.Proper s.right
  out : m.Proper s.out

@[mk_iff]
structure ProductScale.Proper (m : Scaling) (s : ProductScale) : Prop where
  left : m.Proper s.left
  right : m.Proper s.right

instance (m : Scaling) (s : SumScale) : Decidable (s.Proper m) :=
  decidable_of_iff _ (SumScale.proper_iff m s).symm

instance (m : Scaling) (s : ProductScale) : Decidable (s.Proper m) :=
  decidable_of_iff _ (ProductScale.proper_iff m s).symm

namespace Weights

def Proper (m : Scaling) : Weights → Prop
  | .dense s => s.Proper m ∧ m.Proper s.depth
  | .sparse _ s => s.Proper m ∧ m.Proper s.depth
  | .lowRank _ s t => (s.Proper m ∧ m.Proper s.depth) ∧ t.Proper m ∧ m.Proper t.depth

instance (m : Scaling) (w : Weights) : Decidable (w.Proper m) :=
  match w with
  | .dense s => inferInstanceAs (Decidable (s.Proper m ∧ m.Proper s.depth))
  | .sparse _ s => inferInstanceAs (Decidable (s.Proper m ∧ m.Proper s.depth))
  | .lowRank _ s t =>
    inferInstanceAs (Decidable ((s.Proper m ∧ m.Proper s.depth) ∧ t.Proper m ∧ m.Proper t.depth))

def rank : Weights → Nat
  | .lowRank r _ _ => r
  | _ => 0

/-- The cells of the matrix that is applied last. Sparse weights are not kept in a buffer. -/
def outerSize (rows cols : Nat) : Weights → Nat
  | .dense _ => rows*cols
  | .sparse _ _ => 0
  | .lowRank r _ _ => rows*r

def apply (m : Scaling) (acc rows cols : Nat) (inner outer v : List Int) : Weights → List Int
  | .dense s => mulVec m acc s.left s.right s.depth (Recurrent.rowsOf cols rows outer) v
  | .sparse entries s => sparseMulVec m s.left s.right s.depth entries rows v
  | .lowRank r s t =>
    mulVec m acc t.left t.right t.depth (Recurrent.rowsOf r rows outer)
      (mulVec m acc s.left s.right s.depth (Recurrent.rowsOf cols r inner) v)

end Weights

section

variable {m : Scaling} {bits : Nat}
variable {s : SumScale}

theorem SumScale.add?_eq (h : s.Proper m) (hd : m.Proper s.demote) (x y : Int) :
    s.add? m bits x y = some (wrap bits
      (m.down (m.down x (m.join s.left s.out)+m.down y (m.join s.right s.out)) s.demote)) := by
  simp [SumScale.add?, (h.left.join h.out).down, (h.right.join h.out).down, hd.down]

theorem SumScale.sub?_eq (h : s.Proper m) (x y : Int) : s.sub? m bits x y = some (wrap bits
      (m.down x (m.join s.left s.out)-m.down y (m.join s.right s.out))) := by
  simp [SumScale.sub?, (h.left.join h.out).down, (h.right.join h.out).down]

theorem SumScale.addScalar?_eq (h : s.Proper m) (x y : Int) :
    s.addScalar? m bits x y = some (wrap bits
      (m.down x (m.join s.left s.out)+m.down y (m.join s.right s.out))) := by
  simp [SumScale.addScalar?, (h.left.join h.out).down, (h.right.join h.out).down]

theorem ProductScale.mul?_eq {s : ProductScale} (h : s.Proper m) (x y : Int) :
    s.mul? m bits x y = some (wrap bits (m.down (x*y) (m.join s.left s.right))) := by
  simp [ProductScale.mul?, (h.left.join h.right).down]

theorem ProductScale.sum?_eq {s : ProductScale} (h : s.Proper m) (hd : m.Proper s.depth) (acc : Nat)
    (x : Int) : s.sum? m bits acc x =
      some (wrap bits (m.down (wrap acc x) (m.join (m.join s.left s.right) s.depth))) := by
  simp [ProductScale.sum?, ProductScale.deep, ((h.left.join h.right).join hd).down]

theorem SigmoidSetting.apply?_eq {s} (h : s.tables = true ∨ s.div ≠ 0) (x : Int) :
    s.apply? x = some (sigmoid s x) := by
  apply if_neg
  intro hs
  cases h with
  | inl ht => simp [ht] at hs
  | inr hd => exact hd hs.2

end

section

variable {σ : Contents} {n : Nat} {a b d : Slot}
variable {cs : List Call} {σ' : Contents}

theorem part_all (h : (σ a).length = n) : Operand.part ⟨a,0⟩ σ n = σ a := by
  simp [Operand.part, ← h]

theorem eval_each_all {f g} (hf : ∀ x, f x = some (g x)) (ha : (σ a).length = n) :
    (Call.each f n ⟨a,0⟩ d).eval σ = some (update σ d ((σ a).map g)) := by
  rw [eval_each hf (by rw [part_all ha, ha]), part_all ha]

theorem eval_pair_all {f g}
    (hf : ∀ x y, f x y = some (g x y)) (ha : (σ a).length = n) (hb : (σ b).length = n) :
    (Call.pair f n ⟨a,0⟩ ⟨b,0⟩ d).eval σ = some (update σ d (List.zipWith g (σ a) (σ b))) := by
  rw [eval_pair hf (by rw [part_all ha, ha]) (by rw [part_all hb, hb]), part_all ha, part_all hb]

theorem evalAll_cons {c} (h : c.eval σ = some σ') : evalAll (c::cs) σ = evalAll cs σ' := by
  simp [evalAll, h]

theorem evalAll_append (cs ds : List Call) (σ : Contents) :
    evalAll (cs++ds) σ = (evalAll cs σ).bind (evalAll ds) := by
  simp [evalAll]
  rfl

theorem evalAll_frame (h : evalAll cs σ = some σ') {s} (hs : ∀ c ∈ cs, c.dst ≠ s) : σ' s = σ s := by
  induction cs generalizing σ with
  | nil =>
    cases h
    rfl
  | cons c cs ih =>
    simp only [evalAll, List.foldlM_cons, Option.bind_eq_bind, Option.bind_eq_some_iff] at h
    obtain ⟨σ1,h1,h2⟩ := h
    rw [ih h2 fun d hd => hs d (by simp [hd])]
    simp only [Call.eval, Option.bind_eq_bind, Option.bind_eq_some_iff] at h1
    obtain ⟨values,-,h1⟩ := h1
    cases h1
    exact update_of_ne (Ne.symm (hs c (by simp))) _ _

end

theorem length_sparseWalk (down : Int → Int) (ids : List Nat) (vals v cells : List Int) :
    (sparseWalk down ids vals v cells).length = cells.length := by
  fun_induction sparseWalk down ids vals v cells with
  | case1 => rfl
  | case2 => rfl
  | case3 _ _ _ _ _ ih => exact ih
  | case4 _ _ _ _ _ _ _ ih => rw [ih, bump, List.length_modify]

namespace Weights

variable {m : Scaling} {rows cols : Nat} {σ : Contents}

theorem length_apply (acc : Nat) (w : Weights) (a b x : List Int) :
    (w.apply m acc rows cols a b x).length = rows := by
  cases w <;> simp [apply, mulVec, sparseMulVec, length_sparseWalk]

theorem evalAll_calls (w : Weights) (acc : Nat) (inner outer low v dst : Slot) (hw : w.Proper m)
    (hinner : (σ inner).length = w.rank*cols)
    (houter : (σ outer).length = w.outerSize rows cols) (hv : (σ v).length = cols)
    (hlow : outer ≠ low) :
    ∃ σ', evalAll (w.calls m acc rows cols inner outer low v dst) σ = some σ' ∧
      σ' dst = w.apply m acc rows cols (σ inner) (σ outer) (σ v) ∧
      ∀ s, s ≠ low → s ≠ dst → σ' s = σ s := by
  cases w with
  | dense s =>
    refine ⟨_,evalAll_cons (eval_product (s.sum?_eq hw.1 hw.2 acc) houter hv),?_,?_⟩
    · simp [apply, mulVec]
    · intro t _ ht
      simp [ht]
  | sparse entries s =>
    have hf : ∀ x, (do
        let _ ← m.down? 0 (s.deep m)
        return sparseMulVec m s.left s.right s.depth entries rows x : Option (List Int)) =
        some (sparseMulVec m s.left s.right s.depth entries rows x) := by
      intro x
      simp [ProductScale.deep, ((hw.1.left.join hw.1.right).join hw.2).down]
    refine ⟨_,evalAll_cons (eval_sparse hf ?_ hv),?_,?_⟩
    · intro x
      simp [sparseMulVec, length_sparseWalk]
    · simp [apply]
    · intro t _ ht
      simp [ht]
  | lowRank r s t =>
    refine ⟨_,(evalAll_cons (eval_product (s.sum?_eq hw.1.1 hw.1.2 acc) hinner hv)).trans
      (evalAll_cons (eval_product (t.sum?_eq hw.2.1 hw.2.2 acc) ?_ ?_)),?_,?_⟩
    · rw [update_of_ne hlow]
      exact houter
    · simp [rank]
    · simp [apply, mulVec, hlow, rank]
    · intro u hu hd
      simp [hu, hd]

theorem calls_sound (w : Weights) {room acc inner outer low v dst}
    (hlow : low.written = true) (hdst : dst.written = true) (hrank : w.rank ≤ room low)
    (hrows : rows ≤ room dst)
    (hne : (inner ≠ low ∧ v ≠ low) ∧ (outer ≠ dst ∧ low ≠ dst) ∧ v ≠ dst) :
    ∀ k ∈ w.calls m acc rows cols inner outer low v dst, k.Sound room := by
  intro k hk
  cases w with
  | dense s =>
    rw [List.mem_singleton.1 hk]
    exact ⟨⟨hne.2.1.1,hne.2.2⟩,hdst,hrows⟩
  | sparse entries s =>
    rw [List.mem_singleton.1 hk]
    exact ⟨hne.2.2,hdst,hrows⟩
  | lowRank r s t =>
    simp only [calls, List.mem_cons, List.not_mem_nil, or_false] at hk
    cases hk with
    | inl hk =>
      rw [hk]
      exact ⟨hne.1,hlow,hrank⟩
    | inr hk =>
      rw [hk]
      exact ⟨hne.2.1,hdst,hrows⟩

end Weights

namespace Cell

variable {s : Slot} {t : Nat} {xs : List Int}

/-- Nothing that a step divides by is zero. -/
@[mk_iff]
structure Proper (m : Scaling) (c : Cell) : Prop where
  subtractMean : c.scales.subtractMean.Proper m
  divideDeviation : c.scales.divideDeviation.Proper m
  inputWeights : c.inputWeights.Proper m
  stateWeights : c.stateWeights.Proper m
  merge : c.scales.merge.Proper m ∧ m.Proper c.scales.merge.demote
  gateBias : c.scales.gateBias.Proper m ∧ m.Proper c.scales.gateBias.demote
  gate : c.scales.gate.tables = true ∨ c.scales.gate.div ≠ 0
  updateBias : c.scales.updateBias.Proper m ∧ m.Proper c.scales.updateBias.demote
  keep : c.scales.keep.Proper m
  oneMinusGate : c.scales.oneMinusGate.Proper m
  zeta : c.scales.zeta.Proper m
  nu : c.scales.nu.Proper m
  weigh : c.scales.weigh.Proper m
  mix : c.scales.mix.Proper m ∧ m.Proper c.scales.mix.demote

instance (m : Scaling) (c : Cell) : Decidable (c.Proper m) :=
  decidable_of_iff _ (proper_iff m c).symm

def room (c : Cell) (normalize : Bool) (steps : Nat) : Slot → Nat
  | .hidden | .first | .second | .third | .gateBias | .updateBias => c.hiddenSize
  | .lowInput => c.inputWeights.rank
  | .lowState => c.stateWeights.rank
  | .features => c.inputSize
  | .input => steps*c.inputSize
  | .mean | .deviation => if normalize then steps*c.inputSize else 0
  | .inputInner => c.inputWeights.rank*c.inputSize
  | .inputOuter => c.inputWeights.outerSize c.hiddenSize c.inputSize
  | .stateInner => c.stateWeights.rank*c.hiddenSize
  | .stateOuter => c.stateWeights.outerSize c.hiddenSize c.hiddenSize

variable (m : Scaling) (c : Cell)

def rowAt (σ : Contents) (s : Slot) (t : Nat) : List Int :=
  Operand.part ⟨s,t*c.inputSize⟩ σ c.inputSize

def features (normalize : Bool) (σ : Contents) (t : Nat) : List Int :=
  let mean := c.scales.subtractMean
  let deviation := c.scales.divideDeviation
  if normalize then
    mulVectors m c.inputBits deviation.left deviation.right (c.rowAt σ .deviation t)
      (subVectors m c.inputBits mean.left mean.right mean.out (c.rowAt σ .input t)
        (c.rowAt σ .mean t))
  else c.rowAt σ .input t

def gated (gateBias updateBias fromInput fromState h : List Int) : List Int :=
  let s := c.scales
  let sum (t : SumScale) := addVectors m 16 t.left t.right t.out t.demote
  let pre := sum s.merge fromInput fromState
  let gate := (sum s.gateBias pre gateBias).map (sigmoid s.gate)
  let update := (sum s.updateBias pre updateBias).map (tanh s.update)
  let kept := mulVectors m 16 s.keep.left s.keep.right gate h
  let closed := subFromScalar m 16 s.one s.oneMinusGate.left s.oneMinusGate.right s.oneMinusGate.out
    gate
  let share := addScalar m 16 c.nu s.nu.left s.nu.right s.nu.out
    (mulScalar m 16 c.zeta s.zeta.left s.zeta.right closed)
  sum s.mix kept (mulVectors m 16 s.weigh.left s.weigh.right share update)

def next (σ : Contents) (x h : List Int) : List Int :=
  c.gated m (σ .gateBias) (σ .updateBias)
    (c.inputWeights.apply m c.inputAcc c.hiddenSize c.inputSize (σ .inputInner) (σ .inputOuter) x)
    (c.stateWeights.apply m 64 c.hiddenSize c.hiddenSize (σ .stateInner) (σ .stateOuter) h) h

def after (normalize : Bool) (σ : Contents) (places : List Nat) : List Int :=
  places.foldl (fun h t => c.next m σ (c.features m normalize σ t) h) (σ .hidden)

variable {m c} {normalize : Bool} {steps : Nat} {σ : Contents}

theorem length_rowAt (ht : t < steps) (hs : (σ s).length = steps*c.inputSize) :
    (c.rowAt σ s t).length = c.inputSize := by
  have hle := row_end_le c.inputSize ht
  simp only [rowAt, Operand.part, List.length_take, List.length_drop]
  omega

theorem length_features (ht : t < steps) (hin : (σ .input).length = steps*c.inputSize)
    (hn : normalize = true → (σ .mean).length = steps*c.inputSize ∧
      (σ .deviation).length = steps*c.inputSize) :
    (c.features m normalize σ t).length = c.inputSize := by
  cases normalize with
  | false => exact length_rowAt ht hin
  | true =>
    obtain ⟨hmean,hdev⟩ := hn rfl
    simp [features, mulVectors, subVectors, length_rowAt ht hin, length_rowAt ht hmean,
      length_rowAt ht hdev]

theorem evalAll_featureCalls (hc : c.Proper m) (ht : t < steps)
    (hin : (σ .input).length = steps*c.inputSize)
    (hn : normalize = true → (σ .mean).length = steps*c.inputSize ∧
      (σ .deviation).length = steps*c.inputSize) : evalAll (c.featureCalls m normalize t) σ =
      some (update σ .features (c.features m normalize σ t)) := by
  cases normalize with
  | false =>
    refine (evalAll_cons (eval_each (fun _ => rfl) ?_)).trans ?_
    · exact length_rowAt ht hin
    · simp [evalAll, features, rowAt]
  | true =>
    obtain ⟨hmean,hdev⟩ := hn rfl
    have hdiff : (List.zipWith (fun x y => wrap c.inputBits
        (m.down x (m.join c.scales.subtractMean.left c.scales.subtractMean.out) -
          m.down y (m.join c.scales.subtractMean.right c.scales.subtractMean.out)))
        (c.rowAt σ .input t) (c.rowAt σ .mean t)).length = c.inputSize := by
      simp [length_rowAt ht hin, length_rowAt ht hmean]
    refine (evalAll_cons (eval_pair (x := ⟨.input,t*c.inputSize⟩) (y := ⟨.mean,t*c.inputSize⟩)
      (SumScale.sub?_eq hc.subtractMean) (length_rowAt ht hin) (length_rowAt ht hmean))).trans ?_
    refine (evalAll_cons (eval_pair (x := ⟨.deviation,t*c.inputSize⟩) (y := ⟨.features,0⟩)
      (ProductScale.mul?_eq hc.divideDeviation) ?_ ?_)).trans ?_
    · exact length_rowAt ht hdev
    · rw [part_all (by rw [update_self]; exact hdiff), update_self]
      exact hdiff
    · rw [part_all (by rw [update_self]; exact hdiff), update_self, Function.update_idem]
      rfl

theorem evalAll_gateCalls (hc : c.Proper m) (hfirst : (σ .first).length = c.hiddenSize)
    (hsecond : (σ .second).length = c.hiddenSize) (hh : (σ .hidden).length = c.hiddenSize)
    (hgate : (σ .gateBias).length = c.hiddenSize)
    (hupdate : (σ .updateBias).length = c.hiddenSize) :
    ∃ σ', evalAll (c.gateCalls m) σ = some σ' ∧
      σ' .hidden = c.gated m (σ .gateBias) (σ .updateBias) (σ .first) (σ .second) (σ .hidden) := by
  unfold gateCalls
  rw [evalAll_cons (eval_pair_all (SumScale.add?_eq hc.merge.1 hc.merge.2) hfirst hsecond),
    evalAll_cons (eval_pair_all (SumScale.add?_eq hc.gateBias.1 hc.gateBias.2)
      (by simp [hfirst, hsecond]) (by simp [hgate])),
    evalAll_cons (eval_each_all (SigmoidSetting.apply?_eq hc.gate)
      (by simp [hfirst, hsecond, hgate])),
    evalAll_cons (eval_pair_all (SumScale.add?_eq hc.updateBias.1 hc.updateBias.2)
      (by simp [hfirst, hsecond]) (by simp [hupdate])),
    evalAll_cons (eval_each_all (fun _ => rfl) (by simp [hfirst, hsecond, hupdate])),
    evalAll_cons (eval_pair_all (ProductScale.mul?_eq hc.keep)
      (by simp [hfirst, hsecond, hgate]) (by simp [hh])),
    evalAll_cons (eval_each_all (SumScale.sub?_eq hc.oneMinusGate _)
      (by simp [hfirst, hsecond, hgate])),
    evalAll_cons (eval_each_all (ProductScale.mul?_eq hc.zeta _)
      (by simp [hfirst, hsecond, hgate])),
    evalAll_cons (eval_each_all (SumScale.addScalar?_eq hc.nu _)
      (by simp [hfirst, hsecond, hgate])),
    evalAll_cons (eval_pair_all (ProductScale.mul?_eq hc.weigh)
      (by simp [hfirst, hsecond, hgate]) (by simp [hfirst, hsecond, hupdate])),
    evalAll_cons (eval_pair_all (SumScale.add?_eq hc.mix.1 hc.mix.2)
      (by simp [hfirst, hsecond, hgate, hh]) (by simp [hfirst, hsecond, hgate, hupdate]))]
  exact ⟨_,rfl,by simp [gated, addVectors, mulVectors, subFromScalar, mulScalar, addScalar]⟩

theorem evalAll_productCalls (hc : c.Proper m)
    (hlen : ∀ s, s.working = false → (σ s).length = c.room normalize steps s)
    (hx : (σ .features).length = c.inputSize) : ∃ σ', evalAll (c.productCalls m) σ = some σ' ∧
      σ' .first = c.inputWeights.apply m c.inputAcc c.hiddenSize c.inputSize (σ .inputInner)
        (σ .inputOuter)
        (σ .features) ∧
      σ' .second = c.stateWeights.apply m 64 c.hiddenSize c.hiddenSize (σ .stateInner)
        (σ .stateOuter)
        (σ .hidden) ∧
      ∀ s, s.working = false → σ' s = σ s := by
  have hknown : ∀ s : Slot, s.working = false → s ≠ .lowInput ∧ s ≠ .first ∧ s ≠ .lowState ∧
      s ≠ .second := by
    intro s hs
    cases s <;> simp_all [Slot.working]
  obtain ⟨σ1,h1,hfirst,hkeep1⟩ :=
    c.inputWeights.evalAll_calls c.inputAcc .inputInner .inputOuter .lowInput
    .features .first hc.inputWeights (hlen .inputInner rfl)
    (hlen .inputOuter rfl) hx (by decide)
  have hsame : ∀ s, s.working = false → σ1 s = σ s :=
    fun s hs => hkeep1 s (hknown s hs).1 (hknown s hs).2.1
  have hlen1 : ∀ s, s.working = false → (σ1 s).length = c.room normalize steps s :=
    fun s hs => (hsame s hs).symm ▸ hlen s hs
  obtain ⟨σ2,h2,hsecond,hkeep2⟩ := c.stateWeights.evalAll_calls 64 .stateInner .stateOuter .lowState
    .hidden .second hc.stateWeights (hlen1 .stateInner rfl) (hlen1 .stateOuter rfl)
      (hlen1 .hidden rfl)
    (by decide)
  refine ⟨σ2,?_,?_,?_,?_⟩
  · rw [productCalls, evalAll_append, h1]
    exact h2
  · rw [hkeep2 .first (by decide) (by decide), hfirst]
  · rw [hsecond, hsame _ rfl, hsame _ rfl, hsame _ rfl]
  · intro s hs
    rw [hkeep2 s (hknown s hs).2.2.1 (hknown s hs).2.2.2, hsame s hs]

/-- The buffers of a cell before a run: there is room for what the run writes, what it reads is
known, and nothing is known of the working buffers. -/
structure Ready (c : Cell) (normalize : Bool) (steps : Nat) (lay : Layout) (σ : Contents)
    (mem : Memory) : Prop where
  separate : lay.Separate (c.room normalize steps)
  placed : Placed lay (c.room normalize steps) σ mem
  known : ∀ s, (σ s).length = if s.working then 0 else c.room normalize steps s

variable {lay : Layout} {mem : Memory}

theorem Ready.mean_deviation (h : c.Ready normalize steps lay σ mem) (hn : normalize = true) :
    (σ .mean).length = steps*c.inputSize ∧ (σ .deviation).length = steps*c.inputSize := by
  subst hn
  exact ⟨h.known .mean,h.known .deviation⟩

theorem evalAll_calls (hc : c.Proper m) (h : c.Ready normalize steps lay σ mem) (ht : t < steps) :
    ∃ σ', evalAll (c.calls m normalize t) σ = some σ' ∧
      σ' .hidden = c.next m σ (c.features m normalize σ t) (σ .hidden) := by
  have hin : (σ .input).length = steps*c.inputSize := h.known .input
  have hx := length_features (m := m) ht hin h.mean_deviation
  have hfeatures := evalAll_featureCalls hc ht hin h.mean_deviation
  have hne : ∀ s : Slot, s.working = false → s ≠ .features := by
    intro s hs e
    simp [e, Slot.working] at hs
  have hlen : ∀ s, s.working = false →
      (update σ .features (c.features m normalize σ t) s).length = c.room normalize steps s := by
    intro s hs
    rw [update_of_ne (hne s hs), h.known s, hs]
    rfl
  obtain ⟨σ2,h2,hfirst,hsecond,hkeep⟩ := evalAll_productCalls hc hlen (by rw [update_self, hx])
  have hsame : ∀ s, s.working = false → σ2 s = σ s := by
    intro s hs
    rw [hkeep s hs, update_of_ne (hne s hs)]
  obtain ⟨σ3,h3,hh⟩ := evalAll_gateCalls (σ := σ2) hc (by rw [hfirst, Weights.length_apply])
    (by rw [hsecond, Weights.length_apply]) (by rw [hsame _ rfl]; exact h.known .hidden)
    (by rw [hsame _ rfl]; exact h.known .gateBias) (by rw [hsame _ rfl]; exact h.known .updateBias)
  refine ⟨σ3,?_,?_⟩
  · rw [calls, evalAll_append, evalAll_append, hfeatures, Option.bind_some, h2]
    exact h3
  · rw [hh, hfirst, hsecond, hsame _ rfl, hsame _ rfl, hsame _ rfl]
    rfl

theorem featureCalls_sound :
    ∀ k ∈ c.featureCalls m normalize t, k.Sound (c.room normalize steps) := by
  intro k hk
  cases normalize with
  | false =>
    simp only [featureCalls, Bool.false_eq_true, if_false, List.mem_singleton] at hk
    subst hk
    exact ⟨trivial,rfl,Nat.le_refl _⟩
  | true =>
    simp only [featureCalls, if_true, List.mem_cons, List.not_mem_nil, or_false] at hk
    rcases hk with rfl | rfl <;> exact ⟨trivial,rfl,Nat.le_refl _⟩

theorem productCalls_sound : ∀ k ∈ c.productCalls m, k.Sound (c.room normalize steps) := by
  intro k hk
  rw [productCalls, List.mem_append] at hk
  cases hk with
  | inl hk =>
    apply c.inputWeights.calls_sound _ _ _ _ _ k hk
    · rfl
    · rfl
    · exact Nat.le_refl _
    · exact Nat.le_refl _
    · decide
  | inr hk =>
    apply c.stateWeights.calls_sound _ _ _ _ _ k hk
    · rfl
    · rfl
    · exact Nat.le_refl _
    · exact Nat.le_refl _
    · decide

theorem gateCalls_sound : ∀ k ∈ c.gateCalls m, k.Sound (c.room normalize steps) := by
  intro k hk
  simp only [gateCalls, List.mem_cons, List.not_mem_nil, or_false] at hk
  rcases hk with rfl | rfl | rfl | rfl | rfl | rfl | rfl | rfl | rfl | rfl | rfl <;>
    exact ⟨trivial,rfl,Nat.le_refl _⟩

theorem calls_sound : ∀ k ∈ c.calls m normalize t, k.Sound (c.room normalize steps) := by
  intro k hk
  rw [calls, List.mem_append, List.mem_append, or_assoc] at hk
  rcases hk with hk | hk | hk
  · exact featureCalls_sound k hk
  · exact productCalls_sound k hk
  · exact gateCalls_sound k hk

theorem length_gated {a b x y h} (ha : a.length = c.hiddenSize) (hb : b.length = c.hiddenSize)
    (hx : x.length = c.hiddenSize) (hy : y.length = c.hiddenSize) (hh : h.length = c.hiddenSize) :
    (c.gated m a b x y h).length = c.hiddenSize := by
  simp [gated, addVectors, mulVectors, subFromScalar, mulScalar, addScalar, ha, hb, hx, hy, hh]

@[simp] theorem next_update_hidden (h' x h : List Int) :
    c.next m (update σ .hidden h') x h = c.next m σ x h := by
  simp [next]

@[simp] theorem features_update_hidden (h : List Int) (t : Nat) :
    c.features m normalize (update σ .hidden h) t = c.features m normalize σ t := by
  simp [features, rowAt, Operand.part]

theorem execAll_calls (hc : c.Proper m) (h : c.Ready normalize steps lay σ mem) (ht : t < steps) :
    ∃ mem', execAll lay (c.calls m normalize t) mem = some mem' ∧ c.Ready normalize steps lay
        (update σ .hidden (c.next m σ (c.features m normalize σ t) (σ .hidden))) mem' ∧
      Kept (lay.Region (c.room normalize steps)) mem mem' := by
  obtain ⟨σ',heval,hh⟩ := evalAll_calls hc h ht
  obtain ⟨mem',hexec,hplaced,hkept⟩ := execAll_evalAll h.separate calls_sound h.placed heval
  have hframe : ∀ s : Slot, s.written = false → σ' s = σ s := by
    intro s hs
    apply evalAll_frame heval
    intro k hk e
    have hsound : k.Sound (c.room normalize steps) := calls_sound k hk
    have hw := hsound.written
    rw [e, hs] at hw
    exact absurd hw (by decide)
  have hlen : (c.next m σ (c.features m normalize σ t) (σ .hidden)).length = c.hiddenSize :=
    length_gated (h.known .gateBias) (h.known .updateBias) (Weights.length_apply ..)
      (Weights.length_apply ..)
      (h.known .hidden)
  refine ⟨mem',hexec,⟨h.separate,?_,?_⟩,hkept⟩
  · apply hplaced.forget
    intro s
    by_cases hs : s = .hidden
    · rw [hs, update_self, hh]
      exact Or.inl rfl
    · rw [update_of_ne hs]
      cases hw : s.working with
      | true =>
        have hblank := h.known s
        rw [hw] at hblank
        exact Or.inr (List.eq_nil_of_length_eq_zero hblank)
      | false => exact Or.inl (hframe s (by simp [Slot.written, hs, hw])).symm
  · intro s
    by_cases hs : s = .hidden
    · rw [hs, update_self, hlen]
      rfl
    · rw [update_of_ne hs, h.known s]

theorem foldlM_calls (hc : c.Proper m) {places} (hp : ∀ t ∈ places, t < steps)
    (h : c.Ready normalize steps lay σ mem) :
    ∃ mem', places.foldlM (fun mem t => execAll lay (c.calls m normalize t) mem) mem = some mem' ∧
      c.Ready normalize steps lay (update σ .hidden (c.after m normalize σ places)) mem' ∧
      Kept (lay.Region (c.room normalize steps)) mem mem' := by
  induction places generalizing σ mem with
  | nil =>
    refine ⟨mem,rfl,?_,Kept.refl _ mem⟩
    rw [after, List.foldl_nil, Function.update_eq_self]
    exact h
  | cons t places ih =>
    obtain ⟨mem1,h1,hr1,hk1⟩ := execAll_calls hc h (hp t (by simp))
    obtain ⟨mem2,h2,hr2,hk2⟩ := ih (fun u hu => hp u (by simp [hu])) hr1
    refine ⟨mem2,?_,?_,hk1.trans hk2⟩
    · rw [List.foldlM_cons, h1]
      exact h2
    · simpa [after] using hr2

def places (backward : Bool) (steps : Nat) : List Nat :=
  (List.range steps).map (place backward steps)

theorem run_eq_foldlM : c.run m normalize backward steps lay mem =
      (places backward steps).foldlM (fun mem t => execAll lay (c.calls m normalize t) mem)
        mem := by
  rw [run, places, List.foldlM_map]

theorem lt_of_mem_places {backward} (h : t ∈ places backward steps) : t < steps := by
  simp only [places, List.mem_map, List.mem_range] at h
  obtain ⟨i,hi,rfl⟩ := h
  cases backward <;> simp [place] <;> omega

theorem run_ready (hc : c.Proper m) (h : c.Ready normalize steps lay σ mem) (backward : Bool) :
    ∃ mem', c.run m normalize backward steps lay mem = some mem' ∧ c.Ready normalize steps lay
        (update σ .hidden (c.after m normalize σ (places backward steps))) mem' ∧
      Kept (lay.Region (c.room normalize steps)) mem mem' := by
  rw [run_eq_foldlM]
  exact foldlM_calls hc (fun _ => lt_of_mem_places) h

variable (m c lay)

def later (k : Nat) : Layout := lay.on (lay .hidden) ((lay .input).plus (k*c.inputSize))

variable {m c lay}

theorem execAll_append (cs ds : List Call) (mem : Memory) :
    execAll lay (cs++ds) mem = (execAll lay cs mem).bind (execAll lay ds) := by
  simp only [execAll, List.foldlM_append]
  rfl

theorem execAll_later (k t : Nat) (mem : Memory) :
    execAll (c.later lay k) (c.calls m false t) mem = execAll lay (c.calls m false (k+t)) mem := by
  have hfeatures : execAll (c.later lay k) (c.featureCalls m false t) =
      execAll lay (c.featureCalls m false (k+t)) := by
    funext mem
    simp [featureCalls, execAll, Call.exec, Call.cell, Call.dst, Call.count, later, Layout.on,
      Nat.add_mul, Nat.add_assoc]
  have hproducts : execAll (c.later lay k) (c.productCalls m) = execAll lay (c.productCalls m) := by
    funext mem
    rw [productCalls, execAll_append, execAll_append]
    cases c.inputWeights <;> cases c.stateWeights <;> rfl
  have hgate : execAll (c.later lay k) (c.gateCalls m) = execAll lay (c.gateCalls m) := rfl
  rw [calls, calls, execAll_append, execAll_append, execAll_append, execAll_append, hfeatures,
    hproducts, hgate]

theorem places_eq (steps : Nat) :
    places backward steps = if backward then (List.range steps).reverse else List.range steps := by
  cases backward with
  | false => exact List.map_id _
  | true =>
    apply List.ext_getElem
    · simp [places]
    · simp [places, place]

theorem foldlM_later (k : Nat) (ts : List Nat) (mem : Memory) :
    (ts.map (k + ·)).foldlM (fun mem t => execAll lay (c.calls m false t) mem) mem =
      ts.foldlM (fun mem t => execAll (c.later lay k) (c.calls m false t) mem) mem := by
  simp only [List.foldlM_map, execAll_later]

theorem run_add (k l : Nat) (mem : Memory) : c.run m false false (k+l) lay mem =
      (c.run m false false k lay mem).bind (c.run m false false l (c.later lay k)) := by
  have hplaces : places false (k+l) = places false k++(places false l).map (k + ·) := by
    simp [places_eq, List.range_add]
  rw [run_eq_foldlM, hplaces, List.foldlM_append]
  simp only [foldlM_later, ← run_eq_foldlM]
  rfl

theorem run_add_backward (k l : Nat) (mem : Memory) : c.run m false true (k+l) lay mem =
      (c.run m false true l (c.later lay k) mem).bind (c.run m false true k lay) := by
  have hplaces : places true (k+l) = (places true l).map (k + ·)++places true k := by
    simp [places_eq, List.range_add]
  rw [run_eq_foldlM, hplaces, List.foldlM_append, foldlM_later]
  simp only [← run_eq_foldlM]
  rfl

def reverseRows (d steps : Nat) (xs : List Int) : List Int :=
  (Recurrent.rowsOf d steps xs).reverse.flatten

/-- The contents with the inputs in reversed order, and with them what they are normalised by. -/
def reversed (c : Cell) (normalize : Bool) (steps : Nat) (σ : Contents) : Contents
  | .input => reverseRows c.inputSize steps (σ .input)
  | .mean => if normalize then reverseRows c.inputSize steps (σ .mean) else σ .mean
  | .deviation => if normalize then reverseRows c.inputSize steps (σ .deviation) else σ .deviation
  | s => σ s

theorem row_reverseRows {d} (ht : t < steps) (hlen : xs.length = steps*d) :
    ((reverseRows d steps xs).drop (t*d)).take d = (xs.drop ((steps-1-t)*d)).take d := by
  have hrows : ∀ row ∈ (Recurrent.rowsOf d steps xs).reverse, row.length = d := by
    intro row hrow
    obtain ⟨i,hi⟩ := List.mem_iff_getElem?.1 (List.mem_reverse.1 hrow)
    have hlt : i < steps := by simpa using (List.getElem?_eq_some_iff.1 hi).1
    have hle := row_end_le d hlt
    rw [getElem_rowsOf d steps xs i hlt, Option.some.injEq] at hi
    rw [← hi, List.length_take, List.length_drop]
    omega
  have hlt : t < (Recurrent.rowsOf d steps xs).reverse.length := by simpa using ht
  rw [reverseRows, take_drop_flatten hrows hlt, List.getElem_reverse]
  apply Option.some.inj
  rw [← List.getElem?_eq_getElem, length_rowsOf, getElem_rowsOf d steps xs _ (by omega)]

theorem features_reversed (ht : t < steps) (h : c.Ready normalize steps lay σ mem) :
    c.features m normalize (reversed c normalize steps σ) t =
      c.features m normalize σ (steps-1-t) := by
  have hin := row_reverseRows ht (h.known .input)
  cases normalize with
  | false => exact hin
  | true =>
    have hmean := row_reverseRows ht (h.known .mean)
    have hdeviation := row_reverseRows ht (h.known .deviation)
    simp only [features, rowAt, Operand.part, reversed, if_true, hin, hmean, hdeviation]

theorem places_not (steps : Nat) :
    (places (!backward) steps).map (steps-1 - ·) = places backward steps := by
  cases backward with
  | false =>
    apply List.ext_getElem
    · simp [places]
    · intro i h1 h2
      simp [places] at h1
      simp [places, place]
      omega
  | true => simp [places, place]

theorem after_reversed (h : c.Ready normalize steps lay σ mem) (backward : Bool) :
    c.after m normalize (reversed c normalize steps σ) (places (!backward) steps) =
      c.after m normalize σ (places backward steps) := by
  have hstep : ∀ x s, c.next m (reversed c normalize steps σ) x s = c.next m σ x s := fun _ _ => rfl
  rw [← places_not backward steps, after, after, List.foldl_map]
  apply List.foldl_ext
  intro s t ht
  rw [hstep, features_reversed (lt_of_mem_places ht) h]

theorem run_state (hc : c.Proper m) (h : c.Ready normalize steps lay σ mem) (backward : Bool) :
    ∃ mem', c.run m normalize backward steps lay mem = some mem' ∧
      mem'.vector (lay .hidden) c.hiddenSize =
        some (c.after m normalize σ (places backward steps)) ∧
      Kept (lay.Region (c.room normalize steps)) mem mem' := by
  obtain ⟨mem',hrun,hready,hkept⟩ := run_ready hc h backward
  have hv := (hready.placed.holds .hidden).vector
  rw [hready.known .hidden, update_self] at hv
  exact ⟨mem',hrun,hv,hkept⟩

/-- A cell is a fold over time. Without normalisation a run over a sequence is a run over its first
inputs and one over the others. A run in the other direction over the reversed sequence ends with
the same state, and so does any run from the same state, inputs and parameters, whatever the working
buffers hold. Nothing but the state and the working buffers is written. -/
theorem cell_folds_over_time (m : Scaling) (c : Cell) (hc : c.Proper m) : (∀ k l lay mem,
      c.run m false false (k+l) lay mem =
        (c.run m false false k lay mem).bind (c.run m false false l (c.later lay k)) ∧
      c.run m false true (k+l) lay mem =
        (c.run m false true l (c.later lay k) mem).bind (c.run m false true k lay)) ∧
    ∀ normalize backward steps lay σ mem, c.Ready normalize steps lay σ mem →
      let final := c.after m normalize σ (places backward steps)
      ∃ mem', c.run m normalize backward steps lay mem = some mem' ∧
        mem'.vector (lay .hidden) c.hiddenSize = some final ∧
        (∀ lay₁ mem₁, c.Ready normalize steps lay₁ (reversed c normalize steps σ) mem₁ →
          ∃ mem₂, c.run m normalize (!backward) steps lay₁ mem₁ = some mem₂ ∧
            mem₂.vector (lay₁ .hidden) c.hiddenSize = some final) ∧
        (∀ lay₁ mem₁, c.Ready normalize steps lay₁ σ mem₁ →
          ∃ mem₂, c.run m normalize backward steps lay₁ mem₁ = some mem₂ ∧
            mem₂.vector (lay₁ .hidden) c.hiddenSize = some final) ∧
        ∀ p, ¬ lay.Region (c.room normalize steps) p → mem'.load p = mem.load p := by
  refine ⟨fun k l lay mem => ⟨run_add k l mem,run_add_backward k l mem⟩,?_⟩
  intro normalize backward steps lay σ mem h
  obtain ⟨mem',hrun,hstate,hkept⟩ := run_state hc h backward
  refine ⟨mem',hrun,hstate,?_,?_,hkept.load⟩
  · intro lay₁ mem₁ h₁
    obtain ⟨mem₂,hrun₂,hstate₂,-⟩ := run_state hc h₁ (!backward)
    exact ⟨mem₂,hrun₂,by rw [hstate₂, after_reversed h]⟩
  · intro lay₁ mem₁ h₁
    obtain ⟨mem₂,hrun₂,hstate₂,-⟩ := run_state hc h₁ backward
    exact ⟨mem₂,hrun₂,hstate₂⟩

theorem allocated_slot {p size} (hp : p.offset = 0) (hb : mem.buffers[p.buffer]? =
      some (if s.working then Array.replicate size none else (xs.map some).toArray))
    (hlen : xs.length = if s.working then 0 else size) :
    Reads mem p xs ∧ ∀ i < size, mem.has (p.plus i) = true := by
  cases hw : s.working with
  | true =>
    rw [hw] at hb hlen
    refine ⟨?_,fun i hi => has_plus hb (by simpa [hp] using hi)⟩
    rw [List.eq_nil_of_length_eq_zero hlen]
    intro i x hx
    simp at hx
  | false =>
    rw [hw] at hb hlen
    exact ⟨reads_held hp hb,fun i hi => has_plus hb (by simpa [hp, hlen] using hi)⟩

theorem apart_inj (base : Nat) {t}
    (h : (Layout.apart base s).buffer = (Layout.apart base t).buffer) : s = t := by
  simp only [Layout.apart, Nat.add_left_cancel_iff] at h
  revert h
  cases s <;> cases t <;> decide

theorem ready_allocated
    (hlen : ∀ s, (σ s).length = if s.working then 0 else c.room normalize steps s) :
    c.Ready normalize steps (Layout.apart 0) σ ⟨(allocate (c.room normalize steps) σ).toArray⟩ := by
  have hslot : ∀ s, Reads ⟨(allocate (c.room normalize steps) σ).toArray⟩ (Layout.apart 0 s) (σ s) ∧
      ∀ i < c.room normalize steps s,
        Memory.has ⟨(allocate (c.room normalize steps) σ).toArray⟩ ((Layout.apart 0 s).plus i) =
          true := by
    intro s
    apply allocated_slot rfl _ (hlen s)
    cases s <;> rfl
  refine ⟨?_,⟨fun s => (hslot s).1,?_,fun s _ => (hslot s).2⟩,hlen⟩
  · intro s t _ hne q hs ht
    exact hne (apart_inj 0 (hs.1.symm.trans ht.1))
  · intro s
    rw [hlen s]
    split <;> omega

def slender : Cell where
  inputBits := 16
  inputAcc := 64
  hiddenSize := 1
  inputSize := 1
  inputWeights := .lowRank 1 ⟨1,1,1⟩ ⟨1,1,2⟩
  stateWeights := .lowRank 1 ⟨1,1,1⟩ ⟨1,1,2⟩
  zeta := 3
  nu := 1
  scales :=
    { subtractMean := ⟨1,1,1,0⟩, divideDeviation := ⟨1,1,0⟩, merge := ⟨1,1,1,1⟩
      gateBias := ⟨1,1,1,1⟩, gate := ⟨2,1,4,0,1,false⟩, updateBias := ⟨1,1,1,1⟩
      update := ⟨2,3,false⟩, keep := ⟨1,2,0⟩, one := 8, oneMinusGate := ⟨1,1,1,0⟩
      zeta := ⟨1,1,0⟩, nu := ⟨1,1,1,0⟩, weigh := ⟨1,2,0⟩, mix := ⟨1,1,1,1⟩ }

def slenderContents : Contents
  | .hidden => [5]
  | .input => [9, -4]
  | .mean => [1, 2]
  | .deviation => [2, 3]
  | .inputInner => [2]
  | .inputOuter => [3]
  | .stateInner => [1]
  | .stateOuter => [-2]
  | .gateBias => [1]
  | .updateBias => [-3]
  | _ => []

theorem cell_folds_over_time_slender :
    let mem : Memory := ⟨(allocate (slender.room true 2) slenderContents).toArray⟩
    slender.Proper .factors ∧ slender.Ready true 2 (Layout.apart 0) slenderContents mem ∧
      ∃ mem', slender.run .factors true true 2 (Layout.apart 0) mem = some mem' ∧
        mem'.vector (Layout.apart 0 .hidden) 1 = some [-396] := by
  have hproper : slender.Proper .factors := by decide
  have hready : slender.Ready true 2 (Layout.apart 0) slenderContents
      ⟨(allocate (slender.room true 2) slenderContents).toArray⟩ := by
    apply ready_allocated
    intro s
    cases s <;> rfl
  have hvalue : slender.after .factors true slenderContents (places true 2) = [-396] := by
    decide +kernel
  obtain ⟨mem',hrun,hstate,-⟩ :=
    (cell_folds_over_time .factors slender hproper).2 true true 2 _ _ _ hready
  exact ⟨hproper,hready,mem',hrun,hstate.trans (congrArg some hvalue)⟩

end Cell

end MicroLearn.Fixed
