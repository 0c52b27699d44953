import Mathlib
import MicroLearn.Proofs.Rounds

/-!
# Runs over time

A run takes a cell over a batch in a loop over time, one way or both ways, and writes the states
into place. The loops over the two layouts of a batch come to the same states, each in its layout,
and a loop one way can be cut in two anywhere. So it is with the runs of the bench that go through
them.
-/

set_option autoImplicit false

namespace MicroLearn.Bench

open Bag.Work (after after_bind)

variable {α β : Type}
variable {m : Bench α} {s t : Store} {p : Nat}

theorem after_of_bind {f : α → Bench β} {a : α}
    (h : after m s = (.ok a,t)) : after (m >>= f) s = after (f a) t := by
  rw [after_bind, h]

def field (s : Store) (p : Nat) (name : String) : Option Value :=
  ((s.parts[p]?).getD default).fields.lookup name

theorem after_fieldOf {name : String} {v : Value} (h : field s p name = some v) :
    after (fieldOf p name) s = (.ok v,s) := by
  have hread : after (fieldOf? p name) s = (.ok (field s p name),s) := rfl
  rw [fieldOf, after_of_bind hread, h]
  rfl

theorem lookup_cons_ite (k x : String) (v : α) (fields : List (String × α)) :
    ((k,v)::fields).lookup x = if x = k then some v else fields.lookup x := by
  by_cases h : x = k
  · simp [h]
  · simp [List.lookup_cons, beq_eq_false_iff_ne.2 h, h]

theorem lookup_put (k x : String) (v : α) (fields : List (String × α)) :
    (Text.Json.put k v fields).lookup x = if x = k then some v else fields.lookup x := by
  induction fields with
  | nil => exact lookup_cons_ite k x v []
  | cons e fields ih =>
    rw [Text.Json.put, lookup_cons_ite e.1 x e.2]
    split
    · next hk =>
      rw [lookup_cons_ite, hk]
      split <;> rfl
    · next hk =>
      rw [lookup_cons_ite, ih]
      grind

theorem field_setField (s : Store) (p q : Nat) (name other : String) (v : Value) :
    field (after (setField p name v) s).2 q other =
      if q = p ∧ p < s.parts.size ∧ other = name then some v else field s q other := by
  have hafter : (after (setField p name v) s).2.parts =
      s.parts.setIfInBounds p ⟨((s.parts[p]?).getD default).kind,
        Text.Json.put name v ((s.parts[p]?).getD default).fields⟩ := rfl
  rw [field, field, hafter]
  by_cases hq : q = p
  · subst hq
    by_cases hlt : q < s.parts.size
    · simp [hlt, lookup_put]
    · simp [hlt]
  · rw [Array.getElem?_setIfInBounds_ne (Ne.symm hq)]
    simp [hq]

def gridAt (s : Store) (q : Nat) : Grid :=
  let h := (s.handles[q]?).getD default
  ⟨h.element,⟨h.shape,(s.buffers[h.buffer]?).getD #[]⟩⟩

theorem after_heldGrid (s : Store) (q : Nat) : after (heldGrid q) s = (.ok (gridAt s q),s) := rfl

def holding (s : Store) (g : Grid) : Store :=
  { s with
    buffers := s.buffers.push g.body.data
    handles := s.handles.push ⟨s.buffers.size,g.shape,g.element,"t",false⟩ }

theorem after_tensor (s : Store) (g : Grid) :
    after (tensor g) s = (.ok (.held s.handles.size),holding s g) := rfl

theorem gridAt_holding (s : Store) (g : Grid) : gridAt (holding s g) s.handles.size = g := by
  simp [gridAt, holding]
  rfl

theorem gridAt_holding_of_lt {q h} (hq : s.handles[q]? = some h)
    (hb : h.buffer < s.buffers.size) (g : Grid) : gridAt (holding s g) q = gridAt s q := by
  have hlt : q < s.handles.size := (Array.getElem?_eq_some_iff.1 hq).1
  simp [gridAt, holding, hq, Array.getElem?_push, hlt.ne, hb.ne]

structure Agree (c : Nat) (s t : Store) : Prop where
  buffers : t.buffers = s.buffers
  handles : t.handles = s.handles
  part : t.parts[c]? = s.parts[c]?

theorem agree_setField {c} (h : p ≠ c) (s : Store) (name : String) (v : Value) :
    Agree c s (after (setField p name v) s).2 :=
  ⟨rfl,rfl,Array.getElem?_setIfInBounds_ne h⟩

class Reads (c : Nat) (m : Bench α) : Prop where
  same : ∀ s t, Agree c s t → ∃ r, after m s = (r,s) ∧ after m t = (r,t)

section Reads

variable (c : Nat)

instance (a : α) : Reads c (pure a) := ⟨fun _ _ _ => ⟨.ok a,rfl,rfl⟩⟩

instance (f : Fault) : Reads c (fail f : Bench α) := ⟨fun _ _ _ => ⟨.error f,rfl,rfl⟩⟩

instance reads_bind (m : Bench α) (f : α → Bench β) [hm : Reads c m] [hf : ∀ a, Reads c (f a)] :
    Reads c (m >>= f) where
  same s t h := by
    obtain ⟨r,hs,ht⟩ := hm.same s t h
    cases r with
    | ok a =>
      obtain ⟨r,hs',ht'⟩ := (hf a).same s t h
      exact ⟨r,(after_of_bind hs).trans hs',(after_of_bind ht).trans ht'⟩
    | error e => exact ⟨.error e,by rw [after_bind, hs],by rw [after_bind, ht]⟩

instance (b : Prop) [Decidable b] (m n : Bench α) [hm : Reads c m] [hn : Reads c n] :
    Reads c (if b then m else n) := by
  split
  · exact hm
  · exact hn

instance (xs : List β) (f : β → Bench α) [hf : ∀ x, Reads c (f x)] : Reads c (xs.mapM f) := by
  induction xs with
  | nil => rw [List.mapM_nil]; infer_instance
  | cons x xs ih => rw [List.mapM_cons]; infer_instance

instance : Reads c (partAt c) :=
  ⟨fun s t h => ⟨.ok ((s.parts[c]?).getD default),rfl,by rw [← h.part]; rfl⟩⟩

instance (q : Nat) : Reads c (heldGrid q) where
  same s t h := by
    refine ⟨.ok (gridAt s q),rfl,?_⟩
    have hgrid : gridAt t q = gridAt s q := by rw [gridAt, gridAt, h.handles, h.buffers]
    rw [after_heldGrid, hgrid]

instance (name : String) : Reads c (fieldOf c name) :=
  @reads_bind _ _ c _ _ (@reads_bind _ _ c _ _ inferInstance fun _ => inferInstance) fun v => by
    cases v <;> infer_instance

instance (v : Value) : Reads c (gridOf v) := by
  unfold gridOf
  split
  · infer_instance
  · infer_instance
  · split <;> infer_instance

instance (v : Value) : Reads c (optionalGrid v) := by
  unfold optionalGrid
  split <;> infer_instance

instance (v : Value) : Reads c (rowsOf v) :=
  @reads_bind _ _ c _ _ inferInstance fun g => by split <;> infer_instance

instance (v : Value) : Reads c (realOf v) := by cases v <;> unfold realOf <;> infer_instance

instance (v : Value) : Reads c (firstRow v) :=
  @reads_bind _ _ c _ _ inferInstance fun g => by split <;> infer_instance

instance (u : Fault) (v : Value) : Reads c (bendOf u v) := by
  unfold bendOf
  split
  · split <;> infer_instance
  · infer_instance
  · infer_instance

instance : Reads c (cellKindOf c) :=
  @reads_bind _ _ c _ _ inferInstance fun g => by split <;> infer_instance

instance (letter : String) (kind : Net.CellKind) (ranked : Bool) :
    Reads c (fanOf c letter kind ranked) := by
  unfold fanOf; infer_instance

instance (u : Fault) (kind : Net.CellKind) : Reads c (gateOf u c kind) := by
  unfold gateOf; infer_instance

instance (kind : Net.CellKind) : Reads c (paramsOf c kind) := by
  unfold paramsOf
  cases kind <;> infer_instance

instance (u : Fault) : Reads c (netCell u c) := by unfold netCell; infer_instance

end Reads

theorem after_of_agree {c} [hm : Reads c m] (h : Agree c s t)
    {r} (hs : after m s = (r,s)) : after m t = (r,t) := by
  obtain ⟨r',hs',ht⟩ := hm.same s t h
  obtain rfl : r' = r := congrArg Prod.fst (hs'.symm.trans hs)
  exact ht

end MicroLearn.Bench

namespace MicroLearn.Net

open List (range zipWith)

variable {σ τ ι β : Type}

def table (rows width : Nat) (entry : Nat → Nat → β) : List (List β) :=
  (range rows).map fun i => (range width).map (entry i)

theorem table_congr {rows width : Nat} {a b : Nat → Nat → β}
    (h : ∀ i < rows, ∀ j < width, a i j = b i j) : table rows width a = table rows width b :=
  List.map_congr_left fun i hi =>
    List.map_congr_left fun j hj => h i (List.mem_range.1 hi) j (List.mem_range.1 hj)

/-- What stands at a time for a sample, in a batch of a layout. -/
def inOrder (layout : Layout) (entry : Nat → Nat → β) : Nat → Nat → β :=
  match layout with
  | .timeFirst => entry
  | .sampleFirst => fun t b => entry b t

namespace Layout

/-- A batch of a layout, from what stands at a time for a sample. -/
def table (layout : Layout) (times samples : Nat) (entry : Nat → Nat → β) : List (List β) :=
  match layout with
  | .timeFirst => Net.table times samples entry
  | .sampleFirst => Net.table samples times fun b t => entry t b

variable (layout : Layout) {times samples : Nat}

theorem table_congr {a b : Nat → Nat → β} (h : ∀ i < times, ∀ j < samples, a i j = b i j) :
    layout.table times samples a = layout.table times samples b := by
  cases layout with
  | timeFirst => exact Net.table_congr h
  | sampleFirst => exact Net.table_congr fun j hj i hi => h i hi j hj

theorem map_table (f : σ → β) (a : Nat → Nat → σ) :
    (layout.table times samples a).map (List.map f) = layout.table times samples fun t b =>
      f (a t b) := by
  cases layout <;> simp [table, Net.table, Function.comp_def]

theorem zipWith_table (f : σ → τ → β) (a : Nat → Nat → σ) (b : Nat → Nat → τ) :
    zipWith (zipWith f) (layout.table times samples a) (layout.table times samples b) =
      layout.table times samples fun i j => f (a i j) (b i j) := by
  cases layout <;> simp [table, Net.table, List.zipWith_map, List.zipWith_self]

theorem read_table (x : Nat → Nat → ι) {t : Nat} (ht : t < times) :
    layout.read (layout.table times samples x) t = (range samples).map (x t) := by
  cases layout with
  | timeFirst => simp [read, table, Net.table, ht]
  | sampleFirst =>
    rw [read, table, Net.table, List.filterMap_map, ← List.filterMap_eq_map]
    refine List.filterMap_congr fun b _ => ?_
    simp [List.getElem?_range ht]

theorem set_map_range (f : Nat → β) (n i : Nat) (v : β) :
    ((range n).map f).set i v = (range n).map (Function.update f i v) := by
  refine List.ext_getElem (by simp) fun k hk _ => ?_
  simp [List.getElem_set, Function.update_apply, eq_comm]

theorem write_table (out : Nat → Nat → σ) (t : Nat) (ss : Nat → σ) :
    layout.write t ((range samples).map ss) (layout.table times samples out) =
      layout.table times samples (Function.update out t ss) := by
  cases layout with
  | timeFirst =>
    rw [write, table, Net.table, set_map_range]
    refine List.map_congr_left fun i _ => ?_
    by_cases h : i = t
    · simp [h]
    · simp [h]
  | sampleFirst =>
    rw [write, table, Net.table, List.zipWith_map, List.zipWith_self]
    refine List.map_congr_left fun b _ => ?_
    rw [set_map_range]
    refine List.map_congr_left fun i _ => ?_
    by_cases h : i = t
    · simp [h]
    · simp [h]

end Layout

/-- The state of a sample after some inputs. -/
def reached (step : σ → ι → σ) (start : Nat → σ) (x : Nat → Nat → ι) (n b : Nat) : σ :=
  finalState step (start b) ((range n).map (x · b))

theorem reached_succ (step : σ → ι → σ) (start : Nat → σ) (x : Nat → Nat → ι) (n b : Nat) :
    reached step start x (n+1) b = step (reached step start x n b) (x n b) := by
  simp [reached, finalState, List.range_succ]

theorem reached_add (step : σ → ι → σ) (start : Nat → σ) (x : Nat → Nat → ι) (n k b : Nat) :
    reached step start x (n+k) b =
      reached step (reached step start x n) (fun i => x (n+i)) k b := by
  simp [reached, finalState, List.range_add, Function.comp_def]

section Loops

/-- A run behind its first `n` turns, of which turn `i` took the inputs `x i`. -/
def passed (layout : Layout) (times samples : Nat) (step : σ → ι → σ) (start : Nat → σ)
    (x : Nat → Nat → ι) (blank : Nat → Nat → σ) (n : Nat) : Pass σ :=
  ⟨(range samples).map (reached step start x n),layout.table times samples fun t b =>
    if t < n then reached step start x (t+1) b else blank t b⟩

variable {layout : Layout} {times samples : Nat} {step : σ → ι → σ} {start : Nat → σ}
  {x : Nat → Nat → ι} {blank : Nat → Nat → σ} {xs : List (List ι)}

theorem turn_passed {n source : Nat} (h : layout.read xs source = (range samples).map (x n)) :
    (passed layout times samples step start x blank n).turn layout step xs source n =
      passed layout times samples step start x blank (n+1) := by
  have hnow : batchStep step ((range samples).map (reached step start x n))
      (layout.read xs source) = (range samples).map (reached step start x (n+1)) := by
    rw [h, batchStep, List.zipWith_map, List.zipWith_self]
    exact List.map_congr_left fun b _ => (reached_succ ..).symm
  rw [passed, Pass.turn, hnow, Layout.write_table, passed]
  refine congrArg (Pass.mk _) (layout.table_congr fun t _ b _ => ?_)
  by_cases ht : t = n
  · simp [ht]
  · simp [ht, show t < n+1 ↔ t < n by omega]

/-- What one turn keeps up, a loop of turns keeps up. -/
theorem turns_passed {source : Nat → Nat} : ∀ n,
    (∀ i < n, layout.read xs (source i) = (range samples).map (x i)) →
    (range n).foldl (fun p i => p.turn layout step xs (source i) i)
      (passed layout times samples step start x blank 0) =
        passed layout times samples step start x blank n := by
  intro n
  induction n with
  | zero => exact fun _ => rfl
  | succ n ih =>
    intro h
    rw [List.range_succ, List.foldl_append, ih fun i hi => h i (by omega)]
    exact turn_passed (h n (by omega))

theorem passed_zero : passed layout times samples step start x blank 0 =
    ⟨(range samples).map start,layout.table times samples blank⟩ := rfl

theorem passed_end : passed layout times samples step start x blank times =
    ⟨(range samples).map (reached step start x times),
      layout.table times samples fun t => reached step start x (t+1)⟩ :=
  congrArg (Pass.mk _) (layout.table_congr fun _ ht _ _ => if_pos ht)

theorem unroll_table (x : Nat → Nat → ι) :
    unroll layout times step (layout.table times samples x)
      ⟨(range samples).map start,layout.table times samples blank⟩ =
    ⟨(range samples).map (reached step start x times),
      layout.table times samples fun t => reached step start x (t+1)⟩ := by
  rw [unroll, ← passed_zero, turns_passed times fun i hi => layout.read_table x hi, passed_end]

theorem foldl_pair {α β γ : Type} (f : α → γ → α) (g : β → γ → β) (l : List γ) : ∀ (a : α) (b : β),
    l.foldl (fun r i => (f r.1 i,g r.2 i)) (a,b) = (l.foldl f a,l.foldl g b) := by
  induction l with
  | nil => exact fun _ _ => rfl
  | cons i l ih => exact fun a b => ih (f a i) (g b i)

theorem unrollBoth_table {back : σ → ι → σ} {stop : Nat → σ} (x : Nat → Nat → ι) :
    unrollBoth layout times step back (layout.table times samples x)
      ⟨(range samples).map start,layout.table times samples blank⟩
      ⟨(range samples).map stop,layout.table times samples blank⟩ =
    (unroll layout times step (layout.table times samples x)
      ⟨(range samples).map start,layout.table times samples blank⟩,
      ⟨(range samples).map (reached back stop (fun i => x (times-1-i)) times),
        layout.table times samples fun t => reached back stop (fun i => x (times-1-i)) (t+1)⟩) := by
  refine (foldl_pair (fun p i => Pass.turn layout step _ i i p)
    (fun p i => Pass.turn layout back _ (times-i-1) i p) _ _ _).trans (congrArg (Prod.mk _) ?_)
  rw [← passed_end, ← passed_zero]
  refine turns_passed times fun i hi => ?_
  rw [layout.read_table x (by omega), show times-i-1 = times-1-i by omega]

end Loops

end MicroLearn.Net

namespace MicroLearn.Bench

open Bag.Work (after after_bind)
open Net
open List (range replicate)

variable {c width first second n : Nat} {net : Cell Float} {g : Grid}

structure CellReads (s : Store) (c : Nat) (kind : CellKind) (width : Nat) (net : Cell Float) :
    Prop where
  kind : after (cellKindOf c) s = (.ok kind,s)
  width : field s c "hiddenSize" = some (.int width)
  net : after (netCell Activation.unknown c) s = (.ok net,s)

theorem CellReads.of_agree {s t kind}
    (h : CellReads s c kind width net) (hst : Agree c s t) : CellReads t c kind width net :=
  ⟨after_of_agree hst h.kind,by rw [field, hst.part]; exact h.width,after_of_agree hst h.net⟩

/-- The vector at two places of an array of three axes. -/
def vectorAt (t : Tensor Float) (i j : Nat) : List Float :=
  let part := shapeSize (t.shape.drop 1)
  let width := shapeSize (t.shape.drop 2)
  ((t.data.extract (i*part) ((i+1)*part)).extract (j*width) ((j+1)*width)).toList

theorem cube_eq {t} (h : t.shape = [first, second, n]) :
    (t.toCube?).getD [] = table first second (vectorAt t) := by
  simp [Tensor.toCube?, Tensor.rank, Tensor.parts, h, table, vectorAt]

def frameFor (batchFirst : Bool) (first second features width : Nat) (kind : CellKind) : RunFrame :=
  ⟨first,second,features,width,if batchFirst then .sampleFirst else .timeFirst,
    if batchFirst then first else second,kind == .longShort⟩

theorem zeros_frameFor (batchFirst : Bool) (first second features width : Nat) (kind : CellKind) :
    (frameFor batchFirst first second features width kind).zeros =
      (frameFor batchFirst first second features width kind).samples := by
  cases batchFirst <;> rfl

theorem after_runFrame {s : Store} {kind : CellKind}
    (h : CellReads s c kind width net) (hg : g.shape = [first, second, n]) (batchFirst : Bool) :
    after (runFrame c (.truth batchFirst) g) s =
      (.ok (frameFor batchFirst first second n width kind),s) := by
  rw [runFrame, hg]
  refine (after_of_bind (a := (first,second,n)) (t := s) rfl).trans ?_
  refine (after_of_bind (after_fieldOf h.width)).trans ?_
  refine (after_of_bind (a := width) (t := s) rfl).trans ?_
  refine (after_of_bind (a := batchFirst) (t := s) rfl).trans ?_
  exact (after_of_bind h.kind).trans rfl

namespace RunFrame

variable {f : RunFrame} {s : Store}

/-- The rows from which the directions of a run start: zeros where none are given. -/
def Starts (f : RunFrame) (ways : Nat) (rows : Nat → Nat → List Float) : Option Grid → Prop
  | none => ∀ k < ways, ∀ b < f.samples, rows k b = replicate f.width 0.0
  | some g => g.shape = [ways, f.samples, f.width] ∧
    ∀ k < ways, ∀ b < f.samples, rows k b = vectorAt g.body k b ∧ (rows k b).length = f.width

variable {ways k : Nat} {rows : Nat → Nat → List Float} {given : Option Grid}

theorem Starts.length (h : f.Starts ways rows given) (hk : k < ways) {b : Nat}
    (hb : b < f.samples) : (rows k b).length = f.width := by
  cases given with
  | none => rw [h k hk b hb, List.length_replicate]
  | some g => exact (h.2 k hk b hb).2

theorem Starts.started (h : f.Starts ways rows given) (hk : k < ways) :
    after (startRows given k f.samples f.width) s = (.ok ((range f.samples).map (rows k)),s) := by
  cases given with
  | none =>
    have hrows : (range f.samples).map (rows k) = replicate f.samples (replicate f.width 0.0) := by
      rw [List.map_congr_left fun b hb => h k hk b (List.mem_range.1 hb)]
      simp
    rw [hrows]
    rfl
  | some g =>
    obtain ⟨hshape,hrows⟩ := h
    have hshape' : g.body.shape = [ways, f.samples, f.width] := hshape
    have hpart : g.parts[k]? = some ⟨g.element,⟨[f.samples, f.width],
        g.body.data.extract (k*shapeSize [f.samples, f.width])
          ((k+1)*shapeSize [f.samples, f.width])⟩⟩ := by
      simp [Grid.parts, Tensor.parts, hshape', hk]
    rw [startRows, hpart, List.map_congr_left fun b hb => (hrows k hk b (List.mem_range.1 hb)).1]
    refine congrArg (fun rows => (Except.ok rows,s)) ?_
    simp [Tensor.parts, vectorAt, hshape', Function.comp_def]

theorem after_direction {cg : Option Grid} {hs cs : Nat → Nat → List Float} {c : Nat}
    {net : Cell Float} (hzeros : f.zeros = f.samples) (hhidden : f.Starts ways hs given)
    (hcarried : f.isLong = true → f.Starts ways cs cg) (hk : k < ways)
    (hnet : after (netCell Activation.unknown c) s = (.ok net,s)) :
    after (f.direction given cg k c) s = (.ok ⟨net,(range f.samples).map fun b =>
      ⟨hs k b,if f.isLong then cs k b else []⟩⟩,s) := by
  rw [direction, hzeros, after_of_bind (hhidden.started hk)]
  cases hlong : f.isLong with
  | false =>
    refine (after_of_bind (t := s) rfl).trans ((after_of_bind hnet).trans ?_)
    simp [memories, List.zipWith_map]
    rfl
  | true =>
    refine (after_of_bind ((hcarried hlong).started hk)).trans ((after_of_bind hnet).trans ?_)
    simp [memories, List.zipWith_map]
    rfl

/-- The matrices of a cell fit the inputs and the states of a run. -/
structure Fits (f : RunFrame) (net : Cell Float) : Prop where
  input : fitFan net.input f.features = .ok ()
  state : fitFan net.state f.width = .ok ()

theorem after_check {net} {start : Nat → Memory Float} (h : f.Fits net)
    (hstart : ∀ b < f.samples, (start b).state.length = f.width) :
    after (f.check ⟨net,(range f.samples).map start⟩) s = (.ok (),s) := by
  have hwidth : ((((range f.samples).map start).head?.map fun m => m.state.length).getD f.width) =
      f.width := by
    rcases Nat.eq_zero_or_pos f.samples with hnone | hsome
    · simp [hnone]
    · simp [List.head?_range, hsome.ne', hstart 0 hsome]
  rw [check]
  split
  · rfl
  · rw [Direction.check, h.input, hwidth, h.state]
    simp [Net.batchFault?]
    rfl

theorem begin_eq (d : Direction) : f.begin d = ⟨d.start,f.layout.table f.times f.samples fun _ _ =>
    ⟨replicate f.width 0.0,replicate f.width 0.0⟩⟩ := by
  obtain ⟨first,second,features,width,layout,zeros,isLong⟩ := f
  cases layout <;> simp [begin, Layout.table, Net.table, times, samples]

theorem after_keep (f : RunFrame) (hidden carried : Value) (k : Nat) (ms : List (Memory Float))
    (s : Store) : ∃ t, after (f.keep hidden carried k ms) s = (.ok (),t) := by
  have hlast : ∀ (v : Value) rows s, ∃ t, after (keepLast v k rows) s = (.ok (),t) := by
    intro v rows s
    unfold keepLast
    split
    · exact ⟨_,rfl⟩
    · exact ⟨_,rfl⟩
  rw [keep]
  split
  · obtain ⟨t,ht⟩ := hlast hidden (ms.map (·.state)) s
    obtain ⟨t',ht'⟩ := hlast carried (ms.map (·.carried)) t
    rw [after_of_bind ht]
    split
    · exact ⟨t',ht'⟩
    · exact ⟨t,rfl⟩
  · exact ⟨s,rfl⟩

/-- The value shows vectors, one behind the other. -/
def Shows (s : Store) (v : Value) (shape : List Nat) (vectors : List (List Float)) : Prop :=
  after (gridOf v) s = (.ok (.real ⟨shape,vectors.flatten.toArray⟩),s)

/-- The outcome of a run: the states, with the carried ones if the cell carries any. -/
def Gives (f : RunFrame) (s : Store) (v : Value) (width : Nat)
    (out : List (List Float × List Float)) : Prop :=
  if f.isLong then ∃ h c, v = .tuple [h, c] ∧ Shows s h [f.first, f.second, width] (out.map (·.1)) ∧
    Shows s c [f.first, f.second, width] (out.map (·.2))
  else Shows s v [f.first, f.second, width] (out.map (·.1))

theorem shows_of_gridAt {s q shape vectors}
    (h : gridAt s q = .real ⟨shape,vectors.flatten.toArray⟩) : Shows s (.held q) shape vectors := by
  rw [Shows, ← h]
  rfl

theorem answer_gives (f : RunFrame) (s : Store) (width : Nat)
    (outs : List (List (List Float × List Float))) :
    ∃ v t, after (f.answer width outs) s = (.ok v,t) ∧ f.Gives t v width outs.flatten := by
  let result := fun (part : List Float × List Float → List Float) => Grid.real
    ⟨[f.first, f.second, width],(outs.map fun row => row.map part).flatten.flatten.toArray⟩
  have hresult : ∀ part, result part = .real ⟨[f.first, f.second, width],
      (outs.flatten.map part).flatten.toArray⟩ := fun part => by simp [result, List.map_flatten]
  let t := holding s (result (·.1))
  have hstates : gridAt t s.handles.size = result (·.1) := gridAt_holding s _
  rw [answer]
  cases hlong : f.isLong with
  | false =>
    refine ⟨.held s.handles.size,t,after_of_bind (after_tensor s (result (·.1))),?_⟩
    rw [Gives, hlong]
    exact shows_of_gridAt (hstates.trans (hresult _))
  | true =>
    refine ⟨.tuple [.held s.handles.size, .held t.handles.size],holding t (result (·.2)),?_,?_⟩
    · exact (after_of_bind (after_tensor s (result (·.1)))).trans
        (after_of_bind (after_tensor t (result (·.2))))
    rw [Gives, hlong]
    refine ⟨_,_,rfl,shows_of_gridAt ?_,shows_of_gridAt ((gridAt_holding t _).trans (hresult _))⟩
    have hlast : t.handles[s.handles.size]? = some ⟨s.buffers.size,_,_,"t",false⟩ :=
      Array.getElem?_push_size
    rw [gridAt_holding_of_lt hlast (by simp [t, holding]), hstates, hresult]

end RunFrame

/-- What a run over a batch computes with: the cells, the input at a time for a sample, and the
states from which a direction starts for a sample. -/
structure Unrolling where
  batchFirst : Bool
  times : Nat
  samples : Nat
  features : Nat
  width : Nat
  kind : CellKind
  there : Cell Float
  back : Option (Cell Float)
  input : Nat → Nat → List Float
  hidden : Nat → Nat → List Float
  carried : Nat → Nat → List Float

namespace Unrolling

variable (u : Unrolling)

def frame : RunFrame :=
  frameFor u.batchFirst (if u.batchFirst then u.samples else u.times)
    (if u.batchFirst then u.times else u.samples) u.features u.width u.kind

def ways : Nat := if u.back.isSome then 2 else 1

def start (k b : Nat) : Memory Float :=
  ⟨u.hidden k b,if u.kind == .longShort then u.carried k b else []⟩

/-- The state after the inputs up to a time, beside that of the way back after as many inputs. -/
def output (t b : Nat) : List Float × List Float :=
  let ahead := reached u.there.step (u.start 0) u.input (t+1) b
  match u.back with
  | none => onlyMemory ahead
  | some net => joinMemories ahead
    (reached net.step (u.start 1) (fun i => u.input (u.times-1-i)) (t+1) b)

/-- The store holds a run of this layout, with the inputs and the states in the values given to
it. -/
structure Held (s : Store) (run : Nat) (x hidden carried : Value) : Prop where
  layout : field s run "batchFirst" = some (.truth u.batchFirst)
  both : field s run "bidirectional" = some (.truth u.back.isSome)
  ahead : ∃ c, run ≠ c ∧ field s run "cell" = some (.part c) ∧ CellReads s c u.kind u.width u.there
  behind : ∀ net, u.back = some net → ∃ c, run ≠ c ∧ field s run "reverseCell" = some (.part c) ∧
    after (netCell Activation.unknown c) s = (.ok net,s)
  input : ∃ g, after (gridOf x) s = (.ok g,s) ∧
    g.shape = [u.frame.first, u.frame.second, u.features] ∧
    ∀ t < u.times, ∀ b < u.samples, inOrder u.frame.layout (vectorAt g.body) t b = u.input t b
  hidden : ∃ g, after (optionalGrid hidden) s = (.ok g,s) ∧ u.frame.Starts u.ways u.hidden g
  carried : u.kind = .longShort →
    ∃ g, after (optionalGrid carried) s = (.ok g,s) ∧ u.frame.Starts u.ways u.carried g
  fits : ∀ net, net = u.there ∨ u.back = some net → u.frame.Fits net

def Gives (s : Store) (run : Nat) (x hidden carried : Value)
    (out : Nat → Nat → List Float × List Float) : Prop :=
  ∃ v t, after (forwardRun run x hidden carried) s = (.ok v,t) ∧ u.frame.Gives t v
    (u.ways*u.width) (u.frame.layout.table u.times u.samples out).flatten

theorem times_frame : u.frame.times = u.times := by
  rw [frame, frameFor, RunFrame.times]
  split <;> simp_all

theorem samples_frame : u.frame.samples = u.samples := by
  rw [frame, frameFor, RunFrame.samples]
  split <;> simp_all

theorem table_frame {β : Type} (entry : Nat → Nat → β) :
    table u.frame.first u.frame.second (inOrder u.frame.layout entry) =
      u.frame.layout.table u.times u.samples entry := by
  rw [frame, frameFor]
  cases u.batchFirst <;> rfl

theorem loop_gives (hidden carried : Value) (s : Store) : ∃ v t,
    after (u.frame.loop hidden carried
      (u.frame.layout.table u.times u.samples u.input) ⟨u.there,(range u.samples).map (u.start 0)⟩
      (u.back.map fun net => ⟨net,(range u.samples).map (u.start 1)⟩)) s = (.ok v,t) ∧
    u.frame.Gives t v (u.ways*u.width)
      (u.frame.layout.table u.times u.samples u.output).flatten := by
  let f := u.frame
  let ahead := reached u.there.step (u.start 0) u.input
  obtain ⟨t,hkeep⟩ := f.after_keep hidden carried 0 ((range u.samples).map (ahead u.times)) s
  cases hback : u.back with
  | none =>
    have hout : u.output = fun t b => onlyMemory (ahead (t+1) b) := by
      funext t b
      simp [output, hback, ahead]
    obtain ⟨v,t',hanswer,hgives⟩ :=
      f.answer_gives t u.width (f.layout.table u.times u.samples u.output)
    refine ⟨v,t',?_,by simpa [ways, hback] using hgives⟩
    rw [Option.map_none, RunFrame.loop, RunFrame.begin_eq, times_frame, samples_frame, unroll_table]
    refine (after_of_bind hkeep).trans (Eq.trans ?_ hanswer)
    rw [Layout.map_table, hout]
    rfl
  | some net =>
    let behind := reached net.step (u.start 1) fun i => u.input (u.times-1-i)
    have hout : u.output = fun t b => joinMemories (ahead (t+1) b) (behind (t+1) b) := by
      funext t b
      simp [output, hback, ahead, behind]
    obtain ⟨t1,hkeep'⟩ := f.after_keep hidden carried 1 ((range u.samples).map (behind u.times)) t
    obtain ⟨v,t',hanswer,hgives⟩ :=
      f.answer_gives t1 (2*u.width) (f.layout.table u.times u.samples u.output)
    refine ⟨v,t',?_,by simpa [ways, hback] using hgives⟩
    rw [Option.map_some, RunFrame.loop, RunFrame.begin_eq, RunFrame.begin_eq, times_frame,
      samples_frame, unrollBoth_table, unroll_table]
    refine (after_of_bind hkeep).trans ((after_of_bind hkeep').trans (Eq.trans ?_ hanswer))
    rw [Layout.zipWith_table, hout]
    rfl

variable {u} {s : Store} {run : Nat} {x hidden carried : Value}

theorem Held.gives (h : u.Held s run x hidden carried) :
    u.Gives s run x hidden carried u.output := by
  let f := u.frame
  obtain ⟨cell,hne,hahead,hcell⟩ := h.ahead
  obtain ⟨g,hx,hshape,hinput⟩ := h.input
  obtain ⟨hg,hhidden,hstarts⟩ := h.hidden
  let t1 := (after (setField run "device" (.text "cpu")) s).2
  let t := (after (setField run "directions" (.int (if u.back.isSome then 2 else 1))) t1).2
  have hagree : ∀ c, run ≠ c → Agree c s t := by
    intro c hc
    have h1 := agree_setField hc s "device" (.text "cpu")
    have h2 := agree_setField hc t1 "directions" (.int (if u.back.isSome then 2 else 1))
    exact ⟨h2.buffers.trans h1.buffers,h2.handles.trans h1.handles,h2.part.trans h1.part⟩
  have hcube : (g.body.toCube?).getD [] = f.layout.table u.times u.samples u.input := by
    have hswap : vectorAt g.body = inOrder f.layout (inOrder f.layout (vectorAt g.body)) := by
      cases f.layout <;> rfl
    rw [cube_eq hshape, hswap, table_frame]
    exact f.layout.table_congr hinput
  have hsecond : ∃ cg, after (f.secondGrid carried) t = (.ok cg,t) ∧
      (f.isLong = true → f.Starts u.ways u.carried cg) := by
    cases hlong : f.isLong with
    | false => exact ⟨none,by rw [RunFrame.secondGrid, hlong]; rfl,nofun⟩
    | true =>
      obtain ⟨cg,hcarried,hcstarts⟩ := h.carried (eq_of_beq hlong)
      refine ⟨cg,?_,fun _ => hcstarts⟩
      rw [RunFrame.secondGrid, if_pos hlong]
      exact after_of_agree (hagree cell hne) hcarried
  obtain ⟨cg,hcarried,hcstarts⟩ := hsecond
  have hdirection : ∀ k < u.ways, ∀ c net, after (netCell Activation.unknown c) t = (.ok net,t) →
      f.Fits net → after (f.direction hg cg k c) t =
        (.ok ⟨net,(range u.samples).map (u.start k)⟩,t) ∧
        after (f.check ⟨net,(range u.samples).map (u.start k)⟩) t = (.ok (),t) := by
    intro k hk c net hnet hfit
    rw [← u.samples_frame]
    exact ⟨RunFrame.after_direction (zeros_frameFor ..) hstarts hcstarts hk hnet,
      RunFrame.after_check hfit fun b hb => hstarts.length hk hb⟩
  have hcell' := hcell.of_agree (hagree cell hne)
  have hthere := hdirection 0 (by unfold ways; split <;> omega) cell u.there hcell'.net
    (h.fits _ (.inl rfl))
  obtain ⟨v,t',hloop,hgives⟩ := u.loop_gives hidden carried t
  refine ⟨v,t',?_,hgives⟩
  refine Eq.trans ?_ hloop
  rw [forwardRun, ← hcube]
  refine (after_of_bind hx).trans ((after_of_bind (after_fieldOf hahead)).trans ?_)
  refine (after_of_bind (a := cell) (t := s) rfl).trans
    ((after_of_bind (after_fieldOf h.both)).trans ?_)
  refine (after_of_bind (a := u.back.isSome) (t := s) rfl).trans
    ((after_of_bind (after_fieldOf h.layout)).trans ?_)
  refine (after_of_bind (a := ()) (t := t1) rfl).trans
    ((after_of_bind (a := ()) (t := t) rfl).trans ?_)
  refine (after_of_bind (after_runFrame hcell' hshape u.batchFirst)).trans ?_
  refine (after_of_bind (after_of_agree (hagree cell hne) hhidden)).trans
    ((after_of_bind hcarried).trans ?_)
  refine (after_of_bind hthere.1).trans ((after_of_bind hthere.2).trans ?_)
  cases hback : u.back with
  | none => rfl
  | some net =>
    obtain ⟨c,hne',hbehind,hnet⟩ := h.behind net hback
    have hreverse : field t run "reverseCell" = some (.part c) := by
      simpa [t, t1, field_setField] using hbehind
    have hnext := hdirection 1 (by simp [ways, hback]) c net (after_of_agree (hagree c hne') hnet)
      (h.fits net (.inr hback))
    refine (after_of_bind (after_fieldOf hreverse)).trans
      ((after_of_bind (a := c) (t := t) rfl).trans ?_)
    exact (after_of_bind hnext.1).trans (after_of_bind hnext.2)

end Unrolling

theorem ok_of_bind {α β : Type} {m : Bench α} {f : α → Bench β} {s t : Store} {b : β}
    (h : after (m >>= f) s = (.ok b,t)) :
    ∃ a u, after m s = (.ok a,u) ∧ after (f a) u = (.ok b,t) := by
  obtain ⟨r,u,hm⟩ : ∃ r u, after m s = (r,u) := ⟨_,_,rfl⟩
  rw [after_bind, hm] at h
  cases r with
  | ok a => exact ⟨a,u,hm,h⟩
  | error e => simp at h

/-- Only the cells with a carried state change it. -/
theorem CellReads.step_carried {s : Store} {c width : Nat} {kind : CellKind} {net : Cell Float}
    (h : CellReads s c kind width net) (hkind : kind ≠ .longShort) (m : Memory Float)
    (x : List Float) :
    (net.step m x).carried = m.carried := by
  have hnet := h.net
  rw [netCell, after_of_bind h.kind] at hnet
  iterate 7 obtain ⟨_,_,-,hnet⟩ := ok_of_bind hnet
  obtain ⟨params,_,hparams,hnet⟩ := ok_of_bind hnet
  obtain rfl := Except.ok.inj (congrArg Prod.fst hnet)
  cases kind with
  | longShort => exact absurd rfl hkind
  | _ =>
    repeat obtain ⟨_,_,-,hparams⟩ := ok_of_bind hparams
    obtain rfl := Except.ok.inj (congrArg Prod.fst hparams)
    rfl

namespace Unrolling

variable (u : Unrolling) {s : Store} {run : Nat} {x hidden carried : Value}

/-- The state of a sample after the first `n` inputs. -/
def stateAt (n b : Nat) : Memory Float := reached u.there.step (u.start 0) u.input n b

/-- The same in the other layout. -/
def other : Unrolling := { u with batchFirst := !u.batchFirst }

/-- The first `n` times alone. -/
def upTo (n : Nat) : Unrolling := { u with times := n }

/-- The other times alone, from the states that the first `n` times lead to. -/
def beyond (n : Nat) : Unrolling :=
  { u with
    times := u.times-n
    input := fun t => u.input (n+t)
    hidden := fun _ b => (u.stateAt n b).state
    carried := fun _ b => (u.stateAt n b).carried }

variable {u}

theorem Held.start_beyond (h : u.Held s run x hidden carried) (n b : Nat) :
    (u.beyond n).start 0 b = u.stateAt n b := by
  obtain ⟨c,-,-,hcell⟩ := h.ahead
  rw [start]
  split
  · rfl
  · next hkind =>
    have hcarried : ∀ n, (u.stateAt n b).carried = [] := by
      intro n
      induction n with
      | zero => exact if_neg hkind
      | succ n ih =>
        rw [stateAt, reached_succ, hcell.step_carried fun heq => hkind (beq_iff_eq.2 heq)]
        exact ih
    exact congrArg (Memory.mk _) (hcarried n).symm

theorem Held.output_beyond (h : u.Held s run x hidden carried) (hback : u.back = none)
    (n t b : Nat) : (u.beyond n).output t b = u.output (n+t) b := by
  have hstart : (u.beyond n).start 0 = u.stateAt n := funext (h.start_beyond n)
  have hnone : (u.beyond n).back = none := hback
  simp only [output, hstart, hback, hnone]
  exact congrArg onlyMemory (reached_add u.there.step (u.start 0) u.input n (t+1) b).symm

end Unrolling

/-- The loops of a run over time come to the same in both layouts of a batch, one way or both, for
any step, and one way a loop can be cut in two. So a run over the same batch in either layout gives
the same, each in its layout, from any states that are given; and one way, a run over a sequence
gives what a run over its first times gives, and behind it what a run over the other times gives
that starts from the last states of the first. -/
theorem unrolling_layout_and_cut :
    (∀ (σ ι : Type) (there back : σ → ι → σ) (times samples : Nat) (start stop : Nat → σ)
        (blank : Nat → Nat → σ) (x : Nat → Nat → ι), ∃ ahead behind : Nat → Nat → σ,
          ∀ layout : Layout,
      let pass := fun (n : Nat) (now : List σ) => Pass.mk now (layout.table n samples blank)
      let xs := layout.table times samples x
      let p := pass times ((List.range samples).map start)
      let q := pass times ((List.range samples).map stop)
      (unroll layout times there xs p).out = layout.table times samples ahead ∧
      (unrollBoth layout times there back xs p q).1 = unroll layout times there xs p ∧
      (unrollBoth layout times there back xs p q).2.out = layout.table times samples behind ∧
      ∀ n ≤ times,
        let first := unroll layout n there (layout.table n samples x)
          (pass n ((List.range samples).map start))
        let rest := layout.table (times-n) samples fun t => x (n+t)
        first.out = layout.table n samples ahead ∧
        (unroll layout (times-n) there rest (pass (times-n) first.now)).out =
          layout.table (times-n) samples fun t => ahead (n+t)) ∧
    (∀ (u : Unrolling) (s s' : Store) (run run' : Nat)
      (x x' hidden hidden' carried carried' : Value),
      u.Held s run x hidden carried → u.other.Held s' run' x' hidden' carried' →
      u.Gives s run x hidden carried u.output ∧
      u.other.Gives s' run' x' hidden' carried' u.output) ∧
    ∀ (u : Unrolling) (n : Nat) (s s₁ s₂ : Store) (run run₁ run₂ : Nat)
        (x x₁ x₂ hidden hidden₁ hidden₂ carried carried₁ carried₂ : Value), u.back = none →
          n ≤ u.times →
      u.Held s run x hidden carried → (u.upTo n).Held s₁ run₁ x₁ hidden₁ carried₁ →
      (u.beyond n).Held s₂ run₂ x₂ hidden₂ carried₂ →
      u.Gives s run x hidden carried u.output ∧
      (u.upTo n).Gives s₁ run₁ x₁ hidden₁ carried₁ u.output ∧
      (u.beyond n).Gives s₂ run₂ x₂ hidden₂ carried₂ fun t => u.output (n+t) := by
  refine ⟨?_,?_,?_⟩
  · intro σ ι there back times samples start stop blank x
    refine ⟨fun t => reached there start x (t+1),
      fun t => reached back stop (fun i => x (times-1-i)) (t+1),?_⟩
    intro layout pass xs p q
    have hboth : unrollBoth layout times there back xs p q = _ := unrollBoth_table x
    refine ⟨?_,?_,?_,?_⟩
    · rw [unroll_table]
    · rw [hboth]
    · rw [hboth]
    · intro n hn first rest
      have hfirst : first = _ := unroll_table x
      refine ⟨by rw [hfirst],?_⟩
      rw [hfirst, unroll_table]
      exact layout.table_congr fun t _ b _ => (reached_add there start x n (t+1) b).symm
  · intro u s s' run run' x x' hidden hidden' carried carried' h h'
    exact ⟨h.gives,h'.gives⟩
  · intro u n s s₁ s₂ run run₁ run₂ x x₁ x₂ hidden hidden₁ hidden₂ carried carried₁ carried₂
    intro hback hn h h₁ h₂
    have hfirst : (u.upTo n).output = u.output := by
      funext t b
      simp only [Unrolling.output, Unrolling.upTo, hback]
      rfl
    have hrest : (u.beyond n).output = fun t => u.output (n+t) := by
      funext t b
      exact h.output_beyond hback n t b
    exact ⟨h.gives,hfirst ▸ h₁.gives,hrest ▸ h₂.gives⟩

def oneNumber (x : Float) : Value := .grid (.real ⟨[1, 1],#[x]⟩)

/-- A layer of both directions whose cell takes the mean of its state and its input. -/
def meanStore : Store where
  parts := #[⟨.cell (some .gated),[("hiddenSize",.int 1), ("inputRank",.none), ("stateRank",.none),
      ("gate",.text "quantSigm"), ("update",.text "quantTanh"),
      ("W1",oneNumber 0.0), ("W2",oneNumber 0.0), ("W3",oneNumber 1.0),
      ("U1",oneNumber 0.0), ("U2",oneNumber 0.0), ("U3",oneNumber 0.0),
      ("resetBias",oneNumber 0.0), ("gateBias",oneNumber 0.0), ("updateBias",oneNumber 0.0)]⟩,
    ⟨.run,[("cell",.part 0), ("reverseCell",.part 0), ("bidirectional",.truth true),
      ("batchFirst",.truth false)]⟩,
    ⟨.layer .gated,[("unrolled",.part 1)]⟩]

def meanCell : Cell Float where
  input := ⟨none,[[[0.0]], [[0.0]], [[1.0]]]⟩
  state := ⟨none,[[[0.0]], [[0.0]], [[0.0]]]⟩
  params := .gated [0.0] [0.0] [0.0]
  gate := Activation.clampedSigmoid.apply curves
  update := Activation.clampedTanh.apply curves
  squash := sigmoid

def twoSteps : Grid := .real ⟨[2, 1, 1],#[0.5, -0.25]⟩

/-- Two runs of the same cell one way, one for each layout. -/
def oneWayStore : Store where
  parts :=
    let run (b : Bool) : Part :=
      ⟨.run,[("cell",.part 0), ("bidirectional",.truth false), ("batchFirst",.truth b)]⟩
    (meanStore.parts.push (run false)).push (run true)

def oneWay : Unrolling where
  batchFirst := false
  times := 2
  samples := 1
  features := 1
  width := 1
  kind := .gated
  there := meanCell
  back := none
  input := vectorAt twoSteps.body
  hidden := fun _ _ => [0.0]
  carried := fun _ _ => []

/-- Two inputs in either layout, and one after the other with the state between them. -/
theorem unrolling_layout_and_cut_two_steps :
    let single := fun x : List Float => Value.grid (.real ⟨[1, 1, 1],x.toArray⟩)
    (oneWay.Gives oneWayStore 3 (.grid twoSteps) .none .none oneWay.output ∧
      oneWay.other.Gives oneWayStore 4 (.grid (.real ⟨[1, 2, 1],#[0.5, -0.25]⟩)) .none .none
        oneWay.output) ∧
    (oneWay.upTo 1).Gives oneWayStore 3 (single [0.5]) .none .none oneWay.output ∧
    (oneWay.beyond 1).Gives oneWayStore 3 (single [-0.25]) (single (oneWay.stateAt 1 0).state) .none
      (fun t => oneWay.output (1+t)) ∧
    ((oneWay.output 0 0).1++(oneWay.output 1 0).1).map Float.toBits =
      [0.25, 0.0].map Float.toBits := by
  intro single
  have hcell : CellReads oneWayStore 0 .gated 1 meanCell := ⟨rfl,rfl,rfl⟩
  have hfits (f : RunFrame) (hf : f.features = 1 ∧ f.width = 1) :
      ∀ net, net = meanCell ∨ none = some net → f.Fits net := by
    rintro net (rfl | hnone)
    · exact ⟨by rw [hf.1]; rfl,by rw [hf.2]; rfl⟩
    · cases hnone
  have hsteps (a b : Float) : ∀ t < 2,
      vectorAt ⟨[1, 2, 1],#[a, b]⟩ 0 t = vectorAt ⟨[2, 1, 1],#[a, b]⟩ t 0 := by
    intro t ht
    interval_cases t <;> rfl
  have hparts (a b : Float) : vectorAt ⟨[1, 1, 1],#[a]⟩ 0 0 = vectorAt ⟨[2, 1, 1],#[a, b]⟩ 0 0 ∧
      vectorAt ⟨[1, 1, 1],#[b]⟩ 0 0 = vectorAt ⟨[2, 1, 1],#[a, b]⟩ 1 0 := ⟨rfl,rfl⟩
  have hlast : (oneWay.stateAt 1 0).state.length = 1 := by decide +kernel
  have hthere : oneWay.Held oneWayStore 3 (.grid twoSteps) .none .none :=
    ⟨rfl,rfl,⟨0,by decide,rfl,hcell⟩,nofun,⟨_,rfl,rfl,fun _ _ _ _ => rfl⟩,
      ⟨none,rfl,fun _ _ _ _ => rfl⟩,nofun,hfits _ ⟨rfl,rfl⟩⟩
  have hother : oneWay.other.Held oneWayStore 4 (.grid (.real ⟨[1, 2, 1],#[0.5, -0.25]⟩)) .none
      .none := by
    refine ⟨rfl,rfl,⟨0,by decide,rfl,hcell⟩,nofun,⟨_,rfl,rfl,fun t ht b hb => ?_⟩,
      ⟨none,rfl,fun _ _ _ _ => rfl⟩,nofun,hfits _ ⟨rfl,rfl⟩⟩
    obtain rfl := Nat.lt_one_iff.1 hb
    exact hsteps _ _ t ht
  have hfirst : (oneWay.upTo 1).Held oneWayStore 3 (single [0.5]) .none .none := by
    refine ⟨rfl,rfl,⟨0,by decide,rfl,hcell⟩,nofun,⟨_,rfl,rfl,fun t ht b hb => ?_⟩,
      ⟨none,rfl,fun _ _ _ _ => rfl⟩,nofun,hfits _ ⟨rfl,rfl⟩⟩
    obtain rfl := Nat.lt_one_iff.1 ht
    obtain rfl := Nat.lt_one_iff.1 hb
    exact (hparts _ _).1
  have hrest : (oneWay.beyond 1).Held oneWayStore 3 (single [-0.25])
      (single (oneWay.stateAt 1 0).state) .none := by
    refine ⟨rfl,rfl,⟨0,by decide,rfl,hcell⟩,nofun,⟨_,rfl,rfl,fun t ht b hb => ?_⟩,
      ⟨_,rfl,rfl,fun k hk b hb => ?_⟩,nofun,hfits _ ⟨rfl,rfl⟩⟩
    · obtain rfl := Nat.lt_one_iff.1 ht
      obtain rfl := Nat.lt_one_iff.1 hb
      exact (hparts _ _).2
    · obtain rfl := Nat.lt_one_iff.1 hk
      obtain rfl := Nat.lt_one_iff.1 hb
      refine ⟨?_,hlast⟩
      change (oneWay.stateAt 1 0).state =
        vectorAt ⟨[1, 1, 1],(oneWay.stateAt 1 0).state.toArray⟩ 0 0
      obtain ⟨x,hx⟩ := List.length_eq_one_iff.1 hlast
      rw [hx]
      rfl
  obtain ⟨-,hlayouts,hcut⟩ := unrolling_layout_and_cut
  refine ⟨hlayouts _ _ _ _ _ _ _ _ _ _ _ hthere hother,?_⟩
  obtain ⟨-,hparts⟩ :=
    hcut oneWay 1 _ _ _ _ _ _ _ _ _ _ _ _ _ _ _ rfl (by decide) hthere hfirst hrest
  exact ⟨hparts.1,hparts.2,by decide +kernel⟩

end MicroLearn.Bench
