import Mathlib.Data.Option.Basic
import Mathlib.Logic.Function.Basic
import MicroLearn.Fixed.GatedCell
import MicroLearn.Proofs.Word

/-!
# Kernel calls on known contents

A call is also a function on what is known of the buffers. Where buffers that are
written share no cell with another one, the memory after a sequence of calls holds
what the calls make of the known contents, whatever else there was in memory.
-/

set_option autoImplicit false

namespace MicroLearn.Fixed

open Option (bind_eq_bind bind_eq_some_iff)
open Function (update update_of_ne update_self)

variable {i n : Nat} {v : Nat → Int} {mem mem₁ mem₂ mem' : Memory} {xs : List Int}

/-- A cell is among the `n` cells from a pointer on. -/
def Pointer.Covers (p : Pointer) (n : Nat) (q : Pointer) : Prop :=
  q.buffer = p.buffer ∧ p.offset ≤ q.offset ∧ q.offset < p.offset+n

@[simp] theorem plus_plus (p : Pointer) (i j : Nat) : (p.plus i).plus j = p.plus (i+j) := by
  simp [Pointer.plus, Nat.add_assoc]

@[simp] theorem covers_plus (p : Pointer) (n i : Nat) : p.Covers n (p.plus i) ↔ i < n := by
  simp [Pointer.Covers, Pointer.plus]

theorem exists_of_covers {p q : Pointer} (h : p.Covers n q) : ∃ i < n, q = p.plus i := by
  cases q
  simp only [Pointer.Covers] at h
  refine ⟨_,Nat.sub_lt_left_of_lt_add h.2.1 h.2.2,?_⟩
  simp only [Pointer.plus, Pointer.mk.injEq]
  omega

theorem covers_of_part {p q : Pointer} {count} (start : Nat) (h : (p.plus start).Covers n q)
    (hn : start+n ≤ count) : p.Covers count q := by
  simp only [Pointer.Covers, Pointer.plus] at h ⊢
  omega

namespace Memory

variable {mem mem' : Memory} {p : Pointer} {v : Int}

theorem store_of_has (h : mem.has p = true) (v : Int) : ∃ mem', mem.store p v = some mem' := by
  simp [store, h]

theorem has_store (h : mem.store p v = some mem') (q : Pointer) : mem'.has q = mem.has q := by
  simp only [store] at h
  split at h
  · cases h
    by_cases hq : p.buffer = q.buffer
    · simp only [has, hq, Array.getD_eq_getD_getElem?, Array.getElem?_modify]
      cases mem.buffers[q.buffer]? <;> simp
    · simp [has, Array.getElem?_modify, hq]
  · simp at h

theorem load_store (h : mem.store p v = some mem')
    (q : Pointer) : mem'.load q = if q = p then some v else mem.load q := by
  simp only [store] at h
  split at h
  case isFalse => simp at h
  case isTrue hp =>
    cases h
    have hsize : p.offset < (mem.buffers.getD p.buffer #[]).size := by simpa [has] using hp
    cases hb : mem.buffers[p.buffer]? with
    | none => simp [hb] at hsize
    | some b =>
      replace hsize : p.offset < b.size := by simpa [hb] using hsize
      by_cases hq : p.buffer = q.buffer
      · by_cases ho : p.offset = q.offset
        · have hpq : q = p := by cases p; cases q; simp_all
          subst hpq
          simp [load, Cells.read?, Array.getElem?_modify, hb, hsize]
        · have hpq : q ≠ p := fun e => ho (by rw [e])
          simp [load, Cells.read?, Array.getElem?_modify, ← hq, hb, hpq, ho]
      · have hpq : q ≠ p := fun e => hq (by rw [e])
        simp [load, Array.getElem?_modify, hq, hpq]

end Memory

/-- The memory after the first `n` cells from a pointer on were given values. -/
structure Stored (dst : Pointer) (n : Nat) (v : Nat → Int) (mem mem' : Memory) : Prop where
  has : ∀ p, mem'.has p = mem.has p
  value : ∀ i < n, mem'.load (dst.plus i) = some (v i)
  rest : ∀ p, ¬ dst.Covers n p → mem'.load p = mem.load p

theorem Stored.store {dst} (h : Stored dst n v mem mem₁)
    (hs : mem₁.store (dst.plus n) (v n) = some mem₂) : Stored dst (n+1) v mem mem₂ where
  has p := (Memory.has_store hs p).trans (h.has p)
  value i hi := by
    rw [Memory.load_store hs]
    by_cases hin : i = n
    · simp [hin]
    · rw [if_neg fun e => hin (by simpa [Pointer.plus] using e), h.value i (by omega)]
  rest p hp := by
    have hne : p ≠ dst.plus n := fun e => hp (by simp [e])
    rw [Memory.load_store hs, if_neg hne]
    apply h.rest
    intro hc
    apply hp
    exact covers_of_part 0 hc (by omega)

/-- A loop may read the memory that it changes. It ends where each value follows from the
cells stored before and from the cells that are still as they were. -/
theorem fill_stored {dst value} (v : Nat → Int) (hroom : ∀ i < n, mem.has (dst.plus i) = true)
    (hv : ∀ i < n, ∀ mem', Stored dst i v mem mem' → value mem' i = some (v i)) :
    ∃ mem', mem.fill dst n value = some mem' ∧ Stored dst n v mem mem' := by
  apply foldlM_range _ n (fun i mem' => Stored dst i v mem mem') mem ⟨fun _ => rfl,nofun,fun _ _ =>
    rfl⟩
  intro i hi mem₁ h
  obtain ⟨mem₂,h2⟩ := Memory.store_of_has ((h.has _).trans (hroom i hi)) (v i)
  refine ⟨mem₂,?_,h.store h2⟩
  simp [hv i hi mem₁ h, h2]

structure Kept (region : Pointer → Prop) (mem mem' : Memory) : Prop where
  has : ∀ p, mem'.has p = mem.has p
  load : ∀ p, ¬ region p → mem'.load p = mem.load p

theorem Kept.refl (region : Pointer → Prop) (mem : Memory) : Kept region mem mem :=
  ⟨fun _ => rfl,fun _ _ => rfl⟩

theorem Kept.trans {region} (h : Kept region mem mem₁) (h' : Kept region mem₁ mem₂) :
    Kept region mem mem₂ :=
  ⟨fun p => (h'.has p).trans (h.has p),fun p hp => (h'.load p hp).trans (h.load p hp)⟩

theorem Kept.mono {region larger} (h : Kept region mem mem')
    (hle : ∀ p, region p → larger p) : Kept larger mem mem' :=
  ⟨h.has,fun p hp => h.load p fun hr => hp (hle p hr)⟩

theorem Stored.kept {dst} (h : Stored dst n v mem mem') : Kept (dst.Covers n) mem mem' :=
  ⟨h.has,h.rest⟩

def Reads (mem : Memory) (p : Pointer) (xs : List Int) : Prop :=
  ∀ i x, xs[i]? = some x → mem.load (p.plus i) = some x

theorem mapM_range_iff {f} :
    (List.range n).mapM f = some xs ↔ xs.length = n ∧ ∀ i x, xs[i]? = some x → f i = some x := by
  simp only [mapM_some, List.forall₂_iff_get, List.length_range, List.get_eq_getElem,
    List.getElem_range, List.getElem?_eq_some_iff]
  constructor
  · rintro ⟨rfl,h⟩
    exact ⟨rfl,fun i _ ⟨hi,hx⟩ => hx ▸ h i hi hi⟩
  · rintro ⟨rfl,h⟩
    exact ⟨rfl,fun i hi _ => h i _ ⟨hi,rfl⟩⟩

theorem Reads.vector {p} (h : Reads mem p xs) : mem.vector p xs.length = some xs :=
  mapM_range_iff.2 ⟨rfl,h⟩

theorem reads_held {p} (hp : p.offset = 0)
    (hb : mem.buffers[p.buffer]? = some (xs.map some).toArray) : Reads mem p xs := by
  intro i x hx
  simp [Memory.load, Pointer.plus, hb, hp, Cells.read?, hx]

theorem has_plus {p : Pointer} {b} (hb : mem.buffers[p.buffer]? = some b)
    (hi : p.offset+i < b.size) : mem.has (p.plus i) = true := by
  simpa [Memory.has, Pointer.plus, hb] using hi

theorem Reads.kept {region p} (h : Reads mem p xs) (hk : Kept region mem mem')
    (hr : ∀ q, p.Covers xs.length q → ¬ region q) : Reads mem' p xs := by
  intro i x hx
  have hi : i < xs.length := (List.getElem?_eq_some_iff.1 hx).1
  rw [hk.load _ (hr _ (by simpa using hi))]
  exact h i x hx

theorem Stored.reads {dst}
    (h : Stored dst n v mem mem') (hlen : xs.length = n) (hv : ∀ i x, xs[i]? = some x → v i = x) :
    Reads mem' dst xs := by
  intro i x hx
  have hi : i < xs.length := (List.getElem?_eq_some_iff.1 hx).1
  rw [h.value i (by omega), hv i x hx]

theorem Reads.part {p} (h : Reads mem p xs) (start : Nat) :
    Reads mem (p.plus start) (xs.drop start) := by
  intro i x hx
  rw [plus_plus]
  exact h _ x (by simpa using hx)

def Slot.written (s : Slot) : Bool := s == hidden || s.working

def Layout.Region (lay : Layout) (room : Slot → Nat) (q : Pointer) : Prop :=
  ∃ s, s.written = true ∧ (lay s).Covers (room s) q

/-- A buffer that is written shares no cell with another one. -/
def Layout.Separate (lay : Layout) (room : Slot → Nat) : Prop :=
  ∀ s t, s.written = true → s ≠ t → ∀ q, (lay s).Covers (room s) q → ¬ (lay t).Covers (room t) q

/-- The buffers hold the known contents, and there is room for what is written. -/
structure Placed (lay : Layout) (room : Slot → Nat) (σ : Contents) (mem : Memory) : Prop where
  holds : ∀ s, Reads mem (lay s) (σ s)
  fits : ∀ s, (σ s).length ≤ room s
  has : ∀ s, s.written = true → ∀ i < room s, mem.has ((lay s).plus i) = true

theorem Placed.forget {lay room σ τ mem}
    (h : Placed lay room σ mem) (hτ : ∀ s, τ s = σ s ∨ τ s = []) : Placed lay room τ mem where
  holds s := by
    cases hτ s with
    | inl e => exact e ▸ h.holds s
    | inr e =>
      rw [e]
      intro i x hx
      simp at hx
  fits s := by
    cases hτ s with
    | inl e => exact e ▸ h.fits s
    | inr e => simp [e]
  has := h.has

namespace Call

/-- A product reads its operands again for every cell, so it cannot work in place. -/
def Apart : Call → Prop
  | .product _ _ _ a v d => a ≠ d ∧ v ≠ d
  | .sparse _ _ _ v d => v ≠ d
  | _ => True

/-- A call that stays within the room of a buffer that may be written. -/
structure Sound (room : Slot → Nat) (c : Call) : Prop where
  apart : c.Apart
  written : c.dst.written = true
  fits : c.count ≤ room c.dst

/-- The cell of a result depends on other buffers, and on the cells of its own that no earlier cell
of the result has replaced. -/
theorem cell_mono {c : Call} (hc : c.Apart) {read read'} {i} {y}
    (hr : ∀ s j x, (s = c.dst → i ≤ j) → read s j = some x → read' s j = some x)
    (h : c.cell read i = some y) : c.cell read' i = some y := by
  cases c with
  | each f n x d =>
    simp only [cell, bind_eq_bind, bind_eq_some_iff] at h ⊢
    obtain ⟨a,ha,hy⟩ := h
    exact ⟨a,hr _ _ a (fun _ => by omega) ha,hy⟩
  | pair f n x y d =>
    simp only [cell, bind_eq_bind, bind_eq_some_iff] at h ⊢
    obtain ⟨a,ha,b,hb,hy⟩ := h
    exact ⟨a,hr _ _ a (fun _ => by omega) ha,b,hr _ _ b (fun _ => by omega) hb,hy⟩
  | product f rows cols a v d =>
    have hterm : ∀ j z, (do return (← read a (i*cols+j))*(← read v j) : Option Int) = some z →
        (do return (← read' a (i*cols+j))*(← read' v j) : Option Int) = some z := by
      intro j z hz
      simp only [bind_eq_bind, bind_eq_some_iff] at hz ⊢
      obtain ⟨p,hp,q,hq,hz⟩ := hz
      exact ⟨p,hr _ _ p (fun e => absurd e hc.1) hp,q,hr _ _ q (fun e => absurd e hc.2) hq,hz⟩
    simp only [cell, sumOver?, bind_eq_bind, bind_eq_some_iff] at h ⊢
    obtain ⟨z,⟨zs,hzs,hz⟩,hy⟩ := h
    exact ⟨z,⟨zs,mapM_some.2 ((mapM_some.1 hzs).imp hterm),hz⟩,hy⟩
  | sparse f rows cols v d =>
    simp only [cell, bind_eq_bind, bind_eq_some_iff] at h ⊢
    obtain ⟨xs,hxs,zs,hf,hy⟩ := h
    refine ⟨xs,mapM_some.2 ((mapM_some.1 hxs).imp fun j x => ?_),zs,hf,hy⟩
    exact hr v j x fun e => absurd e hc

/-- What a call makes of the known contents. Nothing is known of its buffer beyond the result. -/
def eval (c : Call) (σ : Contents) : Option Contents := do
  let values ← (List.range c.count).mapM (c.cell fun s j => (σ s)[j]?)
  return update σ c.dst values

def evalAll (calls : List Call) (σ : Contents) : Option Contents :=
  calls.foldlM (fun σ c => c.eval σ) σ

end Call

section

variable {lay : Layout} {room : Slot → Nat} {σ σ' : Contents} {mem : Memory}

theorem exec_eval {c : Call} (hsep : lay.Separate room) (hc : c.Sound room)
    (hp : Placed lay room σ mem) (he : c.eval σ = some σ') :
    ∃ mem', c.exec lay mem = some mem' ∧ Placed lay room σ' mem' ∧
    Kept (lay.Region room) mem mem' := by
  simp only [Call.eval, bind_eq_bind, bind_eq_some_iff] at he
  obtain ⟨values,hvalues,hσ⟩ := he
  cases hσ
  obtain ⟨hlen,hcell⟩ := mapM_range_iff.1 hvalues
  have hin : ∀ i ≤ c.count, ∀ q, (lay c.dst).Covers i q → (lay c.dst).Covers (room c.dst) q :=
    fun i hi q hq => covers_of_part 0 hq (by have := hc.fits; omega)
  obtain ⟨mem',hexec,hstored⟩ : ∃ mem', c.exec lay mem = some mem' ∧
      Stored (lay c.dst) c.count (fun i => values.getD i 0) mem mem' := by
    apply fill_stored
    · intro i hi
      exact hp.has _ hc.written i (Nat.lt_of_lt_of_le hi hc.fits)
    intro i hi mem₁ h1
    have hi' : i < values.length := by omega
    have hvalue : c.cell (fun s j => (σ s)[j]?) i = some (values.getD i 0) := by
      rw [List.getD_eq_getElem?_getD, List.getElem?_eq_getElem hi']
      exact hcell i _ (List.getElem?_eq_getElem hi')
    apply Call.cell_mono hc.apart _ hvalue
    intro s j x hj hx
    have hjs : j < (σ s).length := (List.getElem?_eq_some_iff.1 hx).1
    rw [h1.rest]
    · exact hp.holds s j x hx
    intro hq
    by_cases hs : s = c.dst
    · have := hj hs
      rw [hs, covers_plus] at hq
      omega
    · apply hsep c.dst s hc.written (Ne.symm hs) _ (hin i (by omega) _ hq)
      rw [covers_plus]
      exact Nat.lt_of_lt_of_le hjs (hp.fits s)
  have hkept := hstored.kept
  refine ⟨mem',hexec,⟨?_,?_,?_⟩,hkept.mono fun q hq =>
    ⟨c.dst,hc.written,hin _ (Nat.le_refl _) q hq⟩⟩
  · intro s
    by_cases hs : s = c.dst
    · subst hs
      rw [update_self]
      apply hstored.reads hlen
      intro i x hx
      simp [hx]
    · rw [update_of_ne hs]
      apply (hp.holds s).kept hkept
      intro q hq hw
      exact hsep c.dst s hc.written (Ne.symm hs) q (hin _ (Nat.le_refl _) q hw)
        (covers_of_part 0 hq (by have := hp.fits s; omega))
  · intro s
    by_cases hs : s = c.dst
    · subst hs
      rw [update_self, hlen]
      exact hc.fits
    · rw [update_of_ne hs]
      exact hp.fits s
  · intro s hs i hi
    rw [hstored.has]
    exact hp.has s hs i hi

theorem execAll_evalAll {calls} (hsep : lay.Separate room)
    (hc : ∀ c ∈ calls, c.Sound room) (hp : Placed lay room σ mem)
    (he : Call.evalAll calls σ = some σ') :
    ∃ mem', Call.execAll lay calls mem = some mem' ∧ Placed lay room σ' mem' ∧
      Kept (lay.Region room) mem mem' := by
  induction calls generalizing σ mem with
  | nil =>
    cases he
    exact ⟨mem,rfl,hp,Kept.refl _ mem⟩
  | cons c calls ih =>
    simp only [Call.evalAll, List.foldlM_cons, bind_eq_bind, bind_eq_some_iff] at he
    obtain ⟨σ1,h1,h2⟩ := he
    obtain ⟨mem₁,hexec,hp1,hk1⟩ := exec_eval hsep (hc c (by simp)) hp h1
    obtain ⟨mem₂,hrest,hp2,hk2⟩ := ih (fun d hd => hc d (by simp [hd])) hp1 h2
    refine ⟨mem₂,?_,hp2,hk1.trans hk2⟩
    simp only [Call.execAll, List.foldlM_cons, hexec]
    exact hrest

end

def Operand.part (x : Operand) (σ : Contents) (n : Nat) : List Int :=
  ((σ x.slot).drop x.start).take n

theorem Operand.getElem_part {x : Operand} {σ} {n i} {y}
    (h : (x.part σ n)[i]? = some y) : (σ x.slot)[x.start+i]? = some y := by
  have hi : i < (x.part σ n).length := (List.getElem?_eq_some_iff.1 h).1
  simp only [Operand.part, List.length_take] at hi
  rw [Operand.part, List.getElem?_take, if_pos (by omega), List.getElem?_drop] at h
  exact h

section

variable {σ : Contents} {n : Nat} {d : Slot}
variable {f : Int → Option Int} {g : Int → Int} {x : Operand} {rows cols : Nat} {v : Slot}

theorem eval_of_cells {c : Call} {ys} (hlen : ys.length = c.count)
    (h : ∀ i y, ys[i]? = some y → c.cell (fun s j => (σ s)[j]?) i = some y) :
    c.eval σ = some (update σ c.dst ys) := by
  simp [Call.eval, mapM_range_iff.2 ⟨hlen,h⟩]

theorem eval_each (hf : ∀ a, f a = some (g a)) (hx : (x.part σ n).length = n) :
    (Call.each f n x d).eval σ = some (update σ d ((x.part σ n).map g)) := by
  refine eval_of_cells (by simpa [Call.count] using hx) fun i y hy => ?_
  rw [List.getElem?_map, Option.map_eq_some_iff] at hy
  obtain ⟨a,ha,rfl⟩ := hy
  simp [Call.cell, Operand.getElem_part ha, hf]

theorem eval_pair {f} {g} {y}
    (hf : ∀ a b, f a b = some (g a b)) (hx : (x.part σ n).length = n)
    (hy : (y.part σ n).length = n) :
    (Call.pair f n x y d).eval σ =
        some (update σ d (List.zipWith g (x.part σ n) (y.part σ n))) := by
  refine eval_of_cells (by simp [hx, hy, Call.count]) fun i z hz => ?_
  rw [List.getElem?_zipWith_eq_some] at hz
  obtain ⟨a,b,ha,hb,rfl⟩ := hz
  simp [Call.cell, Operand.getElem_part ha, Operand.getElem_part hb, hf]

theorem eval_product {a}
    (hf : ∀ s, f s = some (g s)) (ha : (σ a).length = rows*cols) (hv : (σ v).length = cols) :
    (Call.product f rows cols a v d).eval σ =
      some (update σ d ((Recurrent.rowsOf cols rows (σ a)).map fun row => g (dot row (σ v)))) := by
  refine eval_of_cells (by simp [Call.count]) fun i y hy => ?_
  have hi : i < rows := by simpa using (List.getElem?_eq_some_iff.1 hy).1
  rw [List.getElem?_map, getElem_rowsOf cols rows _ i hi, Option.map_some] at hy
  have hend := row_end_le cols hi
  have hterms : (List.range cols).mapM (fun j => do return (← (σ a)[i*cols+j]?)*(← (σ v)[j]?)) =
      some (List.zipWith (· * ·) (((σ a).drop (i*cols)).take cols) (σ v)) := by
    apply mapM_range_iff.2
    refine ⟨by simp only [List.length_zipWith, List.length_take, List.length_drop]; omega,?_⟩
    intro j z hz
    rw [List.getElem?_zipWith_eq_some] at hz
    obtain ⟨p,q,hp,hq,rfl⟩ := hz
    have hj : j < cols := by
      have := (List.getElem?_eq_some_iff.1 hq).1
      omega
    rw [List.getElem?_take, if_pos hj, List.getElem?_drop] at hp
    simp [hp, hq]
  simp only [Call.cell, sumOver?, hterms]
  simp [hf, ← hy, dot]

theorem eval_sparse {f} {g : List Int → List Int}
    (hf : ∀ x, f x = some (g x)) (hlen : ∀ x, (g x).length = rows) (hv : (σ v).length = cols) :
    (Call.sparse f rows cols v d).eval σ = some (update σ d (g (σ v))) := by
  have hread : (List.range cols).mapM (fun j => (σ v)[j]?) = some (σ v) :=
    mapM_range_iff.2 ⟨hv,fun _ _ h => h⟩
  refine eval_of_cells (hlen _) fun i y hy => ?_
  simp [Call.cell, hread, hf, hy]

end

end MicroLearn.Fixed
