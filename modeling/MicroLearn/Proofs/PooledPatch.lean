import MicroLearn.Proofs.RecurrentCell
import Mathlib.Tactic.IntervalCases

/-!
# Rows and columns of a pooled patch

The pool summarises rows in one call each and columns in a call for each pixel, at
addresses apart from one another. Both are the same fold of the cell, so the pool of
a transposed patch is the pool of the patch with its two halves exchanged.
-/

set_option autoImplicit false

open List (flatMap_id range replicate)

namespace MicroLearn.Fixed

open Function (update update_of_ne update_self)
open PoolLayout

def Contents.on (σ : Contents) (hidden input : List Int) : Contents
  | .hidden => hidden
  | .input => input
  | s => σ s

def Cell.fold (m : Scaling) (c : Cell) (σ : Contents) (h : List Int) (inputs : List (List Int)) :
    List Int :=
  inputs.foldl (fun h x => c.next m σ x h) h

theorem Cell.after_on (m : Scaling) (c : Cell) (σ : Contents) (h : List Int) {inputs}
    (hlen : ∀ x ∈ inputs, x.length = c.inputSize) (backward : Bool) :
    c.after m false (σ.on h inputs.flatten) (Cell.places backward inputs.length) =
      c.fold m σ h (if backward then inputs.reverse else inputs) := by
  have hrow : ∀ t, t < inputs.length → c.features m false (σ.on h inputs.flatten) t =
      inputs.getD t [] := by
    intro t ht
    rw [List.getD_eq_getElem?_getD, List.getElem?_eq_getElem ht]
    exact take_drop_flatten hlen ht
  have hrange : (range inputs.length).map (fun t => inputs.getD t []) = inputs := by
    apply List.ext_getElem
    · simp
    · intro i h1 h2
      simp [h2]
  have hplaces : (Cell.places backward inputs.length).map (fun t => inputs.getD t []) =
      if backward then inputs.reverse else inputs := by
    rw [Cell.places_eq]
    cases backward with
    | false => exact hrange
    | true =>
      simp only [if_true, List.map_reverse]
      rw [hrange]
  rw [← hplaces, Cell.fold, List.foldl_map]
  apply List.foldl_ext
  intro s t ht
  rw [hrow t (Cell.lt_of_mem_places ht)]
  rfl

theorem reads_flatten {mem} {p} {n} {rows : List (List Int)} (hlen : ∀ row ∈ rows, row.length = n) :
    Reads mem p rows.flatten ↔ ∀ i row, rows[i]? = some row → Reads mem (p.plus (i*n)) row := by
  constructor
  · intro h i row hrow j x hx
    have hi := (List.getElem?_eq_some_iff.1 hrow).1
    have hj : j < n := by
      rw [← hlen row (List.mem_of_getElem? hrow)]
      exact (List.getElem?_eq_some_iff.1 hx).1
    rw [plus_plus]
    apply h
    rw [← flatMap_id, flatMap_getElem rows id n hlen i j hi hj]
    rw [List.getElem?_eq_getElem hi, Option.some.injEq] at hrow
    rw [id, hrow, hx]
  · intro h j x hx
    have hj : j < rows.length*n := by
      have := (List.getElem?_eq_some_iff.1 hx).1
      rwa [← flatMap_id, flatMap_length rows id n hlen] at this
    have hn : 0 < n := Nat.pos_of_ne_zero fun e => by simp [e] at hj
    have hi : j/n < rows.length := (Nat.div_lt_iff_lt_mul hn).2 hj
    have hsplit : j/n*n+j % n = j := by
      rw [Nat.mul_comm]
      exact Nat.div_add_mod j n
    have hcell := h (j/n) rows[j/n] (List.getElem?_eq_getElem hi) (j % n) x
    rw [plus_plus, hsplit] at hcell
    apply hcell
    rw [← hsplit, ← flatMap_id, flatMap_getElem rows id n hlen _ _ hi (Nat.mod_lt _ hn)] at hx
    exact hx

theorem fill_map {mem} {p} {xs} {f : Int → Option Int} {g} (hf : ∀ x, f x = some (g x))
    (h : Reads mem p xs) (hroom : ∀ i < xs.length, mem.has (p.plus i) = true) :
    ∃ mem', mem.fill p xs.length (fun mem i => do f (← mem.load (p.plus i))) = some mem' ∧
      Reads mem' p (xs.map g) ∧ Kept (p.Covers xs.length) mem mem' := by
  obtain ⟨mem',hfill,hstored⟩ : ∃ mem',
    mem.fill p xs.length (fun mem i => do f (← mem.load (p.plus i))) =
      some mem' ∧ Stored p xs.length (fun i => g (xs.getD i 0)) mem mem' := by
    apply fill_stored _ hroom
    intro i hi mem1 h1
    rw [h1.rest _ (by simp), h i xs[i] (List.getElem?_eq_getElem hi)]
    simp [hf, hi]
  refine ⟨mem',hfill,hstored.reads (by simp) ?_,hstored.kept⟩
  intro i x hx
  rw [List.getElem?_map, Option.map_eq_some_iff] at hx
  obtain ⟨y,hy,rfl⟩ := hx
  simp [hy]

def rescaled (m : Scaling) (up down x : Int) : Int := wrap 16 (m.down (wrap 16 (m.up x up)) down)

theorem rescale_reads {m} (up : Int) {down} (hdown : m.Proper down) {mem} {p}
    {xs} (h : Reads mem p xs) (hroom : ∀ i < xs.length, mem.has (p.plus i) = true) :
    ∃ mem', rescale m up down p xs.length mem = some mem' ∧
      Reads mem' p (xs.map (rescaled m up down)) ∧ Kept (p.Covers xs.length) mem mem' := by
  obtain ⟨mem1,h1,hreads1,hk1⟩ :=
    fill_map (f := fun x => some (wrap 16 (m.up x up))) (fun _ => rfl) h hroom
  obtain ⟨mem2,h2,hreads2,hk2⟩ := fill_map
    (f := fun x => do return wrap 16 (← m.down? x down)) (g := fun x => wrap 16 (m.down x down))
    (fun x => by simp [hdown.down]) hreads1 (by
      intro i hi
      rw [hk1.has]
      exact hroom i (by simpa using hi))
  simp only [List.length_map] at h2 hk2
  refine ⟨mem2,?_,?_,hk1.trans hk2⟩
  · have hup : mem.fill p
      xs.length (fun mem i => do return wrap 16 (m.up (← mem.load (p.plus i)) up)) =
        some mem1 := h1
    rw [rescale, hup]
    exact h2
  · rw [List.map_map] at hreads2
    exact hreads2

theorem clear_reads {mem p n} (hroom : ∀ i < n, mem.has (p.plus i) = true) :
    ∃ mem', mem.clear p n = some mem' ∧ Reads mem' p (replicate n 0) ∧
    Kept (p.Covers n) mem mem' := by
  obtain ⟨mem',hfill,hstored⟩ : ∃ mem', mem.clear p n = some mem' ∧
      Stored p n (fun _ => 0) mem mem' :=
    fill_stored _ hroom fun _ _ _ _ => rfl
  refine ⟨mem',hfill,hstored.reads (by simp) ?_,hstored.kept⟩
  intro i x hx
  rw [List.getElem?_replicate] at hx
  split at hx
  · exact Option.some.inj hx
  · simp at hx

inductive PoolPart where
  | patch
  | buffer
  | output
  | inner (s : Slot)
  | outer (s : Slot)
  deriving DecidableEq

namespace PoolPart

def written : PoolPart → Bool
  | patch => false
  | buffer => true
  | output => true
  | inner s => s.working
  | outer s => s.working

def ofInner : Slot → PoolPart
  | .hidden => buffer
  | .input => patch
  | s => inner s

def ofOuter : Slot → PoolPart
  | .hidden => output
  | .input => buffer
  | s => outer s

end PoolPart

def PoolLayout.pointer (l : PoolLayout) : PoolPart → Pointer
  | .patch => l.patch
  | .buffer => l.buffer
  | .output => l.output
  | .inner s => l.inner s
  | .outer s => l.outer s

def Cell.ownRoom (c : Cell) : Slot → Nat
  | .hidden => 0
  | .input => 0
  | s => c.room false 0 s

namespace Pool

variable {r steps i : Nat} {c : Cell} {q h x : Pointer} {b : PoolPart} {lay : Layout} {ρ : Contents}
  {s : Slot} {inputs : List (List Int)} {f : Nat → Memory → Option Memory} {xs : List Int}

def room (p : Pool) : PoolPart → Nat
  | .patch => (p.stride*(p.patchDim-1)+p.patchDim)*p.inner.inputSize
  | .buffer => p.patchDim*p.inner.hiddenSize
  | .output => 4*p.outer.hiddenSize
  | .inner s => p.inner.ownRoom s
  | .outer s => p.outer.ownRoom s

/-- The memory before a pool: parts that are written share no cell with another part, and of the
contents only the pixels and the parameters of the two cells are known. -/
structure Ready (p : Pool) (l : PoolLayout) (P : Nat → Nat → List Int) (σ τ : Contents)
    (mem : Memory) : Prop where
  separate : ∀ a b, a.written = true → a ≠ b →
    ∀ q, (l.pointer a).Covers (p.room a) q → ¬ (l.pointer b).Covers (p.room b) q
  has : ∀ a, a.written = true → ∀ i < p.room a, mem.has ((l.pointer a).plus i) = true
  pixel : ∀ r < p.patchDim, ∀ c < p.patchDim, (P r c).length = p.inner.inputSize ∧
    Reads mem (l.patch.plus ((p.stride*r+c)*p.inner.inputSize)) (P r c)
  inner : ∀ s, (σ s).length = (if s.working then 0 else p.inner.ownRoom s) ∧
    Reads mem (l.inner s) (σ s)
  outer : ∀ s, (τ s).length = (if s.working then 0 else p.outer.ownRoom s) ∧
    Reads mem (l.outer s) (τ s)

variable {m : Scaling} {p : Pool} {l : PoolLayout} {P : Nat → Nat → List Int} {σ τ : Contents}
    {mem mem' : Memory}

def Region (p : Pool) (l : PoolLayout) (q : Pointer) : Prop :=
  ∃ a, a.written = true ∧ (l.pointer a).Covers (p.room a) q

theorem pixel_covers {c} (hr : r < p.patchDim) (hc : c < p.patchDim) {n} (hn : c+n ≤ p.patchDim)
    (h : (l.patch.plus ((p.stride*r+c)*p.inner.inputSize)).Covers (n*p.inner.inputSize) q) :
    l.patch.Covers (p.room .patch) q := by
  apply covers_of_part _ h
  rw [← Nat.add_mul]
  apply Nat.mul_le_mul_right
  have : p.stride*r ≤ p.stride*(p.patchDim-1) := Nat.mul_le_mul_left _ (by omega)
  omega

theorem Ready.outside (h : p.Ready l P σ τ mem) (hb : b.written = false)
    (hq : (l.pointer b).Covers (p.room b) q) : ¬ p.Region l q := by
  rintro ⟨a,ha,haq⟩
  exact h.separate a b ha (fun e => by simp [e, hb] at ha) q haq hq

theorem reads_own {region}
    (hlen : (ρ s).length = if s.working then 0 else c.ownRoom s) (hreads : Reads mem (lay s) (ρ s))
    (hk : Kept region mem mem')
    (hout : s.working = false → ∀ q, (lay s).Covers (c.ownRoom s) q → ¬ region q) :
    Reads mem' (lay s) (ρ s) := by
  apply hreads.kept hk
  intro q hq
  rw [hlen] at hq
  cases hw : s.working with
  | true =>
    rw [hw] at hq
    simp only [if_true, Pointer.Covers] at hq
    omega
  | false =>
    rw [hw] at hq
    exact hout hw q hq

theorem Ready.kept (h : p.Ready l P σ τ mem) (hk : Kept (p.Region l) mem mem') :
    p.Ready l P σ τ mem' where
  separate := h.separate
  has a ha i hi := by
    rw [hk.has]
    exact h.has a ha i hi
  pixel r hr c hc := by
    obtain ⟨hlen,hreads⟩ := h.pixel r hr c hc
    refine ⟨hlen,hreads.kept hk ?_⟩
    intro q hq
    rw [hlen] at hq
    exact h.outside (b := .patch) rfl
      (pixel_covers hr hc (n := 1) (by omega) (by rwa [Nat.one_mul]))
  inner s := ⟨(h.inner s).1,reads_own (h.inner s).1 (h.inner s).2 hk fun hw _ hq =>
    h.outside (b := .inner s) hw hq⟩
  outer s := ⟨(h.outer s).1,reads_own (h.outer s).1 (h.outer s).2 hk fun hw _ hq =>
    h.outside (b := .outer s) hw hq⟩

theorem Ready.cell (h : p.Ready l P σ τ mem) (f : Slot → PoolPart) (hinj : ∀ s t, f s = f t → s = t)
    (hwritten : ∀ s, s.written = true → (f s).written = true)
    (hcover : ∀ s q, (lay s).Covers (c.room false steps s) q →
      (l.pointer (f s)).Covers (p.room (f s)) q)
    (hknown : ∀ s, (ρ s).length = if s.working then 0 else c.room false steps s)
    (hreads : ∀ s, Reads mem (lay s) (ρ s)) : c.Ready false steps lay ρ mem where
  separate s t hs hne q hq ht :=
    h.separate (f s) (f t) (hwritten s hs) (fun e => hne (hinj s t e)) q (hcover s q hq)
      (hcover t q ht)
  placed :=
    { holds := hreads
      fits := by
        intro s
        rw [hknown s]
        split <;> omega
      has := by
        intro s hs i hi
        obtain ⟨j,hj,e⟩ := exists_of_covers (hcover s ((lay s).plus i) (by simpa using hi))
        rw [e]
        exact h.has (f s) (hwritten s hs) j hj }
  known := hknown

def Strip (l : PoolLayout) (a : PoolPart) (n count : Nat) (B : Nat → List Int) (mem : Memory) :
    Prop :=
  ∀ r < count, (B r).length = n ∧ Reads mem ((l.pointer a).plus (r*n)) (B r)

section

variable {a : PoolPart} {n count : Nat} {B : Nat → List Int}
variable {row : List Int}

theorem Strip.congr {B'} (h : Strip l a n count B mem) (hB : ∀ r < count, B r = B' r) :
    Strip l a n count B' mem := by
  intro r hr
  rw [← hB r hr]
  exact h r hr

theorem Strip.kept {region} (h : Strip l a n count B mem) (hk : Kept region mem mem')
    (hout : ∀ q, (l.pointer a).Covers (count*n) q → ¬ region q) : Strip l a n count B mem' := by
  intro r hr
  obtain ⟨hlen,hreads⟩ := h r hr
  refine ⟨hlen,hreads.kept hk ?_⟩
  intro q hq
  rw [hlen] at hq
  exact hout q (covers_of_part _ hq (row_end_le _ hr))

theorem Strip.update {work : Pointer → Prop} {r} (h : Strip l a n count B mem)
    (hk : Kept (fun q => ((l.pointer a).plus (r*n)).Covers n q ∨ work q) mem mem')
    (hout : ∀ q, (l.pointer a).Covers (count*n) q → ¬ work q) (hlen : row.length = n)
    (hrow : Reads mem' ((l.pointer a).plus (r*n)) row) :
    Strip l a n count (update B r row) mem' := by
  intro t ht
  by_cases htr : t = r
  · subst htr
    rw [update_self]
    exact ⟨hlen,hrow⟩
  · rw [update_of_ne htr]
    obtain ⟨htlen,htreads⟩ := h t ht
    refine ⟨htlen,htreads.kept hk ?_⟩
    rw [htlen]
    rintro q hq (hqr | hqw)
    · simp only [Pointer.Covers, Pointer.plus] at hq hqr
      have : t*n+n ≤ r*n ∨ r*n+n ≤ t*n := by
        rcases Nat.lt_or_gt_of_ne htr with hlt | hgt
        · exact Or.inl (row_end_le _ hlt)
        · exact Or.inr (row_end_le _ hgt)
      omega
    · exact hout q (covers_of_part _ hq (row_end_le _ ht)) hqw

def joined (count : Nat) (B : Nat → List Int) : List (List Int) := (range count).map B

theorem getElem_joined {i} : (joined count B)[i]? = some row ↔ i < count ∧ B i = row := by
  by_cases hi : i < count
  · simp [joined, hi]
  · simp [joined, hi]

theorem length_joined (h : ∀ r < count, (B r).length = n) (hrow : row ∈ joined count B) :
    row.length = n := by
  obtain ⟨r,hr,rfl⟩ := List.mem_map.1 hrow
  exact h r (List.mem_range.1 hr)

theorem strip_iff (hlen : ∀ r < count, (B r).length = n) :
    Strip l a n count B mem ↔ Reads mem (l.pointer a) (joined count B).flatten := by
  rw [reads_flatten fun row => length_joined hlen]
  constructor
  · intro h i row hrow
    obtain ⟨hi,rfl⟩ := getElem_joined.1 hrow
    exact (h i hi).2
  · intro h r hr
    exact ⟨hlen r hr,h r (B r) (getElem_joined.2 ⟨hr,rfl⟩)⟩

theorem length_flatten_joined (hlen : ∀ r < count, (B r).length = n) :
    (joined count B).flatten.length = count*n := by
  rw [← flatMap_id, flatMap_length _ id n fun row => length_joined hlen]
  simp [joined]

end

/-- A pool under way: the states of the first cell are known, and those of the second. -/
structure Holds (p : Pool) (l : PoolLayout) (P : Nat → Nat → List Int) (σ τ : Contents)
    (B O : Nat → List Int) (mem : Memory) : Prop where
  ready : p.Ready l P σ τ mem
  rows : Strip l .buffer p.inner.hiddenSize p.patchDim B mem
  blocks : Strip l .output p.outer.hiddenSize 4 O mem

variable {B O : Nat → List Int}

theorem room_eq_ownRoom (c : Cell) (steps : Nat) (hh : s ≠ .hidden) (hi : s ≠ .input) :
    c.room false steps s = c.ownRoom s := by
  cases s <;> simp_all [Cell.ownRoom, Cell.room]

theorem region_on (hq : (lay.on h x).Region (c.room false steps) q) :
    h.Covers c.hiddenSize q ∨ ∃ s : Slot, s.working = true ∧ (lay s).Covers (c.ownRoom s) q := by
  obtain ⟨s,hs,hc⟩ := hq
  by_cases hh : s = .hidden
  · subst hh
    exact Or.inl hc
  · have hw : s.working = true := by simpa [Slot.written, hh] using hs
    have hi : s ≠ .input := fun e => by simp [e, Slot.working] at hw
    have hon : lay.on h x s = lay s := by cases s <;> simp_all [Layout.on]
    rw [hon, room_eq_ownRoom c steps hh hi] at hc
    exact Or.inr ⟨s,hw,hc⟩

theorem Contents.length_on {h x}
    (hρ : ∀ s, (ρ s).length = if s.working then 0 else c.ownRoom s) (hh : h.length = c.hiddenSize)
    (hx : x.length = steps*c.inputSize) (s : Slot) :
    (ρ.on h x s).length = if s.working then 0 else c.room false steps s := by
  cases s <;> simp_all [Contents.on, Cell.ownRoom, Cell.room, Slot.working]

theorem run_on (hc : c.Proper m) {state} (hlen : ∀ x ∈ inputs, x.length = c.inputSize)
    (hready : c.Ready false inputs.length (lay.on h x) (ρ.on state inputs.flatten) mem)
    (backward : Bool) :
    let final := c.fold m ρ state (if backward then inputs.reverse else inputs)
    ∃ mem', c.run m false backward inputs.length (lay.on h x) mem = some mem' ∧
      final.length = c.hiddenSize ∧ Reads mem' h final ∧
      Kept (fun q => h.Covers c.hiddenSize q ∨
        ∃ s : Slot, s.working = true ∧ (lay s).Covers (c.ownRoom s) q) mem mem' := by
  obtain ⟨mem',hrun,hdone,hkept⟩ := Cell.run_ready hc hready backward
  have hfinal := Cell.after_on m c ρ state hlen backward
  refine ⟨mem',hrun,?_,?_,hkept.mono fun q => region_on⟩
  · have hsize := hdone.known .hidden
    rwa [update_self, hfinal] at hsize
  · have hstate := hdone.placed.holds .hidden
    rwa [update_self, hfinal] at hstate

theorem length_flatten {n} (hlen : ∀ x ∈ inputs, x.length = n) :
    inputs.flatten.length = inputs.length*n := by
  rw [← flatMap_id, flatMap_length inputs id n hlen]

theorem Holds.innerRun (hc : p.inner.Proper m) (h : p.Holds l P σ τ B O mem) (hr : r < p.patchDim)
    (hlen : ∀ x ∈ inputs, x.length = p.inner.inputSize) {start}
    (hreads : Reads mem (l.patch.plus start) inputs.flatten)
    (hcover : ∀ q, (l.patch.plus start).Covers (inputs.length*p.inner.inputSize) q →
      l.patch.Covers (p.room .patch) q) : ∃ mem', p.inner.run m false false inputs.length
        (l.inner.on (l.buffer.plus (r*p.inner.hiddenSize)) (l.patch.plus start)) mem = some mem' ∧
      p.Holds l P σ τ (update B r (p.inner.fold m σ (B r) inputs)) O mem' := by
  have hready : p.inner.Ready false inputs.length
      (l.inner.on (l.buffer.plus (r*p.inner.hiddenSize)) (l.patch.plus start))
      (σ.on (B r) inputs.flatten) mem := by
    apply h.ready.cell PoolPart.ofInner
    · intro s t e
      cases s <;> cases t <;> simp_all [PoolPart.ofInner]
    · intro s hs
      cases s <;> simp_all [Slot.written, Slot.working, PoolPart.ofInner, PoolPart.written]
    · intro s q hq
      cases s
      case hidden => exact covers_of_part _ hq (row_end_le _ hr)
      case input => exact hcover q hq
      all_goals exact hq
    · exact Contents.length_on (fun s => (h.ready.inner s).1) (h.rows r hr).1 (length_flatten hlen)
    · intro s
      cases s
      case hidden => exact (h.rows r hr).2
      case input => exact hreads
      all_goals exact (h.ready.inner _).2
  obtain ⟨mem',hrun,hsize,hstate,hkept⟩ := run_on hc hlen hready false
  refine ⟨mem',hrun,h.ready.kept (hkept.mono ?_),h.rows.update hkept ?_ hsize hstate,
    h.blocks.kept hkept ?_⟩
  · rintro q (hq | ⟨s,hs,hq⟩)
    · exact ⟨.buffer,rfl,covers_of_part _ hq (row_end_le _ hr)⟩
    · exact ⟨.inner s,hs,hq⟩
  · rintro q hq ⟨s,hs,hqs⟩
    exact h.ready.separate .buffer (.inner s) rfl (by simp) q hq hqs
  · rintro q hq (hqr | ⟨s,hs,hqs⟩)
    · exact h.ready.separate .output .buffer rfl (by simp) q
        hq (covers_of_part _ hqr (row_end_le _ hr))
    · exact h.ready.separate .output (.inner s) rfl (by simp) q hq hqs

theorem Holds.outerRun (hc : p.outer.Proper m) (h : p.Holds l P σ τ B O mem) (hi : i < 4)
    (backward : Bool) : let rows := joined p.patchDim B
    ∃ mem', p.outer.run m false backward p.patchDim
        (l.outer.on (l.output.plus (i*p.outer.hiddenSize)) l.buffer) mem = some mem' ∧
      p.Holds l P σ τ B
        (update O i (p.outer.fold m τ (O i) (if backward then rows.reverse else rows))) mem' := by
  have hcount : (joined p.patchDim B).length = p.patchDim := by simp [joined]
  have hlen : ∀ x ∈ joined p.patchDim B, x.length = p.outer.inputSize := by
    intro x hx
    rw [p.chained]
    exact length_joined (fun r hr => (h.rows r hr).1) hx
  have hready : p.outer.Ready false (joined p.patchDim B).length
      (l.outer.on (l.output.plus (i*p.outer.hiddenSize)) l.buffer)
      (τ.on (O i) (joined p.patchDim B).flatten) mem := by
    apply h.ready.cell PoolPart.ofOuter
    · intro s t e
      cases s <;> cases t <;> simp_all [PoolPart.ofOuter]
    · intro s hs
      cases s <;> simp_all [Slot.written, PoolPart.ofOuter, PoolPart.written]
    · intro s q hq
      cases s
      case hidden => exact covers_of_part _ hq (row_end_le _ hi)
      case input =>
        simp only [Cell.room, hcount, p.chained] at hq
        exact hq
      all_goals exact hq
    · exact Contents.length_on (fun s => (h.ready.outer s).1)
        (h.blocks i hi).1 (length_flatten hlen)
    · intro s
      cases s
      case hidden => exact (h.blocks i hi).2
      case input => exact (strip_iff fun r hr => (h.rows r hr).1).1 h.rows
      all_goals exact (h.ready.outer _).2
  obtain ⟨mem',hrun,hsize,hstate,hkept⟩ := run_on hc hlen hready backward
  rw [hcount] at hrun
  refine ⟨mem',hrun,h.ready.kept (hkept.mono ?_),h.rows.kept hkept ?_,
    h.blocks.update hkept ?_ hsize hstate⟩
  · rintro q (hq | ⟨s,hs,hq⟩)
    · exact ⟨.output,rfl,covers_of_part _ hq (row_end_le _ hi)⟩
    · exact ⟨.outer s,hs,hq⟩
  · rintro q hq (hqr | ⟨s,hs,hqs⟩)
    · exact h.ready.separate .buffer .output rfl (by simp) q
        hq (covers_of_part _ hqr (row_end_le _ hi))
    · exact h.ready.separate .buffer (.outer s) rfl (by simp) q hq hqs
  · rintro q hq ⟨s,hs,hqs⟩
    exact h.ready.separate .output (.outer s) rfl (by simp) q hq hqs

def line (p : Pool) (P : Nat → Nat → List Int) (r : Nat) : List (List Int) :=
  joined p.patchDim (P r)

theorem Holds.row (hc : p.inner.Proper m) (h : p.Holds l P σ τ B O mem) (hr : r < p.patchDim) :
    ∃ mem', p.row m l r mem = some mem' ∧
      p.Holds l P σ τ (update B r (p.inner.fold m σ (B r) (p.line P r))) O mem' := by
  have hlen : ∀ x ∈ p.line P r, x.length = p.inner.inputSize :=
    fun x => length_joined fun c hc => (h.ready.pixel r hr c hc).1
  have hcount : (p.line P r).length = p.patchDim := by simp [line, joined]
  have hreads : Reads mem (l.patch.plus (p.stride*r*p.inner.inputSize)) (p.line P r).flatten := by
    apply (reads_flatten hlen).2
    intro c x hx
    obtain ⟨hc,rfl⟩ := getElem_joined.1 hx
    rw [plus_plus, ← Nat.add_mul]
    exact (h.ready.pixel r hr c hc).2
  obtain ⟨mem',hrun,hholds⟩ := h.innerRun hc hr hlen hreads (by
    intro q hq
    rw [hcount] at hq
    exact pixel_covers (c := 0) hr (by omega) (n := p.patchDim) (by omega) hq)
  rw [hcount] at hrun
  exact ⟨mem',hrun,hholds⟩

theorem Holds.column (hc : p.inner.Proper m) (h : p.Holds l P σ τ B O mem) {c}
    (hcol : c < p.patchDim) : ∃ mem', p.column m l c mem = some mem' ∧
      p.Holds l P σ τ (update B c (p.inner.fold m σ (B c) (p.line (fun i j => P j i) c))) O
        mem' := by
  apply foldlM_range _ p.patchDim (fun r mem' => p.Holds l P σ τ
    (update B c (p.inner.fold m σ (B c) (joined r fun i => P i c))) O mem') mem
  · simpa [joined, Cell.fold] using h
  · intro r hr mem1 h1
    obtain ⟨hlen,hpixel⟩ := h1.ready.pixel r hr c hcol
    have hone : ∀ x ∈ [P r c], x.length = p.inner.inputSize := by simpa using hlen
    obtain ⟨mem2,hrun,h2⟩ := h1.innerRun hc hcol hone (by simpa using hpixel)
      (fun q hq => pixel_covers hr hcol (n := 1) (by omega) hq)
    refine ⟨mem2,hrun,?_⟩
    simpa [joined, Cell.fold, List.range_succ] using h2

theorem Holds.pass {lines : Nat → List (List Int)}
    (hf : ∀ i < p.patchDim, ∀ B mem, p.Holds l P σ τ B O mem → ∃ mem', f i mem = some mem' ∧
      p.Holds l P σ τ (update B i (p.inner.fold m σ (B i) (lines i))) O mem')
    (h : p.Holds l P σ τ B O mem) :
    ∃ mem', (range p.patchDim).foldlM (fun mem i => f i mem) mem = some mem' ∧
      p.Holds l P σ τ (fun i => p.inner.fold m σ (B i) (lines i)) O mem' := by
  obtain ⟨mem',hrun,hlast⟩ := foldlM_range (fun mem i => f i mem) p.patchDim (fun r mem' =>
    p.Holds l P σ τ (fun i => if i < r then p.inner.fold m σ (B i) (lines i) else B i) O mem') mem
    (by simpa using h) (by
      intro r hr mem1 h1
      obtain ⟨mem2,hrun,h2⟩ := hf r hr _ mem1 h1
      refine ⟨mem2,hrun,h2.ready,h2.rows.congr ?_,h2.blocks⟩
      intro i _
      by_cases hi : i = r
      · simp [hi]
      · rw [update_of_ne hi]
        by_cases hlt : i < r
        · rw [if_pos hlt, if_pos (by omega)]
        · rw [if_neg hlt, if_neg (by omega)])
  refine ⟨mem',hrun,hlast.ready,hlast.rows.congr ?_,hlast.blocks⟩
  intro i hi
  exact if_pos hi

theorem Holds.bothWays (hc : p.outer.Proper m) (hdown : m.Proper p.innerDown)
    (h : p.Holds l P σ τ B O mem)
    (hi : i+1 < 4) : let rescaledRows := fun r => (B r).map (rescaled m p.innerUp p.innerDown)
    let rows := joined p.patchDim rescaledRows
    ∃ mem', p.bothWays m l (i*p.outer.hiddenSize) mem = some mem' ∧ p.Holds l P σ τ rescaledRows
        (update (update O i (p.outer.fold m τ (O i) rows)) (i+1)
          (p.outer.fold m τ (O (i+1)) rows.reverse)) mem' := by
  intro rescaledRows rows
  have hlen : ∀ r < p.patchDim, (B r).length = p.inner.hiddenSize := fun r hr => (h.rows r hr).1
  have hsize := length_flatten_joined hlen
  obtain ⟨mem1,hscale,hreads,hkept⟩ := rescale_reads p.innerUp hdown ((strip_iff hlen).1 h.rows) (by
    intro j hj
    rw [hsize] at hj
    exact h.ready.has .buffer rfl j hj)
  rw [hsize] at hscale hkept
  change rescale m p.innerUp p.innerDown l.buffer _ mem = some mem1 at hscale
  have h1 : p.Holds l P σ τ rescaledRows O mem1 := by
    refine ⟨h.ready.kept (hkept.mono fun q hq => ⟨.buffer,rfl,hq⟩),?_,?_⟩
    · apply (strip_iff fun r hr => by simp [rescaledRows, hlen r hr]).2
      simpa [joined, Function.comp_def] using hreads
    · exact h.blocks.kept hkept fun q hq => h.ready.separate .output .buffer rfl (by simp) q hq
  obtain ⟨mem2,hforward,h2⟩ := h1.outerRun hc (i := i) (by omega) false
  obtain ⟨mem3,hbackward,h3⟩ := h2.outerRun hc hi true
  refine ⟨mem3,?_,?_⟩
  · rw [Nat.succ_mul] at hbackward
    simp only [Pool.bothWays, hscale, Option.bind_eq_bind, Option.bind_some, hforward]
    exact hbackward
  · simpa using h3

theorem strip_clear {a n count} (h : Reads mem (l.pointer a) (replicate (count*n) 0)) :
    Strip l a n count (fun _ => replicate n 0) mem := by
  apply (strip_iff fun _ _ => List.length_replicate).2
  simpa [joined] using h

theorem Ready.clearBuffer (h : p.Ready l P σ τ mem)
    (hO : Strip l .output p.outer.hiddenSize 4 O mem) :
    ∃ mem', mem.clear l.buffer (p.inner.hiddenSize*p.patchDim) = some mem' ∧
      p.Holds l P σ τ (fun _ => replicate p.inner.hiddenSize 0) O mem' := by
  rw [Nat.mul_comm]
  obtain ⟨mem',hclear,hreads,hkept⟩ := clear_reads (h.has .buffer rfl)
  refine ⟨mem',hclear,h.kept (hkept.mono fun q hq => ⟨.buffer,rfl,hq⟩),strip_clear hreads,?_⟩
  exact hO.kept hkept fun q hq => h.separate .output .buffer rfl (by simp) q hq

variable (m p σ τ P)

def summaries : List (List Int) :=
  joined p.patchDim fun r => (p.inner.fold m σ (replicate p.inner.hiddenSize 0) (p.line P r)).map
    (rescaled m p.innerUp p.innerDown)

def direction (backward : Bool) : List Int :=
  p.outer.fold m τ (replicate p.outer.hiddenSize 0)
    (if backward then (summaries m p P σ).reverse else summaries m p P σ)

variable {m p σ τ P}

/-- Half of a pool: the summaries of the rows or of the columns, and both directions over them. The
lines are the rows of a patch `Q`, read from memory row by row or column by column. -/
theorem Ready.halfRun (houter : p.outer.Proper m) (hdown : m.Proper p.innerDown)
    (h : p.Ready l P σ τ mem) (hO : Strip l .output p.outer.hiddenSize 4 O mem)
    {Q} (hf : ∀ r < p.patchDim, ∀ B mem, p.Holds l P σ τ B O mem → ∃ mem', f r mem = some mem' ∧
      p.Holds l P σ τ (update B r (p.inner.fold m σ (B r) (p.line Q r))) O mem')
    (hi : i+1 < 4) (hfirst : O i = replicate p.outer.hiddenSize 0)
    (hsecond : O (i+1) = replicate p.outer.hiddenSize 0) :
    ∃ mem1 mem2 mem3, mem.clear l.buffer (p.inner.hiddenSize*p.patchDim) = some mem1 ∧
      (range p.patchDim).foldlM (fun mem r => f r mem) mem1 = some mem2 ∧
      p.bothWays m l (i*p.outer.hiddenSize) mem2 = some mem3 ∧ p.Ready l P σ τ mem3 ∧
      Strip l .output p.outer.hiddenSize 4
        (update (update O i (direction m p Q σ τ false)) (i+1)
          (direction m p Q σ τ true)) mem3 := by
  obtain ⟨mem1,hclear,h1⟩ := h.clearBuffer hO
  obtain ⟨mem2,hpass,h2⟩ := h1.pass hf
  obtain ⟨mem3,hways,h3⟩ := h2.bothWays houter hdown hi
  refine ⟨mem1,mem2,mem3,hclear,hpass,hways,h3.ready,?_⟩
  have hblocks := h3.blocks
  rw [hfirst, hsecond] at hblocks
  exact hblocks

theorem run_output (hinner : p.inner.Proper m) (houter : p.outer.Proper m)
    (hdown : m.Proper p.innerDown) (hdown' : m.Proper p.outerDown) (h : p.Ready l P σ τ mem) :
    let half (Q : Nat → Nat → List Int) : List Int :=
      (direction m p Q σ τ false++direction m p Q σ τ true).map (rescaled m p.outerUp p.outerDown)
    ∃ mem', p.run m l mem = some mem' ∧ (half P).length = 2*p.outer.hiddenSize ∧
      mem'.vector l.output (4*p.outer.hiddenSize) = some (half P++half fun r c => P c r) := by
  intro half
  obtain ⟨mem1,hclear,hzero,hkept⟩ := clear_reads (h.has .output rfl)
  have h1 := h.kept (hkept.mono fun q hq => ⟨.output,rfl,hq⟩)
  obtain ⟨mem2,mem3,mem4,hbuffer,hrows,hleft,h4,hO4⟩ := h1.halfRun houter hdown (strip_clear hzero)
    (fun r hr _ _ h => h.row hinner hr) (i := 0) (by omega) rfl rfl
  obtain ⟨mem5,mem6,mem7,hbuffer',hcolumns,hright,h7,hO7⟩ := h4.halfRun houter hdown hO4
    (fun c hc _ _ h => h.column hinner hc) (i := 2) (by omega) rfl rfl
  have hO : Strip l .output p.outer.hiddenSize 4
    (fun i => [direction m p P σ τ false, direction m p P σ τ true,
      direction m p (fun r c => P c r) σ τ false, direction m p (fun r c => P c r) σ τ true].getD
        i []) mem7 := by
    apply hO7.congr
    intro i hi
    interval_cases i <;> rfl
  have hlen := fun i hi => (hO i hi).1
  have hsize := length_flatten_joined hlen
  obtain ⟨mem8,hscale,hreads,-⟩ := rescale_reads p.outerUp hdown' ((strip_iff hlen).1 hO) (by
    intro j hj
    rw [hsize] at hj
    exact h7.has .output rfl j hj)
  have hhalf : (half P).length = 2*p.outer.hiddenSize := by
    have h0 : (direction m p P σ τ false).length = p.outer.hiddenSize := hlen 0 (by omega)
    have h1 : (direction m p P σ τ true).length = p.outer.hiddenSize := hlen 1 (by omega)
    simp only [half, List.length_map, List.length_append]
    omega
  refine ⟨mem8,?_,hhalf,?_⟩
  · rw [hsize] at hscale
    rw [Nat.zero_mul] at hleft
    change mem.clear l.output (4*p.outer.hiddenSize) = some mem1 at hclear
    change rescale m p.outerUp p.outerDown l.output _ mem7 = some mem8 at hscale
    simp only [Pool.run, rowPass, columnPass, Option.bind_eq_bind, hclear, hbuffer, hrows, hleft,
      hbuffer', hcolumns, hright, Option.bind_some, hscale]
  · have hvector := hreads.vector
    rw [List.length_map, hsize] at hvector
    rw [pointer] at hvector
    rw [hvector]
    simp [joined, half, List.range_succ]

/-- Calls of one pixel each, over columns whose pixels are apart in memory, leave the state of one
call over the pixels one after the other. -/
theorem Holds.columnPass_eq_run (hc : p.inner.Proper m) (h : p.Holds l P σ τ B O mem) :
    ∃ done, p.columnPass m l mem = some done ∧ ∀ c < p.patchDim, ∀ lay mem1,
      p.inner.Ready false p.patchDim lay (σ.on (B c) (p.line (fun i j => P j i) c).flatten) mem1 →
      ∃ last, p.inner.run m false false p.patchDim lay mem1 = some last ∧
        ∃ state, last.vector (lay .hidden) p.inner.hiddenSize = some state ∧
          done.vector (l.buffer.plus (c*p.inner.hiddenSize)) p.inner.hiddenSize = some state := by
  obtain ⟨done,hpass,hdone⟩ := h.pass fun c hcol _ _ h => h.column hc hcol
  refine ⟨done,hpass,?_⟩
  intro c hcol lay mem1 hready
  have hlen : ∀ x ∈ p.line (fun i j => P j i) c, x.length = p.inner.inputSize :=
    fun x => length_joined fun r hr => (h.ready.pixel r hr c hcol).1
  have hcount : (p.line (fun i j => P j i) c).length = p.patchDim := by simp [line, joined]
  obtain ⟨last,hrun,hstate,-⟩ := Cell.run_state hc hready false
  have hafter := Cell.after_on m p.inner σ (B c) hlen false
  rw [hcount] at hafter
  obtain ⟨hsize,hreads⟩ := hdone.rows c hcol
  have hvector := hreads.vector
  rw [hsize] at hvector
  exact ⟨last,hrun,_,hstate.trans (congrArg some hafter),hvector⟩

/-- The pool of a transposed patch is the pool of the patch with its halves exchanged, whatever else
the two memories hold. The column pass computes what one call on each column would, with the pixels
of the column one after the other. -/
theorem pool_transposed (m : Scaling) (p : Pool) (hinner : p.inner.Proper m)
    (houter : p.outer.Proper m)
    (hdown : m.Proper p.innerDown) (hdown' : m.Proper p.outerDown) (P : Nat → Nat → List Int)
    (σ τ : Contents) :
    (∀ l l' mem mem', p.Ready l P σ τ mem → p.Ready l' (fun r c => P c r) σ τ mem' →
      ∃ first second final final',
        first.length = 2*p.outer.hiddenSize ∧ second.length = 2*p.outer.hiddenSize ∧
        p.run m l mem = some final ∧
        final.vector l.output (4*p.outer.hiddenSize) = some (first++second) ∧
        p.run m l' mem' = some final' ∧
        final'.vector l'.output (4*p.outer.hiddenSize) = some (second++first)) ∧
    ∀ l B O mem, p.Holds l P σ τ B O mem →
      ∃ done, p.columnPass m l mem = some done ∧ ∀ c < p.patchDim, ∀ lay mem₁,
        p.inner.Ready false p.patchDim lay (σ.on (B c) (p.line (fun i j => P j i) c).flatten) mem₁ →
        ∃ last, p.inner.run m false false p.patchDim lay mem₁ = some last ∧
          ∃ state, last.vector (lay .hidden) p.inner.hiddenSize = some state ∧
            done.vector (l.buffer.plus (c*p.inner.hiddenSize)) p.inner.hiddenSize = some state := by
  refine ⟨?_,fun l B O mem h => h.columnPass_eq_run hinner⟩
  intro l l' mem mem' h h'
  obtain ⟨final,hrun,hfirst,hout⟩ := run_output hinner houter hdown hdown' h
  obtain ⟨final',hrun',hsecond,hout'⟩ := run_output hinner houter hdown hdown' h'
  exact ⟨_,_,final,final',hfirst,hsecond,hrun,hout,hrun',hout'⟩

theorem idxOf_lt (s : Slot) : Slot.all.idxOf s < Slot.all.length := by
  cases s <;> decide

theorem apart_part_inj {a}
    (h : (PoolLayout.apart.pointer a).buffer = (PoolLayout.apart.pointer b).buffer) : a = b := by
  have hlt := idxOf_lt
  cases a <;> cases b <;> simp only [pointer, apart, Layout.apart] at h
  case patch.patch => rfl
  case buffer.buffer => rfl
  case output.output => rfl
  case inner.inner s t => exact congrArg _ (Cell.apart_inj 3 h)
  case outer.outer s t => exact congrArg _ (Cell.apart_inj (3+Slot.all.length) h)
  case inner.outer s t =>
    have := hlt s
    omega
  case outer.inner s t =>
    have := hlt t
    omega
  all_goals omega

theorem ready_allocated
    (hpixel : ∀ r < p.patchDim, ∀ c < p.patchDim, (P r c).length = p.inner.inputSize ∧
      P r c = (xs.drop ((p.stride*r+c)*p.inner.inputSize)).take p.inner.inputSize)
    (hσ : ∀ s, (σ s).length = if s.working then 0 else p.inner.ownRoom s)
    (hτ : ∀ s, (τ s).length = if s.working then 0 else p.outer.ownRoom s) :
    p.Ready apart P σ τ (allocatePool xs (p.patchDim*p.inner.hiddenSize) (4*p.outer.hiddenSize)
      (allocate p.inner.ownRoom σ) (allocate p.outer.ownRoom τ)) := by
  obtain ⟨mem,hmem⟩ : ∃ mem, mem = allocatePool xs (p.patchDim*p.inner.hiddenSize)
    (4*p.outer.hiddenSize)
    (allocate p.inner.ownRoom σ) (allocate p.outer.ownRoom τ) := ⟨_,rfl⟩
  rw [← hmem]
  have hpatch : mem.buffers[(PoolLayout.apart.pointer .patch).buffer]? =
      some (xs.map some).toArray := by
    rw [hmem]
    rfl
  have hbuffer : mem.buffers[(PoolLayout.apart.pointer .buffer).buffer]? =
      some (Array.replicate (p.patchDim*p.inner.hiddenSize) none) := by
    rw [hmem]
    rfl
  have houtput : mem.buffers[(PoolLayout.apart.pointer .output).buffer]? =
      some (Array.replicate (4*p.outer.hiddenSize) none) := by
    rw [hmem]
    rfl
  have hinner : ∀ s, Reads mem (Layout.apart 3 s) (σ s) ∧
      ∀ i < p.inner.ownRoom s, mem.has ((Layout.apart 3 s).plus i) = true := by
    intro s
    apply Cell.allocated_slot rfl _ (hσ s)
    rw [hmem]
    cases s <;> rfl
  have houter : ∀ s, Reads mem (Layout.apart (3+Slot.all.length) s) (τ s) ∧
      ∀ i < p.outer.ownRoom s, mem.has ((Layout.apart (3+Slot.all.length) s).plus i) = true := by
    intro s
    apply Cell.allocated_slot rfl _ (hτ s)
    rw [hmem]
    cases s <;> rfl
  refine ⟨?_,?_,?_,fun s => ⟨hσ s,(hinner s).1⟩,fun s => ⟨hτ s,(houter s).1⟩⟩
  · intro a b _ hne q ha hb
    exact hne (apart_part_inj (ha.1.symm.trans hb.1))
  · intro a ha i hi
    cases a with
    | patch => simp [PoolPart.written] at ha
    | buffer => exact has_plus hbuffer (by simpa [pointer, apart, room] using hi)
    | output => exact has_plus houtput (by simpa [pointer, apart, room] using hi)
    | inner s => exact (hinner s).2 i hi
    | outer s => exact (houter s).2 i hi
  · intro r hr c hc
    obtain ⟨hlen,hP⟩ := hpixel r hr c hc
    refine ⟨hlen,?_⟩
    intro i x hx
    rw [hP, List.getElem?_take] at hx
    split at hx
    · exact (reads_held rfl hpatch).part _ i x hx
    · simp at hx

/-- A pool of patches of two by two pixels, with three pixels from a row to the next one. -/
def twoByTwo : Pool where
  inner := { Cell.slender with inputWeights := .dense ⟨1,1,2⟩, stateWeights := .dense ⟨1,1,2⟩ }
  outer := { Cell.slender with inputWeights := .dense ⟨1,1,1⟩, stateWeights := .dense ⟨1,1,2⟩ }
  chained := rfl
  patchDim := 2
  stride := 3
  innerUp := 3
  innerDown := 2
  outerUp := 1
  outerDown := 2

def twoByTwoContents : Contents
  | .inputOuter => [3]
  | .stateOuter => [-2]
  | .gateBias => [1]
  | .updateBias => [-3]
  | _ => []

def twoByTwoMemory (xs : List Int) : Memory :=
  allocatePool xs 2 4 (allocate twoByTwo.inner.ownRoom twoByTwoContents)
    (allocate twoByTwo.outer.ownRoom twoByTwoContents)

theorem twoByTwo_ready {P}
    (hpixel : ∀ r < 2, ∀ c < 2, (P r c).length = 1 ∧ P r c = (xs.drop (3*r+c)).take 1) :
    twoByTwo.Ready apart P twoByTwoContents twoByTwoContents (twoByTwoMemory xs) := by
  apply ready_allocated
  · intro r hr c hc
    have hplace : (twoByTwo.stride*r+c)*twoByTwo.inner.inputSize = 3*r+c := Nat.mul_one _
    rw [hplace]
    exact hpixel r hr c hc
  · intro s
    cases s <;> rfl
  · intro s
    cases s <;> rfl

theorem pool_transposed_two_by_two :
    let P (r c : Nat) : List Int := ([3, -5, 99, 7, 2].drop (3*r+c)).take 1
    let mem := twoByTwoMemory [3, -5, 99, 7, 2]
    let mem' := twoByTwoMemory [3, 7, 42, -5, 2]
    twoByTwo.Ready PoolLayout.apart P twoByTwoContents twoByTwoContents mem ∧
      twoByTwo.Ready PoolLayout.apart (fun r c => P c r) twoByTwoContents twoByTwoContents mem' ∧
      ∃ final final', twoByTwo.run .factors PoolLayout.apart mem = some final ∧
        final.vector ⟨2,0⟩ 4 = some [-50, -50, -50, -198] ∧
        twoByTwo.run .factors PoolLayout.apart mem' = some final' ∧
        final'.vector ⟨2,0⟩ 4 = some [-50, -198, -50, -50] := by
  intro P mem mem'
  have h : twoByTwo.Ready PoolLayout.apart P twoByTwoContents twoByTwoContents mem :=
    twoByTwo_ready (by decide)
  have h' : twoByTwo.Ready PoolLayout.apart (fun r c => P c r) twoByTwoContents twoByTwoContents
      mem' :=
    twoByTwo_ready (by decide)
  have hvalue : ((twoByTwo.run .factors PoolLayout.apart mem).bind fun final =>
      final.vector ⟨2,0⟩ 4) = some [-50, -50, -50, -198] := by decide +kernel
  obtain ⟨first,second,final,final',hfirst,-,hrun,hout,hrun',hout'⟩ :=
    (pool_transposed .factors twoByTwo (by decide) (by decide) (by decide)
      (by decide) P twoByTwoContents
      twoByTwoContents).1 _ _ mem mem' h h'
  rw [hrun, Option.bind_some] at hvalue
  have hsplit : first++second = [-50, -50]++[-50, -198] := Option.some.inj (hout.symm.trans hvalue)
  obtain ⟨rfl,rfl⟩ := List.append_inj hsplit hfirst
  exact ⟨h,h',final,final',hrun,hvalue,hrun',hout'⟩

end Pool

end MicroLearn.Fixed
