import Mathlib.Algebra.BigOperators.Group.Finset.Basic
import Mathlib.Data.List.Forall2
import Mathlib.Tactic.Linarith
import Mathlib.Tactic.Ring
import MicroLearn.Fixed.Word
import MicroLearn.Model.Matrix
import MicroLearn.Recurrent.Unroll

/-!
# Words, matrices and buffers

A word holds the integers of its range, storing an integer keeps its class modulo
the number of words, and a sum may be stored after every addition or only once. A
loop that keeps an invariant and never fails ends with the invariant. Stores in a
row leave their values behind and every other cell as it was.
-/

set_option autoImplicit false

open List (getElem?_eq_getElem mapM_cons range)

namespace MicroLearn.Number

theorem twoPow_eq (n : Nat) : twoPow n = 2^n := rfl

theorem twoPow_pos (n : Nat) : 0 < twoPow n := Nat.two_pow_pos n

theorem twoPow_succ (n : Nat) : twoPow (n+1) = 2*twoPow n := pow_succ' 2 n

end MicroLearn.Number

namespace MicroLearn.Fixed

open MicroLearn.Number

instance (bits : Nat) : DecidablePred (InWord bits) :=
  fun x => inferInstanceAs (Decidable (-(twoPow (bits-1) : Int) ≤ x ∧ x < twoPow (bits-1)))

variable {bits : Nat}

theorem twoPow_half (h : 1 ≤ bits) : twoPow bits = 2*twoPow (bits-1) := by
  rw [← twoPow_succ, Nat.sub_add_cancel h]

theorem wrap_inWord (h : 1 ≤ bits) (x : Int) : InWord bits (wrap bits x) := by
  have hlow := Int.le_bmod (x := x) (twoPow_pos bits)
  have hhigh := Int.bmod_lt (x := x) (twoPow_pos bits)
  have hhalf := twoPow_half h
  constructor <;> rw [wrap] <;> omega

theorem wrap_eq_self (h : 1 ≤ bits) {x : Int} (hx : InWord bits x) : wrap bits x = x := by
  have hhalf := twoPow_half h
  obtain ⟨hlow,hhigh⟩ := hx
  exact Int.bmod_eq_of_le (by omega) (by omega)

@[simp] theorem wrap_wrap (x : Int) : wrap bits (wrap bits x) = wrap bits x := Int.bmod_bmod

theorem wrap_add_congr {a b c d : Int} (hac : wrap bits a = wrap bits c)
    (hbd : wrap bits b = wrap bits d) : wrap bits (a+b) = wrap bits (c+d) := by
  unfold wrap at *
  rw [Int.add_bmod a b, hac, hbd, ← Int.add_bmod]

theorem wrap_sum_congr (m : Nat) (f g : Nat → Int)
    (h : ∀ i < m, wrap bits (f i) = wrap bits (g i)) :
    wrap bits (∑ i ∈ Finset.range m, f i) = wrap bits (∑ i ∈ Finset.range m, g i) := by
  induction m with
  | zero => rfl
  | succ m ih =>
    rw [Finset.sum_range_succ, Finset.sum_range_succ]
    exact wrap_add_congr (ih fun i hi => h i (by omega)) (h m (by omega))

theorem row_end_le {r count : Nat} (n : Nat) (hr : r < count) : r*n+n ≤ count*n := by
  rw [← Nat.succ_mul]
  exact Nat.mul_le_mul_right n hr

theorem cell_lt {a b A B : Nat} (ha : a < A) (hb : b < B) : a*B+b < A*B := by
  have := row_end_le B ha
  omega

end MicroLearn.Fixed

namespace MicroLearn.Model

section Results

variable {α β : Type}

theorem mapM_ok {f : α → Except Fault β} {l ys} :
    l.mapM f = .ok ys ↔ List.Forall₂ (fun x y => f x = .ok y) l ys := by
  induction l generalizing ys with
  | nil => simp [pure, Except.pure, eq_comm]
  | cons x l ih =>
    rw [mapM_cons, List.forall₂_cons_left_iff]
    simp only [← ih]
    cases f x <;> cases l.mapM f <;> simp [bind, Except.bind, pure, Except.pure, eq_comm]

theorem mapM_ok_of_forall (f : α → Except Fault β) (g : α → β) (l : List α)
    (h : ∀ x ∈ l, f x = .ok (g x)) : l.mapM f = .ok (l.map g) :=
  mapM_ok.2 (List.forall₂_map_right_iff.2 (List.forall₂_same.2 h))

theorem mapM_ok_of_getElem (f : α → Except Fault β) (l : List α) (ys : List β)
    (hlength : l.length = ys.length)
    (h : ∀ (j : Nat) x, l[j]? = some x → ∃ y, ys[j]? = some y ∧ f x = .ok y) :
    l.mapM f = .ok ys := by
  refine mapM_ok.2 (List.forall₂_iff_get.2 ⟨hlength,fun j hj _ => ?_⟩)
  obtain ⟨y,hy,hx⟩ := h j _ (getElem?_eq_getElem hj)
  rw [List.getElem?_eq_some_iff] at hy
  obtain ⟨_,rfl⟩ := hy
  exact hx

theorem mapM_forall₂ {f : α → Except Fault β} {R : α → β → Prop} {l : List α}
    (h : ∀ x ∈ l, ∃ y, f x = .ok y ∧ R x y) : ∃ ys, l.mapM f = .ok ys ∧ List.Forall₂ R l ys := by
  induction l with
  | nil => exact ⟨[],rfl,.nil⟩
  | cons x l ih =>
    obtain ⟨y,hy,hR⟩ := h x List.mem_cons_self
    obtain ⟨ys,hys,hall⟩ := ih fun z hz => h z (List.mem_cons_of_mem x hz)
    exact ⟨y::ys,mapM_ok.2 (.cons hy (mapM_ok.1 hys)),.cons hR hall⟩

theorem mapM_ok_iff {f : α → Except Fault β} {l : List α} :
    (∃ ys, l.mapM f = .ok ys) ↔ ∀ x ∈ l, ∃ y, f x = .ok y := by
  constructor
  · rintro ⟨ys,h⟩
    induction mapM_ok.1 h with
    | nil => nofun
    | cons hx hl ih => exact List.forall_mem_cons.2 ⟨⟨_,hx⟩,ih (mapM_ok.2 hl)⟩
  · intro h
    obtain ⟨ys,hys,-⟩ := mapM_forall₂ (R := fun _ _ => True) fun x hx => (h x hx).imp fun _ =>
      (⟨·,trivial⟩)
    exact ⟨ys,hys⟩

end Results

structure Shaped {α : Type} (rows cols : Nat) (m : Rows α) : Prop where
  length : m.length = rows
  width : ∀ row ∈ m, row.length = cols

section Shape

variable {α : Type} {rows cols : Nat} {m : Rows α}

theorem Shaped.size_ok (h : Shaped rows cols m) (hrows : 1 ≤ rows) : size m = .ok (rows,cols) := by
  obtain ⟨hlength,hwidth⟩ := h
  cases m with
  | nil =>
    rw [List.length_nil] at hlength
    omega
  | cons row m =>
    rw [List.length_cons] at hlength
    rw [size, hlength, hwidth row (by simp)]

theorem Shaped.map {β : Type} (h : Shaped rows cols m) (f : List α → List β)
    (hf : ∀ row ∈ m, (f row).length = row.length) : Shaped rows cols (m.map f) := by
  constructor
  · rw [List.length_map, h.length]
  · intro row hrow
    obtain ⟨row,hmem,rfl⟩ := List.mem_map.1 hrow
    rw [hf row hmem, h.width row hmem]

theorem Shaped.part {size count k : Nat} (h : Shaped (size*count) cols m) (hk : k < count) :
    Shaped size cols ((m.drop (k*size)).take size) := by
  constructor
  · have hroom := Fixed.row_end_le size hk
    rw [List.length_take, List.length_drop, h.length, Nat.mul_comm size]
    omega
  · intro row hrow
    exact h.width row (List.mem_of_mem_drop (List.mem_of_mem_take hrow))

/-- The columns of a matrix as rows. -/
def columns [Zero α] (cols : Nat) (m : Rows α) : Rows α :=
  (range cols).map fun j => m.map fun row => row.getD j 0

theorem column_ok [Zero α] (h : Shaped rows cols m) (j : Nat) (hj : j < cols) :
    column m rows j = .ok (m.map fun row => row.getD j 0) := by
  unfold column
  rw [mapM_ok_of_forall _ (fun k => (m.getD k []).getD j 0)]
  · congr 1
    apply List.ext_getElem
    · simp [h.length]
    · intro k hk hk'
      have hkm : k < m.length := by simpa using hk'
      simp [List.getD_eq_getElem?_getD, getElem?_eq_getElem hkm]
  · intro k hk
    have hkm : k < m.length := by
      rw [h.length]
      exact List.mem_range.mp hk
    have hwidth : j < m[k].length := by
      rw [h.width _ (List.getElem_mem hkm)]
      exact hj
    simp [entry, List.getD_eq_getElem?_getD, getElem?_eq_getElem hkm, getElem?_eq_getElem hwidth]

theorem transpose_ok [Zero α] (h : Shaped rows cols m) (hrows : 1 ≤ rows) :
    transpose m = .ok (columns cols m) := by
  unfold transpose
  rw [h.size_ok hrows]
  exact mapM_ok_of_forall _ _ _ fun j hj => column_ok h j (List.mem_range.mp hj)

theorem columns_shaped [Zero α] (h : Shaped rows cols m) : Shaped cols rows (columns cols m) := by
  constructor
  · simp [columns]
  · intro row hrow
    obtain ⟨j,-,rfl⟩ := List.mem_map.mp hrow
    simpa using h.length

def asColumn (x : List α) : Rows α := x.map fun a => [a]

theorem asColumn_shaped (x : List α) : Shaped x.length 1 (asColumn x) := by
  constructor
  · simp [asColumn]
  · simp [asColumn]

theorem flatten_asColumn (x : List α) : (asColumn x).flatten = x := by
  induction x with
  | nil => rfl
  | cons a x ih =>
    show a::(asColumn x).flatten = a::x
    rw [ih]

theorem column_asColumn (x : List α) : column (asColumn x) x.length 0 = .ok x := by
  apply mapM_ok_of_getElem
  · rw [List.length_range]
  · intro j k hjk
    obtain ⟨hj,rfl⟩ := List.getElem?_eq_some_iff.1 hjk
    rw [List.getElem_range]
    rw [List.length_range] at hj
    exact ⟨x[j],getElem?_eq_getElem hj,by simp [entry, asColumn, getElem?_eq_getElem hj]⟩

end Shape

section Products

variable {F : Type}

theorem dot_eq_sum [Semiring F] (a b : List F) :
    dot a b = ((a.zip b).map fun p => p.1*p.2).sum := by
  rw [List.sum_eq_foldl, List.foldl_map]
  rfl

@[simp]
theorem dot_cons [Semiring F] (a b : F) (as bs : List F) : dot (a::as) (b::bs) = a*b+dot as bs := by
  simp [dot_eq_sum]

@[simp]
theorem dot_nil_left [Semiring F] (b : List F) : dot [] b = 0 := rfl

@[simp]
theorem dot_nil_right [Semiring F] (a : List F) : dot a [] = 0 := by
  simp [dot]

theorem product_asColumn [Semiring F] {rows : Nat} {m : Rows F} {x : List F}
    (hm : Shaped rows x.length m) (hrows : 1 ≤ rows) (hx : 1 ≤ x.length) :
    product m (asColumn x) = .ok (asColumn (m.map (dot · x))) := by
  unfold product
  rw [hm.size_ok hrows, (asColumn_shaped x).size_ok hx]
  show (do demand (x.length == x.length); m.mapM _) = _
  rw [beq_self_eq_true]
  show m.mapM _ = _
  rw [mapM_ok_of_forall _ (fun row => [dot row x])]
  · simp [asColumn]
  · intro row hrow
    have hwidth := hm.width row hrow
    simp only [firstEntries, hwidth, le_refl, if_true, one_ne_zero, if_false]
    rw [List.take_of_length_le hwidth.le]
    show (range 1).mapM (fun j => column (asColumn x) x.length j >>= fun c => pure (dot row c)) = _
    rw [List.range_one, mapM_cons, column_asColumn]
    rfl

theorem dot_map_mul [CommSemiring F] (a b : List F) (c : F) :
    dot (a.map (· * c)) b = dot a b*c := by
  induction a generalizing b with
  | nil => simp
  | cons x a ih =>
    cases b with
    | nil => simp
    | cons y b =>
      rw [List.map_cons, dot_cons, dot_cons, ih]
      ring

end Products

end MicroLearn.Model

namespace MicroLearn.Fixed

variable {α β : Type}

theorem mapM_some {f : α → Option β} {l ys} :
    l.mapM f = some ys ↔ List.Forall₂ (fun x y => f x = some y) l ys := by
  induction l generalizing ys with
  | nil => simp [eq_comm]
  | cons x l ih =>
    rw [mapM_cons, List.forall₂_cons_left_iff]
    simp only [← ih]
    cases f x <;> cases l.mapM f <;> simp [eq_comm]

theorem mapM_some_of_forall (f : α → Option β) (g : α → β) (l : List α)
    (h : ∀ x ∈ l, f x = some (g x)) : l.mapM f = some (l.map g) :=
  mapM_some.2 (List.forall₂_map_right_iff.2 (List.forall₂_same.2 h))

theorem sum_over_of_forall (count : Nat) (term : Nat → Option Int) (t : Nat → Int)
    (h : ∀ i < count, term i = some (t i)) :
    sumOver? count term = some (Number.sumOver count t) := by
  have hm := mapM_some_of_forall term t (range count) (fun i hi => h i (List.mem_range.1 hi))
  simp [sumOver?, hm, Number.sumOver]

/-- What one turn of a loop keeps, and keeps going, holds after all of them. -/
theorem foldlM_invariant (f : β → α → Option β) (l : List α) (P : Nat → β → Prop) (start : β)
    (h0 : P 0 start) (hs : ∀ i (hi : i < l.length) b, P i b → ∃ c, f b l[i] = some c ∧ P (i+1) c) :
    ∃ c, l.foldlM f start = some c ∧ P l.length c := by
  induction l generalizing start P with
  | nil => exact ⟨start,rfl,h0⟩
  | cons x l ih =>
    obtain ⟨b,hb,h1⟩ := hs 0 (by simp) start h0
    obtain ⟨c,hc,hP⟩ := ih (fun i => P (i+1)) b h1 fun i hi b hP =>
      hs (i+1) (by simpa using hi) b hP
    refine ⟨c,?_,hP⟩
    rw [List.foldlM_cons, show f start x = some b from hb]
    exact hc

theorem foldlM_range (f : β → Nat → Option β) (n : Nat) (P : Nat → β → Prop)
    (start : β) (h0 : P 0 start) (hs : ∀ i < n, ∀ b, P i b → ∃ c, f b i = some c ∧ P (i+1) c) :
    ∃ c, (range n).foldlM f start = some c ∧ P n c := by
  have h := foldlM_invariant f (range n) P start h0 fun i hi b hP => by
    have hin : i < n := by simpa using hi
    simpa using hs i hin b hP
  simpa using h

theorem foldlM_zipIdx (f : β → α × Nat → Option β) (l : List α)
    (P : Nat → β → Prop) (start : β) (h0 : P 0 start)
    (hs : ∀ i (hi : i < l.length) b, P i b → ∃ c, f b (l[i],i) = some c ∧ P (i+1) c) :
    ∃ c, l.zipIdx.foldlM f start = some c ∧ P l.length c := by
  have h := foldlM_invariant f l.zipIdx P start h0 fun i hi b hP => by
    have hil : i < l.length := by simpa using hi
    simpa using hs i hil b hP
  simpa using h

theorem store_some (a : Array α) (i : Nat) (v : α) (h : i < a.size) :
    store? a i v = some (a.setIfInBounds i v) := by
  simp [store?, h]

theorem store_from_spec (vs : List α) (a : Array α) (base : Nat) (h : base+vs.length ≤ a.size) :
    ∃ r, storeFrom? a base vs = some r ∧ r.size = a.size ∧
      (∀ i (hi : i < vs.length), r[base+i]? = some vs[i]) ∧
      ∀ j, j < base ∨ base+vs.length ≤ j → r[j]? = a[j]? := by
  induction vs generalizing a base with
  | nil => exact ⟨a,rfl,rfl,fun i hi => absurd hi (by simp),fun j _ => rfl⟩
  | cons v vs ih =>
    have hb : base < a.size := by simp at h; omega
    obtain ⟨r,hr,hsize,hin,hout⟩ := ih (a.setIfInBounds base v) (base+1) (by simp at h ⊢; omega)
    refine ⟨r,by simp [storeFrom?, store_some a base v hb, hr],by simpa using hsize,?_,?_⟩
    · intro i hi
      cases i with
      | zero =>
        rw [Nat.add_zero, hout base (by omega)]
        simp [hb]
      | succ i =>
        have hv := hin i (by simpa using hi)
        rw [show base+(i+1) = base+1+i by omega, hv]
        rfl
    · intro j hj
      rw [hout j (by simp at hj; omega)]
      have hne : base ≠ j := by simp at hj; omega
      simp [hne]

theorem store_from_prefix (done vs : List α) (a : Array α)
    (hp : done <+: a.toList) (h : done.length+vs.length ≤ a.size) :
    ∃ r, storeFrom? a done.length vs = some r ∧ r.size = a.size ∧ done++vs <+: r.toList := by
  obtain ⟨r,hr,hsize,hin,hout⟩ := store_from_spec vs a done.length h
  refine ⟨r,hr,hsize,?_⟩
  rw [List.prefix_iff_getElem?] at hp ⊢
  intro i hi
  by_cases hd : i < done.length
  · rw [Array.getElem?_toList, hout i (Or.inl hd), ← Array.getElem?_toList, hp i hd,
      List.getElem_append_left hd]
  · have hv : i-done.length < vs.length := by simp at hi; omega
    have hcell := hin (i-done.length) hv
    rw [show done.length+(i-done.length) = i by omega] at hcell
    rw [Array.getElem?_toList, hcell, List.getElem_append_right (by omega)]

theorem flatMap_getElem (l : List α) (f : α → List β) (len : Nat)
    (hlen : ∀ x ∈ l, (f x).length = len) (i j : Nat) (hi : i < l.length) (hj : j < len) :
    (l.flatMap f)[i*len+j]? = (f l[i])[j]? := by
  induction l generalizing i with
  | nil => simp at hi
  | cons x l ih =>
    have hx := hlen x (by simp)
    cases i with
    | zero =>
      rw [List.flatMap_cons, List.getElem?_append_left (by omega)]
      simp
    | succ i =>
      have hl := ih (fun y hy => hlen y (by simp [hy])) i (by simpa using hi)
      rw [List.flatMap_cons, List.getElem?_append_right (by rw [hx]; nlinarith), hx,
        show (i+1)*len+j-len = i*len+j by rw [Nat.add_mul]; omega, hl]
      rfl

theorem flatMap_length (l : List α) (f : α → List β) (len : Nat)
    (hlen : ∀ x ∈ l, (f x).length = len) : (l.flatMap f).length = l.length*len := by
  rw [List.length_flatMap, List.map_congr_left hlen, List.map_const', List.sum_replicate_nat]

theorem range_mul (n v : Nat) :
    range (n*v) = (range n).flatMap fun j => (range v).map (j*v + ·) := by
  induction n with
  | zero => simp
  | succ n ih => rw [Nat.succ_mul, List.range_add, ih, List.range_succ, List.flatMap_append]; simp

theorem append_mark_inj {α : Type} [BEq α] [LawfulBEq α] {z : α} {a b s t : List α} (ha : z ∉ a)
    (hb : z ∉ b) (h : a++z::s = b++z::t) : a = b ∧ s = t := by
  have hlength : a.length = b.length := by
    simpa [List.idxOf_append_of_notMem, ha, hb] using congrArg (List.idxOf z) h
  obtain ⟨hfront,hback⟩ := List.append_inj h hlength
  exact ⟨hfront,(List.cons.inj hback).2⟩

theorem take_drop_flatten {parts : List (List α)} {width i : Nat}
    (h : ∀ part ∈ parts, part.length = width) (hi : i < parts.length) :
    (parts.flatten.drop (i*width)).take width = parts[i] := by
  apply List.ext_getElem?
  intro j
  have hpart : parts[i].length = width := h _ (List.getElem_mem hi)
  by_cases hj : j < width
  · rw [List.getElem?_take_of_lt hj, List.getElem?_drop, ← List.flatMap_id,
      flatMap_getElem parts id width h i j hi hj, id]
  · rw [List.getElem?_eq_none (by simp; omega), List.getElem?_eq_none (by omega)]

theorem getElem_rowsOf (n count : Nat) (xs : List α) (i : Nat) (hi : i < count) :
    (Recurrent.rowsOf n count xs)[i]? = some ((xs.drop (i*n)).take n) := by
  induction count generalizing xs i with
  | zero => omega
  | succ count ih =>
    cases i with
    | zero => simp [Recurrent.rowsOf]
    | succ i =>
      rw [Recurrent.rowsOf, List.getElem?_cons_succ, ih _ i (by omega), List.drop_drop]
      congr 3
      ring

@[simp] theorem length_rowsOf (n count : Nat) (xs : List α) :
    (Recurrent.rowsOf n count xs).length = count := by
  induction count generalizing xs with
  | zero => rfl
  | succ count ih => simp [Recurrent.rowsOf, ih]

end MicroLearn.Fixed
