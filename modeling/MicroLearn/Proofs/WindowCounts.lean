import MicroLearn.Proofs.LabelWindow
import MicroLearn.Proofs.TwoWayRuns
import MicroLearn.Proofs.Word

/-!
# Counts of sliding windows

The bins of the first window of a column are counted afresh. Behind it one value leaves the window
and one comes, and only the counts of their bins change. If every row of counts adds up to the
width, no value of the first window was left out, and each row holds the counts of the window that
ends there.
-/

set_option autoImplicit false
set_option mvcgen.warning false

namespace MicroLearn.Gesture

open Number (Cell)
open Std.Do

section Bins

variable {α : Type} [LT α] [DecidableLT α] (bounds : List α)

/-- A value lies in a bin if it is below no upper boundary of an earlier bin, and below that of the
bin unless the bin is the last. -/
def inBin (i : Nat) (x : α) : Bool :=
  (bounds.tail.take i).all (fun b => !decide (x < b)) &&
    (i+2 == bounds.length || (bounds.tail[i]?).any (x < ·))

def binCounts (window : List α) : List Int :=
  (List.range (bounds.length-1)).map fun i => (window.countP (inBin bounds i) : Nat)

variable {bounds}

theorem inBin_iff {i : Nat} (hi : i+1 < bounds.length) (x : α) :
    inBin bounds i x ↔ binOf bounds x = i := by
  obtain ⟨b,bs,rfl⟩ := List.exists_cons_of_length_pos (Nat.zero_lt_of_lt hi)
  simp only [inBin, binOf, List.tail_cons, List.length_cons] at hi ⊢
  induction bs generalizing i with
  | nil => simp at hi
  | cons b bs ih =>
    cases i with
    | zero => by_cases hb : x < b <;> cases bs <;> simp [hb]
    | succ i =>
      have hrest := @ih i (by simpa using hi)
      by_cases hb : x < b
      · simp [hb]
      · simp [hb] at hrest ⊢
        rw [hrest]
        simp at hi
        omega

theorem addAt_binCounts (x : α) (window : List α) :
    addAt (binOf bounds x) 1 (binCounts bounds window) = binCounts bounds (x::window) := by
  refine List.ext_getElem (by simp [addAt, binCounts]) fun i _ hi => ?_
  have hbin : inBin bounds i x ↔ binOf bounds x = i :=
    inBin_iff (by simp [binCounts] at hi; omega) x
  by_cases hx : binOf bounds x = i <;> simp_all [addAt, binCounts, List.countP_cons]

theorem addAt_binCounts_cons (x : α) (window : List α) :
    addAt (binOf bounds x) (-1) (binCounts bounds (x::window)) = binCounts bounds window := by
  rw [← addAt_binCounts, addAt, addAt, List.modify_modify_eq]
  convert List.modify_id (binOf bounds x) (binCounts bounds window) using 2
  funext n
  simp

theorem binCounts_perm {v w : List α} (h : v.Perm w) : binCounts bounds v = binCounts bounds w := by
  simp only [binCounts, h.countP_eq]

theorem total_addAt {counts : List Int} {i : Nat} (hi : i < counts.length) :
    Number.total (addAt i 1 counts) = Number.total counts+1 := by
  induction counts generalizing i with
  | nil => simp at hi
  | cons n counts ih =>
    cases i with
    | zero => simp [addAt, Number.total, add_right_comm]
    | succ i => simpa [addAt, Number.total, add_assoc] using ih (Nat.lt_of_succ_lt_succ hi)

theorem total_binCounts (h : 2 ≤ bounds.length) (window : List α) :
    Number.total (binCounts bounds window) = window.length := by
  induction window with
  | nil =>
    change List.sum _ = 0
    simp [binCounts]
  | cons x window ih =>
    rw [← addAt_binCounts, total_addAt, ih, List.length_cons, Nat.cast_succ]
    simp only [binOf, binCounts, List.length_map, List.length_range]
    omega

theorem slide_binCounts {width s : Nat} {xs : List α} {counts : List Int}
    (hcounts : counts = binCounts bounds (xs.take (width+1))) (h : s+(width+1) ≤ xs.length) :
    (counts::slide bounds counts (xs.zip (xs.drop (width+1))))[s]? =
      some (binCounts bounds ((xs.drop s).take (width+1))) := by
  induction s generalizing xs counts with
  | zero => exact congrArg some hcounts
  | succ s ih =>
    obtain ⟨x,xs,rfl⟩ := List.exists_cons_of_length_pos (show 0 < xs.length by omega)
    rw [List.length_cons] at h
    have hdrop : xs.drop width = xs[width]::xs.drop (width+1) :=
      List.drop_eq_getElem_cons (by omega)
    rw [List.drop_succ_cons, hdrop, List.zip_cons_cons, slide]
    refine ih ?_ (by omega)
    rw [hcounts, List.take_succ_cons, addAt_binCounts_cons, addAt_binCounts,
      List.take_succ_eq_append_getElem (by omega)]
    exact binCounts_perm (List.perm_append_singleton ..).symm

variable [LE α] [DecidableLE α]

theorem histogram_eq (xs : List α) :
    ∃ ys, ys.Sublist xs ∧ histogram bounds xs = binCounts bounds ys := by
  have hnone : List.replicate (bounds.length-1) 0 = binCounts bounds [] := by
    simp [binCounts, List.map_const']
  have hback (ys : List α) : (ys.foldl (fun window x => x::window) []).Perm ys := by simp
  rw [histogram, hnone, List.foldl_hom (binCounts bounds) fun window x => addAt_binCounts x window]
  exact ⟨_,List.filter_sublist,binCounts_perm (hback _)⟩

/-- A first window whose counts add up to its width is whole, and no value of it was left out. -/
theorem windowCounts_getElem (h : 2 ≤ bounds.length) {xs : List α} {width s : Nat}
    (hs : s+(width+1) ≤ xs.length)
    (htotal : Number.total (histogram bounds (xs.take (width+1))) = (width+1 : Nat)) :
    (windowCounts bounds (width+1) xs)[s]? =
      some (binCounts bounds ((xs.drop s).take (width+1))) := by
  obtain ⟨ys,hsub,hys⟩ : ∃ ys, _ ∧ histogram bounds (xs.take (width+1)) = _ := histogram_eq _
  rw [hys, total_binCounts h, Nat.cast_inj] at htotal
  rw [hsub.eq_of_length_le ((List.length_take_le ..).trans_eq htotal.symm)] at hys
  exact slide_binCounts hys hs

theorem length_histogram (xs : List α) : (histogram bounds xs).length = bounds.length-1 := by
  obtain ⟨ys,-,hys⟩ : ∃ ys, _ ∧ histogram bounds xs = _ := histogram_eq xs
  simp [hys, binCounts]

end Bins

section Columns

variable {bins i j : Nat} {c d : String} {t s t' : Table} {ready ready' : Nat → Prop}
    {shown column : Column}

theorem binName_inj : binName i c = binName j d ↔ i = j ∧ c = d := by
  have hdigits (n : Nat) : '_' ∉ Nat.toDigits 10 n :=
    fun h => absurd (Nat.isDigit_of_mem_toDigits (by decide) (by decide) h) (by decide)
  refine ⟨fun h => ?_,fun h => by rw [h.1, h.2]⟩
  simp only [binName, ← String.toList_inj, String.toList_append, Nat.toString_eq_ofList_toDigits,
    String.toList_ofList, List.append_assoc, List.append_cancel_left_eq] at h
  obtain ⟨hi,hc⟩ := Fixed.append_mark_inj (hdigits i) (hdigits j) h
  exact ⟨Nat.repr_inj.1 (congrArg String.ofList hi),String.toList_inj.1 hc⟩

theorem normalName_ne_binName : normalName c ≠ binName i d := by
  simp [normalName, binName, ← String.toList_inj]

theorem column_put (name x : String) :
    (t.put name column).column x = if x = name then .ok column else t.column x := by
  have hupdate {f : String × Column → String × Column} (es : List (String × Column))
      (hf : ∀ k old, f (k,old) = if k == name then (k,column) else (k,old)) :
      (es.map f).lookup x = (es.lookup x).map fun old => if x = name then column else old := by
    induction es with grind [Bench.lookup_cons_ite]
  rw [Table.put]
  split
  · next h =>
    obtain ⟨old,hold,-⟩ := Table.lookup_of_has h
    rw [Table.column, hupdate _ fun _ _ => rfl]
    by_cases hx : x = name <;> simp [hx, hold, Table.column]
  · next h =>
    have hnone : t.columns.lookup name = none := by
      rw [List.lookup_eq_none_iff]
      grind [Table.has, Table.names]
    by_cases hx : x = name <;> simp [Table.column, hx, hnone, List.lookup_append,
      Bench.lookup_cons_ite]

/-- What a triple says of the table holds behind a run that ends well. -/
theorem start_of_triple {α : Type} {e : Edit α} {a : α} {Q : Table → Prop}
    (h : ⦃fun s => ⌜s = t⌝⦄ e ⦃⇓? _ s => ⌜Q s⌝⦄) (hrun : e.start t = (.ok a,t')) : Q t' := by
  have hpost := h t rfl
  simp only [Edit.start, WP.wp, PredTrans.pushExcept, PredTrans.pushArg, PredTrans.apply, Id.run,
    StateT.run, ExceptT.run] at hpost hrun
  rw [hrun] at hpost
  exact hpost

/-- The columns to count stay as they are, and the column of a bin shows its counts in the rows that
are ready. -/
def Counted (shown : Column) (i : Nat) (c : String) (t s : Table) (ready : Nat → Prop) : Prop :=
  (∀ d, s.column (normalName d) = t.column (normalName d)) ∧
    ∀ e, ready e → ∃ column, s.column (binName i c) = .ok column ∧ column[e]? = shown[e-399]?

theorem Counted.put (h : Counted shown i c t s ready)
    (hnew : d = c → j = i → ∀ e, ready' e → column[e]? = shown[e-399]?)
    (hold : ∀ e, ready' e → d = c ∧ j = i ∨ ready e) :
    Counted shown i c t (s.put (binName j d) column) ready' := by
  refine ⟨fun k => ?_,fun e he => ?_⟩
  · rw [column_put, if_neg normalName_ne_binName, h.1]
  · rw [column_put]
    split
    · next hname =>
      obtain ⟨rfl,rfl⟩ := binName_inj.1 hname
      exact ⟨column,rfl,hnew rfl rfl e he⟩
    · next hname =>
      exact h.2 e ((hold e he).resolve_left fun h => hname (by rw [h.1, h.2]))

theorem setAt_getElem {x : Entry} (h : setAt i x shown = .ok column) : column[i]? = some x := by
  grind [setAt]

theorem zipIdx_split {counts : List Int} {before rest : List (Int × Nat)} {now : Int × Nat}
    (h : counts.zipIdx = before++now::rest) : now.2 = before.length ∧
        counts[now.2]? = some now.1 := by
  have hnow := congrArg (·[before.length]?) h
  grind

theorem later_getElem {x : Entry} {width e : Nat} (hfirst : column[width]? = some x)
    (he : width ≤ e) : (column.take (width+1)++shown)[e]? = (x::shown)[e-width]? := by
  grind

@[simp] theorem length_evenBounds : (evenBounds bins).length = bins+1 := by
  simp [evenBounds]

variable {p : Parameters} {raw : List String} {xs : List Cell} (hwidth : p.width = some 400)
  (hraw : p.rawColumns = some raw) (hbins : p.bins = some (bins : Int))
    (hc : c ∈ raw.map normalName)
  (hxs : t.cells c = .ok xs)

include hwidth hraw hbins hc hxs

theorem addBins_spec {rows : List (List Int)}
    (hrows : windowCounts (evenBounds bins) 400 (xs.map Cell.toFloat) = rows)
    (hshown : rows.map (fun row => .whole (row[i]?.getD 0)) = shown) (hi : i < bins) :
    ⦃fun s => ⌜s = t⌝⦄ addBins p
    ⦃⇓? _ s => ⌜Counted shown i c t s (399 ≤ ·) ∧ ∀ row ∈ rows, Number.total row = 400⌝⦄ := by
  obtain ⟨_,_,_,_,_,_⟩ := p
  cases hwidth
  cases hraw
  cases hbins
  have hread {s ready} (h : Counted shown i c t s ready) : s.cells c = .ok xs := by
    obtain ⟨c,-,rfl⟩ := List.mem_map.1 hc
    rw [Table.cells, h.1, ← Table.cells, hxs]
  mvcgen [addBins, Parameters.needColumns, Parameters.needWidth, known, Edit.demand, Edit.lift,
    MicroLearn.demand]
  case inv1 | inv2 => exact ⇓? _ s => ⌜Counted shown i c t s fun _ => False⌝
  case inv3 => exact ⇓? x s => ⌜Counted shown i c t s fun e => e = 399 ∧ c ∈ x.1.1⌝
  case inv4 before d _ _ _ _ _ _ _ _ _ _ =>
    exact ⇓? x s => ⌜Counted shown i c t s fun e => e = 399 ∧
      (c ∈ before ∨ c = d ∧ i < x.1.1.length)⌝
  case inv5 =>
    exact ⇓? x s => ⌜Counted shown i c t s (fun e => e = 399 ∨ 399 ≤ e ∧ c ∈ x.1.1) ∧
      (c ∈ x.1.1 → ∀ row ∈ rows, Number.total row = 400)⌝
  case inv6 before d _ _ _ _ _ _ _ _ _ _ =>
    exact ⇓? x s => ⌜Counted shown i c t s fun e => e = 399 ∨ 399 ≤ e ∧
      (c ∈ before ∨ c = d ∧ i ∈ x.1.1)⌝
  all_goals simp_all +zetaDelta [length_histogram, -List.mem_map]
  case vc1 h => exact h.put (fun _ _ _ h => h.elim) fun _ h => h.elim
  case vc5 => exact ⟨fun _ => rfl,fun _ h => h.elim⟩
  case vc7 hsplit _ _ _ _ _ _ _ hbefore hcells _ h _ hset =>
    -- an entry of the first window
    obtain ⟨hlast,hcount⟩ := zipIdx_split hsplit
    refine h.put ?_ (by grind)
    rintro rfl rfl _ ⟨rfl,-⟩
    cases (hread hbefore).symm.trans hcells
    have htake : xs.take (bound xs.length 400) = xs.take 400 := by simp [bound]
    simp +zetaDelta only [Int.toNat_natCast, htake, List.map_take] at hcount
    rw [setAt_getElem hset, ← hshown, ← hrows]
    simp [windowCounts, hcount]
  case vc15 hbefore hcells _ h hcolumn =>
    -- the entries of the windows behind it
    refine h.put ?_ (by grind)
    rintro rfl rfl e he
    cases (hread hbefore.1).symm.trans hcells
    obtain ⟨old,hold,hfirst⟩ := h.2 399 (.inl rfl)
    cases hold.symm.trans hcolumn
    obtain ⟨x,rest,rfl⟩ : ∃ x rest, shown = x::rest := ⟨_,_,by rw [← hshown, ← hrows]; rfl⟩
    rw [hrows, hshown]
    exact later_getElem hfirst (by omega)
  case vc18 hbefore hcells htotal _ =>
    rintro (h | rfl)
    · exact hbefore.2 h
    · cases (hread hbefore.1).symm.trans hcells
      exact hrows ▸ htotal
  case vc23 h => exact ⟨h.1.1,fun e he => h.1.2 e (.inr he)⟩

/-- If the bins of a recording are counted, the bin columns of each row behind the first 399 hold
how many values of the 400 rows that end there lie in each bin, and these counts add up to 400. -/
theorem addBins_counts_windows (hpos : 0 < bins) (hrun : (addBins p).start t = (.ok (),t'))
    {e : Nat} (he : 399 ≤ e) (hlt : e < xs.length) :
    let window := ((xs.map Cell.toFloat).drop (e-399)).take 400
    (∀ i < bins, ∃ column, t'.column (binName i c) = .ok column ∧
      column[e]? = some (.whole (window.countP (inBin (evenBounds bins) i)))) ∧
    Number.total (binCounts (evenBounds bins) window) = 400 := by
  have hspec i (hi : i < bins) :=
    start_of_triple (addBins_spec hwidth hraw hbins hc hxs rfl rfl hi) hrun
  have hrow : (windowCounts (evenBounds bins) (399+1) (xs.map Cell.toFloat))[e-399]? = _ :=
    windowCounts_getElem (by simp; omega) (by simp; omega) ((hspec 0 hpos).2 _ List.mem_cons_self)
  refine ⟨fun i hi => ?_,(hspec 0 hpos).2 _ (List.mem_of_getElem? hrow)⟩
  obtain ⟨column,hcolumn,hcount⟩ := (hspec i hi).1.2 e he
  refine ⟨column,hcolumn,?_⟩
  rw [hcount, List.getElem?_map, hrow, Option.map_some, binCounts, List.getElem?_map,
    List.getElem?_range (by simpa)]
  rfl

end Columns

/-- The last of these rows lies in another bin than those before it. -/
def steppedColumn : List Cell := List.replicate 400 (.int 0)++[.int 1]

set_option maxRecDepth 4000 in
theorem addBins_counts_windows_stepped :
    let run := (addBins ⟨some 400,none,some 2,none,some ["a"],none⟩).start
      ⟨[(normalName "a",steppedColumn.map .number)]⟩
    run.1 = .ok () ∧ ∃ column, run.2.column (binName 1 (normalName "a")) = .ok column ∧
      column[400]? =
      some (.whole ((((steppedColumn.map Cell.toFloat).drop 1).take 400).countP
        (inBin (evenBounds 2) 1))) := by
  intro run
  have hrun : run.1 = .ok () := by decide +kernel
  have hxs : Table.cells ⟨[(normalName "a",steppedColumn.map .number)]⟩ (normalName "a") =
    .ok steppedColumn := rfl
  exact ⟨hrun,(addBins_counts_windows rfl rfl rfl (by simp) hxs two_pos (Prod.ext hrun rfl)
    (by decide)
    (by decide)).1 1 (by decide)⟩

end MicroLearn.Gesture
