import MicroLearn.Proofs.WindowCounts

/-!
# Labels around the ends of windows

A window is taken for pure if its first label is not zero and the labels add up as if all were equal
to it. The label of such a window is written around its end, over what earlier windows wrote there.
A recording keeps all its rows, and its labels are collapsed whatever is asked for.
-/

set_option autoImplicit false
set_option mvcgen.warning false

namespace MicroLearn.Gesture

open Number (Cell)
open Std.Do
open Parameters

section Balanced

variable {labels : List Int} {width around start : Nat} {b : Int}

/-- The labels of a window add up as if all were equal to the first one, which is not zero. -/
structure Balanced (labels : List Int) (width start : Nat) (b : Int) : Prop where
  inside : start+width ≤ labels.length
  first : labels[start]? = some b
  ne_zero : b ≠ 0
  total : ((labels.drop start).take width).sum = width*b

/-- A row lies within `around` rows of the end of a window. -/
def Near (width around start row : Nat) : Prop :=
  start+width ≤ row+1+around ∧ row+1 ≤ start+width+around

theorem foldl_ints (a : Int) (xs : List Int) :
    (xs.map Cell.int).foldl (· + ·) (.int a) = .int (a+xs.sum) := by
  induction xs generalizing a with
  | nil => simp
  | cons x xs ih =>
    rw [List.map_cons, List.foldl_cons, List.sum_cons, ← add_assoc]
    exact ih (a+x)

theorem pureLabel_ints {window : List Int} {c : Cell} : pureLabel times (window.map .int) = some c ↔
    ∃ b, c = .int b ∧ window.head? = some b ∧ b ≠ 0 ∧ window.sum = window.length*b := by
  cases window with
  | nil => simp [pureLabel]
  | cons b rest =>
    have hzero : (Cell.int b == 0) = decide (b = 0) := rfl
    have htotal : ((b::rest).map Cell.int).foldl (· + ·) 0 = .int (b::rest).sum := by
      rw [← zero_add (b::rest).sum]
      exact foldl_ints 0 (b::rest)
    have hsame (m n : Int) : (Cell.int m == Cell.int n) = decide (m = n) := rfl
    have htimes (n : Nat) : times n (.int b) = .int (n*b) := rfl
    simp only [List.map_cons] at htotal
    simp only [pureLabel, List.map_cons, htotal, hzero, htimes, hsame]
    grind

theorem pureLabel_iff (hpos : 0 < width) (hinside : start+width ≤ labels.length) {c : Cell} :
    pureLabel times (((labels.map Cell.int).drop start).take width) = some c ↔
      ∃ b, c = .int b ∧ Balanced labels width start b := by
  rw [← List.map_drop, ← List.map_take, pureLabel_ints]
  have hlen : ((labels.drop start).take width).length = width := by simp; omega
  have hhead : ((labels.drop start).take width).head? = labels[start]? := by
    rw [List.head?_take, if_neg (by omega), List.head?_drop]
  rw [hlen, hhead]
  exact exists_congr fun b => and_congr_right fun _ =>
    ⟨fun h => ⟨hinside,h.1,h.2.1,h.2.2⟩,fun h => ⟨h.first,h.ne_zero,h.total⟩⟩

/-- Of the windows that start below `count`, the label of a row is that of one near whose end the
row lies, or zero if there is none. -/
def Painted (labels : List Int) (width around count : Nat) (out : List Cell) : Prop :=
  out.length = labels.length ∧ ∀ row < labels.length, ∃ v, out[row]? = some (.int v) ∧
    ((∃ s < count, Near width around s row ∧ Balanced labels width s v) ∨
      v = 0 ∧ ∀ s < count, Near width around s row → ∀ b, ¬ Balanced labels width s b)

theorem Painted.next {out out' : List Cell} (h : Painted labels width around start out)
    (hlength : out'.length = out.length) (hrows : ∀ row < labels.length,
      (∃ b, Balanced labels width start b ∧ Near width around start row ∧
        out'[row]? = some (.int b)) ∨
      (Near width around start row → ∀ b, ¬ Balanced labels width start b) ∧
        out'[row]? = out[row]?) :
    Painted labels width around (start+1) out' := by
  refine ⟨hlength.trans h.1,fun row hrow => ?_⟩
  rcases hrows row hrow with ⟨b,hb,hnear,hout⟩ | ⟨hfar,hout⟩
  · exact ⟨b,hout,.inl ⟨start,by omega,hnear,hb⟩⟩
  · obtain ⟨v,hv,hnear⟩ := h.2 row hrow
    refine ⟨v,hout.trans hv,hnear.imp (fun ⟨s,hs,h⟩ => ⟨s,by omega,h⟩) fun hzero => ⟨hzero.1,?_⟩⟩
    intro s hs
    rcases Nat.lt_succ_iff_lt_or_eq.1 hs with hs | rfl
    · exact hzero.2 s hs
    · exact hfar

theorem collapse_painted (hpos : 0 < width) : Painted labels width around (labels.length-width)
    (collapse times width around (labels.map Cell.int)) := by
  rw [collapse, List.length_map]
  -- The windows are gone through in the order of their starts; after `count` of them `Painted`
  -- holds for `count`.
  generalize hcount : labels.length-width = count
  have hle : count ≤ labels.length-width := hcount.ge
  clear hcount
  induction count with
  | zero =>
    refine ⟨List.length_replicate,fun row hrow => ⟨0,?_,.inr ⟨rfl,by simp⟩⟩⟩
    exact (List.getElem?_replicate ..).trans (if_pos hrow)
  | succ start ih =>
    have hpainted := ih (by omega)
    rw [List.range_succ, List.foldl_append, List.foldl_cons, List.foldl_nil]
    split
    · next c hc =>
      obtain ⟨b,rfl,hb⟩ := (pureLabel_iff hpos (by omega)).1 hc
      refine hpainted.next (setRange_length _ _) fun row hrow => ?_
      rw [setRange_getElem? (le_max_left _ _) (by omega)
        (by rw [hpainted.1]; exact min_le_right _ _)]
      split
      · next hnear => exact .inl ⟨b,hb,by rw [Near]; omega,rfl⟩
      · next hfar => exact .inr ⟨fun hnear => by rw [Near] at hnear; omega,rfl⟩
    · next hnone =>
      refine hpainted.next rfl fun row _ => .inr ⟨fun _ b hb => ?_,rfl⟩
      rw [(pureLabel_iff hpos (by omega)).2 ⟨b,rfl,hb⟩] at hnone
      cases hnone

end Balanced

section Tables

variable {p : Parameters} {t t' : Table}

theorem cells_put {x name : String} {c : Column} (h : x ≠ name) :
    (t.put name c).cells x = t.cells x := by
  rw [Table.cells, column_put, if_neg h, Table.cells]

theorem has_of_column {x : String} {c : Column} (h : t.column x = .ok c) : t.has x = true := by
  rw [Table.column] at h
  split at h
  · next hc =>
    obtain ⟨before,behind,heq,-⟩ := List.lookup_eq_some_iff.1 hc
    simp [Table.has, Table.names, heq]
  · cases h

theorem cells_whole {x : String} {labels : List Int} (h : t.column x = .ok (labels.map .whole)) :
    t.cells x = .ok (labels.map .int) := by
  rw [Table.cells, h]
  clear h
  change (labels.map Entry.whole).mapM Entry.cell = _
  induction labels with
  | nil => rfl
  | cons n labels ih =>
    rw [List.map_cons, List.mapM_cons, ih]
    rfl

/-- A triple that leaves out faults says that the run ends well. -/
theorem start_of_total {α : Type} {e : Edit α} {Q : Table → Prop}
    (h : ⦃fun s => ⌜s = t⌝⦄ e ⦃⇓ _ s => ⌜Q s⌝⦄) : ∃ a t', e.start t = (.ok a,t') ∧ Q t' := by
  have hpost := h t rfl
  simp only [WP.wp, PredTrans.pushExcept, PredTrans.pushArg, PredTrans.apply, Id.run, StateT.run,
    ExceptT.run] at hpost
  rcases hrun : e.start t with ⟨a | a, t'⟩ <;>
    simp only [Edit.start, StateT.run, ExceptT.run] at hrun <;> rw [hrun] at hpost
  · exact hpost.elim
  · exact ⟨a,t',rfl,hpost⟩

theorem collapseLabels_spec {labels : List Int} {width : Nat} {around : Int}
    (hwidth : p.width = some (width : Int)) (haround : p.around = some around) (hpos : 0 < width)
    (hlabels : t.column "mlabel" = .ok (labels.map .whole)) :
    ⦃fun s => ⌜s = t⌝⦄ collapseLabels p
    ⦃⇓ _ s => ⌜s.column "label" =
        .ok ((collapse times width around (labels.map .int)).map .number)⌝⦄ := by
  have hkept : (t.fill "label" (.whole 0)).cells "mlabel" = .ok (labels.map .int) :=
    (cells_put (by decide)).trans (cells_whole hlabels)
  have hhas := has_of_column hlabels
  mvcgen [collapseLabels, needWidth, known, Edit.demand, Edit.lift, MicroLearn.demand]
  all_goals simp_all +zetaDelta [column_put]
  omega

/-- A row with a label lies near the end of a balanced window of this label. A row near the end of a
balanced window that ends before the last row, and of none with another label, gets its label. -/
theorem collapsed_labels_balanced {labels : List Int} {width around : Nat}
    (hwidth : p.width = some (width : Int))
    (haround : p.around = some (around : Int)) (hpos : 0 < width)
    (hlabels : t.column "mlabel" = .ok (labels.map .whole)) :
    ∃ t' column, (collapseLabels p).start t = (.ok (),t') ∧ t'.column "label" = .ok column ∧
      column.length = labels.length ∧ ∀ row < labels.length, ∃ v, column[row]? = some (.whole v) ∧
        (v ≠ 0 → ∃ s, Balanced labels width s v ∧ Near width around s row) ∧
        ∀ s b, Balanced labels width s b → s+width < labels.length → Near width around s row →
          (∀ s' b', Balanced labels width s' b' → Near width around s' row → b' = b) → v = b := by
  obtain ⟨_,t',hrun,hcolumn⟩ := start_of_total (collapseLabels_spec hwidth haround hpos hlabels)
  have hpainted := @collapse_painted labels width around hpos
  refine ⟨t',_,hrun,hcolumn,by simpa using hpainted.1,fun row hrow => ?_⟩
  obtain ⟨v,hv,hnear⟩ := hpainted.2 row hrow
  refine ⟨v,by rw [List.getElem?_map, hv]; rfl,fun hne => ?_,fun s b hb hs hs' hother => ?_⟩
  · obtain ⟨s,-,hs,hbalanced⟩ := hnear.resolve_right fun hzero => hne hzero.1
    exact ⟨s,hbalanced,hs⟩
  · rcases hnear with ⟨s',-,hs',hv⟩ | ⟨-,hnone⟩
    · exact hother s' v hv hs'
    · exact (hnone s (by omega) hs' b hb).elim

theorem collapsed_labels_balanced_two_rows :
    ∃ t' column, (collapseLabels ⟨some 2,none,none,some 1,none,none⟩).start
      ⟨[("mlabel",[4, 4, 0].map .whole)]⟩ =
      (.ok (),t') ∧ t'.column "label" = .ok column ∧ ∀ row < 3, column[row]? = some (.whole 4) := by
  obtain ⟨t',column,hrun,hcolumn,-,hrows⟩ := @collapsed_labels_balanced
    ⟨some 2,none,none,some 1,none,none⟩ ⟨[("mlabel",[4, 4, 0].map .whole)]⟩ [4, 4, 0] 2 1 rfl rfl
      two_pos rfl
  refine ⟨t',column,hrun,hcolumn,fun row hrow => ?_⟩
  obtain ⟨v,hv,-,hlabel⟩ := hrows row hrow
  rw [hv, hlabel 0 4 ⟨by decide,rfl,by decide,rfl⟩ (by decide) (by rw [Near]; omega)]
  rintro s b hb -
  have hfirst := hb.first
  have hne := hb.ne_zero
  grind

/-- The labels 1, 0 and 2 add up like three labels 1. -/
theorem mixed_window_labelled :
    (∃ t' column, (collapseLabels ⟨some 3,none,none,some 0,none,none⟩).start
        ⟨[("mlabel",[1, 0, 2, 0].map .whole)]⟩ = (.ok (),t') ∧ t'.column "label" = .ok column ∧
      column[2]? = some (.whole 1)) ∧
    ¬ ∃ s ≤ 1, ∀ i < 3, ([1, 0, 2, 0] : List Int)[s+i]? = some 1 :=
  ⟨⟨_,_,rfl,rfl,rfl⟩,by decide⟩

variable {c : Except Fault Column}

theorem normalName_ne (c : String) :
    "mlabel" ≠ normalName c := by simp [normalName, ← String.toList_inj]

theorem binName_ne (i : Nat) (c : String) :
    "mlabel" ≠ binName i c := by simp [binName, ← String.toList_inj]

@[spec] theorem normalize_keeps : ⦃fun s => ⌜s.column "mlabel" = c⌝⦄ normalize p ⦃⇓? _ s =>
    ⌜s.column "mlabel" = c⌝⦄ := by
  mvcgen [normalize, needColumns, known, Edit.lift]
  case inv1 | inv2 => exact ⇓? _ s => ⌜s.column "mlabel" = c⌝
  all_goals simp_all +zetaDelta [column_put, Table.fill, normalName_ne]

@[spec] theorem addBins_keeps : ⦃fun s => ⌜s.column "mlabel" = c⌝⦄ addBins p ⦃⇓? _ s =>
    ⌜s.column "mlabel" = c⌝⦄ := by
  mvcgen [addBins, needColumns, needWidth, known, Edit.lift, Edit.demand, MicroLearn.demand]
  case inv1 | inv2 | inv3 | inv4 | inv5 | inv6 => exact ⇓? _ s => ⌜s.column "mlabel" = c⌝
  all_goals simp_all +zetaDelta [column_put, Table.fill, binName_ne]

@[spec] theorem addEdges_keeps : ⦃fun s => ⌜s.column "mlabel" = c⌝⦄ addEdges p ⦃⇓? _ s =>
    ⌜s.column "mlabel" = c⌝⦄ := by
  mvcgen -trivial [addEdges, needStride, needWidth, known, Edit.lift, Edit.demand,
    MicroLearn.demand]
  case inv1 => exact ⇓? _ s => ⌜s.column "mlabel" = c⌝
  all_goals simp_all +zetaDelta [column_put, Table.fill]
  case vc1 hsplit _ _ _ _ _ _ _ _ =>
    rintro rfl
    have hmem := congrArg ("mlabel" ∈ ·) hsplit
    simp at hmem

/-- The rows stay as they are, and are labelled around the ends of windows. -/
def Collapsed (p : Parameters) (t s : Table) : Prop :=
  s.column "mlabel" = t.column "mlabel" ∧ ∃ width around labels, p.width = some width ∧
    p.around = some around ∧
    t.cells "mlabel" = .ok labels ∧
    s.column "label" = .ok ((collapse times width.toNat around labels).map .number)

theorem extract_spec : ⦃fun s => ⌜s = t⌝⦄ extract p true ⦃⇓? _ s => ⌜Collapsed p t s⌝⦄ := by
  mvcgen [extract, collapseLabels, needStride, needWidth, known, Edit.demand, Edit.lift,
    MicroLearn.demand]
  all_goals simp_all +zetaDelta [Collapsed, column_put, Table.fill, Table.cells]

/-- The labels of a recording are collapsed, and all its rows stay, whatever is asked for. -/
theorem labels_collapsed_always {collapsing : Bool}
    (hrun : extractPart p collapsing t = (none,t')) : Collapsed p t t' := by
  rw [extractPart] at hrun
  split at hrun <;> cases hrun
  next h => exact start_of_triple extract_spec h

def silentRecording : Table :=
  ⟨[("mlabel",List.replicate 401 (.whole 1)), ("infile",List.replicate 401 (.text "")),
    ("millis",List.replicate 401 (.whole 0)), ("gy",List.replicate 401 (.whole 0))]⟩

set_option maxRecDepth 4000 in
theorem labels_collapsed_always_silent :
    let p : Parameters :=
      ⟨some 400,some 1,some 1,some 5,some ["gy"],some [("gy",[("min",.int 0), ("max",.int 1)])]⟩
    ∃ t', extractPart p false silentRecording = (none,t') ∧
      t'.column "mlabel" = silentRecording.column "mlabel" ∧
      t'.column "label" = .ok
        ((collapse times 400 5 (List.replicate 401 (.int 1))).map .number) := by
  intro p
  have hnone : (extractPart p false silentRecording).1 = none := by decide +kernel
  obtain ⟨hkept,width,around,labels,hwidth,haround,hlabels,hlabel⟩ :=
    labels_collapsed_always (Prod.ext hnone rfl)
  cases hwidth
  cases haround
  cases hlabels
  exact ⟨_,Prod.ext hnone rfl,hkept,hlabel⟩

end Tables

end MicroLearn.Gesture
