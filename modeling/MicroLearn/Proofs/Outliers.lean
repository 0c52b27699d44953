import MicroLearn.Proofs.FeatureScale

/-!
# Rows that are kept as no outliers

Outliers are the rows whose greatest absolute value reaches that of the row nine tenths up
the order. Labels are taken out with their rows. Rows below the cut are kept, and no row
at the cut is: where so many rows share the least value that the cut is among them, all rows are
outliers, and no range can be taken of those that are left.
-/

set_option autoImplicit false

namespace MicroLearn.Model

/-- The greatest absolute value in a row. -/
def peak (row : List ℚ) : ℚ := (row.map (|·|)).foldr max 0

theorem peak_le_iff {row} {b} : peak row ≤ b ↔ 0 ≤ b ∧ ∀ x ∈ row, |x| ≤ b := by
  induction row with
  | nil => simp [peak]
  | cons x row ih =>
    have hcons : peak (x::row) = max |x| (peak row) := rfl
    rw [hcons, max_le_iff, List.forall_mem_cons]
    tauto

theorem rowReach_eq_peak {row} (hrow : row ≠ []) : rowReach row = .ok (peak row) := by
  obtain ⟨low,hlow,high,hhigh,hrange,hbounds⟩ := rowsRange_ok id (fun _ _ => Iff.rfl) [row]
    (by simp) (by simpa using hrow)
  have hpeak : magnitude (low,high) = peak row := by
    apply le_antisymm
    · have hle := peak_le_iff.1 (le_refl (peak row))
      exact max_le (hle.2 low (by simpa using hlow)) (hle.2 high (by simpa using hhigh))
    · refine peak_le_iff.2 ⟨le_max_of_le_left (abs_nonneg low),fun x hx => ?_⟩
      have hx := hbounds x (by simpa using hx)
      exact abs_le_max_abs_abs hx.1 hx.2
  rw [rowReach, rangeOfList_eq, hrange, ← hpeak, ← magnitudeOf_eq]
  rfl

theorem holds_at_iff {α : Type} {P} {l : List α}
    (hl : l.Pairwise fun x y => P y = true → P x = true) {i} {x} (hx : l[i]? = some x) :
    P x = true ↔ i < l.countP P := by
  induction l generalizing i with
  | nil => simp at hx
  | cons y l ih =>
    obtain ⟨hfirst,hrest⟩ := List.pairwise_cons.1 hl
    by_cases hy : P y = true
    · rw [List.countP_cons_of_pos hy]
      cases i with
      | zero =>
        cases hx
        simp [hy]
      | succ i => rw [ih hrest hx, Nat.add_lt_add_iff_right]
    · have hnone : (y::l).countP P = 0 := by
        rw [List.countP_cons_of_neg hy, List.countP_eq_zero]
        exact fun z hz hPz => hy (hfirst z hz hPz)
      rw [hnone]
      refine ⟨fun hPx => absurd hPx ?_,fun h => absurd h (Nat.not_lt_zero i)⟩
      exact List.countP_eq_zero.1 hnone x (List.mem_of_getElem? hx)

/-- How many rows have the least peak. -/
def lowest (m : Rows ℚ) : Nat :=
  m.countP fun row => m.all fun other => decide (peak row ≤ peak other)

/-- How many rows would be kept if no two had the same peak, and the one at the cut. -/
def share (count : Nat) : Nat := max 1 (9*count/10)

theorem cutPlace_add_one {count} (h : 1 ≤ count) : cutPlace count+1 = share count := by
  unfold cutPlace share
  split <;> omega

theorem cutReach_ok {m : Rows ℚ} (hm : m ≠ []) : ∃ cut, cutReach (m.map peak) = .ok cut ∧
    ((∃ row ∈ m, peak row < cut) ↔ lowest m < share m.length) := by
  have hperm := List.mergeSort_perm (m.map peak) fun a b => !decide (b < a)
  have hsorted := sorted_reaches (m.map peak)
  rw [cutReach, List.length_map]
  generalize (m.map peak).mergeSort (fun a b => !decide (b < a)) = sorted at *
  have hcount : 1 ≤ m.length := List.length_pos_iff.2 hm
  have hplace := cutPlace_add_one hcount
  have hlt : cutPlace m.length < sorted.length := by
    rw [hperm.length_eq, List.length_map]
    unfold share at hplace
    omega
  have hcut := List.getElem?_eq_getElem hlt
  -- a peak is least exactly if so many rows have the least peak that it is one of theirs
  have hleast := holds_at_iff (P := fun r => m.all fun other => decide (r ≤ peak other))
    (hsorted.imp fun h hy => by
      simp only [List.all_eq_true, decide_eq_true_eq] at hy ⊢
      exact fun other hother => h.trans (hy other hother)) hcut
  rw [hperm.countP_eq, List.countP_map] at hleast
  change _ ↔ _ < lowest m at hleast
  refine ⟨sorted[cutPlace m.length],by rw [hcut],?_⟩
  rw [← not_iff_not, not_lt, ← hplace, Nat.succ_le_iff, ← hleast]
  simp

def Narrow (m : Rows ℚ) : Prop := ∀ x ∈ m.flatten, ∀ y ∈ m.flatten, x-y < 21/10

section Trimming

variable {m : Rows ℚ} {β : Type}

theorem keepBelow_peaks (cut : ℚ) (xs : List β) : keepBelow cut (m.map peak) xs =
    ((m.zip xs).filter fun p => decide (peak p.1 < cut)).map (·.2) := by
  rw [keepBelow, List.zip_map_left, List.filter_map, List.map_map]
  rfl

theorem filter_zip (keep : List ℚ → Bool) {xs : List β} (h : xs.length = m.length) :
    ((m.zip xs).filter fun p => keep p.1).map (·.1) = m.filter keep := by
  change ((m.zip xs).filter (keep ∘ Prod.fst)).map Prod.fst = _
  rw [← List.filter_map, List.map_fst_zip h.ge]

theorem keepBelow_rows (cut : ℚ) :
    keepBelow cut (m.map peak) m = m.filter fun row => decide (peak row < cut) := by
  rw [keepBelow_peaks, ← filter_zip _ rfl]
  apply List.map_congr_left
  rintro ⟨row,other⟩ hmem
  obtain ⟨i,hi,heq⟩ := List.mem_iff_getElem.1 (List.mem_of_mem_filter hmem)
  rw [List.getElem_zip, Prod.mk.injEq] at heq
  exact heq.2.symm.trans heq.1

theorem trim_ok (hm : m ≠ []) (hrows : ∀ row ∈ m, row ≠ []) :
    Narrow m ∧ (∀ {β} (labels : Option (List β)), trim m labels = .ok (m,labels)) ∨
      ∃ cut, ((∃ row ∈ m, peak row < cut) ↔ lowest m < share m.length) ∧ ¬ Narrow m ∧
        ∀ {β} (labels : Option (List β)), trim m labels =
          .ok (keepBelow cut (m.map peak) m,
            some (keepBelow cut (m.map peak) (labels.getD []))) := by
  obtain ⟨low,hlow,high,hhigh,hrange,hbounds⟩ := rowsRange_ok id (fun _ _ => Iff.rfl) m hm hrows
  have hspread : |high-low| = high-low := abs_of_nonneg (sub_nonneg.2 (hbounds low hlow).2)
  by_cases hnarrow : high-low < 21/10
  · refine .inl ⟨fun x hx y hy => ?_,fun labels => ?_⟩
    · exact lt_of_le_of_lt (sub_le_sub (hbounds x hx).2 (hbounds y hy).1) hnarrow
    · rw [trim, hrange]
      change (if |high-low| < 21/10 then _ else _) = _
      rw [hspread, if_pos hnarrow]
      rfl
  · obtain ⟨cut,hcut,hlowest⟩ := cutReach_ok hm
    refine .inr ⟨cut,hlowest,fun h => hnarrow (h high hhigh low hlow),fun labels => ?_⟩
    rw [trim, hrange]
    change (if |high-low| < 21/10 then _ else _) = _
    rw [hspread, if_neg hnarrow]
    simp only [mapM_ok_of_forall rowReach peak m fun row hrow => rowReach_eq_peak (hrows row hrow)]
    change (cutReach (m.map peak) >>= _) = _
    rw [hcut]
    rfl

theorem rowsRange_ok_iff {kept : Rows ℚ} (h : ∀ row ∈ kept, row ≠ []) :
    (∃ r, rowsRange kept = .ok r) ↔ kept ≠ [] := by
  constructor
  · rintro ⟨r,hr⟩ rfl
    cases hr
  · intro hne
    obtain ⟨low,-,high,-,hrange,-⟩ := rowsRange_ok id (fun _ _ => Iff.rfl) kept hne h
    exact ⟨_,hrange⟩

/-- Trimming a data set keeps some of its rows in their order, each with its label; no row that is
taken out has a lower peak than a row that is kept. With or without labels the same rows are kept.
Rows are left, and a range can be taken of them, if and only if the numbers are not far apart or
fewer rows than the share that trimming aims at have the least peak. -/
theorem trimmed_survive_iff (m : Rows ℚ) (hm : m ≠ []) (hrows : ∀ row ∈ m, row ≠ [])
    (labels : List β) (hlabels : labels.length = m.length) :
    ∃ keep : List ℚ → Bool, ∃ kept, kept = (m.zip labels).filter (fun p => keep p.1) ∧
      trim m (some labels) = .ok (kept.map (·.1),some (kept.map (·.2))) ∧
      (∃ rest, trim m (none : Option (List Unit)) = .ok (kept.map (·.1),rest)) ∧
      (∀ row ∈ m, ∀ other ∈ m, keep row = false → keep other = true → peak other ≤ peak row) ∧
      (kept ≠ [] ↔ Narrow m ∨ lowest m < share m.length) ∧
      ((∃ r, rowsRange (kept.map (·.1)) = .ok r) ↔ Narrow m ∨ lowest m < share m.length) := by
  have hfilter (keep : List ℚ → Bool) := filter_zip keep hlabels
  -- which rows are left decides all that is said of ranges
  suffices h : ∃ keep : List ℚ → Bool,
      trim m (some labels) =
        .ok (m.filter keep,some (((m.zip labels).filter fun p => keep p.1).map (·.2))) ∧
      (∃ rest, trim m (none : Option (List Unit)) = .ok (m.filter keep,rest)) ∧
      (∀ row ∈ m, ∀ other ∈ m, keep row = false → keep other = true → peak other ≤ peak row) ∧
      (m.filter keep ≠ [] ↔ Narrow m ∨ lowest m < share m.length) by
    obtain ⟨keep,htrim,htrain,hpeaks,hleft⟩ := h
    rw [← hfilter] at htrim htrain hleft
    refine ⟨keep,_,rfl,htrim,htrain,hpeaks,by rw [← hleft, ne_eq, ne_eq, List.map_eq_nil_iff],?_⟩
    rw [rowsRange_ok_iff, hleft]
    rw [hfilter]
    exact fun row hrow => hrows row (List.mem_of_mem_filter hrow)
  rcases trim_ok hm hrows with ⟨hnarrow,htrim⟩ | ⟨cut,hlowest,hwide,htrim⟩
  · refine ⟨fun _ => true,?_,⟨none,?_⟩,by simp,by simp [hm, hnarrow]⟩
    · rw [htrim, List.filter_true, List.filter_true, List.map_snd_zip hlabels.le]
    · rw [htrim, List.filter_true]
  · refine ⟨fun row => decide (peak row < cut),?_,⟨_,(htrim none).trans (by rw [keepBelow_rows])⟩,
      ?_,?_⟩
    · rw [htrim, keepBelow_rows, Option.getD_some, keepBelow_peaks]
    · intro row _ other _ hrow hother
      simp only [decide_eq_false_iff_not, decide_eq_true_eq, not_lt] at hrow hother
      exact hother.le.trans hrow
    · rw [or_iff_right hwide, ← hlowest, ne_eq, List.filter_eq_nil_iff]
      simp

/-- A single row whose numbers are far apart is an outlier of its own. -/
theorem trimmed_survive_iff_single : trim [[(0 : ℚ), 3]] (some [true]) = .ok ([],some []) ∧
    ¬ ∃ r, rowsRange ([] : Rows ℚ) = .ok r := by
  obtain ⟨keep,kept,-,htrim,-,-,hleft,hrange⟩ :=
    trimmed_survive_iff [[(0 : ℚ), 3]] (by simp) (by simp)
    [true] rfl
  have hwide : ¬ Narrow [[(0 : ℚ), 3]] := by
    intro h
    have := h 3 (by simp) 0 (by simp)
    norm_num at this
  have hshare : ¬ lowest [[(0 : ℚ), 3]] < share 1 := by
    simp [lowest, share]
  obtain rfl : kept = [] := by
    by_contra hne
    rcases hleft.1 hne with h | h
    · exact hwide h
    · exact hshare h
  exact ⟨htrim,fun hr => (hrange.1 hr).elim hwide hshare⟩

end Trimming

end MicroLearn.Model
