import MicroLearn.Proofs.Confined
import MicroLearn.Proofs.FoldedTree
import MicroLearn.Proofs.PrintedRange

/-!
# The scale of the features

The features of the training and of the testing set are quantized at the scale of the training
features without their outliers, and each row gets a bias of one. The training features have
their bias already when their range is taken, and are read once more without it when the testing
set is quantized. Over the rationals, the two runs agree exactly when one lies in the range that
has no bias, and the quantized bias may be too great for a word when it does not.
-/

set_option autoImplicit false

namespace MicroLearn.Model

open Code (bind_ok)
open Lower

def towardsZero (x : ℚ) : ℤ := x.num.tdiv x.den

instance exactQuantity : Quantity ℚ where
  abs x := |x|
  narrow := 21/10
  scaleFor word most :=
    if most = 0 ∨ limit word = 0 then .error .noLogarithm
    else .ok (Int.clog 2 (most/limit word))
  atScale scale x := .ok (towardsZero (x*2^(-scale)))

@[simp] theorem quantity_abs (x : ℚ) : Quantity.abs x = |x| := rfl

@[simp] theorem quantity_narrow : (Quantity.narrow : ℚ) = 21/10 := rfl

section Ranges

variable {m : Rows ℚ} {r s : ℚ × ℚ}

structure IsRange (m : Rows ℚ) (r : ℚ × ℚ) : Prop where
  low_mem : r.1 ∈ m.flatten
  high_mem : r.2 ∈ m.flatten
  bounds : ∀ x ∈ m.flatten, r.1 ≤ x ∧ x ≤ r.2

theorem IsRange.unique (hr : IsRange m r) (hs : IsRange m s) : r = s := by
  have hlow : r.1 = s.1 := le_antisymm (hr.bounds _ hs.low_mem).1 (hs.bounds _ hr.low_mem).1
  have hhigh : r.2 = s.2 := le_antisymm (hs.bounds _ hr.high_mem).2 (hr.bounds _ hs.high_mem).2
  exact Prod.ext hlow hhigh

theorem IsRange.le (h : IsRange m r) : r.1 ≤ r.2 := (h.bounds _ h.low_mem).2

def magnitude (r : ℚ × ℚ) : ℚ := max |r.1| |r.2|

theorem magnitudeOf_eq (low high : ℚ) : magnitudeOf low high = magnitude (low,high) := by
  change (if |low| < |high| then |high| else |low|) = max |low| |high|
  rw [max_def_lt]

theorem isRange_of_ok (h : rowsRange m = .ok r) : IsRange m r := by
  have hne : m ≠ [] := by
    rintro rfl
    cases h
  have hrows : ∀ row ∈ m, row ≠ [] := by
    rintro _ hrow rfl
    obtain ⟨low,hlow,-⟩ := bind_ok h
    obtain ⟨lows,hlows,-⟩ := bind_ok hlow
    obtain ⟨_,hnil⟩ := mapM_ok_iff.1 ⟨_,hlows⟩ _ hrow
    cases hnil
  obtain ⟨low,hlow,high,hhigh,hrange,hbounds⟩ := rowsRange_ok id (fun _ _ => Iff.rfl) m hne hrows
  rw [h] at hrange
  cases hrange
  exact ⟨hlow,hhigh,hbounds⟩

theorem rowsRange_of_isRange (h : IsRange m r) (hrows : ∀ row ∈ m, row ≠ []) :
    rowsRange m = .ok r := by
  have hne : m ≠ [] := by
    rintro rfl
    cases h.low_mem
  obtain ⟨low,hlow,high,hhigh,hrange,hbounds⟩ := rowsRange_ok id (fun _ _ => Iff.rfl) m hne hrows
  have hfound : IsRange m (low,high) := ⟨hlow,hhigh,hbounds⟩
  rw [hrange, h.unique hfound]

theorem mem_flatten_withBias (x : ℚ) :
    x ∈ (withBias m).flatten ↔ x ∈ m.flatten ∨ m ≠ [] ∧ x = 1 := by
  induction m with
  | nil => simp [withBias]
  | cons row m ih =>
    have hcons : (withBias (row::m)).flatten = row++[1]++(withBias m).flatten := by
      simp [withBias, Entry.whole]
    rw [hcons, List.mem_append, List.mem_append, List.flatten_cons, List.mem_append,
      List.mem_singleton]
    tauto

theorem IsRange.withBias (h : IsRange m r) : IsRange (withBias m) (min r.1 1,max r.2 1) := by
  have hne : m ≠ [] := by
    rintro rfl
    cases h.low_mem
  constructor
  · rw [mem_flatten_withBias]
    rcases min_choice r.1 1 with hmin | hmin
    · exact .inl (by simpa only [hmin] using h.low_mem)
    · exact .inr ⟨hne,hmin⟩
  · rw [mem_flatten_withBias]
    rcases max_choice r.2 1 with hmax | hmax
    · exact .inl (by simpa only [hmax] using h.high_mem)
    · exact .inr ⟨hne,hmax⟩
  · intro x hx
    rcases mem_flatten_withBias x |>.1 hx with hx | ⟨-,rfl⟩
    · exact ⟨min_le_of_left_le (h.bounds x hx).1,le_max_of_le_left (h.bounds x hx).2⟩
    · exact ⟨min_le_right _ _,le_max_right _ _⟩

theorem IsRange.one_mem (h : IsRange (Model.withBias m) r) : r.1 ≤ 1 ∧ 1 ≤ r.2 := by
  apply h.bounds
  rw [mem_flatten_withBias]
  refine .inr ⟨?_,rfl⟩
  rintro rfl
  cases h.low_mem

theorem magnitude_withBias (h : r.1 ≤ r.2) :
    magnitude (min r.1 1,max r.2 1) = max (magnitude r) 1 := by
  rw [magnitude]
  apply le_antisymm
  · apply max_le
    · rcases min_choice r.1 1 with hmin | hmin
      · rw [hmin]
        exact le_max_of_le_left (le_max_left _ _)
      · rw [hmin]
        exact le_max_right _ _
    · rcases max_choice r.2 1 with hmax | hmax
      · rw [hmax]
        exact le_max_of_le_left (le_max_right _ _)
      · rw [hmax]
        exact le_max_right _ _
  · refine max_le (max_le ?_ ?_) ?_
    · exact abs_le_max_abs_abs (min_le_left _ _) (h.trans (le_max_left _ _))
    · exact abs_le_max_abs_abs ((min_le_left _ _).trans h) (le_max_left _ _)
    · simpa using abs_le_max_abs_abs (min_le_right r.1 (1 : ℚ)) (le_max_right r.2 1)

end Ranges

section Outliers

variable {m : Rows ℚ} {reaches : List ℚ} {cut : ℚ}
variable {row : List ℚ} {reach : ℚ} {β : Type} {kept : Rows ℚ} {labels : Option (List Unit)}

theorem rangeOfList_eq (row : List ℚ) : rangeOfList row = rowsRange [row] := by
  cases row with
  | nil => rfl
  | cons x row => rfl

theorem isRange_of_rowReach (h : rowReach row = .ok reach) :
    ∃ r, IsRange [row] r ∧ reach = magnitude r := by
  obtain ⟨r,hr,h⟩ := bind_ok h
  rw [rangeOfList_eq] at hr
  cases h
  exact ⟨r,isRange_of_ok hr,magnitudeOf_eq r.1 r.2⟩

theorem rowReach_withBias (h : rowReach row = .ok reach) :
    rowReach (row++[1]) = .ok (max reach 1) := by
  obtain ⟨r,hr,rfl⟩ := isRange_of_rowReach h
  have hrange : rangeOfList (row++[1]) = .ok (min r.1 1,max r.2 1) := by
    rw [rangeOfList_eq]
    exact rowsRange_of_isRange hr.withBias (by simp)
  rw [rowReach, hrange, ← magnitude_withBias hr.le, ← magnitudeOf_eq]
  rfl

theorem reaches_withBias (h : m.mapM rowReach = .ok reaches) :
    (withBias m).mapM rowReach = .ok (reaches.map (max · 1)) := by
  induction m generalizing reaches with
  | nil =>
    cases h
    rfl
  | cons row m ih =>
    rw [List.mapM_cons] at h
    obtain ⟨reach,hreach,h⟩ := bind_ok h
    obtain ⟨rest,hrest,h⟩ := bind_ok h
    cases h
    have hbias : withBias (row::m) = (row++[1])::withBias m := by simp [withBias, Entry.whole]
    rw [hbias, List.mapM_cons, rowReach_withBias hreach, ih hrest]
    rfl

theorem sorted_reaches (l : List ℚ) :
    (l.mergeSort fun a b => !decide (b < a)).Pairwise (· ≤ ·) := by
  refine (List.pairwise_mergeSort ?_ ?_ l).imp fun h => by simpa using h
  · intro a b c hab hbc
    simp only [Bool.not_eq_true', decide_eq_false_iff_not, not_lt] at *
    exact hab.trans hbc
  · intro a b
    simpa using le_total a b

theorem sort_raised (l : List ℚ) : ((l.map (max · 1)).mergeSort fun a b => !decide (b < a)) =
      (l.mergeSort fun a b => !decide (b < a)).map (max · 1) := by
  have hsorted : ((l.mergeSort fun a b => !decide (b < a)).map (max · 1)).Pairwise (· ≤ ·) :=
    List.pairwise_map.2 ((sorted_reaches l).imp fun h => max_le_max_right 1 h)
  have hperm := (List.mergeSort_perm (l.map (max · 1)) fun a b => !decide (b < a)).trans
    ((List.mergeSort_perm l fun a b => !decide (b < a)).map (max · 1)).symm
  exact hperm.eq_of_pairwise' (sorted_reaches _) hsorted

theorem cutReach_raised (h : cutReach reaches = .ok cut) :
    cutReach (reaches.map (max · 1)) = .ok (max cut 1) := by
  rw [cutReach] at h ⊢
  rw [sort_raised, List.length_map, List.getElem?_map]
  cases hplace : (reaches.mergeSort fun a b => !decide (b < a))[cutPlace reaches.length]? with
  | none =>
    rw [hplace] at h
    cases h
  | some r =>
    rw [hplace] at h
    cases h
    rfl

theorem keepBelow_map {γ} (f : β → γ) (cut : ℚ) (reaches : List ℚ) (xs : List β) :
    keepBelow cut reaches (xs.map f) = (keepBelow cut reaches xs).map f := by
  rw [keepBelow, keepBelow, List.zip_map_right, List.filter_map, List.map_map, List.map_map]
  rfl

theorem keepBelow_raised (hcut : 1 < cut) (reaches : List ℚ) (xs : List β) :
    keepBelow (max cut 1) (reaches.map (max · 1)) xs = keepBelow cut reaches xs := by
  rw [keepBelow, List.zip_map_left, List.filter_map, List.map_map, max_eq_left hcut.le]
  have hsame : ((fun p : ℚ × β => decide (p.1 < cut)) ∘ Prod.map (max · 1) id) =
      fun p => decide (p.1 < cut) := by
    funext p
    simp [hcut]
  rw [hsame]
  rfl

theorem keepBelow_raised_nil (hcut : cut ≤ 1) (reaches : List ℚ) (xs : List β) :
    keepBelow (max cut 1) (reaches.map (max · 1)) xs = [] := by
  rw [keepBelow, List.map_eq_nil_iff, List.filter_eq_nil_iff]
  rintro ⟨reach,x⟩ hmem
  obtain ⟨r,-,rfl⟩ := List.mem_map.1 (List.of_mem_zip hmem).1
  simp [max_eq_right hcut]

theorem trim_cases (h : trim m none = .ok (kept,labels)) : ∃ r, IsRange m r ∧
      (r.2-r.1 < 21/10 ∧ kept = m ∨ 21/10 ≤ r.2-r.1 ∧ ∃ reaches cut, m.mapM rowReach = .ok reaches ∧
          cutReach reaches = .ok cut ∧ kept = keepBelow cut reaches m) := by
  obtain ⟨r,hr,h⟩ := bind_ok h
  have hrange := isRange_of_ok hr
  refine ⟨r,hrange,?_⟩
  dsimp only at h
  rw [quantity_abs, abs_of_nonneg (sub_nonneg.2 hrange.le), quantity_narrow] at h
  by_cases hnarrow : r.2-r.1 < 21/10
  · rw [if_pos hnarrow] at h
    cases h
    exact .inl ⟨hnarrow,rfl⟩
  · rw [if_neg hnarrow] at h
    obtain ⟨reaches,hreaches,h⟩ := bind_ok h
    obtain ⟨cut,hcut,h⟩ := bind_ok h
    cases h
    exact .inr ⟨not_lt.1 hnarrow,reaches,cut,hreaches,hcut,rfl⟩

theorem trim_withBias (h : trim (withBias m) none = .ok (kept,labels)) :
    ∃ rows, kept = withBias rows := by
  obtain ⟨_,-, ⟨-,rfl⟩ | ⟨-,reaches,cut,-,-,rfl⟩⟩ := trim_cases h
  · exact ⟨m,rfl⟩
  · exact ⟨keepBelow cut reaches m,keepBelow_map _ cut reaches m⟩

/-- The ranges that are kept with and without the bias are the same exactly when one lies in the one
without. -/
theorem kept_range_iff {biasedKept} {r s} {labels' : Option (List Unit)}
    (h : trim m none = .ok (kept,labels))
    (hbias : trim (withBias m) none = .ok (biasedKept,labels'))
    (hr : IsRange kept r) (hs : IsRange biasedKept s) : s = r ↔ r.1 ≤ 1 ∧ 1 ≤ r.2 := by
  have hone : s.1 ≤ 1 ∧ 1 ≤ s.2 := by
    obtain ⟨rows,rfl⟩ := trim_withBias hbias
    exact hs.one_mem
  refine ⟨fun heq => heq ▸ hone,fun hin => ?_⟩
  have hsame : (min r.1 1,max r.2 1) = r := by rw [min_eq_left hin.1, max_eq_left hin.2]
  obtain ⟨whole,hwhole,hcases⟩ := trim_cases h
  obtain ⟨biasedWhole,hbiasedWhole,hbiasedCases⟩ := trim_cases hbias
  obtain rfl := hbiasedWhole.unique hwhole.withBias
  have hwider : whole.2-whole.1 ≤ max whole.2 1-min whole.1 1 :=
    sub_le_sub (le_max_left _ _) (min_le_left _ _)
  rcases hcases with ⟨hnarrow,rfl⟩ | ⟨hwide,reaches,cut,hreaches,hcut,rfl⟩
  · obtain rfl := hr.unique hwhole
    rw [hsame] at hbiasedCases
    rcases hbiasedCases with ⟨-,rfl⟩ | ⟨hwide,-⟩
    · rw [hs.unique hr.withBias, hsame]
    · exact absurd hnarrow (not_lt.2 hwide)
  · rcases hbiasedCases with ⟨hnarrow,-⟩ | ⟨-,reaches',cut',hreaches',hcut',rfl⟩
    · exact absurd (hwider.trans_lt hnarrow) (not_lt.2 hwide)
    · rw [reaches_withBias hreaches] at hreaches'
      cases hreaches'
      rw [cutReach_raised hcut] at hcut'
      cases hcut'
      rcases le_or_gt cut 1 with hle | hgt
      · rw [keepBelow_raised_nil hle] at hs
        cases hs.low_mem
      · rw [keepBelow_raised hgt, Model.withBias, keepBelow_map] at hs
        rw [hs.unique hr.withBias, hsame]

end Outliers

section Scales

variable {word : Nat} {x : ℚ} {r : ℚ × ℚ} {s : ℤ}

theorem word_of_limit (h : limit word ≠ 0) : 3 ≤ word := by
  by_contra hword
  apply h
  rw [limit, show word-2 = 0 by omega]
  rfl

theorem isScale_clog (hword : 3 ≤ word) (hx : 0 < x) :
    IsScale word x (Int.clog 2 (x/limit word)) := by
  have hlimit : (0 : ℚ) < limit word := Int.cast_pos.2 (limit_pos hword)
  have hreach : ∀ t, x ≤ reach word t ↔ Int.clog 2 (x/limit word) ≤ t := by
    intro t
    rw [← Int.le_zpow_iff_clog_le one_lt_two (div_pos hx hlimit), div_le_iff₀' hlimit, reach]
    norm_num
  exact ⟨(hreach _).2 le_rfl,fun t ht => (hreach t).1 ht⟩

theorem scaleForRange_ok (h : scaleForRange word r.1 r.2 = .ok s) :
    3 ≤ word ∧ IsScale word (magnitude r) s := by
  rw [scaleForRange, magnitudeOf_eq] at h
  change (if magnitude r = 0 ∨ limit word = 0 then _ else _) = _ at h
  by_cases hzero : magnitude r = 0 ∨ limit word = 0
  · rw [if_pos hzero] at h
    cases h
  · rw [if_neg hzero] at h
    cases h
    rw [not_or] at hzero
    have hword := word_of_limit hzero.2
    have hpos : 0 < magnitude r :=
      lt_of_le_of_ne (le_max_of_le_left (abs_nonneg _)) (Ne.symm hzero.1)
    exact ⟨hword,isScale_clog hword hpos⟩

theorem scales_eq_iff {a b} {t} (hword : 3 ≤ word) (ha : IsScale word a s)
    (hb : IsScale word b t) : s = t ↔ ∀ u, a ≤ reach word u ↔ b ≤ reach word u := by
  constructor
  · rintro rfl u
    rw [ha.le_reach_iff hword, hb.le_reach_iff hword]
  · intro h
    exact le_antisymm (ha.2 ((h t).2 hb.1)) (hb.2 ((h s).1 ha.1))

theorem towardsZero_of_nonneg (hx : 0 ≤ x) : towardsZero x = ⌊x⌋ := by
  change x.num.tdiv x.den = x.floor
  rw [Rat.floor_def, Int.tdiv_eq_ediv_of_nonneg (Rat.num_nonneg.2 hx)]

theorem bias_inWord_iff (hword : 3 ≤ word) :
    Fixed.InWord word (towardsZero (1*2^(-s))) ↔ 2-(word : ℤ) ≤ s := by
  rw [one_mul, towardsZero_of_nonneg (by positivity), Fixed.InWord]
  rcases le_or_gt s 0 with hs | hs
  · obtain ⟨n,rfl⟩ := Int.exists_eq_neg_ofNat hs
    have hfloor : ⌊(2 : ℚ)^(-(-(n : ℤ)))⌋ = Number.twoPow n := by
      rw [neg_neg, zpow_natCast, Number.twoPow_eq, ← Int.floor_natCast (R := ℚ), Nat.cast_pow,
        Nat.cast_ofNat]
    have hlt : Number.twoPow n < Number.twoPow (word-1) ↔ n < word-1 :=
      Nat.pow_lt_pow_iff_right (by decide)
    omega
  · have hfloor : ⌊(2 : ℚ)^(-s)⌋ = 0 := by
      rw [Int.floor_eq_zero_iff]
      exact ⟨by positivity,zpow_lt_one_of_neg₀ one_lt_two (neg_lt_zero.2 hs)⟩
    have hmax := Number.twoPow_pos (word-1)
    omega

theorem reach_lt_one (hword : 3 ≤ word) : reach word (1-word) < 1 := by
  have hlimit : (limit word : ℚ) < 2^((word : ℤ)-1) := by
    rw [show (word : ℤ)-1 = ((word-1 : ℕ) : ℤ) by omega]
    have hint : limit word < Number.twoPow (word-1) := by
      have := Nat.pow_le_pow_right (n := 2) (by decide) (show word-2 ≤ word-1 by omega)
      rw [limit]
      rw [Number.twoPow_eq, Number.twoPow_eq]
      omega
    exact_mod_cast hint
  rw [reach, show (1 : ℤ)-word = -((word : ℤ)-1) by ring, zpow_neg, ← div_eq_mul_inv,
    div_lt_one (by positivity)]
  exact hlimit

theorem bias_inWord_iff_reach {a} (hword : 3 ≤ word) (h : IsScale word a s) :
    Fixed.InWord word (towardsZero (1*2^(-s))) ↔ reach word (1-word) < a := by
  rw [bias_inWord_iff hword, ← not_le (a := a), h.le_reach_iff hword]
  omega

end Scales

section Conversions

variable {word : Nat} {train : Option (Rows ℚ)} {m : Rows ℚ} {q : Quantized ℚ}

/-- The last number of every row, which comes from the bias, is an integer of the word. -/
def BiasFits (word : Nat) (rows : Rows Int) : Prop :=
  ∀ row ∈ rows, ∀ b ∈ row.getLast?, Fixed.InWord word b

theorem scaleRows_ok (scale : Int) (m : Rows ℚ) :
    scaleRows scale m = .ok (m.map fun row => row.map fun x => towardsZero (x*2^(-scale))) := by
  apply mapM_ok_of_forall
  intro row _
  apply mapM_ok_of_forall
  intro x _
  rfl

theorem quantizeRows_cases (h : quantizeRows word train m = .ok q) :
    3 ≤ word ∧ m ≠ [] ∧ (∃ kept labels, trim (train.getD m) (none : Option (List Unit)) =
      .ok (kept,labels) ∧ IsRange kept q.range) ∧ IsScale word (magnitude q.range) q.scale ∧
      q.rows = m.map fun row => row.map fun x => towardsZero (x*2^(-q.scale)) := by
  obtain ⟨⟨kept,labels⟩,hkept,h⟩ := bind_ok h
  obtain ⟨own,hown,h⟩ := bind_ok h
  obtain ⟨range,hrange,h⟩ := bind_ok h
  obtain ⟨scale,hscale,h⟩ := bind_ok h
  rw [scaleRows_ok] at h
  cases h
  obtain ⟨hword,hscale⟩ := scaleForRange_ok hscale
  refine ⟨hword,?_,⟨kept,labels,hkept,isRange_of_ok hrange⟩,hscale,rfl⟩
  rintro rfl
  cases hown

theorem biasFits_iff (h : quantizeRows word train (withBias m) = .ok q) :
    BiasFits word q.rows ↔ reach word (1-word) < magnitude q.range := by
  obtain ⟨hword,hne,-,hscale,hrows⟩ := quantizeRows_cases h
  have hlast : ∀ row ∈ q.rows, row.getLast? = some (towardsZero (1*2^(-q.scale))) := by
    intro row hrow
    rw [hrows, withBias, List.map_map] at hrow
    obtain ⟨x,-,rfl⟩ := List.mem_map.1 hrow
    simp [Entry.whole]
  rw [← bias_inWord_iff_reach hword hscale]
  constructor
  · intro hfits
    obtain ⟨row,hrow⟩ : ∃ row, row ∈ q.rows := by
      apply List.exists_mem_of_ne_nil
      rw [hrows]
      simpa using hne
    exact hfits row hrow _ (hlast row hrow)
  · intro hfits row hrow b hb
    rw [hlast row hrow] at hb
    cases hb
    exact hfits

/-- Let the features of a training set be quantized, and those of a testing set. The two runs should
take the same range and the same scale, and every quantized bias should fit a word. This is so if
and only if one lies between the least and the greatest of the training features that are no
outliers. It is the condition for the same range. The scales agree if and only if no reach of a word
lies between the magnitudes of the two ranges. The bias always fits in the training set; in the
testing set it does if and only if the magnitude of the training features is beyond the reach of a
word at the scale `1 - word`, which is somewhat less than one half. -/
theorem quantized_alike_iff {word : Nat} {train test : Rows ℚ} {trained tested : Quantized ℚ}
    (htrained : quantizeRows word none (withBias train) = .ok trained)
    (htested : quantizeRows word (some train) (withBias test) = .ok tested) :
    (∃ kept labels, trim train (none : Option (List Unit)) = .ok (kept,labels) ∧
      IsRange kept tested.range) ∧ (trained.range = tested.range ∧ trained.scale = tested.scale ∧
        BiasFits word trained.rows ∧ BiasFits word tested.rows ↔
      tested.range.1 ≤ 1 ∧ 1 ≤ tested.range.2) ∧
    (trained.range = tested.range ↔ tested.range.1 ≤ 1 ∧ 1 ≤ tested.range.2) ∧
    (trained.scale = tested.scale ↔ ∀ s, magnitude trained.range ≤ reach word s ↔
      magnitude tested.range ≤ reach word s) ∧ BiasFits word trained.rows ∧
    (BiasFits word tested.rows ↔ reach word (1-word) < magnitude tested.range) := by
  obtain ⟨hword,-,⟨kept,labels,hkept,hrange⟩,hscale,-⟩ := quantizeRows_cases htested
  obtain ⟨-,-,⟨biasedKept,labels',hbiased,hbiasedRange⟩,hscale',-⟩ := quantizeRows_cases htrained
  have hsame := kept_range_iff hkept hbiased hrange hbiasedRange
  have hscales := scales_eq_iff hword hscale' hscale
  have hfits : BiasFits word trained.rows := by
    rw [biasFits_iff htrained]
    obtain ⟨rows,rfl⟩ := trim_withBias hbiased
    have hone : 1 ≤ magnitude trained.range :=
      hbiasedRange.one_mem.2.trans ((le_abs_self _).trans (le_max_right _ _))
    exact (reach_lt_one hword).trans_le hone
  refine ⟨⟨kept,labels,hkept,hrange⟩,⟨fun h => hsame.1 h.1,fun h => ?_⟩,hsame,hscales,hfits,
    biasFits_iff htested⟩
  have heq := hsame.2 h
  refine ⟨heq,hscales.2 (by simp [heq]),hfits,?_⟩
  rw [biasFits_iff htested, ← heq, ← biasFits_iff htrained]
  exact hfits

/-- The same small feature in both sets gets two scales, and the bias of the testing set no word. -/
theorem quantized_alike_iff_hundredth : ∃ trained tested,
    quantizeRows 16 none (withBias [[(1 : ℚ)/100]]) = .ok trained ∧
    quantizeRows 16 (some [[1/100]]) (withBias [[(1 : ℚ)/100]]) = .ok tested ∧
    trained.range ≠ tested.range ∧ trained.scale ≠ tested.scale ∧ ¬ BiasFits 16 tested.rows := by
  have htrained : quantizeRows 16 none (withBias [[(1 : ℚ)/100]]) =
      .ok ⟨(1/100,1),(1/100,1),-13,[[81, 8192]]⟩ := by decide +kernel
  have htested : quantizeRows 16 (some [[1/100]]) (withBias [[(1 : ℚ)/100]]) =
      .ok ⟨(1/100,1),(1/100,1/100),-20,[[10485, 1048576]]⟩ := by decide +kernel
  obtain ⟨-,-,hrange,-,-,hfits⟩ := quantized_alike_iff htrained htested
  refine ⟨_,_,htrained,htested,mt hrange.1 (by norm_num),by decide,mt hfits.1 ?_⟩
  norm_num [reach, limit, magnitude, Number.twoPow]

end Conversions

end MicroLearn.Model
