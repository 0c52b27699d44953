import MicroLearn.Learn.Prepare
import MicroLearn.Proofs.Confined
import MicroLearn.Proofs.PrintedRange
import MicroLearn.Proofs.PrunedLabels

/-!
# Places of labels

Each set of labels is counted from its own least byte. The same label has the same place in a
training set and in a testing set if no training label leaves the block of 256 integers of the
least one, and the testing set has this least label too.
-/

set_option autoImplicit false

namespace MicroLearn.Learn

variable {labels train test : List Int} {m M classes : Int}

theorem leastLabel_isLeast (h : labels ≠ []) : IsLeast {y | y ∈ labels} (leastLabel labels) := by
  have hpicks : Model.Picks (fun a b : Int => a ≤ b) Model.leastOf :=
    Model.picks_leastOf fun _ _ => Iff.rfl
  obtain ⟨least,hmem,hleast,hbelow⟩ := hpicks labels h
  rw [leastLabel, hleast]
  exact ⟨hmem,hbelow⟩

theorem greatestLabel_isGreatest (h : labels ≠ []) :
    IsGreatest {y | y ∈ labels} (greatestLabel labels) := by
  have hpicks : Model.Picks (fun a b : Int => b ≤ a) Model.greatestOf :=
    Model.picks_greatestOf fun _ _ => Iff.rfl
  obtain ⟨greatest,hmem,hgreatest,habove⟩ := hpicks labels h
  rw [greatestLabel, hgreatest]
  exact ⟨hmem,habove⟩

theorem count_eq (hleast : IsLeast {y | y ∈ train} m) (hgreatest : IsGreatest {y | y ∈ train} M)
    (hne : test ≠ []) (hbetween : ∀ t ∈ test, m ≤ t ∧ t ≤ M) :
    Label.count (Model.greatest (labelSpan train) [labelSpan test]) = .ok (M-m+1) := by
  have htrain : train ≠ [] := List.ne_nil_of_mem hleast.1
  have hlow := hbetween _ (leastLabel_isLeast hne).1
  have hhigh := hbetween _ (greatestLabel_isGreatest hne).1
  have hspan : labelSpan train = M-m+1 := by
    rw [labelSpan, (greatestLabel_isGreatest htrain).unique hgreatest,
      (leastLabel_isLeast htrain).unique hleast]
  have hle : ¬ labelSpan train < labelSpan test := by
    rw [hspan, labelSpan]
    omega
  change Except.ok (if labelSpan train < labelSpan test then labelSpan test else labelSpan train) =
    _
  rw [if_neg hle, hspan]

def classPlace (labels : List Int) (y : Int) : Int := y % 256-leastLabel (labels.map (· % 256))

theorem classPlaces_eq (labels : List Int) :
    classPlaces labels = labels.map (classPlace labels) := by
  rw [classPlaces, List.map_map]
  rfl

theorem classPlace_eq_iff (labels : List Int) (y z : Int) :
    classPlace labels y = classPlace labels z ↔ 256 ∣ y-z := by
  rw [classPlace, classPlace]
  omega

/-- Labels are at their distances from `m` if it is the least of them and no block of 256 integers
ends between two of them. -/
theorem classPlaces_eq_iff (hne : labels ≠ []) : classPlaces labels = labels.map (· - m) ↔
    IsLeast {y | y ∈ labels} m ∧ ∀ y ∈ labels, y/256 = m/256 := by
  have hbytes : labels.map (· % 256) ≠ [] := by simpa using hne
  obtain ⟨hmem,hbelow⟩ := leastLabel_isLeast hbytes
  obtain ⟨y0,hy0,hbyte⟩ := List.mem_map.1 hmem
  have hle : ∀ y ∈ labels, y0 % 256 ≤ y % 256 := fun y hy =>
    hbyte ▸ hbelow (List.mem_map.2 ⟨y,hy,rfl⟩)
  simp only [classPlaces_eq, List.map_inj_left, classPlace]
  constructor
  · intro h
    -- the label with the least byte is at place zero
    obtain rfl : y0 = m := by
      have := h y0 hy0
      omega
    refine ⟨⟨hy0,fun y hy => ?_⟩,fun y hy => ?_⟩
    · have := h y hy
      have := hle y hy
      omega
    · have := h y hy
      omega
  · rintro ⟨hleast,hblock⟩ y hy
    have := hle m hleast.1
    have := hleast.2 hy0
    have := hblock y0 hy0
    have := hblock y hy
    omega

/-- All training labels lie in the block of 256 integers of `m`, and `m` is a testing label. -/
def SameStart (train test : List Int) (m : Int) : Prop := (∀ y ∈ train, y/256 = m/256) ∧ m ∈ test

theorem places_alike_iff (hleast : IsLeast {y | y ∈ train} m)
    (hgreatest : IsGreatest {y | y ∈ train} M)
    (hne : test ≠ []) (hbetween : ∀ t ∈ test, m ≤ t ∧ t ≤ M) :
    classPlaces train = train.map (· - m) ∧ classPlaces test = test.map (· - m) ↔
    SameStart train test m := by
  rw [classPlaces_eq_iff (List.ne_nil_of_mem hleast.1), classPlaces_eq_iff hne]
  constructor
  · rintro ⟨⟨-,hblock⟩,htest,-⟩
    exact ⟨hblock,htest.1⟩
  · rintro ⟨hblock,hm⟩
    refine ⟨⟨hleast,hblock⟩,⟨hm,fun t ht => (hbetween t ht).1⟩,fun t ht => ?_⟩
    have := hbetween t ht
    have := hblock M hgreatest.1
    omega

def placeOf (row : List Float) : Int := ((Bag.top row).toOption.map fun q => (q.1 : Int)).getD 0

theorem placeOf_oneHot {place : Int} (h : 0 ≤ place ∧ place < classes.toNat) :
    placeOf (Bag.oneHot classes.toNat place.toNat) = place := by
  rw [placeOf, Bag.top_oneHot Bag.zeroBelowOne_float (by omega)]
  exact Int.toNat_of_nonneg h.1

theorem map_placeOf {places} {rows}
    (h : oneHotRows classes.toNat places = .ok rows) : rows.map placeOf = places := by
  induction places generalizing rows with
  | nil =>
    cases h
    rfl
  | cons place places ih =>
    rw [oneHotRows, List.mapM_cons] at h
    obtain ⟨row,hrow,h⟩ := Code.bind_ok h
    obtain ⟨rest,hrest,h⟩ := Code.bind_ok h
    cases h
    split at hrow
    · rename_i hplace
      cases hrow
      rw [List.map_cons, placeOf_oneHot hplace, ih hrest]
    · cases hrow

theorem targetsAt_inj {p : Preparation} {a b} {t}
    (ha : p.targetsAt classes a = .ok t) (hb : p.targetsAt classes b = .ok t) : a = b := by
  obtain ⟨rows,hrows,ha⟩ := Code.bind_ok ha
  obtain ⟨rows',hrows',hb⟩ := Code.bind_ok hb
  have heq := (Except.ok.inj ha).trans (Except.ok.inj hb).symm
  split at heq
  · exact Targets.places.inj heq
  · rw [← map_placeOf hrows, ← map_placeOf hrows', Targets.oneHot.inj heq]

theorem targetsAt_ok (p : Preparation) {places}
    (h : ∀ place ∈ places, 0 ≤ place ∧ place < classes) : ∃ t,
        p.targetsAt classes places = .ok t := by
  have hrows : oneHotRows classes.toNat places =
      .ok (places.map fun place => Bag.oneHot classes.toNat place.toNat) := by
    refine Model.mapM_ok_of_forall _ _ places fun place hplace => if_pos ?_
    have := h place hplace
    omega
  rw [Preparation.targetsAt, hrows]
  exact ⟨_,rfl⟩

theorem targets_ok_iff {p : Preparation} (hp : p.regression = false)
    (hcount : Label.count (Model.greatest (labelSpan train) [labelSpan test]) = .ok classes)
    {n} {t t'} : p.targets train test = .ok (n,t,t') ↔ n = classes ∧
      p.targetsAt n (classPlaces train) = .ok t ∧ p.targetsAt n (classPlaces test) = .ok t' := by
  rw [Preparation.targets, hp, hcount]
  constructor
  · intro h
    obtain ⟨_,hn,h⟩ := Code.bind_ok h
    cases hn
    obtain ⟨_,ht,h⟩ := Code.bind_ok h
    obtain ⟨_,ht',h⟩ := Code.bind_ok h
    cases h
    exact ⟨rfl,ht,ht'⟩
  · rintro ⟨rfl,ht,ht'⟩
    simp only [bind, Except.bind, ht, ht']
    rfl

section Tables

variable {p : Preparation} {a b : Tensor Int} {rows rows' : List (List Int)}

theorem prepare_iff (ha : labelledRows a = .ok rows) (hb : labelledRows b = .ok rows')
    (hwidth : a.shape.getD 1 0 = b.shape.getD 1 0) {t} :
    (∃ d, prepare p a b = .ok d ∧ (d.classes,d.trainTargets,d.testTargets) = t) ↔
      p.targets (labelsOf rows) (labelsOf rows') = .ok t := by
  have hmeet : ∀ n, canMeet n n = true := by simp [canMeet]
  rw [prepare, ha, hb]
  simp only [hwidth, Nat.min_self, hmeet, bind, Except.bind]
  cases p.targets (labelsOf rows) (labelsOf rows') with
  | error f => simp
  | ok t => simp [pure, Except.pure]

def column (labels : List Int) : Model.Rows Int := labels.map ([·])

theorem column_inj {xs ys} : column xs = column ys ↔ xs = ys :=
  (List.map_injective_iff.2 fun _ _ h => List.singleton_inj.1 h).eq_iff

theorem zeroBased_column (hne : labels ≠ []) :
    Model.zeroBased (column labels) = .ok (column (classPlaces labels)) := by
  have hbyte : (Label.byte : Int → Int) = fun n => n.emod 256 := rfl
  match labels, hne with
  | [y], _ => simp [Model.zeroBased, column, classPlaces, leastLabel, Model.leastOf, Model.least,
      Except.toOption]
  | y::z::ys, _ => simp [Model.zeroBased, column, classPlaces, leastLabel, Model.leastOf,
      Except.toOption, hbyte, Function.comp_def]

/-- Let two tables with the same columns be prepared, or their labels be counted from zero, where
the labels of the testing table lie between the extreme training labels. Both sets should give a
label its distance from the least training label `m`. For the preparation and for the counting, this
is so if and only if all training labels lie in the block of 256 integers of `m`, and `m` is a
testing label too. In any case each set gives two labels the same place if and only if they are a
multiple of 256 apart. -/
theorem labels_placed_alike_iff (hp : p.regression = false) (ha : labelledRows a = .ok rows)
    (hb : labelledRows b = .ok rows') (hwidth : a.shape.getD 1 0 = b.shape.getD 1 0)
    (hleast : IsLeast {y | y ∈ labelsOf rows} m) (hgreatest : IsGreatest {y | y ∈ labelsOf rows} M)
    (hne : labelsOf rows' ≠ []) (hbetween : ∀ y ∈ labelsOf rows', m ≤ y ∧ y ≤ M) :
    ((∃ d, prepare p a b = .ok d ∧
        p.targetsAt d.classes ((labelsOf rows).map (· - m)) = .ok d.trainTargets ∧
        p.targetsAt d.classes ((labelsOf rows').map (· - m)) = .ok d.testTargets) ↔
      SameStart (labelsOf rows) (labelsOf rows') m) ∧
    (Model.zeroBased (column (labelsOf rows)) = .ok (column ((labelsOf rows).map (· - m))) ∧
        Model.zeroBased (column (labelsOf rows')) = .ok (column ((labelsOf rows').map (· - m))) ↔
      SameStart (labelsOf rows) (labelsOf rows') m) ∧ ∃ place place' : Int → Int,
      (∀ y z, (place y = place z ↔ 256 ∣ y-z) ∧ (place' y = place' z ↔ 256 ∣ y-z)) ∧
      Model.zeroBased (column (labelsOf rows)) = .ok (column ((labelsOf rows).map place)) ∧
      Model.zeroBased (column (labelsOf rows')) = .ok (column ((labelsOf rows').map place')) ∧
      ∀ d, prepare p a b = .ok d →
        p.targetsAt d.classes ((labelsOf rows).map place) = .ok d.trainTargets ∧
        p.targetsAt d.classes ((labelsOf rows').map place') = .ok d.testTargets := by
  have hcount := count_eq hleast hgreatest hne hbetween
  have halike := places_alike_iff hleast hgreatest hne hbetween
  have hmade : ∀ d, prepare p a b = .ok d → p.targetsAt d.classes (classPlaces (labelsOf rows)) =
      .ok d.trainTargets ∧ p.targetsAt d.classes (classPlaces (labelsOf rows')) =
        .ok d.testTargets :=
    fun d hd => ((targets_ok_iff hp hcount).1 ((prepare_iff ha hb hwidth).1 ⟨d,hd,rfl⟩)).2
  rw [zeroBased_column (List.ne_nil_of_mem hleast.1), zeroBased_column hne]
  refine ⟨⟨?_,?_⟩,?_,?_⟩
  · rintro ⟨d,hd,htrain,htest⟩
    rw [← halike]
    exact ⟨targetsAt_inj (hmade d hd).1 htrain,targetsAt_inj (hmade d hd).2 htest⟩
  · intro h
    obtain ⟨hplaces,hplaces'⟩ := halike.2 h
    have hfits : ∀ xs : List Int, (∀ y ∈ xs, m ≤ y ∧ y ≤ M) →
        ∃ t, p.targetsAt (M-m+1) (xs.map (· - m)) = .ok t := fun xs hxs =>
      targetsAt_ok p (List.forall_mem_map.2 fun y hy => by have := hxs y hy; omega)
    obtain ⟨t,ht⟩ := hfits (labelsOf rows) fun y hy => ⟨hleast.2 hy,hgreatest.2 hy⟩
    obtain ⟨t',ht'⟩ := hfits (labelsOf rows') hbetween
    rw [← hplaces] at ht
    rw [← hplaces'] at ht'
    obtain ⟨d,hd,-⟩ := (prepare_iff ha hb hwidth).2 ((targets_ok_iff hp hcount).2 ⟨rfl,ht,ht'⟩)
    refine ⟨d,hd,?_⟩
    rw [← hplaces, ← hplaces']
    exact hmade d hd
  · simp only [Except.ok.injEq, column_inj]
    exact halike
  · refine ⟨classPlace (labelsOf rows),classPlace (labelsOf rows'),fun y z => ?_,?_⟩
    · exact ⟨classPlace_eq_iff _ y z,classPlace_eq_iff _ y z⟩
    · simp only [← classPlaces_eq]
      exact ⟨trivial,trivial,hmade⟩

def threeLabels : Tensor Int := ⟨[3, 2],#[0, 5, 1, 6, 2, 7]⟩

def twoLabels : Tensor Int := ⟨[2, 2],#[1, 5, 2, 6]⟩

def forTrees : Preparation := ⟨true,true,false⟩

/-- A testing set without the least training label is prepared, but its labels are at other
places. -/
theorem labels_placed_alike_iff_missing : (∃ d, prepare forTrees threeLabels twoLabels = .ok d) ∧
    ¬ ∃ d, prepare forTrees threeLabels twoLabels = .ok d ∧
      forTrees.targetsAt d.classes [0, 1, 2] = .ok d.trainTargets ∧
      forTrees.targetsAt d.classes [1, 2] = .ok d.testTargets := by
  have htrain : labelledRows threeLabels = .ok [[0, 5], [1, 6], [2, 7]] := rfl
  have htest : labelledRows twoLabels = .ok [[1, 5], [2, 6]] := rfl
  have hleast : IsLeast {y | y ∈ labelsOf [[(0 : Int), 5], [1, 6], [2, 7]]} 0 := by
    simp [IsLeast, lowerBounds, labelsOf]
  have hgreatest : IsGreatest {y | y ∈ labelsOf [[(0 : Int), 5], [1, 6], [2, 7]]} 2 := by
    simp [IsGreatest, upperBounds, labelsOf]
  have hp : forTrees.regression = false := rfl
  obtain ⟨hprepared,-⟩ := labels_placed_alike_iff hp htrain htest rfl hleast hgreatest (by decide)
    (by decide)
  exact ⟨⟨_,rfl⟩,mt hprepared.1 (by simp [SameStart, labelsOf])⟩

end Tables

end MicroLearn.Learn
