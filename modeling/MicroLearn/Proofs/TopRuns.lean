import MicroLearn.Proofs.LongestRuns
import MicroLearn.Proofs.PrunedLabels

/-!
# The best of the longest runs

Labels are updated by the longest run of a bag. If it is a run of the class of the bag and long
enough, one of the longest runs of this class keeps the class and all other instances are labelled
0. Among runs of equal length the sum of the scores decides, and the earliest of equal sums.
-/

set_option autoImplicit false

namespace MicroLearn.Bag

section Ends

variable {bag : List Int} {label : Int} {length q : Nat}

theorem mem_runEnds_iff : q ∈ runEnds label length bag ↔ (runs label bag)[q]? = some length := by
  simp [runEnds, List.mk_mem_zipIdx_iff_getElem?]

theorem runEnds_increasing (label : Int) (length : Nat) (bag : List Int) :
    (runEnds label length bag).Pairwise (· < ·) := by
  have hsublist : (runEnds label length bag).Sublist ((runs label bag).zipIdx.map Prod.snd) :=
    List.filter_sublist.map Prod.snd
  rw [List.zipIdx_map_snd] at hsublist
  exact List.Pairwise.sublist hsublist List.pairwise_lt_range'

theorem mem_runEnds (hmost : ∀ m, HasRun bag label m → m ≤ length) :
    q ∈ runEnds label length bag ↔ ∃ start, q+1 = start+length ∧ Run bag label start length := by
  rw [mem_runEnds_iff]
  constructor
  · intro hq
    obtain ⟨hle,hspec⟩ := runs_spec hq
    exact ⟨q+1-length,by omega,(hspec length hle).1 le_rfl⟩
  · rintro ⟨start,hq,hrun⟩
    have hlength := hrun.1
    obtain ⟨n,hn⟩ : ∃ n, (runs label bag)[q]? = some n := exists_runs (by omega)
    obtain ⟨hle,hspec⟩ := runs_spec hn
    have hlow : length ≤ n := (hspec length (by omega)).2 (by
      rwa [show q+1-length = start by omega])
    rw [hn, hlow.antisymm (hmost n ⟨_,(hspec n hle).1 le_rfl⟩)]

end Ends

section Windows

variable {α : Type} [AddCommMonoid α] [LinearOrder α]

def classSum (scores : Scores α) (c start length : Nat) : α :=
  ∑ q ∈ Finset.Ico start (start+length), (scores.getD q []).getD c 0

omit [LinearOrder α] in
theorem windowSum_eq (scores : Scores α) (c : Nat) {count last : Nat} (sum : α)
    (h : count ≤ last+1) :
    windowSum scores c count last sum = sum+classSum scores c (last+1-count) count := by
  induction count generalizing last sum with
  | zero => simp [windowSum, classSum]
  | succ count ih =>
    rw [windowSum]
    cases last with
    | zero =>
      obtain rfl : count = 0 := by omega
      simp [windowSum, classSum]
    | succ last =>
      rw [Nat.add_sub_cancel, ih _ (by omega), classSum, classSum,
        show last+1+1-(count+1) = last+1-count by omega, ← Nat.add_assoc,
        Finset.sum_Ico_succ_top (by omega), show last+1-count+count = last+1 by omega,
        add_assoc, add_comm (Finset.sum _ _)]

omit [AddCommMonoid α] in
theorem foldl_first (value : Nat → α) {p : Nat} {ps : List Nat} (h : (p::ps).Pairwise (· < ·)) :
    ∃ best ∈ p::ps, ps.foldl (fun best q => if value best < value q then q else best) p = best ∧
      ∀ q ∈ p::ps, value q ≤ value best ∧ (q < best → value q < value best) := by
  refine ⟨_,and_left_comm.1 ⟨rfl,Model.foldl_best (p := fun q best => value best < value q)
    (R := fun best q => value q ≤ value best ∧ (q < best → value q < value best)) (by simp)
    (fun a b c hab hbc => ⟨hbc.1.trans hab.1,fun hca => ?_⟩) (fun _ _ hlt => ⟨hlt.le,fun _ => hlt⟩)
    (h.imp fun hlt hle => ⟨not_lt.1 hle,fun hgt => absurd hgt hlt.asymm⟩)⟩⟩
  rcases lt_or_ge c b with hcb | hcb
  · exact (hbc.2 hcb).trans_le hab.1
  · exact hbc.1.trans_lt (hab.2 (hcb.trans_lt hca))

/-- The window is a run with the greatest sum of scores, and none before it has this sum. -/
def BestWindow (scores : Scores α) (bag : List Int) (c start length : Nat) : Prop :=
  Run bag c start length ∧ ∀ other, Run bag c other length →
    classSum scores c other length ≤ classSum scores c start length ∧
    (other < start → classSum scores c other length < classSum scores c start length)

theorem bestPlace_spec (scores : Scores α) {bag : List Int} {c length : Nat}
    (hmost : ∀ m, HasRun bag c m → m ≤ length) (hpos : 0 < length) (hrun : HasRun bag c length) :
    ∃ start last, bestPlace scores c length (runEnds c length bag) = some last ∧
      last+1 = start+length ∧ BestWindow scores bag c start length := by
  have hincreasing := runEnds_increasing c length bag
  have hends : runEnds c length bag ≠ [] := by
    obtain ⟨start,hstart⟩ := hrun
    exact List.ne_nil_of_mem ((mem_runEnds (q := start+length-1) hmost).2 ⟨start,by omega,hstart⟩)
  obtain ⟨p,ps,hps⟩ := List.exists_cons_of_ne_nil hends
  rw [hps] at hincreasing
  obtain ⟨last,hmem,hlast,hbest⟩ := foldl_first (fun q => windowSum scores c length q 0) hincreasing
  rw [← hps] at hmem hbest
  obtain ⟨start,hstart,hwindow⟩ := (mem_runEnds hmost).1 hmem
  refine ⟨start,last,by rw [hps, bestPlace, hlast],hstart,hwindow,fun other hother => ?_⟩
  have hsum (q begin : Nat) (hq : q+1 = begin+length) :
      windowSum scores c length q 0 = classSum scores c begin length := by
    rw [windowSum_eq scores c 0 (by omega), zero_add, show q+1-length = begin by omega]
  have hplace : other+length-1+1 = other+length := by omega
  have hvalue := hbest _ ((mem_runEnds hmost).2 ⟨other,hplace,hother⟩)
  simp only [hsum _ other hplace, hsum _ start hstart] at hvalue
  exact ⟨hvalue.1,fun hlt => hvalue.2 (by omega)⟩

end Windows

section Labels

variable {α β : Type} [AddCommMonoid α] [LinearOrder α] [Zero β] [One β]
variable {classes : Nat}

/-- The labels of `n` instances where only those of a window have a class other than 0. -/
def windowLabels (classes c start length n : Nat) : List (List β) :=
  (List.range n).map fun q => oneHot classes (if start ≤ q ∧ q < start+length then c else 0)

theorem relabel_eq {c start length last : Nat} {labels : List (List β)}
    (hrows : ∀ row ∈ labels, row.length = classes) (hc : c < classes)
    (hlast : last+1 = start+length) :
    relabel c length last labels = .ok (windowLabels classes c start length labels.length) := by
  apply Model.mapM_ok_of_getElem
  · simp [windowLabels]
  · rintro j ⟨row,q⟩ hj
    obtain ⟨row',hrow,hpair⟩ := Option.map_eq_some_iff.1 (List.getElem?_zipIdx ▸ hj)
    obtain ⟨rfl,rfl⟩ : row' = row ∧ j = q := by simpa using hpair
    have hwidth := hrows row' (List.mem_of_getElem? hrow)
    have hlt : j < labels.length := (List.getElem?_eq_some_iff.1 hrow).1
    refine ⟨_,by rw [windowLabels, List.getElem?_map, List.getElem?_range hlt]; rfl,?_⟩
    have hempty : row'.isEmpty = false := by
      rw [← Bool.not_eq_true, List.isEmpty_iff_length_eq_zero]
      omega
    have hwindow : last+1 ≤ j+length ∧ j ≤ last ↔ start ≤ j ∧ j < start+length := by omega
    simp only [hempty, Bool.false_eq_true, if_false, hwidth, if_pos hc, hwindow]
    split <;> rfl

/-- The label of the bag is the first class with the longest run, which has length `length ≥ k`. -/
structure Chosen (classes : Nat) (k label : Int) (bag : List Int) (c length : Nat) : Prop where
  label : label = c
  leading : IsLeast (Leading classes bag) c
  longest : IsGreatest {m | HasRun bag c m} length
  enough : k ≤ length

/-- What becomes of the labels of a bag. -/
structure TopUpdate (classes : Nat) (k label : Int) (scores : Scores α)
    (labels new : List (List β)) : Prop where
  kept : (∀ c length,
    ¬ Chosen classes k label (scores.map fun row => (Fixed.argmax row : Int)) c length) →
      new = labels
  moved : ∀ c length,
    Chosen classes k label (scores.map fun row => (Fixed.argmax row : Int)) c length →
      ∃ start, BestWindow scores (scores.map fun row => (Fixed.argmax row : Int)) c start length ∧
        new = windowLabels classes c start length labels.length

theorem topBag_spec (hclasses : 2 ≤ classes) {k : Int} (hk : 0 < k) (label : Int)
    {scores : Scores α}
    (hscores : scores ≠ []) {labels : List (List β)} (hrows : ∀ row ∈ labels,
      row.length = classes) :
    ∃ new, topBag classes k label scores labels = .ok new ∧
        TopUpdate classes k label scores labels new := by
  generalize hbag : (scores.map fun row => (Fixed.argmax row : Int)) = bag
  have hne : bag ≠ [] := by
    rw [← hbag]
    simpa using hscores
  obtain ⟨lengths,hok,hleast,hspec⟩ := longestOfClasses_spec hclasses hne
  generalize hc : Fixed.argmax lengths+1 = c at hleast hspec
  generalize hlength : lengths.getD (Fixed.argmax lengths) 0 = length at hspec
  have hlongest : IsGreatest {m | HasRun bag c m} length :=
    ⟨(hspec length).1 le_rfl,fun m hm => (hspec m).2 hm⟩
  have htop : topBag classes k label scores labels =
      if label == 0 || label != (c : Int) || decide ((length : Int) < k) then .ok labels
      else moveTo c length labels (bestPlace scores c length (runEnds label length bag)) := by
    rw [topBag, hbag, hok, ← hc, ← hlength]
    rfl
  have hunique {c' l'} (h : Chosen classes k label bag c' l') : c' = c ∧ l' = length := by
    obtain rfl := h.leading.unique hleast
    exact ⟨rfl,h.longest.unique hlongest⟩
  rw [htop]
  split
  · rename_i hskip
    refine ⟨labels,rfl,fun _ => rfl,fun c' l' h => ?_⟩
    rw [hbag] at h
    obtain ⟨rfl,rfl⟩ := hunique h
    have hpos := h.leading.1.1
    have henough := h.enough
    have hlabel := h.label
    simp only [Bool.or_eq_true, beq_iff_eq, bne_iff_ne, decide_eq_true_eq] at hskip
    omega
  · rename_i hgo
    simp only [Bool.or_eq_true, beq_iff_eq, bne_iff_ne, decide_eq_true_eq, not_or, not_not,
      not_lt] at hgo
    obtain ⟨⟨-,rfl⟩,henough⟩ := hgo
    obtain ⟨start,last,hplace,hlast,hbest⟩ :=
      bestPlace_spec scores (fun m hm => hlongest.2 hm) (by omega) hlongest.1
    rw [hplace]
    refine ⟨_,relabel_eq hrows hleast.1.2.1 hlast,fun hnone => ?_,fun c' l' h => ?_⟩
    · rw [hbag] at hnone
      exact absurd ⟨rfl,hleast,hlongest,henough⟩ (hnone c length)
    · rw [hbag] at h ⊢
      obtain ⟨rfl,rfl⟩ := hunique h
      exact ⟨start,hbest,rfl⟩

def OneHotRows (classes : Nat) (rows : List (List β)) : Prop :=
  ∀ row ∈ rows, ∃ c < classes, row = oneHot classes c

theorem OneHotRows.length {rows : List (List β)} (h : OneHotRows classes rows) :
    ∀ row ∈ rows, row.length = classes := by
  intro row hrow
  obtain ⟨c,-,rfl⟩ := h row hrow
  exact length_oneHot classes c

theorem TopUpdate.oneHot {k label : Int} {scores : Scores α} {labels new : List (List β)}
    (h : TopUpdate classes k label scores labels new) (hlabels : OneHotRows classes labels) :
    OneHotRows classes new := by
  by_cases hchosen : ∃ c length,
      Chosen classes k label (scores.map fun row => (Fixed.argmax row : Int)) c length
  · obtain ⟨c,length,hc⟩ := hchosen
    obtain ⟨start,-,rfl⟩ := h.moved c length hc
    intro row hrow
    obtain ⟨q,-,rfl⟩ := List.mem_map.1 hrow
    have hlt := hc.leading.1.2.1
    exact ⟨_,by split <;> omega,rfl⟩
  · push Not at hchosen
    rw [h.kept hchosen]
    exact hlabels

/-- Every bag keeps its labels, unless its label is the first class with the longest run and that
run has at least `k` instances; then the best window of this length keeps the class and all else is
labelled 0. The labels stay one-hot. -/
theorem topRuns_exact (hclasses : 2 ≤ classes) {n : Nat} {k : Int} (hk : 1 ≤ k) (hkn : k ≤ n)
    {labels : List (List (List β))} {scores : List (Scores α)} {bagLabels : List Int}
    (hlabels : ∀ own ∈ labels, own.length = n ∧ OneHotRows classes own)
    (hscores : Boxed labels.length n classes scores) (hbags : bagLabels.length = labels.length) :
    ∃ out, topRuns classes k labels scores bagLabels = .ok out ∧ out.length = labels.length ∧
      ∀ (i : Nat) (label : Int) (s : Scores α) (own new : List (List β)),
      bagLabels[i]? = some label →
        scores[i]? = some s → labels[i]? = some own → out[i]? = some new →
          TopUpdate classes k label s own new ∧ OneHotRows classes new := by
  have hne : ∀ s ∈ scores, s ≠ [] := by
    rintro s hs rfl
    have hlength := (hscores.2 [] hs).1
    rw [List.length_nil] at hlength
    omega
  have hbag : ∀ i : Nat, ∃ new, ∀ label s own, bagLabels[i]? = some label → scores[i]? = some s →
      labels[i]? = some own → topBag classes k label s own = .ok new ∧
        TopUpdate classes k label s own new ∧ OneHotRows classes new := by
    intro i
    by_cases hi : ∃ label s own, bagLabels[i]? = some label ∧ scores[i]? = some s ∧
        labels[i]? = some own
    · obtain ⟨label,s,own,hlabel,hs,hown⟩ := hi
      have hrows := (hlabels own (List.mem_of_getElem? hown)).2
      obtain ⟨new,hnew,hupdate⟩ := topBag_spec hclasses (by omega : 0 < k) label
        (hne s (List.mem_of_getElem? hs)) hrows.length
      refine ⟨new,fun label' s' own' hlabel' hs' hown' => ?_⟩
      obtain rfl := Option.some.inj (hlabel.symm.trans hlabel')
      obtain rfl := Option.some.inj (hs.symm.trans hs')
      obtain rfl := Option.some.inj (hown.symm.trans hown')
      exact ⟨hnew,hupdate,hupdate.oneHot hrows⟩
    · exact ⟨[],fun label s own hlabel hs hown => absurd ⟨label,s,own,hlabel,hs,hown⟩ hi⟩
  choose new hnew using hbag
  refine ⟨(List.range labels.length).map new,?_,by simp,fun i label s own x hlabel hs hown hx => ?_⟩
  · obtain ⟨lengths,hcounted⟩ := Model.mapM_ok_iff.2 fun s (hs : s ∈ scores) => by
      have hbag : (s.map fun row => (Fixed.argmax row : Int)) ≠ [] := by simpa using hne s hs
      obtain ⟨lengths,hok,-⟩ := longestOfClasses_spec hclasses hbag
      exact ⟨lengths,hok⟩
    have hlong : (labels.all fun own => decide (k ≤ own.length)) = true := by
      rw [List.all_eq_true]
      intro own hown
      rw [decide_eq_true_eq, (hlabels own hown).1]
      exact hkn
    have hupdated : ((bagLabels.zip scores).zipIdx).mapM
        (fun x => topAt classes k labels x.1.1 x.1.2 x.2) =
          .ok ((List.range labels.length).map fun i => some (new i)) := by
      apply Model.mapM_ok_of_getElem
      · simp [hscores.1, hbags]
      · rintro i ⟨⟨label,s⟩,j⟩ hi
        obtain ⟨⟨label',s'⟩,hpair,heq⟩ := Option.map_eq_some_iff.1 (List.getElem?_zipIdx ▸ hi)
        obtain ⟨⟨rfl,rfl⟩,rfl⟩ : (label' = label ∧ s' = s) ∧ i = j := by simpa using heq
        obtain ⟨hlabel,hs⟩ := List.getElem?_zip_eq_some.1 hpair
        have hlt : i < labels.length := hbags ▸ (List.getElem?_eq_some_iff.1 hlabel).1
        have hown := List.getElem?_eq_getElem hlt
        refine ⟨some (new i),by rw [List.getElem?_map, List.getElem?_range hlt]; rfl,?_⟩
        have hbag := (hnew i label' s' _ hlabel hs hown).1
        simp only [topAt, hown, hbag]
        rfl
    rw [topRuns, hlong, decide_eq_true (by omega : 0 < k), if_neg (by omega), hcounted]
    simp only [hupdated, hscores.1, hbags, beq_self_eq_true]
    change Except.ok _ = Except.ok _
    simp [List.filterMap_map]
  · have hlt : i < labels.length := (List.getElem?_eq_some_iff.1 hown).1
    obtain rfl : new i = x := by
      rw [List.getElem?_map, List.getElem?_range hlt] at hx
      exact Option.some.inj hx
    exact (hnew i label s own hlabel hs hown).2

end Labels

namespace TwoRuns

/-- Two runs of two instances, of equal sums. -/
def scores : Scores Nat := [[0, 2], [1, 3], [1, 0], [2, 3], [0, 2]]

def labels : List (List Nat) := List.replicate 5 (oneHot 2 1)

def predicted : List Int := scores.map fun row => (Fixed.argmax row : Int)

theorem chosen : Chosen 2 1 1 predicted 1 2 where
  label := rfl
  leading := ⟨⟨le_rfl,by decide,fun d hd hd' m hm => by rwa [show d = 1 by omega] at hm⟩,fun c hc =>
    hc.1⟩
  longest := by
    have hrun (m : Nat) : HasRun predicted 1 m ↔ m ≤ 2 := hasRun_iff rfl
    exact ⟨(hrun 2).2 le_rfl,fun m hm => (hrun m).1 hm⟩
  enough := by decide

end TwoRuns

open TwoRuns in
/-- The earlier of the two runs keeps the class. -/
theorem topRuns_exact_two : topRuns 2 1 [labels] [scores] [1] =
      .ok [[[0, 1], [0, 1], [1, 0], [1, 0], [1, 0]]] ∧
    BestWindow scores predicted 1 0 2 ∧
    OneHotRows 2 [[0, 1], [0, 1], [1, 0], [1, 0], [(1 : Nat), 0]] := by
  have hlabels : ∀ own ∈ [labels], own.length = 5 ∧ OneHotRows 2 own := by
    simp only [List.forall_mem_cons, List.not_mem_nil, false_imp_iff, implies_true, and_true]
    exact ⟨rfl,fun row hrow => ⟨1,by decide,List.eq_of_mem_replicate hrow⟩⟩
  have hruns : topRuns 2 1 [labels] [scores] [1] =
      .ok [[[0, 1], [0, 1], [1, 0], [1, 0], [1, 0]]] := rfl
  obtain ⟨out,hout,-,hall⟩ := topRuns_exact (by decide : 2 ≤ 2) (by decide : (1 : Int) ≤ 1)
    (by decide) hlabels (⟨rfl,by decide⟩ : Boxed 1 5 2 [scores])
      (show [(1 : Int)].length = 1 by rfl)
  obtain rfl := Except.ok.inj (hruns.symm.trans hout)
  obtain ⟨hupdate,hrows⟩ := hall 0 1 scores labels _ rfl rfl rfl rfl
  obtain ⟨start,hbest,hnew⟩ := hupdate.moved 1 2 chosen
  obtain rfl : start = 0 := by
    by_contra hstart
    have hfirst := congrArg List.head? hnew
    simp [windowLabels, labels, List.range_succ_eq_map, hstart, oneHot] at hfirst
  exact ⟨hruns,hbest,hrows⟩

end MicroLearn.Bag
