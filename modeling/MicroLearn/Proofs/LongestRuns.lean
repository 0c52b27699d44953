import MicroLearn.Bag.Policy
import MicroLearn.Proofs.FirstGreatest
import MicroLearn.Proofs.PrintedRange
import MicroLearn.Proofs.Word

/-!
# Runs of a class in a bag

The instances of a bag are predicted one by one. A class has a run where consecutive instances
are all predicted as this class. The lengths of the runs are counted along the bag, and the class
of a bag is the first one whose longest run is not exceeded by that of another class.
-/

set_option autoImplicit false

namespace MicroLearn.Bag

variable {bag : List Int} {label : Int} {classes : Nat}

/-- The instances from `start` on, `length` of them, are all predicted as `label`. -/
def Run (bag : List Int) (label : Int) (start length : Nat) : Prop :=
  start+length ≤ bag.length ∧ ∀ q, start ≤ q → q < start+length → bag[q]? = some label

def HasRun (bag : List Int) (label : Int) (length : Nat) : Prop :=
  ∃ start, Run bag label start length

theorem length_runsFrom (label : Int) (before : Nat) (bag : List Int) :
    (runsFrom label before bag).length = bag.length := by
  induction bag generalizing before with
  | nil => rfl
  | cons x xs ih => rw [runsFrom, List.length_cons, ih, List.length_cons]

/-- What is counted at a place is how far back the class reaches, in front of the list as many
instances of the class as have been counted before. -/
theorem runsFrom_spec {before q n : Nat} (h : (runsFrom label before bag)[q]? = some n) :
    n ≤ before+q+1 ∧ ∀ m ≤ before+q+1, (m ≤ n ↔
      ∀ j < m, (List.replicate before label++bag)[before+q-j]? = some label) := by
  induction bag generalizing before q with
  | nil => simp [runsFrom] at h
  | cons x xs ih =>
    rw [runsFrom] at h
    by_cases hx : x = label
    · subst hx
      have hlist : List.replicate before x++x::xs = List.replicate (before+1) x++xs := by
        rw [List.replicate_succ', List.append_assoc, List.singleton_append]
      rw [hlist]
      cases q with
      | zero =>
        obtain rfl : before+1 = n := by simpa using h
        refine ⟨le_rfl,fun m hm => iff_of_true hm fun j hj => ?_⟩
        rw [List.getElem?_append_left (by simp), List.getElem?_replicate, if_pos (by omega)]
      | succ q =>
        have hcount : (runsFrom x (before+1) xs)[q]? = some n := by simpa using h
        simpa only [Nat.add_comm q 1, ← Nat.add_assoc before 1 q] using ih hcount
    · have hbeq : (x == label) = false := by simpa using hx
      cases q with
      | zero =>
        obtain rfl : 0 = n := by simpa [hbeq] using h
        refine ⟨Nat.zero_le _,fun m _ => ⟨fun hm j hj => by omega,fun hm => ?_⟩⟩
        by_contra hpos
        exact hx (by simpa using hm 0 (by omega))
      | succ q =>
        have hcount : (runsFrom label 0 xs)[q]? = some n := by simpa [hbeq] using h
        obtain ⟨hn,hreach⟩ := ih hcount
        simp only [List.replicate_zero, List.nil_append, Nat.zero_add] at hn hreach
        refine ⟨by omega,fun m hm => ?_⟩
        by_cases hfar : q+1 < m
        · -- A run that long would begin at the other class or before it.
          refine iff_of_false (by omega) fun hall => hx ?_
          simpa using hall (q+1) hfar
        · rw [hreach m (by omega)]
          refine forall₂_congr fun j hj => ?_
          rw [show before+(q+1)-j = before+((q-j)+1) by omega,
            List.getElem?_append_right (by simp), List.length_replicate, Nat.add_sub_cancel_left,
            List.getElem?_cons_succ]

theorem runs_spec {q n : Nat} (h : (runs label bag)[q]? = some n) :
    n ≤ q+1 ∧ ∀ m ≤ q+1, (m ≤ n ↔ Run bag label (q+1-m) m) := by
  have hq : q < bag.length := by
    rw [← length_runsFrom label 0 bag]
    exact (List.getElem?_eq_some_iff.1 h).1
  obtain ⟨hn,hreach⟩ := runsFrom_spec h
  simp only [List.replicate_zero, List.nil_append, Nat.zero_add] at hn hreach
  refine ⟨hn,fun m hm => (hreach m hm).trans ⟨fun hall => ⟨by omega,?_⟩,?_⟩⟩
  · intro i hlow hhigh
    simpa only [show q-(q-i) = i by omega] using hall (q-i) (by omega)
  · rintro ⟨-,hrun⟩ j hj
    exact hrun (q-j) (by omega) (by omega)

theorem exists_runs {q : Nat} (hq : q < bag.length) : ∃ n, (runs label bag)[q]? = some n := by
  rw [← length_runsFrom label 0 bag] at hq
  exact ⟨_,List.getElem?_eq_getElem hq⟩

theorem longest_spec (label : Int) (hbag : bag ≠ []) :
    ∃ n, longest label bag = .ok n ∧ ∀ m, m ≤ n ↔ HasRun bag label m := by
  have hruns : runs label bag ≠ [] := by
    rw [← List.length_pos_iff, runs, length_runsFrom]
    exact List.length_pos_iff.2 hbag
  obtain ⟨x,xs,hxs⟩ := List.exists_cons_of_ne_nil hruns
  obtain ⟨hmem,hbest⟩ := Model.foldl_best (R := fun a b : Nat => b ≤ a) (p := fun y m => m < y)
    (fun _ => le_rfl) (fun _ _ _ h h' => le_trans h' h) (fun _ _ => Nat.le_of_lt)
    (List.pairwise_of_forall (l := x::xs) fun _ _ => Nat.le_of_not_lt)
  rw [← hxs] at hmem hbest
  refine ⟨Model.greatest x xs,by rw [longest, hxs],fun m => ⟨fun hm => ?_,?_⟩⟩
  · obtain ⟨q,hq⟩ := List.mem_iff_getElem?.1 hmem
    obtain ⟨hle,hspec⟩ := runs_spec hq
    exact ⟨_,(hspec m (hm.trans hle)).1 hm⟩
  · rintro ⟨start,hrun⟩
    rcases Nat.eq_zero_or_pos m with rfl | hm
    · exact Nat.zero_le _
    · have hlength := hrun.1
      obtain ⟨n,hn⟩ : ∃ n, (runs label bag)[start+m-1]? = some n := exists_runs (by omega)
      refine le_trans (((runs_spec hn).2 m (by omega)).2 ?_) (hbest n (List.mem_of_getElem? hn))
      rwa [show start+m-1+1-m = start by omega]

theorem hasRun_iff {n m : Nat} (h : longest label bag = .ok n) : HasRun bag label m ↔ m ≤ n := by
  have hbag : bag ≠ [] := by
    rintro rfl
    cases h
  obtain ⟨n',h',hspec⟩ := longest_spec label hbag
  obtain rfl : n' = n := Except.ok.inj (h'.symm.trans h)
  exact (hspec m).symm

/-- The classes but 0 whose longest run no other class exceeds. -/
def Leading (classes : Nat) (bag : List Int) : Set Nat :=
  {c | 1 ≤ c ∧ c < classes ∧ ∀ d, 1 ≤ d → d < classes → ∀ m, HasRun bag d m → HasRun bag c m}

theorem longestOfClasses_spec (hclasses : 2 ≤ classes) (hbag : bag ≠ []) :
    ∃ lengths, longestOfClasses classes bag = .ok lengths ∧
      IsLeast (Leading classes bag) (Fixed.argmax lengths+1) ∧
      ∀ m, m ≤ lengths.getD (Fixed.argmax lengths) 0 ↔
      HasRun bag (Fixed.argmax lengths+1 : Nat) m := by
  choose most hmost hspec using fun c : Nat => longest_spec (c+1 : Nat) hbag
  have hok : longestOfClasses classes bag = .ok ((List.range (classes-1)).map most) :=
    Model.mapM_ok_of_forall _ most _ fun c _ => hmost c
  generalize hlengths : (List.range (classes-1)).map most = lengths at hok
  have hget (c : Nat) (hc : c < classes-1) : lengths[c]? = some (most c) := by
    rw [← hlengths, List.getElem?_map, List.getElem?_range hc, Option.map_some]
  have hlength : lengths.length = classes-1 := by rw [← hlengths]; simp
  -- A place in the list of lengths holds a greatest one exactly if its class is leading.
  have hleading (c : Nat) : c ∈ Fixed.Greatest lengths ↔ c+1 ∈ Leading classes bag := by
    constructor
    · rintro ⟨x,hx,htop⟩
      have hc : c < classes-1 := hlength ▸ (List.getElem?_eq_some_iff.1 hx).1
      obtain rfl : most c = x := Option.some.inj ((hget c hc).symm.trans hx)
      refine ⟨by omega,by omega,fun d hd hd' m hm => ?_⟩
      obtain ⟨d,rfl⟩ := Nat.exists_eq_add_of_le' hd
      have hle := htop _ (List.mem_of_getElem? (hget d (by omega)))
      exact (hspec c m).1 (((hspec d m).2 hm).trans hle)
    · rintro ⟨-,hc,hall⟩
      refine ⟨most c,hget c (by omega),fun y hy => ?_⟩
      obtain ⟨d,hd⟩ := List.mem_iff_getElem?.1 hy
      have hd' : d < classes-1 := hlength ▸ (List.getElem?_eq_some_iff.1 hd).1
      obtain rfl : most d = y := Option.some.inj ((hget d hd').symm.trans hd)
      exact (hspec c _).2 (hall (d+1) (by omega) (by omega) _ ((hspec d _).1 le_rfl))
  obtain ⟨hmem,hleast⟩ := Fixed.argmax_isLeast (v := lengths) (by
    rw [← List.length_pos_iff, hlength]
    omega)
  refine ⟨lengths,hok,⟨(hleading _).1 hmem,fun c hc => ?_⟩,fun m => ?_⟩
  · obtain ⟨c,rfl⟩ := Nat.exists_eq_add_of_le' hc.1
    exact Nat.succ_le_succ (hleast ((hleading c).2 hc))
  · have hbest := hget (Fixed.argmax lengths) (by
      have := ((hleading _).1 hmem).2.1
      omega)
    rw [List.getD_eq_getElem?_getD, hbest, Option.getD_some]
    exact hspec _ m

/-- The classes but 0 that have a run of at least the given length. -/
def Lasting (classes : Nat) (shortest : Int) (bag : List Int) : Set Nat :=
  {c | 1 ≤ c ∧ c < classes ∧ ∃ m : Nat, shortest ≤ m ∧ HasRun bag c m}

/-- The smallest class with a run of at least the given length, or 0 if there is none. -/
def SmallestLasting (classes : Nat) (shortest : Int) (bag : List Int) (c : Nat) : Prop :=
  IsLeast (Lasting classes shortest bag) c ∨ c = 0 ∧ Lasting classes shortest bag = ∅

/-- The first class with the longest run, if that run has at least the given length, or 0 if no
class has such a run. -/
def FirstLongest (classes : Nat) (shortest : Int) (bag : List Int) (c : Nat) : Prop :=
  IsLeast (Leading classes bag) c ∧ c ∈ Lasting classes shortest bag ∨
    c = 0 ∧ Lasting classes shortest bag = ∅

theorem prediction_spec (hclasses : 2 ≤ classes) (shortest : Int) (hbag : bag ≠ []) :
    ∃ c, prediction classes shortest bag = .ok c ∧ FirstLongest classes shortest bag c := by
  obtain ⟨lengths,hok,hleast,hlength⟩ := longestOfClasses_spec hclasses hbag
  generalize hn : lengths.getD (Fixed.argmax lengths) 0 = n at hlength
  have hprediction : prediction classes shortest bag =
      if shortest ≤ (n : Nat) then .ok (Fixed.argmax lengths+1) else .ok 0 := by
    rw [prediction, hok, ← hn]
    rfl
  rw [hprediction]
  split
  · rename_i hlong
    obtain ⟨hpos,hlt,-⟩ := hleast.1
    exact ⟨_,rfl,.inl ⟨hleast,hpos,hlt,n,hlong,(hlength n).1 le_rfl⟩⟩
  · rename_i hshort
    refine ⟨0,rfl,.inr ⟨rfl,Set.eq_empty_iff_forall_notMem.2 ?_⟩⟩
    rintro c ⟨hpos,hlt,m,hm,hrun⟩
    have hle := (hlength m).2 (hleast.1.2.2 c hpos hlt m hrun)
    omega

theorem FirstLongest.smallest_iff {shortest : Int} {c : Nat}
    (h : FirstLongest classes shortest bag c) : SmallestLasting classes shortest bag c ↔
      ∀ d, IsLeast (Lasting classes shortest bag) d → d ∈ Leading classes bag := by
  rcases h with ⟨hfirst,hlasting⟩ | ⟨rfl,hnone⟩
  · constructor
    · rintro (hleast | ⟨-,hnone⟩) d hd
      · rw [hd.unique hleast]
        exact hfirst.1
      · simp [hnone] at hlasting
    · intro hleading
      have hd : IsLeast (Lasting classes shortest bag) (sInf (Lasting classes shortest bag)) :=
        ⟨Nat.sInf_mem ⟨c,hlasting⟩,fun _ => Nat.sInf_le⟩
      have hle := hfirst.2 (hleading _ hd)
      exact .inl ⟨hlasting,fun e he => hle.trans (hd.2 he)⟩
  · refine iff_of_true (.inr ⟨rfl,hnone⟩) fun d hd => ?_
    exact absurd (hnone ▸ hd.1) (Set.notMem_empty d)

/-- Every bag is predicted as the first class with the longest run. This is the smallest class with
a run of the demanded length exactly if that class has a longest run of all. -/
theorem predictions_smallest_iff (hclasses : 2 ≤ classes) (shortest : Int) {bags : List (List Int)}
    (hbags : ∀ bag ∈ bags, bag ≠ []) :
    ∃ out, predictions classes shortest bags = .ok out ∧
      List.Forall₂ (fun bag c => FirstLongest classes shortest bag c ∧
        (SmallestLasting classes shortest bag c ↔
          ∀ d, IsLeast (Lasting classes shortest bag) d → d ∈ Leading classes bag)) bags out := by
  obtain ⟨out,hout,hall⟩ := Model.mapM_forall₂ fun bag hbag =>
    prediction_spec hclasses shortest (hbags bag hbag)
  refine ⟨out,?_,hall.imp fun bag c h => ⟨h,h.smallest_iff⟩⟩
  rw [predictions, hout, decide_eq_true hclasses]
  rfl

/-- Two classes have runs of at least two instances, and the greater one has the longer run. -/
theorem predictions_smallest_iff_longer : ∃ c, predictions 3 2 [[1, 1, 2, 2, 2]] = .ok [c] ∧
    ¬ SmallestLasting 3 2 [1, 1, 2, 2, 2] c := by
  have hone (m : Nat) : HasRun [1, 1, 2, 2, 2] 1 m ↔ m ≤ 2 := hasRun_iff rfl
  have htwo (m : Nat) : HasRun [1, 1, 2, 2, 2] 2 m ↔ m ≤ 3 := hasRun_iff rfl
  have hbags : ∀ bag ∈ [[(1 : Int), 1, 2, 2, 2]], bag ≠ [] := by decide
  obtain ⟨out,hout,hall⟩ := predictions_smallest_iff (show 2 ≤ 3 by decide) 2 hbags
  cases hall with
  | cons h hnil =>
    cases hnil
    refine ⟨_,hout,fun hsmallest => ?_⟩
    have hleast : IsLeast (Lasting 3 2 [1, 1, 2, 2, 2]) 1 :=
      ⟨⟨le_rfl,by decide,2,le_rfl,(hone 2).2 le_rfl⟩,fun c hc => hc.1⟩
    have hleading := (h.2.1 hsmallest 1 hleast).2.2 2 (by decide) (by decide) 3 ((htwo 3).2 le_rfl)
    exact absurd ((hone 3).1 hleading) (by decide)

end MicroLearn.Bag
