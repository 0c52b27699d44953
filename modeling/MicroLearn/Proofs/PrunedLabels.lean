import Mathlib
import MicroLearn.Bag.Policy
import MicroLearn.Proofs.Word

/-!
# Labels under pruning

A bag of one class is pruned by call after call, each on the labels that the call before it left.
Whatever the scores, the labels of the bag stay a core of its class between two ends of class 0. The
ends only grow, by as much as one call and all calls together may turn, and the core never vanishes.
-/

set_option autoImplicit false

open List (map_map mem_cons replicate replicate_succ)

namespace MicroLearn.Bag

section OneHot

variable {β : Type} [Zero β] [One β]

@[simp] theorem length_oneHot (classes p : Nat) : (oneHot classes p : List β).length = classes := by
  simp [oneHot]

theorem oneHot_split {classes p} (hp : p < classes) : (oneHot classes p : List β) =
      replicate p 0++1::replicate (classes-p-1) 0 := by
  apply List.ext_getElem
  · simp
    omega
  · intro c hc _
    by_cases hcp : c < p
    · simp [oneHot, hcp, Nat.ne_of_lt hcp]
    · by_cases heq : c = p
      · simp [oneHot, heq]
      · simp [oneHot, List.getElem_append, List.getElem_cons, heq, show c-p ≠ 0 by omega]

/-- Zero is below one, and both are comparable to themselves. -/
structure ZeroBelowOne (β : Type) [LE β] [Zero β] [One β] : Prop where
  zero : (0 : β) ≤ 0
  one : (1 : β) ≤ 1
  below : (0 : β) ≤ 1
  strictly : ¬ (1 : β) ≤ 0

variable [LE β] [DecidableLE β]

omit [One β] in
theorem topFrom_zeros (count best i : Nat) (value : β) (rest : List β) (h : (0 : β) ≤ value) :
    topFrom best value i (replicate count 0++rest) = topFrom best value (i+count) rest := by
  induction count generalizing i with
  | zero => rfl
  | succ count ih =>
    rw [replicate_succ, List.cons_append, topFrom, if_pos h, ih]
    congr 1
    omega

theorem top_oneHot (h : ZeroBelowOne β) {classes p} (hp : p < classes) :
    top (oneHot classes p : List β) = .ok (p,1) := by
  have hzeros : ∀ best i count : Nat, topFrom best (1 : β) i (replicate count 0) = (best,1) := by
    intro best i count
    simpa [topFrom] using topFrom_zeros count best i 1 [] h.below
  rw [oneHot_split hp]
  cases p with
  | zero => simp [top, hzeros]
  | succ p =>
    rw [replicate_succ, List.cons_append, top, if_pos h.zero, topFrom_zeros p 0 1 0 _ h.zero,
      topFrom, if_neg h.strictly, if_pos h.one, hzeros, Nat.add_comm]

theorem negatives_replicate (h : ZeroBelowOne β) {classes p} (hp : p < classes) (hp0 : p ≠ 0)
    (count : Nat) (rest : List (List β)) :
    negatives (replicate count (oneHot classes 0)++oneHot classes p::rest) = .ok count := by
  induction count with
  | zero =>
    rw [List.replicate_zero, List.nil_append, negatives, top_oneHot h hp]
    simp [bind, Except.bind, pure, Except.pure, hp0]
  | succ count ih =>
    rw [replicate_succ, List.cons_append, negatives, top_oneHot h (by omega), ih]
    simp [bind, Except.bind, pure, Except.pure]

end OneHot

section Between

variable {β : Type} [Zero β] [One β]

/-- The labels of a bag of class `p` with a number of instances of class 0 at either end. -/
def between (classes p front core back : Nat) : List (List β) :=
  replicate front (oneHot classes 0)++replicate core (oneHot classes p) ++
    replicate back (oneHot classes 0)

@[simp] theorem length_between (classes p front core back : Nat) :
    (between classes p front core back : List (List β)).length = front+core+back := by
  simp [between, Nat.add_assoc]

theorem reverse_between (classes p front core back : Nat) :
    (between classes p front core back : List (List β)).reverse =
      between classes p back core front := by
  simp [between]

theorem getElem_between (classes p front core back q : Nat)
    (h : q < (between classes p front core back : List (List β)).length) :
    (between classes p front core back : List (List β))[q] =
      if q < front ∨ front+core ≤ q then oneHot classes 0 else oneHot classes p := by
  by_cases hfront : q < front
  · simp [between, hfront]
  · by_cases hcore : q < front+core
    · simp [between, List.getElem_append, show q-front < core by omega,
        show ¬ front+core ≤ q by omega]
    · simp [between, List.getElem_append, show ¬ q-front < core by omega,
        show front+core ≤ q by omega]

theorem mem_between {classes p front core back} {row}
    (h : row ∈ (between classes p front core back : List (List β))) :
    row = oneHot classes 0 ∨ row = oneHot classes p := by
  simp only [between, List.mem_append, List.mem_replicate] at h
  tauto

theorem turn_between (classes p n : Nat) (old new : Nat × Nat) {places : List Nat}
    (hnew : new.1+new.2 ≤ n) (hfront : old.1 ≤ new.1) (hback : old.2 ≤ new.2)
    (hplaces : ∀ q, q ∈ places ↔ (old.1 ≤ q ∧ q < new.1) ∨ (n ≤ q+new.2 ∧ q+old.2 < n)) :
    ((between classes p old.1 (n-old.1-old.2) old.2 : List (List β)).zipIdx.map fun (row,q) =>
      if places.contains q then oneHot row.length 0 else row) =
        between classes p new.1 (n-new.1-new.2) new.2 := by
  apply List.ext_getElem
  · simp
    omega
  · intro q hq _
    simp only [List.getElem_map, List.getElem_zipIdx, getElem_between, Nat.zero_add,
      apply_ite List.length,
      length_oneHot, ite_self, List.contains_eq_mem, decide_eq_true_eq, hplaces]
    by_cases hturned : (old.1 ≤ q ∧ q < new.1) ∨ (n ≤ q+new.2 ∧ q+old.2 < n)
    · rw [if_pos hturned, if_pos (by omega)]
    · rw [if_neg hturned]
      by_cases hends : q < old.1 ∨ old.1+(n-old.1-old.2) ≤ q
      · rw [if_pos hends, if_pos (by omega)]
      · rw [if_neg hends, if_neg (by omega)]

variable [LE β] [DecidableLE β]

theorem negatives_between (h : ZeroBelowOne β) {classes p} (hp : p < classes) (hp0 : p ≠ 0)
    (front core back : Nat) (hcore : 1 ≤ core) :
    negatives (between classes p front core back : List (List β)) = .ok front := by
  obtain ⟨core,rfl⟩ := Nat.exists_eq_add_of_le' hcore
  rw [between, replicate_succ, List.append_assoc]
  exact negatives_replicate h hp hp0 front _

end Between

section Turning

variable {α : Type} [LE α] [DecidableLE α]

theorem top_ok {row : List α} (h : row ≠ []) : ∃ t, top row = .ok t := by
  cases row with
  | nil => exact absurd rfl h
  | cons x xs => exact ⟨_,rfl⟩

theorem turned_succ (s : Pruning α) (scores : Scores α) (count : Nat) {left right : Int}
    {atLeft atRight} (hleft : 0 ≤ left ∧ left < scores.length)
    (hright : 0 ≤ right ∧ right < scores.length)
    (hatLeft : top (scores.getD left.toNat []) = .ok atLeft)
    (hatRight : top (scores.getD right.toNat []) = .ok atRight) :
    turned s scores (count+1) left right =
      match nextEnd s atLeft atRight with
      | none => .ok []
      | some .left => (left.toNat :: ·) <$> turned s scores count (left+1) right
      | some .right => (right.toNat :: ·) <$> turned s scores count left (right-1) := by
  rw [turned]
  simp only [hleft, hright, hatLeft, hatRight, bind, Except.bind]
  cases nextEnd s atLeft atRight with
  | none => rfl
  | some e => cases e <;> rfl

/-- The two ends never meet as long as fewer instances are turned than there are: what is turned are
the instances between the old front and a new one, and those between a new back and the old one. -/
theorem turned_ok (s : Pruning α) (scores : Scores α) (hrows : ∀ row ∈ scores, row ≠ [])
    (count front back : Nat) (h : front+back+count < scores.length) :
    ∃ places front' back', turned s scores count front (scores.length-back-1) = .ok places ∧
      front ≤ front' ∧ back ≤ back' ∧ front'+back' ≤ front+back+count ∧
      ∀ q, q ∈ places ↔
        (front ≤ q ∧ q < front') ∨ (scores.length ≤ q+back' ∧ q+back < scores.length) := by
  induction count generalizing front back with
  | zero =>
    refine ⟨[],front,back,rfl,le_rfl,le_rfl,le_rfl,fun q => ?_⟩
    simp only [List.not_mem_nil, false_iff]
    omega
  | succ count ih =>
    have hrow : ∀ q < scores.length, ∃ t, top (scores.getD q []) = .ok t := by
      intro q hq
      apply top_ok
      rw [List.getD_eq_getElem _ _ hq]
      exact hrows _ (List.getElem_mem hq)
    obtain ⟨atLeft,hatLeft⟩ := hrow (front : Int).toNat (by omega)
    obtain ⟨atRight,hatRight⟩ := hrow ((scores.length : Int)-back-1).toNat (by omega)
    rw [turned_succ s scores count (by omega) (by omega) hatLeft hatRight]
    cases nextEnd s atLeft atRight with
    | none =>
      refine ⟨[],front,back,rfl,le_rfl,le_rfl,by omega,fun q => ?_⟩
      simp only [List.not_mem_nil, false_iff]
      omega
    | some e =>
      cases e with
      | left =>
        obtain ⟨places,front',back',hturned,hfront,hback,hsum,hmem⟩ :=
          ih (front+1) back (by omega)
        refine ⟨front::places,front',back',?_,by omega,hback,by omega,fun q => ?_⟩
        · simp only [Nat.cast_add, Nat.cast_one] at hturned
          simp [hturned]
        · rw [mem_cons, hmem]
          omega
      | right =>
        obtain ⟨places,front',back',hturned,hfront,hback,hsum,hmem⟩ :=
          ih front (back+1) (by omega)
        refine ⟨(scores.length-back-1)::places,front',back',?_,hfront,by omega,by omega,
          fun q => ?_⟩
        · rw [show (scores.length : Int)-back-1-1 = scores.length-(back+1 : Nat)-1 by omega,
            hturned, show ((scores.length : Int)-back-1).toNat = scores.length-back-1 by omega]
          rfl
        · rw [mem_cons, hmem]
          omega

end Turning

section Bag

variable {α β : Type} [LE α] [DecidableLE α] [LE β] [DecidableLE β] [Zero β] [One β]

/-- What a call may do to the ends of a bag. -/
structure Grows (s : Pruning α) (old new : Nat × Nat) : Prop where
  front : old.1 ≤ new.1
  back : old.2 ≤ new.2
  perCall : (new.1+new.2 : Int) ≤ old.1+old.2+s.perCall
  allowed : (new.1+new.2 : Int) ≤ s.allowed

theorem pruneBag_between (h : ZeroBelowOne β) {s : Pruning α} {scores}
    (hrows : ∀ row ∈ scores, row ≠ []) {n classes p : Nat} (hn : scores.length = n)
    (hp : p < classes) (hp0 : p ≠ 0) (hlimit : s.allowed < n) (hper : 0 ≤ s.perCall)
    {old} (hold : (old.1+old.2 : Int) ≤ s.allowed) : ∃ new, Grows s old new ∧
      pruneBag s scores (between classes p old.1 (n-old.1-old.2) old.2 : List (List β)) =
        .ok (between classes p new.1 (n-new.1-new.2) new.2) := by
  have hcore : 1 ≤ n-old.1-old.2 := by omega
  have hsum : old.1+(n-old.1-old.2)+old.2 = n := by omega
  obtain ⟨places,front,back,hturned,hfront,hback,hcount,hmem⟩ :=
    turned_ok s scores hrows (min s.perCall (s.allowed-old.1-old.2)).toNat old.1 old.2 (by omega)
  rw [hn] at hturned hmem
  refine ⟨(front,back),⟨hfront,hback,by simp only; omega,by simp only; omega⟩,?_⟩
  rw [pruneBag, negatives_between h hp hp0 _ _ _ hcore, reverse_between,
    negatives_between h hp hp0 _ _ _ hcore]
  simp only [length_between, hsum, bind, Except.bind, decide_eq_true hold, hturned]
  exact congrArg Except.ok
    (turn_between classes p n old (front,back) (by simp only; omega) hfront hback hmem)

end Bag

section Arrays

variable {α : Type}

def Boxed (bags n k : Nat) (rows : List (List (List α))) : Prop :=
  rows.length = bags ∧ ∀ bag ∈ rows, bag.length = n ∧ ∀ row ∈ bag, row.length = k

theorem parts_flatten (parts : List (List α)) (shape : List Nat)
    (h : ∀ part ∈ parts, part.length = shapeSize shape) :
    (⟨parts.length::shape,parts.flatten.toArray⟩ : Tensor α).parts =
      parts.map fun part => ⟨shape,part.toArray⟩ := by
  apply List.ext_getElem
  · simp [Tensor.parts]
  · intro i hi _
    have hlt : i < parts.length := by simpa [Tensor.parts] using hi
    simp only [Tensor.parts, List.getElem_map, List.getElem_range, List.extract_toArray,
      List.extract_eq_take_drop, Nat.succ_mul, Nat.add_sub_cancel_left,
      Fixed.take_drop_flatten h hlt]

theorem toCube_flatten {bags n k} {rows} (h : Boxed bags n k rows) :
    (⟨[bags, n, k],rows.flatten.flatten.toArray⟩ : Tensor α).toCube? = some rows := by
  obtain ⟨hbags,hrows⟩ := h
  have hparts : ∀ part ∈ rows.map List.flatten, part.length = shapeSize [n, k] := by
    intro part hpart
    obtain ⟨bag,hbag,rfl⟩ := List.mem_map.1 hpart
    rw [← List.flatMap_id, Fixed.flatMap_length bag id k (hrows bag hbag).2, (hrows bag hbag).1]
    simp [shapeSize]
  have hcount : bags = (rows.map List.flatten).length := by simpa using hbags.symm
  rw [Tensor.toCube?, List.flatten_flatten, hcount, parts_flatten _ _ hparts, map_map, map_map]
  refine congrArg some ((List.map_congr_left fun bag hbag => ?_).trans (List.map_id rows))
  obtain ⟨hn,hk⟩ := hrows bag hbag
  have hinner := parts_flatten bag [k] fun row hrow => by simpa [shapeSize] using hk row hrow
  rw [hn] at hinner
  simp only [Function.comp_apply, hinner, map_map]
  exact List.map_id bag

theorem size_part {t : Tensor α} {count} {shape} (hshape : t.shape = count::shape)
    (hsize : t.data.size = count*shapeSize shape) {part} (h : part ∈ t.parts) :
    part.shape = shape ∧ part.data.size = shapeSize shape := by
  rw [Tensor.parts, hshape] at h
  obtain ⟨i,hi,rfl⟩ := List.mem_map.1 h
  have hlast := Fixed.row_end_le (shapeSize shape) (List.mem_range.1 hi)
  refine ⟨rfl,?_⟩
  simp only [Array.size_extract, Nat.succ_mul]
  omega

theorem toCube_boxed {bags n k} {t : Tensor α} (hshape : t.shape = [bags, n, k])
    (hsize : t.data.size = bags*n*k) : ∃ rows, t.toCube? = some rows ∧ Boxed bags n k rows := by
  refine ⟨_,if_pos (by rw [Tensor.rank, hshape]; rfl),by simp [Tensor.parts, hshape],?_⟩
  intro bag hbag
  obtain ⟨part,hpart,rfl⟩ := List.mem_map.1 hbag
  obtain ⟨hn,hsize'⟩ := size_part hshape (by simpa [shapeSize, Nat.mul_assoc] using hsize) hpart
  refine ⟨by simp [Tensor.parts, hn],fun row hrow => ?_⟩
  obtain ⟨inner,hinner,rfl⟩ := List.mem_map.1 hrow
  have hk := (size_part hn (by simpa [shapeSize] using hsize') hinner).2
  simpa [shapeSize] using hk

end Arrays

section Calls

variable {α β : Type} [LE α] [DecidableLE α] [LE β] [DecidableLE β] [Zero β] [One β]
variable {ends : Nat → Nat × Nat}

/-- The labels of all bags once some instances have been turned at the ends of each. -/
def labelsAt (n classes : Nat) (bags : List Nat) (start : List (List (List β)))
    (ends : Nat → Nat × Nat) : List (List (List β)) :=
  bags.mapIdx fun j p =>
    if p = 0 then start.getD j []
    else between classes p (ends j).1 (n-(ends j).1-(ends j).2) (ends j).2

theorem pruneEnds_labelsAt (h : ZeroBelowOne β) {s : Pruning α} {n k classes} {bags}
    (start : List (List (List β))) {scores : List (Scores α)}
    (hk : bags ≠ [] → k ≠ 0) (hscores : Boxed bags.length n k scores)
      (hbags : ∀ p ∈ bags, p < classes)
    (hlimit : s.allowed < n) (hper : 0 ≤ s.perCall)
    (hends : ∀ j, ((ends j).1+(ends j).2 : Int) ≤ s.allowed) :
    ∃ new, (∀ j, Grows s (ends j) (new j)) ∧
      pruneEnds s n n (labelsAt n classes bags start ends) scores (bags.map Int.ofNat) =
        .ok (labelsAt n classes bags start new) := by
  have hbag : ∀ j, ∃ new, Grows s (ends j) new ∧ ∀ p sc, bags[j]? = some p → p ≠ 0 →
      scores[j]? = some sc → pruneBag s sc
        (between classes p (ends j).1 (n-(ends j).1-(ends j).2) (ends j).2 : List (List β)) =
          .ok (between classes p new.1 (n-new.1-new.2) new.2) := by
    intro j
    by_cases hj : ∃ p sc, bags[j]? = some p ∧ p ≠ 0 ∧ scores[j]? = some sc
    · obtain ⟨p,sc,hp,hp0,hsc⟩ := hj
      have hclass : p < classes := hbags p (List.mem_of_getElem? hp)
      obtain ⟨hlength,hwidth⟩ := hscores.2 sc (List.mem_of_getElem? hsc)
      have hrows : ∀ row ∈ sc, row ≠ [] := by
        rintro row hrow rfl
        exact hk (List.ne_nil_of_mem (List.mem_of_getElem? hp)) (hwidth [] hrow).symm
      obtain ⟨new,hgrows,hnew⟩ := pruneBag_between h hrows hlength hclass hp0 hlimit hper (hends j)
      refine ⟨new,hgrows,fun q sc' hq _ hsc' => ?_⟩
      obtain rfl : p = q := by simpa [hp] using hq
      obtain rfl : sc = sc' := by simpa [hsc] using hsc'
      exact hnew
    · refine ⟨ends j,⟨le_rfl,le_rfl,by omega,hends j⟩,fun p sc hp hp0 hsc => ?_⟩
      exact absurd ⟨p,sc,hp,hp0,hsc⟩ hj
  choose new hgrows hnew using hbag
  refine ⟨new,hgrows,?_⟩
  rw [pruneEnds]
  simp only [labelsAt, List.length_mapIdx, hscores.1, List.length_map, beq_self_eq_true,
    decide_eq_true hlimit]
  apply Model.mapM_ok_of_getElem
  · simp [hscores.1]
  · rintro j ⟨⟨own,sc⟩,label⟩ hj
    obtain ⟨hpair,hlabel⟩ := List.getElem?_zip_eq_some.1 hj
    obtain ⟨hown,hsc⟩ := List.getElem?_zip_eq_some.1 hpair
    rw [List.getElem?_map] at hlabel
    obtain ⟨p,hp,rfl⟩ := Option.map_eq_some_iff.1 hlabel
    rw [List.getElem?_mapIdx, hp] at hown
    refine ⟨_,by rw [List.getElem?_mapIdx, hp]; rfl,?_⟩
    by_cases hp0 : p = 0
    · simp [hp0] at hown ⊢
      exact hown.symm
    · simp [hp0] at hown ⊢
      rw [← hown]
      exact hnew j p sc hp hp0 hsc

/-- Labels of bags with some instances turned at the ends of each. -/
structure Pruned (n classes : Nat) (bags : List Nat) (start rows : List (List (List β)))
    (ends : Nat → Nat × Nat) : Prop where
  length : rows.length = bags.length
  negative : ∀ j : Nat, bags[j]? = some 0 → rows[j]? = start[j]?
  positive : ∀ (j p : Nat), bags[j]? = some p → p ≠ 0 → ∃ core, 1 ≤ core ∧
    (ends j).1+core+(ends j).2 = n ∧ rows[j]? = some (between classes p (ends j).1 core (ends j).2)
  rows : ∀ bag ∈ rows, bag.length = n ∧ ∀ row ∈ bag, ∃ c < classes, row = oneHot classes c

omit [LE β] [DecidableLE β] in
theorem pruned_labelsAt {n classes} {bags} {start : List (List (List β))}
    (hstart : Pruned n classes bags start start fun _ => (0,0))
    (hbags : ∀ p ∈ bags, p < classes) (hends : ∀ j, (ends j).1+(ends j).2 < n) :
    Pruned n classes bags start (labelsAt n classes bags start ends) ends := by
  have hzero : ∀ j : Nat, bags[j]? = some 0 → ∃ bag ∈ start, start[j]? = some bag := by
    intro j hj
    have hlt : j < start.length := hstart.length ▸ (List.getElem?_eq_some_iff.1 hj).1
    exact ⟨start[j],List.getElem_mem hlt,List.getElem?_eq_getElem hlt⟩
  refine ⟨by simp [labelsAt],fun j hj => ?_,fun j p hp hp0 => ?_,fun bag hbag => ?_⟩
  · obtain ⟨bag,-,hbag⟩ := hzero j hj
    simp [labelsAt, hj, hbag]
  · have hsum := hends j
    refine ⟨n-(ends j).1-(ends j).2,by omega,by omega,?_⟩
    simp [labelsAt, hp, hp0]
  · obtain ⟨j,hj⟩ := List.getElem?_of_mem hbag
    rw [labelsAt, List.getElem?_mapIdx] at hj
    obtain ⟨p,hp,rfl⟩ := Option.map_eq_some_iff.1 hj
    by_cases hp0 : p = 0
    · subst hp0
      obtain ⟨bag,hmem,hbag⟩ := hzero j hp
      simpa [hbag] using hstart.rows bag hmem
    · have hsum := hends j
      have hclass := hbags p (List.mem_of_getElem? hp)
      rw [if_neg hp0]
      refine ⟨by rw [length_between]; omega,fun row hrow => ?_⟩
      obtain rfl | rfl := mem_between hrow
      · exact ⟨0,by omega,rfl⟩
      · exact ⟨p,hclass,rfl⟩

omit [LE β] [DecidableLE β] in
theorem labelsAt_start {n classes} {bags} {start : List (List (List β))}
    (hstart : Pruned n classes bags start start fun _ => (0,0)) :
    labelsAt n classes bags start (fun _ => (0,0)) = start := by
  apply List.ext_getElem?
  intro j
  rw [labelsAt, List.getElem?_mapIdx]
  cases hp : bags[j]? with
  | none =>
    rw [List.getElem?_eq_none_iff, ← hstart.length, ← List.getElem?_eq_none_iff] at hp
    exact hp.symm
  | some p =>
    by_cases hp0 : p = 0
    · have hlt : j < start.length := hstart.length ▸ (List.getElem?_eq_some_iff.1 hp).1
      simp [hp0, hlt]
    · obtain ⟨core,-,hcore,hbag⟩ := hstart.positive j p hp hp0
      obtain rfl : core = n := by simpa using hcore
      simp [hbag]

omit [LE β] [DecidableLE β] in
theorem Pruned.boxed {n classes} {bags} {start rows : List (List (List β))}
    (h : Pruned n classes bags start rows ends) : Boxed bags.length n classes rows := by
  refine ⟨h.length,fun bag hbag => ⟨(h.rows bag hbag).1,fun row hrow => ?_⟩⟩
  obtain ⟨c,-,rfl⟩ := (h.rows bag hbag).2 row hrow
  exact length_oneHot classes c

end Calls

/-- Calls of a policy one after another, each on the labels that the one before it left: the labels
after each of them. -/
def updates (p : Policy Float) (classes : Nat) (bagLabels : Tensor Int) :
    Tensor Float → List (Tensor Float) → Except Fault (List (Tensor Float))
  | _, [] => .ok []
  | labels, scores::rest => do
    let new ← update p classes labels scores bagLabels
    let next : Tensor Float := ⟨labels.shape,new.flatten.flatten.toArray⟩
    return next::(← updates p classes bagLabels next rest)

/-- Labels before the first call: every row is one-hot, and every instance of a bag whose label is
not 0 has the label of its bag. -/
structure FirstLabels (n classes : Nat) (bags : List Nat) (labels : Tensor Float)
    (start : List (List (List Float))) : Prop where
  shape : labels.shape = [bags.length, n, classes]
  rows : labels.toCube? = some start
  marked : ∀ bag ∈ start, ∀ row ∈ bag, ∃ c < classes, row = oneHot classes c
  own : ∀ (j p : Nat), bags[j]? = some p → p ≠ 0 → start[j]? = some (replicate n (oneHot classes p))

theorem FirstLabels.pruned {n classes} {bags} {labels}
    {start} (h : FirstLabels n classes bags labels start) (hn : 1 ≤ n) :
    Pruned n classes bags start start fun _ => (0,0) := by
  have hrows := h.rows
  rw [Tensor.toCube?, if_pos (by rw [Tensor.rank, h.shape]; rfl), Option.some.injEq] at hrows
  refine ⟨by simp [← hrows, Tensor.parts, h.shape],fun _ _ => rfl,fun j p hp hp0 => ?_,
    fun bag hbag => ?_⟩
  · exact ⟨n,hn,by simp,by simp [h.own j p hp hp0, between]⟩
  · refine ⟨?_,h.marked bag hbag⟩
    rw [← hrows, Tensor.parts, h.shape] at hbag
    obtain ⟨part,hpart,rfl⟩ := List.mem_map.1 hbag
    obtain ⟨i,-,rfl⟩ := List.mem_map.1 hpart
    simp [Tensor.parts]

theorem zeroBelowOne_float : ZeroBelowOne Float := ⟨by decide,by decide,by decide,by decide⟩

section Run

variable {n classes : Nat} {bags : List Nat} {s : Pruning Float} {start : List (List (List Float))}

variable (hlimit : s.allowed < n) (hper : 0 ≤ s.perCall) (hbags : ∀ p ∈ bags, p < classes)
include hlimit hper hbags

theorem update_pruned {labels scores} {ends}
    (hends : ∀ j, ((ends j).1+(ends j).2 : Int) ≤ s.allowed)
    (hshape : labels.shape = [bags.length, n, classes])
    (hlabels : labels.toCube? = some (labelsAt n classes bags start ends))
    (hscores : scores.shape = [bags.length, n, classes] ∧
      scores.data.size = bags.length*n*classes) :
    ∃ new, (∀ j, Grows s (ends j) (new j)) ∧
      update (.pruneEnds s) classes labels scores (.vector (bags.map Int.ofNat)) =
        .ok (labelsAt n classes bags start new) := by
  obtain ⟨rows,hrows,hboxed⟩ := toCube_boxed hscores.1 hscores.2
  have hclasses : bags ≠ [] → classes ≠ 0 := by
    intro hne
    have hhead := hbags (bags.head hne) (List.head_mem hne)
    omega
  obtain ⟨new,hgrows,hnew⟩ :=
    pruneEnds_labelsAt zeroBelowOne_float start hclasses hboxed hbags hlimit hper hends
  refine ⟨new,hgrows,?_⟩
  rw [update, hlabels, hshape, hscores.1, hrows, ← hnew]
  rfl

/-- The calls all succeed; after each of them the labels are what the ends of the bags then make of
the first ones. -/
theorem updates_pruned (hstart : Pruned n classes bags start start fun _ => (0,0))
    (outs : List (Tensor Float))
    (houts : ∀ t ∈ outs, t.shape = [bags.length, n, classes] ∧ t.data.size = bags.length*n*classes)
    (labels : Tensor Float) (ends : Nat → Nat × Nat)
    (hends : ∀ j, ((ends j).1+(ends j).2 : Int) ≤ s.allowed)
    (hshape : labels.shape = [bags.length, n, classes])
    (hlabels : labels.toCube? = some (labelsAt n classes bags start ends)) : ∃ after history,
      updates (.pruneEnds s) classes (.vector (bags.map Int.ofNat)) labels outs = .ok after ∧
      after.length = outs.length ∧
      List.Forall₂ (fun y ends => y.shape = labels.shape ∧
        ∃ rows, y.toCube? = some rows ∧ Pruned n classes bags start rows ends) after history ∧
      List.IsChain (fun old new => ∀ j, Grows s (old j) (new j)) (ends::history) := by
  induction outs generalizing labels ends with
  | nil => exact ⟨[],[],rfl,rfl,.nil,.singleton ends⟩
  | cons scores outs ih =>
    obtain ⟨new,hgrows,hnew⟩ :=
      update_pruned hlimit hper hbags hends hshape hlabels (houts scores (by simp))
    have hpruned : Pruned n classes bags start (labelsAt n classes bags start new) new :=
      pruned_labelsAt hstart hbags fun j => by have := (hgrows j).allowed; omega
    let next : Tensor Float :=
      ⟨labels.shape,(labelsAt n classes bags start new).flatten.flatten.toArray⟩
    have hcube : next.toCube? = some (labelsAt n classes bags start new) := by
      simpa only [next, hshape] using toCube_flatten hpruned.boxed
    obtain ⟨after,history,hafter,hlength,hall,hchain⟩ :=
      ih (fun t ht => houts t (by simp [ht])) next new (fun j => (hgrows j).allowed) hshape hcube
    refine ⟨next::after,new::history,?_,by simpa using hlength,
      .cons ⟨rfl,_,hcube,hpruned⟩ hall,.cons_cons hgrows hchain⟩
    rw [updates, hnew]
    exact congrArg (fun rest => (next :: ·) <$> rest) hafter

end Run

/-- Pruning in any number of calls on whatever scores: no call fails; after each call a bag of label
0 has its first labels, and the labels of every other bag are its class between two ends of class 0,
with at least one instance in between and at most `allowed` in the ends; the ends never shrink, a
call adds at most `perCall` instances to them, and all rows are one-hot. -/
theorem pruning_keeps_core (n classes : Nat) (bags : List Nat) (s : Pruning Float)
    (hallowed : 0 ≤ s.allowed) (hlimit : s.allowed < n) (hper : 0 ≤ s.perCall)
    (hbags : ∀ p ∈ bags, p < classes) (labels : Tensor Float) (start : List (List (List Float)))
    (hlabels : FirstLabels n classes bags labels start) (outs : List (Tensor Float))
    (houts : ∀ t ∈ outs, t.shape = [bags.length, n, classes] ∧
      t.data.size = bags.length*n*classes) :
    ∃ after history,
      updates (.pruneEnds s) classes (.vector (bags.map Int.ofNat)) labels outs = .ok after ∧
      after.length = outs.length ∧
      List.Forall₂ (fun y ends => y.shape = labels.shape ∧
        ∃ rows, y.toCube? = some rows ∧ Pruned n classes bags start rows ends) after history ∧
      List.IsChain (fun old new => ∀ j, Grows s (old j) (new j)) ((fun _ => (0,0))::history) := by
  have hstart := hlabels.pruned (by omega)
  apply updates_pruned hlimit hper hbags hstart outs houts labels
  · intro j
    exact hallowed
  · exact hlabels.shape
  · rw [hlabels.rows, labelsAt_start hstart]

namespace TwoCalls

/-- A bag of class 1 and a bag of class 0, of three instances each. -/
def labels : Tensor Float :=
  ⟨[2, 3, 2],#[0, 1, 0, 1, 0, 1, 1, 0, 0, 1, 1, 0]⟩

def start : List (List (List Float)) :=
  [[[0, 1], [0, 1], [0, 1]], [[1, 0], [0, 1], [1, 0]]]

/-- Scores that find class 0 in the first instance, and then in the last one. -/
def outs : List (Tensor Float) :=
  [⟨[2, 3, 2],#[0.75, 0.25, 0.25, 0.75, 0.5, 0.5, 0.75, 0.25, 0.75, 0.25, 0.75, 0.25]⟩,
    ⟨[2, 3, 2],#[0.75, 0.25, 0.25, 0.75, 0.875, 0.125, 0.75, 0.25, 0.75, 0.25, 0.75, 0.25]⟩]

def setting : Pruning Float := ⟨0.5,1,2⟩

theorem first : FirstLabels 3 2 [1, 0] labels start where
  shape := rfl
  rows := rfl
  marked := by
    intro bag hbag row hrow
    have hrows : row = [0, 1] ∨ row = [1, 0] := by
      simp only [start, mem_cons, List.not_mem_nil, or_false] at hbag
      rcases hbag with rfl | rfl <;> simp only [mem_cons] at hrow <;> tauto
    rcases hrows with rfl | rfl
    · exact ⟨1,by decide,rfl⟩
    · exact ⟨0,by decide,rfl⟩
  own := by
    intro j p hp hp0
    rcases j with _ | _ | j
    · obtain rfl : 1 = p := by simpa using hp
      rfl
    · exact absurd (by simpa using hp.symm) hp0
    · simp at hp

end TwoCalls

theorem pruning_keeps_core_two_calls :
    (0 ≤ TwoCalls.setting.allowed ∧ TwoCalls.setting.allowed < 3 ∧ 0 ≤ TwoCalls.setting.perCall) ∧
    FirstLabels 3 2 [1, 0] TwoCalls.labels TwoCalls.start ∧ ∃ after history,
      updates (.pruneEnds TwoCalls.setting) 2 (.vector [1, 0]) TwoCalls.labels TwoCalls.outs =
      .ok after ∧ after.length = 2 ∧
      List.Forall₂ (fun y ends => y.shape = [2, 3, 2] ∧ ∃ rows, y.toCube? = some rows ∧
        Pruned 3 2 [1, 0] TwoCalls.start rows ends) after history ∧
      List.IsChain (fun old new => ∀ j, Grows TwoCalls.setting (old j) (new j))
        ((fun _ => (0,0))::history) := by
  refine ⟨by decide,TwoCalls.first,?_⟩
  exact pruning_keeps_core 3 2 [1, 0] TwoCalls.setting (by decide) (by decide) (by decide)
    (by decide)
    TwoCalls.labels TwoCalls.start TwoCalls.first TwoCalls.outs (by decide)

/-- Where less than nothing may be turned, the first call on a bag of class 1 is refused, though its
labels are such as a first call takes and the limit is below the number of instances. -/
theorem negative_limit_refused :
    FirstLabels 1 2 [1] ⟨[1, 1, 2],#[0, 1]⟩ [[[0, 1]]] ∧ (⟨0,1,-1⟩ : Pruning Float).allowed < 1 ∧
      updates (.pruneEnds ⟨0,1,-1⟩) 2 (.vector [1]) ⟨[1, 1, 2],#[0, 1]⟩
        [⟨[1, 1, 2],#[0.25, 0.75]⟩] = .error .requirement := by
  refine ⟨⟨rfl,rfl,?_,?_⟩,by decide,rfl⟩
  · intro bag hbag row hrow
    simp only [List.mem_singleton] at hbag
    subst hbag
    simp only [List.mem_singleton] at hrow
    subst hrow
    exact ⟨1,by decide,rfl⟩
  · intro j p hp hp0
    cases j with
    | zero =>
      obtain rfl : 1 = p := by simpa using hp
      rfl
    | succ j => simp at hp

end MicroLearn.Bag
