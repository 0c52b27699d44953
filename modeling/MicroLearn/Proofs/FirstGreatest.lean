import Mathlib
import MicroLearn.Single.GatedCell

/-!
# The first greatest entry

The search for a greatest entry keeps the best entry seen so far. Started with the first entry of a
vector it ends at the first of the greatest ones. Started with a bound of its own it does so only
if some entry is above the bound; otherwise it ends at the first entry of all.
-/

set_option autoImplicit false

namespace MicroLearn.Fixed

variable {α : Type} [LinearOrder α]

/-- The places of the greatest entries. -/
def Greatest (v : List α) : Set Nat := {i | ∃ x, v[i]? = some x ∧ ∀ y ∈ v, y ≤ x}

theorem zero_mem_greatest {x : α} {xs} : 0 ∈ Greatest (x::xs) ↔ ∀ y ∈ xs, y ≤ x := by
  simp [Greatest]

theorem greatest_cons {x : α} {xs} (h : ∃ y ∈ xs, x < y) {j} (hj : IsLeast (Greatest xs) j) :
    IsLeast (Greatest (x::xs)) (j+1) := by
  obtain ⟨y,hy,hlt⟩ := h
  obtain ⟨⟨z,hz,htop⟩,hleast⟩ := hj
  refine ⟨⟨z,by simpa using hz,?_⟩,fun i hi => ?_⟩
  · exact List.forall_mem_cons.2 ⟨hlt.le.trans (htop y hy),htop⟩
  · obtain ⟨w,hw,hmax⟩ := hi
    cases i with
    | zero =>
      obtain rfl : x = w := by simpa using hw
      exact absurd (hmax y (List.mem_cons_of_mem _ hy)) hlt.not_ge
    | succ i =>
      exact Nat.succ_le_succ (hleast ⟨w,by simpa using hw,(List.forall_mem_cons.1 hmax).2⟩)

theorem argmaxFrom_of_le {best i : Nat} {value : α} {xs} (h : ∀ x ∈ xs, x ≤ value) :
    argmaxFrom best value i xs = best := by
  induction xs generalizing i with
  | nil => rfl
  | cons x xs ih =>
    obtain ⟨hx,hxs⟩ := List.forall_mem_cons.1 h
    rw [argmaxFrom, if_neg hx.not_gt, ih hxs]

theorem argmaxFrom_of_lt (best i : Nat) {value : α} {xs} (h : ∃ x ∈ xs, value < x) :
    ∃ j, argmaxFrom best value i xs = i+j ∧ IsLeast (Greatest xs) j := by
  induction xs generalizing best value i with
  | nil => simp at h
  | cons x xs ih =>
    -- An entry that does not improve on the best one is below one that does.
    have later (value : α) (best : Nat) (hx : ∃ y ∈ xs, x < y) (h : ∃ y ∈ xs, value < y) :
        ∃ j, argmaxFrom best value (i+1) xs = i+j ∧ IsLeast (Greatest (x::xs)) j := by
      obtain ⟨j,hj,hleast⟩ := ih best (i+1) h
      exact ⟨j+1,by rw [hj]; omega,greatest_cons hx hleast⟩
    rw [argmaxFrom]
    split
    · by_cases hx : ∃ y ∈ xs, x < y
      · exact later x i hx hx
      · push Not at hx
        refine ⟨0,argmaxFrom_of_le hx,zero_mem_greatest.2 hx,fun _ _ => Nat.zero_le _⟩
    · rename_i hvalue
      obtain ⟨y,hy,hlt⟩ := h
      rcases List.mem_cons.1 hy with rfl | hy
      · exact absurd hlt hvalue
      · exact later value best ⟨y,hy,(not_lt.1 hvalue).trans_lt hlt⟩ ⟨y,hy,hlt⟩

theorem argmax_isLeast {v : List α} (hv : v ≠ []) : IsLeast (Greatest v) (argmax v) := by
  obtain ⟨x,xs,rfl⟩ := List.exists_cons_of_ne_nil hv
  rw [argmax]
  by_cases hx : ∃ y ∈ xs, x < y
  · obtain ⟨j,hj,hleast⟩ := argmaxFrom_of_lt 0 1 hx
    rw [hj, Nat.add_comm]
    exact greatest_cons hx hleast
  · push Not at hx
    rw [argmaxFrom_of_le hx]
    exact ⟨zero_mem_greatest.2 hx,fun _ _ => Nat.zero_le _⟩

theorem greatest_map {β : Type} [LinearOrder β] {v : List α} {f : α → β}
    (hf : ∀ x ∈ v, ∀ y ∈ v, (f x < f y ↔ x < y)) : Greatest (v.map f) = Greatest v := by
  ext i
  simp only [Greatest, Set.mem_ofPred_eq, List.getElem?_map, Option.map_eq_some_iff,
    List.forall_mem_map]
  constructor
  · rintro ⟨_,⟨x,hx,rfl⟩,h⟩
    refine ⟨x,hx,fun y hy => not_lt.1 fun hlt => ?_⟩
    exact (h y hy).not_gt ((hf x (List.mem_of_getElem? hx) y hy).2 hlt)
  · rintro ⟨x,hx,h⟩
    refine ⟨f x,⟨x,hx,rfl⟩,fun y hy => not_lt.1 fun hlt => ?_⟩
    exact (h y hy).not_gt ((hf x (List.mem_of_getElem? hx) y hy).1 hlt)

end MicroLearn.Fixed

namespace MicroLearn.Single

open Fixed

section Search

variable {α : Type} [LinearOrder α] {floor : α} {v : List α}

theorem argmaxAbove_isLeast_iff : IsLeast (Greatest v) (argmaxAbove floor v) ↔
    (∃ x ∈ v, floor < x) ∨ 0 ∈ Greatest v := by
  rw [argmaxAbove]
  by_cases h : ∃ x ∈ v, floor < x
  · obtain ⟨j,hj,hleast⟩ := argmaxFrom_of_lt 0 0 h
    rw [hj, Nat.zero_add]
    exact iff_of_true hleast (.inl h)
  · rw [argmaxFrom_of_le (by simpa using h), or_iff_right h]
    exact ⟨fun hleast => hleast.1,fun hzero => ⟨hzero,fun _ _ => Nat.zero_le _⟩⟩

theorem le_peakAbove_iff [Zero α] (hv : v ≠ []) : (∀ x ∈ v, x ≤ peakAbove floor v) ↔
    (∃ x ∈ v, floor < x) ∨ 0 ∈ Greatest v := by
  by_cases h : ∃ x ∈ v, floor < x
  · obtain ⟨⟨x,hx,htop⟩,-⟩ := argmaxAbove_isLeast_iff.2 (.inl h)
    have hpeak : peakAbove floor v = x := by
      rw [peakAbove, List.getD_eq_getElem?_getD, hx, Option.getD_some]
    exact iff_of_true (hpeak ▸ htop) (.inl h)
  · obtain ⟨x,xs,rfl⟩ := List.exists_cons_of_ne_nil hv
    rw [or_iff_right h, peakAbove, argmaxAbove, argmaxFrom_of_le (by simpa using h),
      zero_mem_greatest]
    simp

end Search

variable {α : Type} [AddGroup α] [LinearOrder α] [AddRightMono α]

/-- A search that starts with a bound of its own finds the first of the greatest entries, agrees
with the search on integers in the same order, and leaves no positive difference to what it finds
exactly if some entry is above the bound or the first entry is a greatest one. The search on
integers, which starts with the first entry, always finds it. -/
theorem argmaxAbove_first_iff (floor : α) {v : List α} (hv : v ≠ []) (word : α → Int)
    (hword : ∀ x ∈ v, ∀ y ∈ v, (word x < word y ↔ x < y)) :
    IsLeast (Greatest v) (Fixed.argmax (v.map word)) ∧
    (IsLeast (Greatest v) (argmaxAbove floor v) ↔ (∃ x ∈ v, floor < x) ∨ 0 ∈ Greatest v) ∧
    (argmaxAbove floor v = Fixed.argmax (v.map word) ↔
      (∃ x ∈ v, floor < x) ∨ 0 ∈ Greatest v) ∧
    ((∀ x ∈ v, x-peakAbove floor v ≤ 0) ↔ (∃ x ∈ v, floor < x) ∨ 0 ∈ Greatest v) := by
  have hright : IsLeast (Greatest v) (Fixed.argmax (v.map word)) := by
    rw [← greatest_map hword]
    exact argmax_isLeast (by simpa using hv)
  refine ⟨hright,argmaxAbove_isLeast_iff,?_,?_⟩
  · rw [← argmaxAbove_isLeast_iff]
    exact ⟨fun h => h ▸ hright,fun h => h.unique hright⟩
  · simp only [sub_nonpos]
    exact le_peakAbove_iff hv

/-- Below the bound the first entry is taken for the greatest one. -/
theorem argmaxAbove_first_iff_negative : argmaxAbove (1 : Int) [-3, -2] = 0 ∧
    ¬ IsLeast (Greatest [-3, -2]) (argmaxAbove (1 : Int) [-3, -2]) ∧
    argmaxAbove (1 : Int) [-3, -2] ≠ Fixed.argmax ([-3, -2] : List Int) ∧
    ¬ ∀ x ∈ ([-3, -2] : List Int), x-peakAbove 1 [-3, -2] ≤ 0 := by
  have hnone : ¬ ((∃ x ∈ ([-3, -2] : List Int), 1 < x) ∨ 0 ∈ Greatest ([-3, -2] : List Int)) := by
    rw [zero_mem_greatest]
    decide
  obtain ⟨-,hleast,hsame,hbelow⟩ := argmaxAbove_first_iff (1 : Int) (v := [-3, -2]) (by decide)
    id (by simp)
  exact ⟨by decide,mt hleast.1 hnone,mt hsame.1 hnone,mt hbelow.1 hnone⟩

end MicroLearn.Single
