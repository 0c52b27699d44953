import MicroLearn.Proofs.SparseProduct

/-!
# Products rounded early and late

The sparse product with a vector divides each product by the scale before it is added,
the dense one divides the whole sum. Both divisions go towards zero. Of a sum of `k`
quotients and the quotient of the sum, neither is more than `k - 1` above the other: where
the sum is not negative, one of its terms is not negative, and rounding has not
raised that one.
-/

set_option autoImplicit false

namespace MicroLearn.Fixed

open MicroLearn.Number MicroLearn.Model
open List (length_cons map_cons map_id sum_cons sum_neg)

section Rounding

variable {s : Int}

def remainders (s : Int) (ps : List Int) : Int := (ps.map (·.tmod s)).sum

theorem sum_eq_remainders (s : Int) (ps : List Int) :
    ps.sum = s*(ps.map (·.tdiv s)).sum+remainders s ps := by
  induction ps with
  | nil => simp [remainders]
  | cons p ps ih =>
    have hp := Int.mul_tdiv_add_tmod p s
    simp only [remainders, map_cons, sum_cons] at ih ⊢
    linarith

theorem remainders_le (hs : 1 ≤ s) (ps : List Int) :
    -(ps.length*(s-1)) ≤ remainders s ps ∧ remainders s ps ≤ ps.length*(s-1) := by
  induction ps with
  | nil => simp [remainders]
  | cons p ps ih =>
    have hlow := Int.lt_tmod_of_pos p (b := s) (by omega)
    have hhigh := Int.tmod_lt_of_pos p (b := s) (by omega)
    simp only [remainders, map_cons, sum_cons, length_cons] at ih ⊢
    push_cast
    constructor <;> linarith

theorem le_remainders (hs : 1 ≤ s) {ps} (h : ∃ p ∈ ps, 0 ≤ p) :
    -((ps.length-1)*(s-1)) ≤ remainders s ps := by
  induction ps with
  | nil =>
    obtain ⟨p,hp,-⟩ := h
    cases hp
  | cons p ps ih =>
    simp only [remainders, map_cons, sum_cons, length_cons] at ih ⊢
    push_cast
    by_cases hp : 0 ≤ p
    · have hmod := Int.tmod_nonneg s hp
      have hrest := (remainders_le hs ps).1
      simp only [remainders] at hrest
      linarith
    · have hlow := Int.lt_tmod_of_pos p (b := s) (by omega)
      have hrest := ih (by simpa [hp] using h)
      linarith

theorem exists_nonneg {ps : List Int} (hne : ps ≠ []) (h : 0 ≤ ps.sum) : ∃ p ∈ ps, 0 ≤ p := by
  by_contra hnone
  push Not at hnone
  have hneg := List.sum_lt_sum_of_ne_nil hne id (fun _ => 0) hnone
  simp only [map_id, List.map_const', List.sum_replicate, smul_zero] at hneg
  omega

theorem quotients_close_of_nonneg (hs : 1 ≤ s) {ps : List Int} (hne : ps ≠ []) (h : 0 ≤ ps.sum) :
    |(ps.map (·.tdiv s)).sum-ps.sum.tdiv s| ≤ ps.length-1 := by
  have hsum := sum_eq_remainders s ps
  have hhigh := (remainders_le hs ps).2
  have hlow := le_remainders hs (exists_nonneg hne h)
  have hquotient := Int.mul_tdiv_add_tmod ps.sum s
  have hmod := Int.tmod_nonneg s h
  have hmod' := Int.tmod_lt_of_pos ps.sum (b := s) (by omega)
  have hlength : (1 : Int) ≤ ps.length := by
    have := List.length_pos_iff.2 hne
    omega
  generalize (ps.map (·.tdiv s)).sum = t at *
  generalize ps.sum.tdiv s = q at *
  have habove : s*(q-t) < s*ps.length := by nlinarith
  have hbelow : s*(t-q) < s*ps.length := by nlinarith
  have hq := lt_of_mul_lt_mul_left habove (by omega)
  have ht := lt_of_mul_lt_mul_left hbelow (by omega)
  rw [abs_le]
  constructor <;> linarith

theorem quotients_close (hs : 1 ≤ s) (ps : List Int) :
    |(ps.map (·.tdiv s)).sum-ps.sum.tdiv s| ≤ (ps.length-1 : Nat) := by
  rcases eq_or_ne ps [] with rfl | hne
  · simp
  have hlength : ((ps.length-1 : Nat) : Int) = ps.length-1 := by
    have := List.length_pos_iff.2 hne
    omega
  rw [hlength]
  rcases le_total 0 ps.sum with h | h
  · exact quotients_close_of_nonneg hs hne h
  · have hneg : 0 ≤ (ps.map (- ·)).sum := by
      rw [← sum_neg]
      omega
    have hclose := quotients_close_of_nonneg hs (by simpa using hne) hneg
    have hquotients : ((ps.map (- ·)).map (·.tdiv s)).sum = -(ps.map (·.tdiv s)).sum := by
      rw [sum_neg]
      simp [Function.comp_def]
    rw [hquotients, ← sum_neg, Int.neg_tdiv, List.length_map, neg_sub_neg, abs_sub_comm] at hclose
    exact hclose

end Rounding

open Device (addColumn addColumns)

section Sparse

variable {rows cols : Nat} {a : Rows Int}

theorem sparseWalk_entries (down : Int → Int) (entries : List (Int × Nat)) (ids : List Nat)
    (vals : List Int) (b : Int) (bs sums : List Int) :
    sparseWalk down (entries.map (fun p => p.2+1)++ids) (entries.map (·.1)++vals) (b::bs) sums =
      sparseWalk down ids vals (b::bs)
        (entries.foldl (fun c p => c.modify p.2 fun y => wrap 16 (y+down (p.1*b))) sums) := by
  induction entries generalizing sums with
  | nil => rfl
  | cons p entries ih =>
    exact ih _

theorem sparseWalk_columns {down} (hdown : down 0 = 0) (cs : Rows Int) (bs sums : List Int)
    (hbs : bs.length = cs.length) (hlen : ∀ col ∈ cs, col.length = sums.length)
    (hword : ∀ y ∈ sums, InWord 16 y) :
    sparseWalk down (sparseRows (· == 0) cs).indices (sparseRows (· == 0) cs).values bs sums =
      addColumns (fun b x => down (x*b)) cs bs sums := by
  induction cs generalizing bs sums with
  | nil => rfl
  | cons col cs ih =>
    obtain ⟨b,bs,rfl⟩ := List.exists_cons_of_length_eq_add_one hbs
    have hcol := hlen col (by simp)
    have hlength := Device.addColumn_length (fun x => down (x*b)) col sums hcol
    simp only [sparseRows, List.flatMap_cons, sparseRow_indices, sparseRow_values,
      List.append_assoc, List.singleton_append]
    rw [sparseWalk_entries, @Device.foldl_kept (fun x => down (x*b)) (by simp [hdown]) col sums hcol
      hword]
    exact ih bs _ (by simpa using hbs) (fun c hc => by rw [hlength]; exact hlen c (by simp [hc]))
      (Device.addColumn_inWord _ _ _)

/-- The products of a row with a vector. -/
def rowProducts (row v : List Int) : List Int := List.zipWith (· * ·) row v

theorem sparseMulVec_rows (ha : Shaped rows cols a) {v} (hv : v.length = cols)
    (scMat scVec depth : Int) : sparseMulVec .factors scMat scVec depth
        ⟨(sparseRows (· == 0) (columns cols a)).indices,
          (sparseRows (· == 0) (columns cols a)).values⟩ rows v =
      a.map fun row => wrap 16 ((rowProducts row v).map (·.tdiv (scMat*scVec*depth))).sum := by
  have hshaped := columns_shaped ha
  have hdown : Scaling.factors.down
      0 (Scaling.factors.join (Scaling.factors.join scMat scVec) depth) = 0 :=
    Int.zero_tdiv _
  rw [sparseMulVec, sparseWalk_columns hdown _ _ _ (by rw [hv, hshaped.length])
    (by simpa using hshaped.width)
    Device.zeros_inWord, Device.addColumns_rows _ ha v hv]
  simp only [rowProducts, List.map_zipWith]
  rfl

end Sparse

theorem product_inWord {x y} (hx : InWord 16 x) (hy : InWord 16 y) : |x*y| ≤ 2^30 := by
  have hx' : |x| ≤ 2^15 := abs_le.2 ⟨hx.1,le_of_lt hx.2⟩
  have hy' : |y| ≤ 2^15 := abs_le.2 ⟨hy.1,le_of_lt hy.2⟩
  rw [abs_mul]
  exact mul_le_mul hx' hy' (abs_nonneg y) (by decide)

theorem abs_sum_le {ps : List Int} {bound} (h : ∀ p ∈ ps, |p| ≤ bound) :
    |ps.sum| ≤ ps.length*bound := by
  induction ps with
  | nil => simp
  | cons p ps ih =>
    have hrest := ih fun q hq => h q (by simp [hq])
    have hp := h p (by simp)
    have htriangle := abs_add_le p ps.sum
    rw [sum_cons, length_cons]
    push_cast
    linarith

theorem rowProducts_inWord {row v} (hrow : ∀ x ∈ row, InWord 16 x) (hv : ∀ y ∈ v, InWord 16 y)
    (hlength : v.length < 2^32) : InWord 64 (rowProducts row v).sum := by
  have hsum : |(rowProducts row v).sum| ≤ (rowProducts row v).length*2^30 := by
    apply abs_sum_le
    intro p hp
    rw [rowProducts, List.mem_iff_getElem] at hp
    obtain ⟨i,hi,rfl⟩ := hp
    rw [List.getElem_zipWith]
    exact product_inWord (hrow _ (List.getElem_mem _)) (hv _ (List.getElem_mem _))
  have hcount : (rowProducts row v).length ≤ v.length := by
    rw [rowProducts, List.length_zipWith]
    exact Nat.min_le_right _ _
  rw [abs_le] at hsum
  rw [InWord, twoPow_eq]
  constructor <;> push_cast <;> omega

theorem mulVec_rows {a : Rows Int} {v} (ha : ∀ row ∈ a, ∀ x ∈ row, InWord 16 x)
    (hv : ∀ y ∈ v, InWord 16 y) (hlength : v.length < 2^32) (scMat scVec depth : Int) :
    mulVec .factors 64 scMat scVec depth a v =
      a.map fun row => wrap 16 ((rowProducts row v).sum.tdiv (scMat*scVec*depth)) := by
  apply List.map_congr_left
  intro row hrow
  have hsum := wrap_eq_self (by decide) (rowProducts_inWord (ha row hrow) hv hlength)
  exact congrArg (fun p : Int => wrap 16 (p.tdiv _)) hsum

theorem sum_map_filter {f : Int → Int} (hf : f 0 = 0) (ps : List Int) :
    ((ps.filter (· ≠ 0)).map f).sum = (ps.map f).sum := by
  induction ps with
  | nil => rfl
  | cons p ps ih =>
    by_cases hp : p = 0
    · rw [List.filter_cons_of_neg (by simpa using hp), ih, map_cons, sum_cons, hp, hf, Int.zero_add]
    · rw [List.filter_cons_of_pos (by simpa using hp), map_cons, sum_cons, ih, map_cons,
        sum_cons]

theorem countP_rowProducts (row v : List Int) :
    (rowProducts row v).countP (· ≠ 0) ≤ row.countP (· ≠ 0) := by
  induction row generalizing v with
  | nil => simp [rowProducts]
  | cons x row ih =>
    cases v with
    | nil => simp [rowProducts]
    | cons y v =>
      have hrest := ih v
      rw [rowProducts] at hrest ⊢
      rw [List.zipWith_cons_cons, List.countP_cons, List.countP_cons]
      refine Nat.add_le_add hrest ?_
      by_cases hxy : x*y = 0
      · rw [if_neg (by rw [decide_eq_true_iff]; exact not_not_intro hxy)]
        exact Nat.zero_le _
      · rw [if_pos (decide_eq_true hxy), if_pos (decide_eq_true (left_ne_zero_of_mul hxy))]

theorem rowProducts_close {s : Int} (hs : 1 ≤ s) (row v : List Int) :
    |((rowProducts row v).map (·.tdiv s)).sum-(rowProducts row v).sum.tdiv s| ≤
      (row.countP (· ≠ 0)-1 : Nat) := by
  have hclose := quotients_close hs ((rowProducts row v).filter (· ≠ 0))
  have hsum := sum_map_filter (f := id) rfl (rowProducts row v)
  have hcount := countP_rowProducts row v
  rw [map_id, map_id] at hsum
  rw [sum_map_filter (Int.zero_tdiv s), hsum, ← List.countP_eq_length_filter] at hclose
  exact hclose.trans (by omega)

/-- A matrix of words has a sparse form by columns, and the sparse product computed from it and the
dense product with a vector of words have one entry for each row. Where neither the quotients of a
row nor the quotient of the row's sum leave the word, the two entries differ by at most the number
of nonzero entries of the row less one. Without a scale they are the same word in any case. -/
theorem sparse_dense_close (rows cols : Nat) (hrows : 1 ≤ rows) (hcols : 1 ≤ cols)
    (hmax : cols < 2^32)
    (a : Rows Int) (ha : Shaped rows cols a) (hentries : ∀ row ∈ a, ∀ x ∈ row, InWord 16 x)
    (v : List Int) (hv : v.length = cols) (hvector : ∀ y ∈ v, InWord 16 y) :
    ∃ t form, Model.transpose a = .ok t ∧ toSparse (· == 0) t = .ok form ∧
      ∀ scMat scVec depth : Int, 1 ≤ scMat*scVec*depth →
        ∃ sparse dense : List Int,
          sparseMulVec .factors scMat scVec depth ⟨form.indices,form.values⟩ rows v = sparse ∧
          mulVec .factors 64 scMat scVec depth a v = dense ∧
          sparse.length = rows ∧ dense.length = rows ∧
          ∀ (i : Nat) row x y, a[i]? = some row → sparse[i]? = some x → dense[i]? = some y →
            (InWord 16 ((rowProducts row v).map (·.tdiv (scMat*scVec*depth))).sum →
              InWord 16 ((rowProducts row v).sum.tdiv (scMat*scVec*depth)) →
              |x-y| ≤ max ((row.countP (· ≠ 0) : Int)-1) 0) ∧
            (scMat*scVec*depth = 1 → x = y) := by
  have hshaped := columns_shaped ha
  refine ⟨columns cols a,sparseRows (· == 0) (columns cols a),transpose_ok ha hrows,
    toSparse_ok hshaped hcols _,fun scMat scVec depth hs => ?_⟩
  refine ⟨_,_,sparseMulVec_rows ha hv scMat scVec depth,
    mulVec_rows hentries hvector (hv ▸ hmax) scMat scVec
      depth,by simp [ha.length],by simp [ha.length],?_⟩
  intro i row x y hrow hx hy
  rw [List.getElem?_map, hrow, Option.map_some, Option.some.injEq] at hx hy
  subst hx hy
  constructor
  · intro hsparse hdense
    rw [wrap_eq_self (by decide) hsparse, wrap_eq_self (by decide) hdense]
    exact (rowProducts_close hs row v).trans (by omega)
  · intro hone
    rw [hone, Int.tdiv_one]
    congr 2
    simp

/-- Three products of which each rounds to zero, while their sum does not: the bound is met. -/
theorem sparse_dense_close_thirds :
    sparseMulVec .factors 2 2 1 ⟨[2, 0, 2, 0, 2, 0],[3, 3, 3]⟩ 2 [1, 1, 1] = [0, 0] ∧
      mulVec .factors 64 2 2 1 [[0, 0, 0], [3, 3, 3]] [1, 1, 1] = [0, 2] ∧
      |(0 : Int)-2| ≤ max (3-1) 0 := by
  obtain ⟨t,form,ht,hform,hrun⟩ := sparse_dense_close 2 3 (by decide) (by decide) (by decide)
    [[0, 0, 0], [3, 3, 3]] ⟨rfl,by decide⟩ (by decide) [1, 1, 1] rfl (by decide)
  have ht' : Model.transpose [[0, 0, 0], [3, 3, 3]] = .ok [[0, 3], [0, 3], [0, (3 : Int)]] := rfl
  obtain rfl : [[0, 3], [0, 3], [0, (3 : Int)]] = t := by
    injection ht'.symm.trans ht
  have hform' : toSparse (· == 0) [[0, 3], [0, 3], [0, (3 : Int)]] =
    .ok ⟨[3, 3, 3],[2, 0, 2, 0, 2, 0]⟩ := rfl
  obtain rfl : ⟨[3, 3, 3],[2, 0, 2, 0, 2, 0]⟩ = form := by
    injection hform'.symm.trans hform
  obtain ⟨sparse,dense,hsparse,hdense,-,-,hrows⟩ := hrun 2 2 1 (by decide)
  have hsparse' : sparseMulVec .factors 2 2 1 ⟨[2, 0, 2, 0, 2, 0],[3, 3, 3]⟩ 2 [1, 1, 1] =
    [0, 0] := by decide
  have hdense' : mulVec .factors 64 2 2 1 [[0, 0, 0], [3, 3, 3]] [1, 1, 1] = [0, 2] := by decide
  obtain rfl := hsparse.symm.trans hsparse'
  obtain rfl := hdense.symm.trans hdense'
  exact ⟨hsparse',hdense',(hrows 1 [3, 3, 3] 0 2 rfl rfl rfl).1 (by decide) (by decide)⟩

end MicroLearn.Fixed
