import MicroLearn.Proofs.Additive
import MicroLearn.Proofs.Shifts
import MicroLearn.Proofs.SparseProduct

/-!
# Products and their scales and intervals

The factors of a product are shifted by half a word each, or by less where the product would pass
the greatest scale. The interval of a product of matrices is taken from the shifted bounds, rounded
down, and multiplied by the number of summands. The device rounds towards zero and may halve the
sums, so its entries lie in that interval only up to zero.
-/

set_option autoImplicit false

namespace MicroLearn.Lower

open Number

/-- How far a factor is shifted at most. -/
def halfWord (word : Nat) : Int := ((word : Int)-2)/2

/-- The scale of a product of fully shifted factors. -/
def fullScale (word : Nat) (p q : Int) : Int := p+q+2*halfWord word

/-- The scale nearest to the greatest one admitted that shifts of the factors can give a product. -/
def admittedScale (word : Nat) (maxScale p q : Int) : Int :=
  min (fullScale word p q) (max maxScale (p+q))

/-- By how much a product falls behind its full scale. -/
def savedScale (maxScale full : Int) : Int := ((full.natAbs : Int)-maxScale.natAbs).natAbs

theorem shiftsForMul_eq (word : Nat) (maxScale p q : Int) : shiftsForMul word maxScale p q =
      if fullScale word p q < maxScale then (halfWord word,halfWord word)
      else
        let save := savedScale maxScale (fullScale word p q)
        (max (halfWord word-save/2) 0,max (halfWord word-(save-save/2)) 0) := by
  have hsum : p+halfWord word+(q+halfWord word) = fullScale word p q := by
    simp only [fullScale]
    omega
  have hfloor : ∀ n : Int, n.fdiv 2 = n/2 := fun n => Int.fdiv_eq_ediv_of_nonneg n (by decide)
  have hhalf : ((word : Int)-2).fdiv 2 = halfWord word := hfloor _
  simp only [shiftsForMul, hhalf, hsum, hfloor, savedScale]

theorem halfWord_nonneg {word} (hword : 2 ≤ word) : 0 ≤ halfWord word := by
  unfold halfWord
  omega

theorem shiftsForMul_mem {word} (hword : 2 ≤ word) (maxScale p q : Int) :
    ∃ a b, shiftsForMul word maxScale p q = (a,b) ∧
      0 ≤ a ∧ a ≤ halfWord word ∧ 0 ≤ b ∧ b ≤ halfWord word := by
  have hhalf := halfWord_nonneg hword
  have hsave : 0 ≤ savedScale maxScale (fullScale word p q) := Int.natCast_nonneg _
  rw [shiftsForMul_eq]
  split <;> exact ⟨_,_,rfl,by omega⟩

theorem scaleForMul_eq {word maxScale p q a b} (h : shiftsForMul word maxScale p q = (a,b)) :
    scaleForMul p a q b =
      if fullScale word p q < maxScale then fullScale word p q
      else max (fullScale word p q-savedScale maxScale (fullScale word p q)) (p+q) := by
  have hfull : fullScale word p q = p+q+2*halfWord word := rfl
  rw [shiftsForMul_eq] at h
  unfold scaleForMul
  split at h
  all_goals
    rw [Prod.mk.injEq] at h
    split <;> omega

/-- What is saved is the distance from the greatest scale, unless that is negative and the full
scale is not: then it is only the difference of their absolute values. -/
theorem savedScale_eq {maxScale full} (h : maxScale ≤ full) : savedScale maxScale full =
      if maxScale < 0 ∧ 0 < full then |full+maxScale| else full-maxScale := by
  rw [Int.abs_eq_natAbs]
  unfold savedScale
  split <;> omega

/-- Both shifts lie between none and half a word, and the scale of the product between the scale
nearest to the greatest one and the full scale. It is the former, unless the greatest scale is
negative, the full scale positive and the difference of their absolute values less than both
shifts. -/
theorem product_scale_iff (word : Nat) (hword : 2 ≤ word) (maxScale p q : Int) :
    ∃ a b, shiftsForMul word maxScale p q = (a,b) ∧
      0 ≤ a ∧ a ≤ halfWord word ∧ 0 ≤ b ∧ b ≤ halfWord word ∧
      admittedScale word maxScale p q ≤ scaleForMul p a q b ∧
      scaleForMul p a q b ≤ fullScale word p q ∧
      (scaleForMul p a q b = admittedScale word maxScale p q ↔
        (maxScale < 0 → 0 < fullScale word p q →
          2*halfWord word ≤ |fullScale word p q+maxScale|)) := by
  obtain ⟨a,b,h,ha,ha',hb,hb'⟩ := shiftsForMul_mem hword maxScale p q
  refine ⟨a,b,h,ha,ha',hb,hb',?_⟩
  have hhalf := halfWord_nonneg hword
  have hfull : fullScale word p q = p+q+2*halfWord word := rfl
  rw [scaleForMul_eq h]
  unfold admittedScale
  split
  · omega
  · rw [savedScale_eq (by omega), Int.abs_eq_natAbs]
    split <;> omega

/-- Two factors of scale `-3`, with `-5` as the greatest scale: the product gets the scale `5`. -/
theorem product_scale_iff_opposite :
    shiftsForMul 16 (-5) (-3) (-3) = (6,5) ∧
      scaleForMul (-3) 6 (-3) 5 ≠ admittedScale 16 (-5) (-3) (-3) := by
  have hvalue : shiftsForMul 16 (-5) (-3) (-3) = (6,5) := by decide
  obtain ⟨a,b,h,-,-,-,-,-,-,hiff⟩ := product_scale_iff 16 (by decide) (-5) (-3) (-3)
  rw [hvalue, Prod.mk.injEq] at h
  obtain ⟨rfl,rfl⟩ := h
  exact ⟨hvalue,fun heq => absurd (hiff.1 heq (by decide) (by decide)) (by decide)⟩

end MicroLearn.Lower

namespace MicroLearn.Device

open MicroLearn.Fixed MicroLearn.Number

section Signs

variable {bits size : Nat} {σ : Int} {tmp : Array Int}

theorem halved_part (hσ : σ = 1 ∨ σ = -1) (halve : Bool) (x : Int) :
    max (σ*halved halve x) 0 ≤ max (σ*x) 0 := by
  have hquotient := Lower.tdiv_mem x (f := 2) (by decide)
  unfold halved
  split <;> rcases hσ with rfl | rfl <;> omega

/-- The part of a sum that has one sign. -/
def signedSum (σ : Int) (count : Nat) (tmp : Array Int) : Int :=
  ∑ i ∈ Finset.range count, max (σ*tmp.getD i 0) 0

theorem signedSum_pass (hbits : 1 ≤ bits) (hσ : σ = 1 ∨ σ = -1) (halve : Bool) {count}
    (hsize : size/2 < tmp.size) (hcount : count ≤ size) (hfit : PairsFit bits count tmp) :
    signedSum σ ((count+1)/2) (pass bits size halve count tmp) ≤ signedSum σ count tmp := by
  have hparts : ∀ i, (tmp.map fun x => max (σ*x) 0).getD i 0 = max (σ*tmp.getD i 0) 0 := by
    intro i
    simp only [Array.getD_eq_getD_getElem?, Array.getElem?_map]
    cases tmp[i]? <;> simp
  have hpairs := leftSum_pairs count (tmp.map fun x => max (σ*x) 0)
  simp only [leftSum, pairSum, hparts] at hpairs
  rw [signedSum, signedSum, ← hpairs]
  refine Finset.sum_le_sum fun p hp => ?_
  have hp := Finset.mem_range.1 hp
  rw [pass_getD _ _ _ _ _ hsize p (by omega), pairAt_of_fit hbits hfit halve p hp]
  refine (halved_part hσ halve _).trans ?_
  unfold pairSum
  split
  · rw [mul_add]
    omega
  · exact le_refl _

theorem passes_le (hbits : 1 ≤ bits) (hσ : σ = 1 ∨ σ = -1) (halving : Int) (left done count : Nat)
    (tmp : Array Int) (hsize : size/2 < tmp.size) (hpos : 1 ≤ count) (hcount : count ≤ size)
    (hfit : SumsFit bits size halving left done count tmp) :
    σ*(passes bits size halving left done count tmp).getD 0 0 ≤ signedSum σ count tmp := by
  induction left generalizing done count tmp with
  | zero =>
    refine (le_max_left _ 0).trans ?_
    exact Finset.single_le_sum (f := fun i => max (σ*tmp.getD i 0) 0) (fun _ _ => le_max_right _ _)
      (Finset.mem_range.2 hpos)
  | succ left ih =>
    obtain ⟨hpairs,hrest⟩ := hfit
    refine (ih _ _ _ (by rwa [pass_size _ _ _ _ _ hsize]) (by omega) (by omega) hrest).trans ?_
    exact signedSum_pass hbits hσ _ hsize hcount hpairs

end Signs

section Runs

variable {bits : Nat} {s : ProductShape} {shrA shrB : Int} {a b : Array Int} {i j : Nat}

/-- The products of the quotients for an entry, before they are stored in words. -/
def quotientProducts (s : ProductShape) (shrA shrB : Int) (a b : Array Int) (i j : Nat) :
    Array Int :=
  ((List.range s.inner).map fun k =>
    (a.getD (i*s.inner+k) 0).tdiv shrA*(b.getD (k*s.cols+j) 0).tdiv shrB).toArray

/-- No quotient, product or sum of a matrix product leaves the word. -/
structure NoOverflow (bits : Nat) (s : ProductShape) (shrA shrB halving plain : Int)
    (a b : Array Int) : Prop where
  left : ∀ i < s.rows*s.inner, InWord bits ((a.getD i 0).tdiv shrA)
  right : ∀ i < s.inner*s.cols, InWord bits ((b.getD i 0).tdiv shrB)
  products : ∀ i < s.rows, ∀ j < s.cols, ∀ k < s.inner,
    InWord bits ((quotientProducts s shrA shrB a b i j).getD k 0)
  sums : ∀ i < s.rows, ∀ j < s.cols, SumsFit bits s.inner halving (halving+plain).toNat 0 s.inner
    (quotientProducts s shrA shrB a b i j)

theorem quotientProducts_getD {k} (hk : k < s.inner) :
    (quotientProducts s shrA shrB a b i j).getD k 0 =
      (a.getD (i*s.inner+k) 0).tdiv shrA*(b.getD (k*s.cols+j) 0).tdiv shrB := by
  simp [quotientProducts, hk]

theorem cells_eq {halving plain} (hbits : 1 ≤ bits)
    (h : NoOverflow bits s shrA shrB halving plain a b) (hi : i < s.rows) (hj : j < s.cols) :
    cells bits s shrA shrB a b i j = quotientProducts s shrA shrB a b i j := by
  refine congrArg List.toArray (List.map_congr_left fun k hk => ?_)
  have hk := List.mem_range.1 hk
  have hproduct := h.products i hi j hj k hk
  rw [quotientProducts_getD hk] at hproduct
  rw [divWord, divWord, wrap_eq_self hbits (h.left _ (cell_lt hi hk)),
    wrap_eq_self hbits (h.right _ (cell_lt hk hj)), wrap_eq_self hbits hproduct]

end Runs

end MicroLearn.Device

namespace MicroLearn.Lower

open Number Fixed Device Code

namespace Interval

/-- The least interval with the products of two intervals. -/
def times (a b : Interval) : Interval :=
  ⟨min (min (a.low*b.low) (a.low*b.high)) (min (a.high*b.low) (a.high*b.high)),
    max (max (a.low*b.low) (a.low*b.high)) (max (a.high*b.low) (a.high*b.high))⟩

/-- The interval of a sum of so many numbers. -/
def repeated (a : Interval) (n : Nat) : Interval := ⟨n*a.low,n*a.high⟩

def withZero (a : Interval) : Interval := ⟨min a.low 0,max a.high 0⟩

end Interval

section Corners

variable {a b : Interval} {x y f g : Int}

theorem mul_mem_ends (hx : a.Contains x) (y : Int) :
    min (a.low*y) (a.high*y) ≤ x*y ∧ x*y ≤ max (a.low*y) (a.high*y) := by
  rcases le_total 0 y with h | h
  · have h1 := mul_le_mul_of_nonneg_right hx.1 h
    have h2 := mul_le_mul_of_nonneg_right hx.2 h
    omega
  · have h1 := mul_le_mul_of_nonpos_right hx.1 h
    have h2 := mul_le_mul_of_nonpos_right hx.2 h
    omega

theorem times_contains (hx : a.Contains x) (hy : b.Contains y) : (a.times b).Contains (x*y) := by
  have h := mul_mem_ends hx y
  have h1 := mul_mem_ends hy a.low
  have h2 := mul_mem_ends hy a.high
  simp only [mul_comm _ a.low, mul_comm _ a.high] at h h1 h2
  simp only [Interval.Contains, Interval.times]
  omega

theorem floored_contains (hf : 0 < f) (hx : a.Contains x) : (a.floored f).Contains (x.fdiv f) :=
  ⟨fdiv_le_fdiv hf hx.1,fdiv_le_fdiv hf hx.2⟩

theorem mul_tdiv_between (hf : 0 < f) (hg : 0 < g) (x y : Int) :
    (0 ≤ x.tdiv f*y.tdiv g ∧ x.tdiv f*y.tdiv g ≤ x.fdiv f*y.fdiv g) ∨
      (x.fdiv f*y.fdiv g ≤ x.tdiv f*y.tdiv g ∧ x.tdiv f*y.tdiv g ≤ 0) := by
  have hx := tdiv_mem x hf
  have hy := tdiv_mem y hg
  rcases le_total 0 x with h | h <;> rcases le_total 0 y with h' | h'
  · rw [fdiv_eq_tdiv hf h, fdiv_eq_tdiv hg h']
    exact .inl ⟨mul_nonneg (hx.1 h).1 (hy.1 h').1,le_refl _⟩
  · rw [fdiv_eq_tdiv hf h]
    exact .inr ⟨mul_le_mul_of_nonneg_left (fdiv_le_tdiv hg) (hx.1 h).1,
      mul_nonpos_of_nonneg_of_nonpos (hx.1 h).1 (hy.2 h').2⟩
  · rw [fdiv_eq_tdiv hg h']
    exact .inr ⟨mul_le_mul_of_nonneg_right (fdiv_le_tdiv hf) (hy.1 h').1,
      mul_nonpos_of_nonpos_of_nonneg (hx.2 h).2 (hy.1 h').1⟩
  · refine .inl ⟨mul_nonneg_of_nonpos_of_nonpos (hx.2 h).2 (hy.2 h').2,?_⟩
    exact mul_le_mul_of_nonpos_of_nonpos (fdiv_le_tdiv hf) (fdiv_le_tdiv hg)
      ((fdiv_le_tdiv hf).trans (hx.2 h).2) (hy.2 h').2

theorem times_zero (hf : 0 < f) (hg : 0 < g) (ha : a.low ≤ a.high) (hb : b.low ≤ b.high)
    (h : a.Contains 0 ∨ b.Contains 0) : ((a.floored f).times (b.floored g)).Contains 0 := by
  rcases h with h | h
  · have := times_contains (floored_contains hf h) (floored_contains hg (x := b.low) ⟨le_refl _,hb⟩)
    rwa [Int.zero_fdiv, zero_mul] at this
  · have := times_contains (floored_contains hf (x := a.low) ⟨le_refl _,ha⟩) (floored_contains hg h)
    rwa [Int.zero_fdiv, mul_zero] at this

end Corners

/-- All entries of products of matrices over `a` and `b` that do not overflow lie in `c`. -/
def HoldsProducts (bits : Nat) (s : ProductShape) (shrA shrB halving plain : Int)
    (a b c : Interval) : Prop :=
  ∀ A B tmp : Array Int, (∀ i < s.rows*s.inner, a.Contains (A.getD i 0)) →
    (∀ i < s.inner*s.cols, b.Contains (B.getD i 0)) → s.inner ≤ tmp.size →
    NoOverflow bits s shrA shrB halving plain A B →
    ∀ z ∈ (matrixProductOf bits s shrA shrB halving plain A B tmp).1, c.Contains z

section Products

variable {bits : Nat} {s : ProductShape} {f g halving plain : Int} {A B tmp : Array Int}
variable {a b c : Interval}

theorem mem_matrixProductOf {z} (hbits : 1 ≤ bits) (hinner : 1 ≤ s.inner)
    (htmp : s.inner ≤ tmp.size) (h : NoOverflow bits s f g halving plain A B)
    (hz : z ∈ (matrixProductOf bits s f g halving plain A B tmp).1) : ∃ i < s.rows, ∃ j < s.cols,
      z = (treeSum bits s.inner halving plain (quotientProducts s f g A B i j)).getD 0 0 := by
  rw [matrixProductOf_eq _ _ _ _ _ _ _ _ _ hinner htmp] at hz
  simp only [List.map_flatMap, List.map_map, List.mem_flatMap, List.mem_map, List.mem_range,
    Function.comp] at hz
  obtain ⟨i,hi,j,hj,rfl⟩ := hz
  exact ⟨i,hi,j,hj,by rw [cells_eq hbits h hi hj]⟩

theorem treeSum_le {σ n} {i j} (hbits : 1 ≤ bits) (hinner : 1 ≤ s.inner)
    (hσ : σ = 1 ∨ σ = -1) (hn : 0 ≤ n) (h : NoOverflow bits s f g halving plain A B)
    (hi : i < s.rows) (hj : j < s.cols)
    (hle : ∀ k < s.inner, σ*(quotientProducts s f g A B i j).getD k 0 ≤ n) :
    σ*(treeSum bits s.inner halving plain (quotientProducts s f g A B i j)).getD 0 0 ≤
      s.inner*n := by
  have hsize : (quotientProducts s f g A B i j).size = s.inner := by simp [quotientProducts]
  calc σ*(treeSum bits s.inner halving plain (quotientProducts s f g A B i j)).getD 0 0
      ≤ signedSum σ s.inner (quotientProducts s f g A B i j) :=
        passes_le hbits hσ _ _ 0 _ _ (by omega) hinner (le_refl _) (h.sums i hi j hj)
    _ ≤ ∑ k ∈ Finset.range s.inner, n :=
        Finset.sum_le_sum fun k hk => max_le (hle k (Finset.mem_range.1 hk)) hn
    _ = s.inner*n := by simp

theorem holdsProducts_withZero (hbits : 1 ≤ bits) (hinner : 1 ≤ s.inner) (hf : 0 < f) (hg : 0 < g) :
    HoldsProducts bits s f g halving plain a b
      (((a.floored f).times (b.floored g)).repeated s.inner).withZero := by
  intro A B tmp hA hB htmp h z hz
  obtain ⟨i,hi,j,hj,rfl⟩ := mem_matrixProductOf hbits hinner htmp h hz
  have hproduct : ∀ k < s.inner, ((a.floored f).times (b.floored g)).withZero.Contains
      ((quotientProducts s f g A B i j).getD k 0) := by
    intro k hk
    have hfloor := times_contains (floored_contains hf (hA _ (cell_lt hi hk)))
      (floored_contains hg (hB _ (cell_lt hk hj)))
    have hbetween := mul_tdiv_between hf hg (A.getD (i*s.inner+k) 0) (B.getD (k*s.cols+j) 0)
    rw [quotientProducts_getD hk]
    simp only [Interval.Contains, Interval.withZero] at hfloor ⊢
    omega
  have hup := treeSum_le hbits hinner (.inl rfl) (le_max_right _ _) h hi hj fun k hk => by
    rw [one_mul]
    exact (hproduct k hk).2
  have hdown := treeSum_le hbits hinner (.inr rfl) (neg_nonneg.2 (min_le_right _ _)) h hi hj
      fun k hk => by
    rw [neg_one_mul]
    exact neg_le_neg (hproduct k hk).1
  have hcount : (0 : Int) ≤ s.inner := Int.natCast_nonneg _
  rw [one_mul, mul_max_of_nonneg _ _ hcount] at hup
  rw [neg_one_mul, mul_neg, mul_min_of_nonneg _ _ hcount] at hdown
  exact ⟨neg_le_neg_iff.1 hdown,hup⟩

end Products

section Plans

variable {cx : Context} {a b : Operand} {plan : Plan Routine} {rows inner cols : Nat}

theorem intervalForMul_eq {a b} {left right} (hleft : 0 ≤ left) (hright : 0 ≤ right) :
    intervalForMul a left b right =
      .ok ((a.floored (shiftFactor left)).times (b.floored (shiftFactor right))) := by
  simp only [intervalForMul, shifted, if_neg (not_lt.2 hleft), if_neg (not_lt.2 hright)]
  rfl

theorem numbers_ok {f : Int → Except Fault Int} {g}
    (hf : ∀ n k, f n = .ok k → k = g n) {ns ks : List Int} (h : ns.mapM f = .ok ks) :
    ks = ns.map g := by
  have hall : List.Forall₂ (· = ·) (ns.map g) ks :=
    List.forall₂_map_left_iff.2 ((Model.mapM_ok.1 h).imp fun n k hk => (hf n k hk).symm)
  rw [List.forall₂_eq_eq_eq] at hall
  exact hall.symm

theorem two_le_word {s} {n k} (h : Code.number s n = .ok k) : 2 ≤ s.word := by
  unfold Code.number at h
  split at h
  · rename_i hsize
    simp only [wordSizes, List.contains_iff_mem, List.mem_cons, List.not_mem_nil, or_false] at hsize
    omega
  · cases h

theorem scaleForTreeSum_ok {maxScale p n result halving plain}
    (h : scaleForTreeSum maxScale p n = .ok (result,halving,plain)) : 0 ≤ halving ∧ 0 ≤ plain := by
  obtain ⟨levels,-,h⟩ := bind_ok h
  obtain ⟨_,hhalving,h⟩ := bind_ok h
  obtain ⟨_,hplain,h⟩ := bind_ok h
  cases h
  exact ⟨of_decide_eq_true (demand_ok hhalving),of_decide_eq_true (demand_ok hplain)⟩

theorem matrixPlan_ok (hshift : cx.settings.shift = .divide)
    (h : matrixPlan cx (.tensor [rows, inner]) (.tensor [inner, cols]) a b = .ok plan) :
    ∃ left right m, ∃ halving plain : Nat, 2 ≤ cx.settings.word ∧
      shiftsForMul cx.settings.word cx.maxScale a.scale b.scale = (left,right) ∧
      intervalForMul a.interval left b.interval right = .ok m ∧
      plan.numbers = [↑rows, ↑inner, ↑cols, shiftFactor left, shiftFactor right, ↑halving, ↑plain] ∧
      plan.interval = intervalForTreeSum cx.settings.word m inner := by
  iterate 4
    obtain ⟨_,h1,h⟩ := bind_ok h
    cases h1
  obtain ⟨m,hm,h⟩ := bind_ok h
  obtain ⟨⟨p,halving,plain⟩,hscale,h⟩ := bind_ok h
  obtain ⟨shifts,hshifts,h⟩ := bind_ok h
  obtain ⟨dims,hdims,h⟩ := bind_ok h
  obtain ⟨heights,hheights,h⟩ := bind_ok h
  cases h
  obtain ⟨interval,hinterval,hm⟩ := bind_ok hm
  cases hm
  obtain ⟨hhalving,hplain⟩ := scaleForTreeSum_ok hscale
  have hid : ∀ n k, Code.number cx.settings n = .ok k → k = id n := fun n k => number_ok
  have hfactor : ∀ n k, shiftOperand cx.settings n = .ok k → k = shiftFactor n :=
    fun n k => shiftOperand_ok hshift
  refine ⟨_,_,interval,halving.toNat,plain.toNat,?_,rfl,hinterval,?_,rfl⟩
  · obtain ⟨_,hrows,-⟩ := bind_ok hdims
    exact two_le_word hrows
  · rw [numbers_ok hid hdims, numbers_ok hid hheights, numbers_ok hfactor hshifts]
    simp [hhalving, hplain]

/-- Entries of a product of matrices that does not overflow lie in the interval that is recorded for
them, before it is cut to the limit of the word, once zero is added to it. If one of the operands
can be zero, zero lies there already. -/
theorem product_interval (rows inner cols : Nat) (hshift : cx.settings.shift = .divide)
    (hinner : 1 ≤ inner)
    (ha : a.interval.low ≤ a.interval.high) (hb : b.interval.low ≤ b.interval.high)
    (hplan : matrixPlan cx (.tensor [rows, inner]) (.tensor [inner, cols]) a b = .ok plan) :
    ∃ left right m, ∃ halving plain : Nat,
      shiftsForMul cx.settings.word cx.maxScale a.scale b.scale = (left,right) ∧
      intervalForMul a.interval left b.interval right = .ok m ∧
      plan.numbers = [↑rows, ↑inner, ↑cols, shiftFactor left, shiftFactor right, ↑halving, ↑plain] ∧
      plan.interval = ⟨max (m.repeated inner).low (-limit cx.settings.word),
        min (m.repeated inner).high (limit cx.settings.word)⟩ ∧
      HoldsProducts cx.settings.word ⟨rows,inner,cols⟩ (shiftFactor left) (shiftFactor right)
        halving plain a.interval b.interval (m.repeated inner).withZero ∧
      (a.interval.Contains 0 ∨ b.interval.Contains 0 →
        (m.repeated inner).withZero = m.repeated inner) := by
  obtain ⟨left,right,m,halving,plain,hword,hshifts,hm,hnumbers,hinterval⟩ :=
    matrixPlan_ok hshift hplan
  obtain ⟨left',right',hshifts',hleft,-,hright,-⟩ :=
    shiftsForMul_mem hword cx.maxScale a.scale b.scale
  rw [hshifts', Prod.mk.injEq] at hshifts
  obtain ⟨rfl,rfl⟩ := hshifts
  refine ⟨_,_,m,halving,plain,hshifts',hm,hnumbers,hinterval,?_⟩
  rw [intervalForMul_eq hleft hright] at hm
  cases hm
  refine ⟨holdsProducts_withZero (s := ⟨rows,inner,cols⟩) (by omega) hinner (shiftFactor_pos _)
    (shiftFactor_pos _),fun hzero => ?_⟩
  obtain ⟨hlow,hhigh⟩ := times_zero (shiftFactor_pos left') (shiftFactor_pos right') ha hb hzero
  have hcount : (0 : Int) ≤ inner := Int.natCast_nonneg _
  simp only [Interval.withZero, Interval.repeated,
    min_eq_left (mul_nonpos_of_nonneg_of_nonpos hcount hlow), max_eq_left (mul_nonneg hcount hhigh)]

/-- A row of two numbers times a column of two, all of them `1280`: the recorded sum is twice the
product, and the device halves it. -/
theorem product_interval_pair :
    ∃ plan, matrixPlan ⟨Settings.standard,-5,none⟩ (.tensor [1, 2]) (.tensor [2, 1])
        ⟨-10,⟨1280,1280⟩,false⟩ ⟨-10,⟨1280,1280⟩,false⟩ = .ok plan ∧
      plan.numbers = [1, 2, 1, 128, 128, 1, 0] ∧ plan.interval = ⟨200,200⟩ ∧
      ¬ HoldsProducts 16 ⟨1,2,1⟩ 128 128 1 0 ⟨1280,1280⟩ ⟨1280,1280⟩ ⟨200,200⟩ ∧
      HoldsProducts 16 ⟨1,2,1⟩ 128 128 1 0 ⟨1280,1280⟩ ⟨1280,1280⟩ ⟨0,200⟩ := by
  have hscale : scaleForTreeSum (-5) (-6) 2 = .ok (-5,1,0) := by decide +kernel
  have hplan : matrixPlan ⟨Settings.standard,-5,none⟩ (.tensor [1, 2]) (.tensor [2, 1])
      ⟨-10,⟨1280,1280⟩,false⟩ ⟨-10,⟨1280,1280⟩,false⟩ =
      .ok ⟨.matrixProduct false false 2,[1, 2, 1, 128, 128, 1, 0],-5,⟨200,200⟩⟩ := by
    have hm : multiplied ⟨Settings.standard,-5,none⟩ ⟨-10,⟨1280,1280⟩,false⟩
      ⟨-10,⟨1280,1280⟩,false⟩ = .ok ⟨7,7,-6,⟨100,100⟩⟩ := rfl
    simp only [matrixPlan, hm, Lang.Ty.shape, Lang.twoOf, bind, Except.bind, hscale]
    rfl
  refine ⟨_,hplan,rfl,rfl,fun h => ?_,?_⟩
  · have hfit : NoOverflow 16 ⟨1,2,1⟩ 128 128 1 0 #[1280, 1280] #[1280, 1280] :=
      ⟨by decide,by decide,by decide,fun i hi j hj => ⟨by decide +revert,trivial⟩⟩
    exact absurd (h #[1280, 1280] #[1280, 1280] #[0, 0] (by decide) (by decide) (by decide) hfit 100
      (by decide)).1 (by decide)
  · obtain ⟨left,right,m,halving,plain,hshifts,hm,hnumbers,-,hholds,-⟩ := product_interval
      1 2 1 rfl (by decide) (by decide) (by decide) hplan
    obtain ⟨rfl,rfl⟩ := Prod.mk.inj (show (7,7) = (left,right) from hshifts)
    obtain rfl : (⟨100,100⟩ : Interval) = m := Except.ok.inj hm
    simp only [List.cons.injEq] at hnumbers
    obtain rfl : halving = 1 := by omega
    obtain rfl : plain = 0 := by omega
    exact hholds

end Plans

end MicroLearn.Lower
