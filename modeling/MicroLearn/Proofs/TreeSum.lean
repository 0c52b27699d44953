import MicroLearn.Device.Operator
import MicroLearn.Proofs.Logarithm

/-!
# What the tree sum computes

One pass replaces the values by their pair sums, halved or not, although it writes
the buffer that it reads. From that follow the error of a whole run, its exactness
modulo the word when no pass halves, and the cells it leaves alone; the scale
bookkeeping then supplies as many passes as the count needs.
-/

set_option autoImplicit false

namespace MicroLearn.Device

open MicroLearn.Fixed MicroLearn.Number
open Finset (range sum_congr sum_range_succ)

variable {tmp : Array Int} {size : Nat}

section Pass

variable (bits : Nat) (halve : Bool) (count : Nat)

def halved (x : Int) : Int := if halve then x.tdiv 2 else x

theorem pairAt_congr (p : Nat) (t u : Array Int) (h0 : t.getD (2*p) 0 = u.getD (2*p) 0)
    (h1 : t.getD (2*p+1) 0 = u.getD (2*p+1) 0) :
    pairAt bits halve count p t = pairAt bits halve count p u := by
  simp only [pairAt, h0, h1]

/-- The first `m` places of a pass hold the pair sums of the buffer before the pass: place `p` is
written after places `2 * p` and `2 * p + 1` were read and before any of them is needed again. -/
theorem pairs_written (m : Nat) (tmp : Array Int) (hm : m ≤ tmp.size) :
    let t := (List.range m).foldl (fun t p => t.setIfInBounds p (pairAt bits halve count p t)) tmp
    t.size = tmp.size ∧ ∀ i, t.getD i 0 = if i < m then pairAt bits halve count i tmp
        else tmp.getD i 0 := by
  induction m with
  | zero => simp
  | succ m ih =>
    obtain ⟨hsize,hcell⟩ := ih (by omega)
    simp only [List.range_succ, List.foldl_append, List.foldl_cons, List.foldl_nil]
    generalize (List.range m).foldl _ tmp = t at hsize hcell
    have hpair : pairAt bits halve count m t = pairAt bits halve count m tmp :=
      pairAt_congr _ _ _ _ _ _ (by rw [hcell, if_neg (by omega)]) (by rw [hcell, if_neg (by omega)])
    refine ⟨by simpa using hsize,fun i => ?_⟩
    have hwrite : (t.setIfInBounds m (pairAt bits halve count m tmp)).getD i 0 =
        if i = m then pairAt bits halve count m tmp else t.getD i 0 := by
      simp only [Array.getD_eq_getD_getElem?, Array.getElem?_setIfInBounds]
      grind
    rw [hpair, hwrite, hcell]
    grind

theorem pass_size (size : Nat) (tmp : Array Int) (h : size/2 < tmp.size) :
    (pass bits size halve count tmp).size = tmp.size :=
  (pairs_written bits halve count (size/2+1) tmp h).1

theorem pass_getD (size : Nat) (tmp : Array Int) (h : size/2 < tmp.size) (i : Nat)
    (hi : i ≤ size/2) :
    (pass bits size halve count tmp).getD i 0 = pairAt bits halve count i tmp := by
  have := (pairs_written bits halve count (size/2+1) tmp h).2 i
  rwa [if_pos (by omega)] at this

end Pass

def leftSum (count : Nat) (tmp : Array Int) : Int := ∑ i ∈ range count, tmp.getD i 0

def pairSum (count p : Nat) (tmp : Array Int) : Int :=
  if p < count/2 then tmp.getD (2*p) 0+tmp.getD (2*p+1) 0 else tmp.getD (2*p) 0

theorem sum_pairs (f : Nat → Int) (m : Nat) :
    ∑ i ∈ range (2*m), f i = ∑ i ∈ range m, (f (2*i)+f (2*i+1)) := by
  induction m with
  | zero => simp
  | succ m ih =>
    rw [Nat.mul_add, sum_range_succ, sum_range_succ, sum_range_succ, ih]
    ring

theorem leftSum_pairs (count : Nat) (tmp : Array Int) :
    ∑ p ∈ range ((count+1)/2), pairSum count p tmp = leftSum count tmp := by
  have hpairs : ∑ p ∈ range (count/2), pairSum count p tmp =
      ∑ i ∈ range (2*(count/2)), tmp.getD i 0 := by
    rw [sum_pairs (fun i => tmp.getD i 0)]
    refine sum_congr rfl fun p hp => ?_
    rw [pairSum, if_pos (Finset.mem_range.1 hp)]
  obtain heven | hodd := Nat.mod_two_eq_zero_or_one count
  · rw [show (count+1)/2 = count/2 by omega, hpairs, leftSum,
      show 2*(count/2) = count by omega]
  · rw [show (count+1)/2 = count/2+1 by omega, sum_range_succ, hpairs, leftSum, pairSum,
      if_neg (by omega), ← sum_range_succ, show 2*(count/2)+1 = count by omega]

theorem leftSum_pass (bits size : Nat) (halve : Bool) (count : Nat) (tmp : Array Int)
    (hsize : size/2 < tmp.size) (hcount : count ≤ size) :
    leftSum ((count+1)/2) (pass bits size halve count tmp) =
      ∑ p ∈ range ((count+1)/2), pairAt bits halve count p tmp := by
  refine sum_congr rfl fun p hp => ?_
  rw [pass_getD _ _ _ _ _ hsize p]
  have := Finset.mem_range.1 hp
  omega

def PairsFit (bits count : Nat) (tmp : Array Int) : Prop :=
  ∀ p < count/2, InWord bits (tmp.getD (2*p) 0+tmp.getD (2*p+1) 0)

instance (bits count : Nat) (tmp : Array Int) : Decidable (PairsFit bits count tmp) :=
  inferInstanceAs (Decidable (∀ p < count/2, _))

theorem pairAt_of_fit {bits : Nat} (hbits : 1 ≤ bits) {count : Nat}
    (hfit : PairsFit bits count tmp) (halve : Bool) (p : Nat) (hp : p < (count+1)/2) :
    pairAt bits halve count p tmp = halved halve (pairSum count p tmp) := by
  unfold pairAt pairSum
  by_cases hpair : p < count/2
  · simp only [if_pos hpair, wrap_eq_self hbits (hfit p hpair), halved]
  · simp only [if_neg hpair, if_pos (show p = count/2 ∧ count % 2 = 1 by omega), halved]

theorem abs_halving (x : Int) : |2*x.tdiv 2-x| ≤ 1 := by
  have hparts := Int.mul_tdiv_add_tmod x 2
  have hrest := Int.tmod_two_eq x
  rw [abs_le]
  omega

theorem leftSum_halving {bits : Nat} (hbits : 1 ≤ bits) {count : Nat}
    (hsize : size/2 < tmp.size) (hcount : count ≤ size) (hfit : PairsFit bits count tmp) :
    |2*leftSum ((count+1)/2) (pass bits size true count tmp)-leftSum count tmp| ≤
      ((count+1)/2 : Nat) := by
  rw [leftSum_pass _ _ _ _ _ hsize hcount, ← leftSum_pairs count tmp, Finset.mul_sum,
    ← Finset.sum_sub_distrib]
  calc |∑ p ∈ range ((count+1)/2), (2*pairAt bits true count p tmp-pairSum count p tmp)|
      ≤ ∑ p ∈ range ((count+1)/2),
        |2*pairAt bits true count p tmp-pairSum count p tmp| := Finset.abs_sum_le_sum_abs _ _
    _ ≤ ∑ p ∈ range ((count+1)/2), 1 := by
      refine Finset.sum_le_sum fun p hp => ?_
      rw [pairAt_of_fit hbits hfit true p (Finset.mem_range.1 hp), halved, if_pos rfl]
      exact abs_halving _
    _ = ((count+1)/2 : Nat) := by simp

theorem leftSum_plain {bits : Nat} (hbits : 1 ≤ bits) {count : Nat}
    (hsize : size/2 < tmp.size) (hcount : count ≤ size) (hfit : PairsFit bits count tmp) :
    leftSum ((count+1)/2) (pass bits size false count tmp) = leftSum count tmp := by
  rw [leftSum_pass _ _ _ _ _ hsize hcount, ← leftSum_pairs count tmp]
  refine sum_congr rfl fun p hp => ?_
  rw [pairAt_of_fit hbits hfit false p (Finset.mem_range.1 hp), halved, if_neg Bool.false_ne_true]

/-- No pair sum of the passes leaves the word. -/
def SumsFit (bits size : Nat) (halving : Int) : Nat → Nat → Nat → Array Int → Prop
  | 0, _, _, _ => True
  | left+1, done, count, tmp =>
    PairsFit bits count tmp ∧ SumsFit bits size halving left (done+1) ((count+1)/2)
        (pass bits size (decide ((done : Int) < halving)) count tmp)

theorem leftSum_one (tmp : Array Int) : leftSum 1 tmp = tmp.getD 0 0 := by
  simp [leftSum]

/-- Along a run, with `h` halving passes among the `left` passes to come, the value in the first
cell is off by at most `h` halves of `2 ^ (left - h)`. -/
theorem passes_error {bits : Nat} (hbits : 1 ≤ bits) (halving : Int) (left done count : Nat)
    (tmp : Array Int) (hsize : size/2 < tmp.size) (hpos : 1 ≤ count) (hcount : count ≤ size)
    (hlevels : count ≤ 2^left) (hhalving : (halving-done).toNat ≤ left)
    (hfit : SumsFit bits size halving left done count tmp) :
    2*|2^(halving-done).toNat*(passes bits size halving left done count tmp).getD 0 0 -
        leftSum count tmp| ≤ (halving-done).toNat*2^left := by
  induction left generalizing done count tmp with
  | zero =>
    obtain rfl : count = 1 := by omega
    simp [passes, Nat.le_zero.1 hhalving, leftSum_one]
  | succ left ih =>
    obtain ⟨hpairs,hrest⟩ := hfit
    rw [pow_succ] at hlevels
    have hnext := ih (done+1) ((count+1)/2)
      (pass bits size (decide ((done : Int) < halving)) count tmp)
      (by rwa [pass_size _ _ _ _ _ hsize]) (by omega) (by omega) (by omega) (by omega) hrest
    rw [passes]
    generalize (passes bits size halving left (done+1) _ _).getD 0 0 = result at hnext ⊢
    by_cases hhalve : (done : Int) < halving
    · have hstep := leftSum_halving hbits hsize hcount hpairs
      have hleft : (((count+1)/2 : Nat) : Int) ≤ 2^left := by
        exact_mod_cast (show (count+1)/2 ≤ 2^left by omega)
      obtain ⟨h,hh⟩ : ∃ h : Nat, halving = done+1+h := ⟨(halving-done-1).toNat,by omega⟩
      have hnow : (halving-done).toNat = h+1 := by omega
      have hlater : (halving-((done+1 : Nat) : Int)).toNat = h := by omega
      rw [hlater, decide_eq_true hhalve] at hnext
      rw [hnow]
      generalize leftSum ((count+1)/2) _ = after at hnext hstep
      have htriangle : |2^(h+1)*result-leftSum count tmp| ≤
          2*|2^h*result-after| + |2*after-leftSum count tmp| := by
        calc |2^(h+1)*result-leftSum count tmp|
            = |2*(2^h*result-after)+(2*after-leftSum count tmp)| := by ring_nf
          _ ≤ |2*(2^h*result-after)| + |2*after-leftSum count tmp| := abs_add_le _ _
          _ = 2*|2^h*result-after| + |2*after-leftSum count tmp| := by
            rw [abs_mul, abs_two]
      have hbound : ((h+1 : Nat) : Int)*2^(left+1) = 2*(h*2^left)+2*2^left := by
        push_cast
        ring
      rw [hbound]
      linarith
    · have hnow : (halving-done).toNat = 0 := by omega
      have hlater : (halving-((done+1 : Nat) : Int)).toNat = 0 := by omega
      rw [hlater, decide_eq_false hhalve, leftSum_plain hbits hsize hcount hpairs] at hnext
      rw [hnow]
      simpa using hnext

theorem plain_pass_wrap {bits : Nat} (hbits : 1 ≤ bits) {count : Nat}
    (hsize : size/2 < tmp.size) (hcount : count ≤ size)
    (hcells : ∀ i < count, InWord bits (tmp.getD i 0)) :
    (∀ i < (count+1)/2, InWord bits ((pass bits size false count tmp).getD i 0)) ∧
      wrap bits (leftSum ((count+1)/2) (pass bits size false count tmp)) =
        wrap bits (leftSum count tmp) := by
  have hpair : ∀ p < (count+1)/2, pairAt bits false count p tmp =
      if p < count/2 then wrap bits (pairSum count p tmp) else pairSum count p tmp := by
    intro p hp
    unfold pairAt pairSum
    by_cases hlow : p < count/2
    · simp [hlow]
    · simp [show p = count/2 ∧ count % 2 = 1 by omega]
  constructor
  · intro i hi
    rw [pass_getD _ _ _ _ _ hsize i (by omega), hpair i hi]
    split
    · exact wrap_inWord hbits _
    · rename_i hlow
      rw [pairSum, if_neg hlow]
      exact hcells _ (by omega)
  · rw [leftSum_pass _ _ _ _ _ hsize hcount, ← leftSum_pairs count tmp]
    refine wrap_sum_congr _ _ _ fun p hp => ?_
    rw [hpair p hp]
    split
    · exact wrap_wrap _
    · rfl

theorem passes_wrap {bits : Nat} (hbits : 1 ≤ bits) (halving : Int) (left done count : Nat)
    (tmp : Array Int) (hsize : size/2 < tmp.size) (hpos : 1 ≤ count) (hcount : count ≤ size)
    (hlevels : count ≤ 2^left) (hhalving : halving ≤ done)
    (hcells : ∀ i < count, InWord bits (tmp.getD i 0)) :
    (passes bits size halving left done count tmp).getD 0 0 = wrap bits (leftSum count tmp) := by
  induction left generalizing done count tmp with
  | zero =>
    obtain rfl : count = 1 := by omega
    rw [passes, leftSum_one, wrap_eq_self hbits (hcells 0 Nat.one_pos)]
  | succ left ih =>
    rw [pow_succ] at hlevels
    have hplain : decide ((done : Int) < halving) = false := decide_eq_false (by omega)
    obtain ⟨hword,hsum⟩ := plain_pass_wrap hbits hsize hcount hcells
    rw [passes, hplain, ← hsum]
    exact ih (done+1) _ _ (by rwa [pass_size _ _ _ _ _ hsize]) (by omega) (by omega) (by omega)
      (by omega) hword

theorem passes_size (bits size : Nat) (halving : Int) (left done count : Nat) (tmp : Array Int)
    (h : size/2 < tmp.size) : (passes bits size halving left done count tmp).size = tmp.size := by
  induction left generalizing done count tmp with
  | zero => rfl
  | succ left ih =>
    have hpass := pass_size bits (decide ((done : Int) < halving)) count size tmp h
    rw [passes, ih _ _ _ (by omega), hpass]

theorem pairAt_append {bits : Nat} (halve : Bool) (count p : Nat) (t rest : Array Int)
    (hcount : count ≤ t.size) :
    pairAt bits halve count p (t++rest) = pairAt bits halve count p t := by
  have hread : ∀ i < t.size, (t++rest).getD i 0 = t.getD i 0 := by
    intro i hi
    simp only [Array.getD_eq_getD_getElem?, Array.getElem?_append_left hi]
  unfold pairAt
  by_cases hpair : p < count/2
  · simp only [if_pos hpair, hread (2*p) (by omega), hread (2*p+1) (by omega)]
  · by_cases hlast : p = count/2 ∧ count % 2 = 1
    · simp only [if_neg hpair, if_pos hlast, hread (2*p) (by omega)]
    · simp only [if_neg hpair, if_neg hlast]

theorem pass_append {bits : Nat} (halve : Bool) (count : Nat) (t rest : Array Int)
    (hsize : size/2 < t.size) (hcount : count ≤ t.size) :
    pass bits size halve count (t++rest) = pass bits size halve count t++rest := by
  unfold pass
  generalize hm : size/2+1 = m
  replace hsize : m ≤ t.size := by omega
  clear hm
  induction m with
  | zero => rfl
  | succ m ih =>
    have hkept := (pairs_written bits halve count m t (by omega)).1
    simp only [List.range_succ, List.foldl_append, List.foldl_cons, List.foldl_nil, ih (by omega)]
    generalize (List.range m).foldl _ t = u at hkept
    rw [pairAt_append _ _ _ _ _ (by omega)]
    exact Array.setIfInBounds_append_left (by omega)

theorem passes_append {bits : Nat} (halving : Int) (left done count : Nat) (t rest : Array Int)
    (hsize : size/2 < t.size) (hcount : count ≤ t.size) :
    passes bits size halving left done count (t++rest) =
      passes bits size halving left done count t++rest := by
  induction left generalizing done count t with
  | zero => rfl
  | succ left ih =>
    have hkept := pass_size bits (decide ((done : Int) < halving)) count size t hsize
    rw [passes, passes, pass_append _ _ _ _ hsize hcount]
    exact ih _ _ _ (by omega) (by omega)

theorem sum_getD (xs : List Int) : ∑ i ∈ range xs.length, xs.getD i 0 = xs.sum := by
  induction xs with
  | nil => rfl
  | cons x xs ih =>
    rw [List.length_cons, Finset.sum_range_succ', List.sum_cons, add_comm, ← ih]
    rfl

theorem leftSum_all (t : Array Int) : leftSum t.size t = t.toList.sum := by
  rw [← sum_getD, leftSum, Array.length_toList]
  refine sum_congr rfl fun i _ => ?_
  rw [Array.getD_eq_getD_getElem?, List.getD_eq_getElem?_getD, Array.getElem?_toList]

end MicroLearn.Device

namespace MicroLearn.Lower

theorem scaleForTreeSum_of_levels (maxScale p n : Int) (levels : Nat)
    (h : treeLevels n = .ok (levels : Int)) : ∃ halving plain : Nat, halving+plain = levels ∧
      scaleForTreeSum maxScale p n = .ok (p+halving,halving,plain) := by
  obtain ⟨result,hresult⟩ : ∃ r, r = if maxScale ≤ p then p else min (p+levels) maxScale := ⟨_,rfl⟩
  have hlow : p ≤ result := by
    rw [hresult]
    split <;> omega
  have hhigh : result ≤ p+levels := by
    rw [hresult]
    split <;> omega
  refine ⟨(result-p).toNat,(levels-(result-p)).toNat,by omega,?_⟩
  have hsum : p+((result-p).toNat : Int) = result := by omega
  have hhalving : ((result-p).toNat : Int) = result-p := by omega
  have hplain : ((levels-(result-p)).toNat : Int) = levels-(result-p) := by omega
  rw [hsum, hhalving, hplain]
  have hfirst : decide (0 ≤ result-p) = true := decide_eq_true (by omega)
  have hsecond : decide (0 ≤ (levels : Int)-(result-p)) = true := decide_eq_true (by omega)
  simp only [scaleForTreeSum, h, bind, Except.bind, ← hresult, hfirst, hsecond, demand, pure,
    Except.pure, if_true]

end MicroLearn.Lower

namespace MicroLearn.Device

open MicroLearn.Fixed MicroLearn.Number MicroLearn.Lower

theorem treeSum_error {bits n halving plain : Nat} (hbits : 1 ≤ bits) (hpos : 1 ≤ n)
    (hlevels : n ≤ 2^(halving+plain)) (t : Array Int) (hsize : t.size = n)
    (hfit : SumsFit bits n halving (halving+plain) 0 n t) :
    |((treeSum bits n halving plain t).getD 0 0 : ℚ)-(t.toList.sum : ℚ)/2^halving| ≤
      2^plain*halving/2 := by
  have hcount : ((halving : Int)+plain).toNat = halving+plain := by omega
  have hstart : ((halving : Int)-((0 : Nat) : Int)).toNat = halving := by omega
  have hrun := passes_error hbits halving (halving+plain) 0 n t (by omega) hpos (le_refl n)
    hlevels (by omega) hfit
  rw [hstart, ← hcount, ← treeSum, hcount, ← hsize, leftSum_all, hsize] at hrun
  generalize (treeSum bits n halving plain t).getD 0 0 = result at hrun ⊢
  have hscale : (0 : ℚ) < 2^halving := by positivity
  have hcast : 2*|2^halving*(result : ℚ)-(t.toList.sum : ℚ)| ≤
      halving*2^(halving+plain) := by exact_mod_cast hrun
  rw [← mul_le_mul_iff_right₀ hscale, ← abs_of_pos hscale, ← abs_mul, abs_of_pos hscale, mul_sub,
    mul_div_cancel₀ _ hscale.ne']
  rw [pow_add] at hcast
  linarith

/-- The passes that the scale bookkeeping plans for a sum of `n` words do what it counts on. They
are enough for `n`; a run of them divides the sum by `2 ^ halving` with the stated error while no
pair sum leaves the word; it works in the first `n` cells only; and where no pass halves, it gives
the sum modulo the word, whatever overflows and however many passes are added. Counts up to `2 ^ 48`
take their levels from the doubles without an assumption. -/
theorem treeSum_meets_scale (bits n : Nat) (maxScale p : Int) (hpos : 1 ≤ n)
    (hword : n < 2^(bits-1)) (hexact : 49 < bits → treeLevels n = .ok (Nat.clog 2 n : Int)) :
    ∃ halving plain : Nat,
      scaleForTreeSum maxScale p n = .ok (p+halving,halving,plain) ∧
      n ≤ 2^(halving+plain) ∧
      ∀ t : Array Int, t.size = n → (∀ x ∈ t, InWord bits x) →
        (SumsFit bits n halving (halving+plain) 0 n t →
          |((treeSum bits n halving plain t).getD 0 0 : ℚ)-(t.toList.sum : ℚ)/2^halving| ≤
            2^plain*halving/2) ∧
        (∀ rest : Array Int,
          treeSum bits n halving plain (t++rest) = treeSum bits n halving plain t++rest) ∧
        (halving = 0 → ∀ more : Nat,
          (treeSum bits n halving (plain+more : Nat) t).getD 0 0 = wrap bits t.toList.sum) := by
  have hlevels : treeLevels n = .ok (Nat.clog 2 n : Int) := by
    by_cases hwide : 49 < bits
    · exact hexact hwide
    · refine treeLevels_eq n hpos (Nat.lt_of_lt_of_le hword ?_)
      exact Nat.pow_le_pow_right (by decide) (by omega)
  have hbits : 1 ≤ bits := by
    by_contra hzero
    obtain rfl : bits = 0 := by omega
    simp at hword
    omega
  obtain ⟨halving,plain,hsum,hscale⟩ := scaleForTreeSum_of_levels maxScale p n _ hlevels
  have hreach : n ≤ 2^(halving+plain) := by
    rw [hsum]
    exact Nat.le_pow_clog (by decide) n
  refine ⟨halving,plain,hscale,hreach,fun t hsize hcells => ⟨fun hfit => ?_,fun rest => ?_,?_⟩⟩
  · exact treeSum_error hbits hpos hreach t hsize hfit
  · exact passes_append _ _ _ _ _ _ (by omega) (by omega)
  · rintro rfl more
    have hread : ∀ i < n, InWord bits (t.getD i 0) := by
      intro i hi
      rw [Array.getD_eq_getD_getElem?, Array.getElem?_eq_getElem (by omega)]
      exact hcells _ (Array.getElem_mem _)
    rw [← leftSum_all, hsize]
    refine passes_wrap hbits _ _ 0 n t (by omega) hpos (le_refl n) (hreach.trans ?_) (by simp) hread
    exact Nat.pow_le_pow_right (by decide) (by omega)

/-- Three words summed with one halving pass and one plain pass; the odd value loses a half. -/
theorem treeSum_meets_scale_three :
    scaleForTreeSum 0 (-1) 3 = .ok (0,1,1) ∧ SumsFit 16 3 1 2 0 3 #[5, -3, 9] ∧
      |((treeSum 16 3 1 1 #[5, -3, 9]).getD 0 0 : ℚ)-11/2| ≤ 1 := by
  have hplan : scaleForTreeSum 0 (-1) 3 = .ok (0,1,1) := by decide +kernel
  have hfit : SumsFit 16 3 1 2 0 3 #[5, -3, 9] :=
    ⟨by decide +kernel,by decide +kernel,trivial⟩
  obtain ⟨halving,plain,hscale,-,hrun⟩ :=
    treeSum_meets_scale 16 3 0 (-1) (by decide) (by decide) (by decide)
  obtain ⟨-,hhalving,hplain⟩ : (0 : Int) = -1+halving ∧ (1 : Int) = halving ∧
      (1 : Int) = plain := by
    simpa using hplan.symm.trans hscale
  obtain rfl : halving = 1 := by omega
  obtain rfl : plain = 1 := by omega
  have herror := (hrun #[5, -3, 9] rfl (by decide)).1 hfit
  refine ⟨hplan,hfit,?_⟩
  norm_num at herror ⊢
  exact herror

end MicroLearn.Device
