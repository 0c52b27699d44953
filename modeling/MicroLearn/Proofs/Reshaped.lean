import MicroLearn.Proofs.Cells
import MicroLearn.Proofs.ClosedOperations
import MicroLearn.Proofs.Typing

/-!
# Reshaped tensors

The code of a reshape copies the cells of a tensor one by one. Loops run over the
source with its dimensions in the given order, and an odometer of indices walks the
result in row-major order; the two stay in step.
-/

set_option autoImplicit false

open List (map_cons map_map prod_cons range)

namespace MicroLearn.Lower

open Code
open Lowering

def volume (shape : List Int) : Nat := (shape.map Int.toNat).prod

/-- The cell with a number in row-major order. -/
def digits : List Int → Nat → List Int
  | [], _ => []
  | d::shape, k => ((k/volume shape % d.toNat : Nat) : Int)::digits shape k

section Cells

variable {shape : List Int}

theorem volume_pos (h : ∀ d ∈ shape, 0 < d) : 0 < volume shape := List.prod_pos (by simpa using h)

theorem digits_add (h : ∀ d ∈ shape, 0 < d) (j k : Nat) :
    digits shape (j*volume shape+k) = digits shape k := by
  induction shape generalizing j with
  | nil => rfl
  | cons d shape ih =>
    rw [List.forall_mem_cons] at h
    rw [show volume (d::shape) = d.toNat*volume shape from prod_cons, ← Nat.mul_assoc,
      digits, digits, ih h.2, Nat.add_comm, Nat.add_mul_div_right _ _ (volume_pos h.2),
      Nat.add_mul_mod_self_right]

theorem cells_digits (h : ∀ d ∈ shape, 0 < d) :
    cells shape = (range (volume shape)).map (digits shape) := by
  induction shape with
  | nil => rfl
  | cons d shape ih =>
    rw [List.forall_mem_cons] at h
    rw [cells, ih h.2, show volume (d::shape) = d.toNat*volume shape from prod_cons,
      Fixed.range_mul, List.map_flatMap]
    refine List.flatMap_congr fun j hj => ?_
    rw [map_map, map_map]
    refine List.map_congr_left fun k hk => ?_
    rw [Function.comp, Function.comp, digits, digits_add h.2, Nat.add_comm,
      Nat.add_mul_div_right _ _ (volume_pos h.2), Nat.div_eq_of_lt (List.mem_range.1 hk),
      Nat.zero_add, Nat.mod_eq_of_lt (List.mem_range.1 hj)]

theorem digits_append (d : Int) (shape : List Int) (k : Nat) :
    digits (shape++[d]) k = digits shape (k/d.toNat)++[((k % d.toNat : Nat) : Int)] := by
  induction shape with
  | nil => simp [digits, volume]
  | cons n shape ih => simp [digits, volume, ih, Nat.div_div_eq_div_mul, Nat.mul_comm]

end Cells

section Runs

variable {M : Machine} {s : Settings} {m : Memory} {code step body : List Instr}
  {names : List String} {shape : List Int} {w : String}

/-- The arithmetic of the machine counts as far as the numbers fit a word. -/
def Counts (M : Machine) (s : Settings) : Prop :=
  ∀ k n : Int, 0 ≤ k → k < n → Code.number s n = .ok n → M.arith .add k 1 = k+1

theorem assign_run {t : Term} {n : Int} {m' : Memory} {log : List Access} (ht : t.reads M m = [])
    (hn : t.value M m = n) (h : Run M code ((plain w).store M m n) log m') :
    Run M (.assign (plain w) t::code) m log m' := by
  subst hn
  have hrun : Run M (.assign (plain w) t::code) m (t.reads M m++[]++log) m' := .assign h
  rwa [ht] at hrun

theorem increment_run {m' : Memory} {k d : Nat} (hM : Counts M s)
    (hd : Code.number s d = .ok (d : Int)) (hk : k < d) (hm : m w [] = k)
    (h : Run M code ((plain w).store M m (k+1)) [] m') :
    Run M (increment (plain w)::code) m [] m' := by
  refine assign_run rfl ?_ h
  rw [← hM k d (by omega) (by omega) hd, ← hm]
  rfl

/-- The code moves the indices with these names to the next cell. -/
def Advances (M : Machine) (code : List Instr) (names : List String) (shape : List Int) : Prop :=
  ∀ (m : Memory) k, k < volume shape → scalars m names = digits shape k → ∃ m',
    Run M code m [] m' ∧ (∀ x ∉ names, m' x = m x) ∧
      (k+1 < volume shape → scalars m' names = digits shape (k+1))

theorem increment_advances {d : Nat} (hM : Counts M s) (hd : Code.number s d = .ok (d : Int)) :
    Advances M [increment (plain w)] [w] [(d : Int)] := by
  intro m k hk hm
  simp only [volume, scalars, digits, map_cons, List.map_nil, prod_cons, List.prod_nil,
    Nat.mul_one, Nat.div_one, Int.toNat_natCast, List.cons.injEq, and_true] at hk hm ⊢
  rw [Nat.mod_eq_of_lt hk] at hm
  refine ⟨_,increment_run hM hd hk hm .nil,fun x hx => store_plain_ne _ (by simpa using hx),?_⟩
  intro hnext
  rw [store_plain_self, Nat.mod_eq_of_lt hnext]
  rfl

theorem turn_advances {d : Nat} (hM : Counts M s) (hd : Code.number s d = .ok (d : Int))
    (hw : w ∉ names) (hstep : Advances M step names shape) : Advances M
      [increment (plain w), .branch (eq (plain w) (.int d)) (setZero (plain w)::step) []]
      (names++[w]) (shape++[(d : Int)]) := by
  intro m k hk hm
  have hvolume : volume (shape++[(d : Int)]) = d*volume shape := by
    simp [volume, Nat.mul_comm]
  rw [digits_append, scalars_append] at hm
  obtain ⟨hothers,hm⟩ := List.append_inj' hm rfl
  rw [hvolume] at hk ⊢
  have hpos : 0 < d := Nat.pos_of_ne_zero (by rintro rfl; simp at hk)
  have hlt := Nat.mod_lt k hpos
  have hsplit := Nat.div_add_mod k d
  have hcell : m w [] = (k % d : Nat) := (List.cons.inj hm).1
  have htest : (eq (plain w) (.int d)).value M ((plain w).store M m ((k % d : Nat)+1)) =
      truth (k % d+1 = d) := by
    rw [eq, Term.value, value_plain, store_plain_self]
    exact congrArg truth (decide_eq_decide.2 (by simp only [Term.value]; omega))
  have hmove : ∀ m', Run M ((if truth (k % d+1 = d) = 0 then [] else setZero (plain w)::step)++[])
      ((plain w).store M m ((k % d : Nat)+1)) [] m' → Run M
        [increment (plain w), .branch (eq (plain w) (.int d)) (setZero (plain w)::step) []] m []
            m' := by
    intro m' h
    rw [← htest] at h
    have hbranch : Run M [.branch (eq (plain w) (.int d)) (setZero (plain w)::step) []] _ _ m' :=
      .branch h
    exact increment_run hM hd hlt hcell hbranch
  have hframe : ∀ n, ∀ x ∉ names++[w], (plain w).store M m n x = m x := by
    intro n x hx
    exact store_plain_ne n fun h => hx (by simp [h])
  have hkeep : ∀ m1 : Memory, ∀ n, scalars ((plain w).store M m1 n) names = scalars m1 names :=
    fun m1 n => scalars_congr fun x hx => store_plain_ne n (ne_of_mem_of_not_mem hx hw)
  by_cases hlast : k % d+1 = d
  · have hnext : (k+1)/d = k/d+1 ∧ (k+1) % d = 0 :=
      (Nat.div_mod_unique hpos).2 ⟨by rw [Nat.mul_succ]; omega,hpos⟩
    obtain ⟨m',hrun,hkept,hcells⟩ := hstep
      ((plain w).store M ((plain w).store M m ((k % d : Nat)+1)) 0) (k/d)
      (Nat.div_lt_of_lt_mul hk) (by rw [hkeep, hkeep, hothers]; rfl)
    refine ⟨m',hmove m' ?_,fun x hx => ?_,fun hk' => ?_⟩
    · simpa [hlast, truth, setZero] using assign_run (t := .int 0) rfl rfl hrun
    · simp only [List.mem_append, List.mem_singleton, not_or] at hx
      rw [hkept x hx.1, store_plain_ne _ hx.2, store_plain_ne _ hx.2]
    · have hmore : k/d+1 < volume shape := hnext.1 ▸ Nat.div_lt_of_lt_mul hk'
      rw [digits_append, Int.toNat_natCast, hnext.1, hnext.2, ← hcells hmore, scalars_append]
      simp [scalars, hkept w hw]
  · have hnext : (k+1)/d = k/d ∧ (k+1) % d = k % d+1 :=
      (Nat.div_mod_unique hpos).2 ⟨by omega,by omega⟩
    refine ⟨(plain w).store M m ((k % d : Nat)+1),hmove _ ?_,hframe _,fun hk' => ?_⟩
    · simpa [hlast, truth] using Run.nil
    · rw [digits_append, Int.toNat_natCast, hnext.1, hnext.2, scalars_append, hkeep, hothers]
      simp [scalars]

theorem stepIndices_advances {ds : List Int} {ws : List String} (hM : Counts M s)
    (hfits : ∀ d ∈ ds, 0 < d ∧ Code.number s d = .ok d) (hlength : ws.length = ds.length)
    (hnodup : (names++ws).Nodup) (hstep : Advances M step names shape)
    (hcode : stepIndices s step ((ws.map plain).zip ds) = .ok code) :
    Advances M code (names++ws) (shape++ds) := by
  induction ds generalizing ws names shape step with
  | nil =>
    obtain rfl := List.length_eq_zero_iff.1 hlength
    obtain rfl := Except.ok.inj hcode
    simpa using hstep
  | cons d ds ih =>
    obtain ⟨w,ws,rfl⟩ := List.exists_cons_of_length_eq_add_one hlength
    rw [List.forall_mem_cons] at hfits
    obtain ⟨t,ht,hcode⟩ := bind_ok hcode
    rw [literal_ok ht] at hcode
    obtain ⟨d,rfl⟩ := Int.eq_ofNat_of_zero_le hfits.1.1.le
    rw [List.append_cons] at hnodup ⊢
    rw [List.append_cons shape]
    have hw : w ∉ names := by
      rw [List.nodup_append, List.nodup_append] at hnodup
      exact fun hmem => hnodup.1.2.2 w hmem w (List.mem_singleton_self w) rfl
    exact ih hfits.2 (Nat.succ.inj hlength) hnodup (turn_advances hM hfits.1.2 hw hstep) hcode

variable {order : List Int} {dims turns : List (String × Int)} {x out : String} {inFlash : Bool}

/-- What copying these cells of a tensor to the first cells of another one accesses. -/
def copies (x out : String) (m : Memory) (shape : List Int) (inputs : List (List Int)) :
    List Access :=
  inputs.zipIdx.flatMap fun p => [.read x p.1, .write out (digits shape p.2) (m x p.1)]

theorem copy_run {reads : List String} {m' : Memory} ( inFlash : Bool) (hreads : reads ≠ [])
    (hnames : names ≠ [])
    (h : Run M code ((Term.var out (names.map plain) false).store M m (m x (scalars m reads)))
      [] m') :
    Run M (.assign (Term.var out (names.map plain) false) (Term.var x (reads.map plain) inFlash) ::
      code) m [.read x (scalars m reads), .write out (scalars m names) (m x (scalars m reads))]
        m' := by
  have hvalue : (Term.var x (reads.map plain) inFlash).value M m = m x (scalars m reads) := by
    rw [Term.value, values_plain]
  have hrun := Run.assign (hvalue ▸ h)
  rw [hvalue] at hrun
  simpa [Term.reads, Term.writes, readsAll_plain, values_plain, hreads, hnames] using hrun

theorem scalars_mem_cells : scalars m (dims.map Prod.fst) ∈ cells (dims.map Prod.snd) ↔
    ∀ p ∈ dims, 0 ≤ m p.1 [] ∧ m p.1 [] < p.2 := by
  rw [mem_cells, scalars, map_map, List.forall₂_map_left_iff, List.forall₂_map_right_iff,
    List.forall₂_same]
  rfl

theorem pickAll_map {α β : Type} {xs ys : List α} (f : α → β) (h : pickAll xs order = .ok ys) :
    pickAll (xs.map f) order = .ok (ys.map f) := by
  rw [pickAll_ok] at h ⊢
  refine List.forall₂_map_right_iff.2 (h.imp fun o y hy => ?_)
  obtain ⟨k,hk,hy⟩ := pick_ok.1 hy
  exact pick_ok.2 ⟨k,by rw [List.length_map, hk],by rw [List.getElem?_map, hy]; rfl⟩

theorem copies_run (hstep : Advances M step names shape) (hnames : names ≠ []) (hdims : dims ≠ [])
    (hturns : pickAll dims order = .ok turns) (hperm : turns.Perm dims)
    (hcount : (cells (turns.map Prod.snd)).length = volume shape)
    (hnodup : (dims.map Prod.fst++out::names).Nodup) (hx : x ∉ dims.map Prod.fst++out::names)
    (hcode : nest s (turns.map Prod.snd) ((turns.map Prod.fst).map plain)
      (.assign (Term.var out (names.map plain) false)
        (.var x ((dims.map Prod.fst).map plain) inFlash)::step) = .ok code)
    (hm : scalars m names = digits shape 0) : ∃ log m', Run M code m log m' ∧ ∃ inputs,
      List.Forall₂ (fun i c => i ∈ cells (dims.map Prod.snd) ∧ pickAll i order = .ok c) inputs
        (cells (turns.map Prod.snd)) ∧ log = copies x out m shape inputs ∧
      (inputs.length < volume shape → scalars m' names = digits shape inputs.length) ∧
      ∀ y ∉ dims.map Prod.fst++out::names, m' y = m y := by
  obtain ⟨hreads,hmade,hapart⟩ := List.nodup_append.1 hnodup
  obtain ⟨hout,-⟩ := List.nodup_cons.1 hmade
  have hmem : ∀ y, y ∈ turns.map Prod.fst ↔ y ∈ dims.map Prod.fst := fun y => (hperm.map _).mem_iff
  refine nest_run (P := fun done log m' => ∃ inputs, List.Forall₂
    (fun i c => i ∈ cells (dims.map Prod.snd) ∧ pickAll i order = .ok c) inputs done ∧
    log = copies x out m shape inputs ∧
    (inputs.length < volume shape → scalars m' names = digits shape inputs.length) ∧
    ∀ y ∉ dims.map Prod.fst++out::names, m' y = m y) (by simp) ((hperm.map _).nodup_iff.2 hreads)
    hcode ?_ ?_ ⟨[],.nil,rfl,fun _ => hm,fun _ _ => rfl⟩
  · rintro done log m' y n hy ⟨inputs,hinputs,hlog,hcells,hkept⟩
    rw [hmem] at hy
    refine ⟨inputs,hinputs,hlog,fun hk => ?_,fun z hz => ?_⟩
    · rw [← hcells hk]
      exact scalars_congr fun z hz => store_plain_ne n (hapart y hy z (by simp [hz])).symm
    · rw [store_plain_ne n fun h => hz (by simp [h, hy]), hkept z hz]
  · rintro done log m1 hdone ⟨inputs,hinputs,rfl,hcells,hkept⟩
    have hk : inputs.length < volume shape := by
      have := hdone.length_le
      rw [List.length_append, List.length_singleton] at this
      rw [hinputs.length_eq, ← hcount]
      omega
    have hturn : scalars m1 (turns.map Prod.fst) ∈ cells (turns.map Prod.snd) :=
      hdone.subset (by simp)
    have hinput : scalars m1 (dims.map Prod.fst) ∈ cells (dims.map Prod.snd) :=
      scalars_mem_cells.2 fun p hp => scalars_mem_cells.1 hturn p (hperm.mem_iff.2 hp)
    have hpicked : pickAll (scalars m1 (dims.map Prod.fst)) order =
        .ok (scalars m1 (turns.map Prod.fst)) := by
      rw [scalars, scalars, map_map, map_map]
      exact pickAll_map _ hturns
    have hstored : ∀ y, y ≠ out → ∀ n, (Term.var out (names.map plain) false).store M m1 n y =
        m1 y :=
      fun y hy n => store_of_ne M m1 n _ (by simpa [Term.root?] using hy)
    obtain ⟨m2,hrun,hframe,hnext⟩ := hstep _ _ hk (Eq.trans (scalars_congr fun y hy =>
      hstored y (ne_of_mem_of_not_mem hy hout) (m x (scalars m1 (dims.map Prod.fst)))) (hcells hk))
    have hother : ∀ y, y ∉ out::names → m2 y = m1 y := by
      intro y hy
      rw [List.mem_cons, not_or] at hy
      rw [hframe y hy.2, hstored y hy.1]
    refine ⟨[.read x (scalars m1 (dims.map Prod.fst)), .write out (digits shape inputs.length)
      (m x (scalars m1 (dims.map Prod.fst)))],m2,?_,⟨inputs++[scalars m1 (dims.map Prod.fst)],
      List.rel_append hinputs (.cons ⟨hinput,hpicked⟩ .nil),?_,?_,fun y hy => ?_⟩,?_⟩
    · have hcopy := copy_run inFlash (by simpa using hdims) hnames (hkept x hx ▸ hrun)
      rwa [hcells hk, hkept x hx] at hcopy
    · simp [copies, List.zipIdx_append]
    · simpa using hnext
    · rw [hother y fun h => hy (by simp [h]), hkept y hy]
    · exact scalars_congr fun y hy => hother y fun h => hapart y ((hmem y).1 hy) y h rfl

theorem zeros_run (hnodup : names.Nodup) (code : List Instr) :
    ∃ m1 : Memory, scalars m1 names = .replicate names.length 0 ∧
    (∀ y ∉ names, m1 y = m y) ∧ ∀ log m', Run M code m1 log m' →
      Run M ((names.map plain).map (fun w => .assign w zero)++code) m log m' := by
  induction names generalizing m with
  | nil => exact ⟨m,rfl,fun _ _ => rfl,fun _ _ => id⟩
  | cons w names ih =>
    rw [List.nodup_cons] at hnodup
    obtain ⟨m1,hzeros,hkept,hrun⟩ := ih (m := (plain w).store M m 0) hnodup.2
    refine ⟨m1,?_,fun y hy => ?_,fun log m' h => assign_run rfl rfl (hrun log m' h)⟩
    · rw [List.length_cons, List.replicate_succ, ← hzeros]
      exact congrArg (· :: _) ((congrFun (hkept w hnodup.1) []).trans (store_plain_self 0))
    · rw [List.mem_cons, not_or] at hy
      rw [hkept y hy.2, store_plain_ne 0 hy.1]

theorem pickAll_perm {α : Type} [Inhabited α] {xs : List α}
    (h : order.Perm ((range xs.length).map fun (k : Nat) => (k : Int)+1)) :
    ∃ ys, pickAll xs order = .ok ys ∧ ys.Perm xs := by
  refine ⟨_,Model.mapM_ok_of_forall _ (fun o => xs.getD (o-1).toNat default) order fun o ho => ?_,
    ?_⟩
  · obtain ⟨k,hk,rfl⟩ := List.mem_map.1 (h.mem_iff.1 ho)
    have hk := List.mem_range.1 hk
    have hnonneg : ¬ (k : Int) < 0 := by omega
    simp [pick, hnonneg, hk]
  · refine (h.map _).trans (.of_eq (List.ext_getElem (by simp) fun k hk hk' => ?_))
    simp [hk']

end Runs

section Reshape

variable {cx : Context} {b : Tally} {order source target : List Int} {x : String} {inFlash : Bool}
  {M : Machine}

/-- A reshape with dimensions that fit a word of the device and an order that is a permutation. -/
structure Reshapes (s : Settings) (source target order : List Int) : Prop where
  ranks : source ≠ [] ∧ target ≠ []
  fits : ∀ d ∈ source++target, 0 < d ∧ Code.number s d = .ok d
  size : source.prod = target.prod
  order : order.Perm (Lang.dimensions source)

theorem volume_eq {shape : List Int} (h : ∀ d ∈ shape, 0 < d) :
    (volume shape : Int) = shape.prod := by
  induction shape with
  | nil => rfl
  | cons d shape ih =>
    rw [List.forall_mem_cons] at h
    rw [prod_cons, ← ih h.2, ← Int.toNat_of_nonneg h.1.le]
    simp [volume]

theorem digits_zero (shape : List Int) : digits shape 0 = .replicate shape.length 0 := by
  induction shape with
  | nil => rfl
  | cons d shape ih => simp [digits, ih, List.replicate_succ]

theorem copies_eq {m : Memory} {out : String} {inputs : List (List Int)}
    (htarget : ∀ d ∈ target, 0 < d)
    (h : inputs.length = volume target) : copies x out m target inputs =
      (inputs.zip (cells target)).flatMap fun p => [.read x p.1, .write out p.2 (m x p.1)] := by
  rw [copies, cells_digits htarget, ← h, List.zipIdx_eq_zip_range', List.zip_map_right,
    List.flatMap_map, List.range_eq_range']
  rfl

theorem nodup_names (v i n k : Nat) : (row iteratorName i k++row variableName v n).Nodup := by
  refine List.nodup_append.2 ⟨?_,?_,?_⟩
  · exact List.Nodup.map (fun _ _ => iteratorName_inj) List.nodup_range'
  · exact List.Nodup.map (fun _ _ => variableName_inj) List.nodup_range'
  · rintro x hx y hy rfl
    obtain ⟨a,-,-,rfl⟩ := mem_row.1 hx
    obtain ⟨c,-,-,hc⟩ := mem_row.1 hy
    exact variableName_ne_iteratorName c a hc.symm

/-- Take the code of a reshape whose source is a variable made before. Run from any memory it copies
cell by cell. The cells of the result are written in row-major order, and each cell of the source is
read in its turn: its indices, in the order of the reshape, go through all cells of the dimensions
in this order. The source stays as it is. -/
theorem reshape_copies {st st' : State} {r : Lowered} (h : Reshapes cx.settings source target order)
    (hM : Counts M cx.settings) (hx : ∀ n, (st.nextVar ≤ n → x ≠ variableName n) ∧
      (st.nextIterator ≤ n → x ≠ iteratorName n))
    (hlower : lowerReshape cx (.tensor source) (.tensor target) order (.var x [] inFlash) st =
      .ok (r,st')) :
    ∃ out turns, r.2 = plain out ∧ pickAll source order = .ok turns ∧
      (∀ shape, (cells shape).Pairwise (· < ·)) ∧
      ∀ m, ∃ inputs m', Run M r.1 m ((inputs.zip (cells target)).flatMap fun p =>
          [.read x p.1, .write out p.2 (m x p.1)]) m' ∧ inputs.length = (cells target).length ∧
        List.Forall₂ (fun i c => i ∈ cells source ∧ pickAll i order = .ok c) inputs (cells turns) ∧
        m' x = m x := by
  have hends : ∀ {Q : Lowered → Prop},
    Ends st.tally (lowerReshape cx (.tensor source) (.tensor target)
      order (.var x [] inFlash)) (fun _ => Q) → Q r := fun h => h st r st' rfl hlower
  replace hx : ∀ n, (st.tally.nextVar ≤ n → x ≠ variableName n) ∧
    (st.tally.nextIterator ≤ n → x ≠ iteratorName n) := hx
  apply hends
  generalize st.tally = b at hx
  obtain ⟨⟨types,tables,v⟩,i⟩ := b
  obtain ⟨d,shape,rfl⟩ := List.exists_cons_of_ne_nil h.ranks.2
  unfold lowerReshape
  refine ends_neutral fun p => ends_neutral fun a => ends_attempt fun inShape hin => ?_
  obtain rfl := Except.ok.inj hin
  refine ends_attempt fun outShape hout => ends_freshVar ?_
  obtain rfl := Except.ok.inj hout
  refine ends_freshIterators (ends_freshVars ?_)
  rw [List.length_cons, row_succ, map_cons, firstOf, pure_bind]
  refine ends_attempt fun step hstep => ?_
  refine ends_attempt fun loopShape hshape => ends_attempt fun loopReads hloopReads => ?_
  refine ends_attempt fun loops hloops => ends_neutral fun name => ends_record ?_
  rw [← map_cons]
  refine ends_declareAll (ends_pure ⟨_,loopShape,rfl,hshape,cells_sorted,fun m => ?_⟩)
  have hsource := List.forall_mem_append.1 h.fits
  have hfits := List.forall_mem_cons.1 hsource.2
  have hnodup := nodup_names v i (shape.length+2) source.length
  have hx : x ∉ row iteratorName i source.length++row variableName v (shape.length+2) := by
    rw [List.mem_append, mem_row, mem_row]
    rintro (⟨n,hn,-,hx'⟩ | ⟨n,hn,-,hx'⟩)
    · exact (hx n).2 hn hx'
    · exact (hx n).1 hn hx'
  rw [row_succ, row_succ] at hnodup hx
  have hreads := length_row iteratorName i source.length
  have hwrites := length_row variableName (v+1+1) shape.length
  generalize row iteratorName i source.length = reads at *
  generalize row variableName (v+1+1) shape.length = writes at *
  obtain ⟨dims,rfl,rfl⟩ : ∃ dims : List (String × Int), dims.map Prod.fst = reads ∧
      dims.map Prod.snd = source :=
    ⟨reads.zip source,List.map_fst_zip hreads.le,List.map_snd_zip hreads.ge⟩
  have horder : order.Perm ((range dims.length).map fun (k : Nat) => (k : Int)+1) := by
    simpa [Lang.dimensions] using h.order
  obtain ⟨turns,hturns,hperm⟩ := pickAll_perm horder
  obtain rfl := Except.ok.inj ((pickAll_map _ hturns).symm.trans hshape)
  rw [map_map] at hloopReads
  obtain rfl := Except.ok.inj ((pickAll_map _ hturns).symm.trans hloopReads)
  rw [← map_map] at hloops
  have hpositive : ∀ n ∈ turns.map Prod.snd, 0 < n :=
    fun n hn => (hsource.1 n ((hperm.map _).mem_iff.1 hn)).1
  have hcount : (cells (turns.map Prod.snd)).length = volume (d::shape) := by
    rw [cells_digits hpositive, List.length_map, List.length_range, ← Nat.cast_inj (R := Int),
      volume_eq hpositive, volume_eq fun n hn => (hsource.2 n hn).1, (hperm.map _).prod_eq, h.size]
  have hmade := (List.nodup_cons.1 (List.nodup_append.1 hnodup).2.1).2
  obtain ⟨m₁,hzeros,hkept,hstart⟩ := zeros_run (M := M) (m := m) hmade loops
  rw [List.length_cons, hwrites] at hzeros
  have hadvances : Advances M step (variableName (v+1)::writes) (d::shape) := by
    obtain ⟨d,rfl⟩ := Int.eq_ofNat_of_zero_le hfits.1.1.le
    exact stepIndices_advances hM hfits.2 hwrites hmade (increment_advances hM hfits.1.2) hstep
  obtain ⟨log,m',hrun,inputs,hinputs,rfl,-,hkept'⟩ := copies_run hadvances (by simp)
    (by simpa using h.ranks.1) hturns hperm hcount hnodup hx
      hloops (hzeros.trans (digits_zero (d::shape)).symm)
  have hold : m₁ x = m x := hkept x fun hmem => hx (by simp_all)
  have hlength := hinputs.length_eq.trans hcount
  have htarget : ∀ n ∈ d::shape, 0 < n := fun n hn => (hsource.2 n hn).1
  rw [copies_eq htarget hlength, hold] at hrun
  refine ⟨inputs,m',.comment (hstart _ _ hrun),?_,hinputs,(hkept' x hx).trans hold⟩
  rw [hlength, cells_digits htarget, List.length_map, List.length_range]

namespace Turned

def context : Context := ⟨.standard,-12,none⟩

def known : State := { scales := [("x",-13)], intervals := [("x",⟨-8192,8192⟩)] }

def device : Machine := ⟨fun _ n => n,fun _ a b => a+b,id,fun _ n => n,fun _ _ m => m⟩

end Turned

open Turned in
/-- Reshaped to three rows along its columns, a matrix of two rows is transposed. -/
theorem reshape_copies_turned :
    ∃ r st', lowerReshape context (.tensor [2, 3]) (.tensor [3, 2]) [2, 1]
    (.var "x" [] true) known = .ok (r,st') ∧ ∃ out, ∀ m, ∃ inputs m', Run device r.1 m
      ((inputs.zip (cells [3, 2])).flatMap fun p => [.read "x" p.1, .write out p.2 (m "x" p.1)])
        m' ∧
        List.Forall₂ (fun i c => i ∈ cells [2, 3] ∧ pickAll i [2, 1] = .ok c)
          inputs (cells [3, 2]) := by
  obtain ⟨⟨r,st'⟩,hlower⟩ : ∃ p, lowerReshape context (.tensor [2, 3]) (.tensor [3, 2]) [2, 1]
      (.var "x" [] true) known = .ok p := ⟨_,rfl⟩
  have hshapes : Reshapes context.settings [2, 3] [3, 2] [2, 1] :=
    ⟨by decide,by decide,by decide,by decide⟩
  have hvariable : ∀ n, "x" ≠ variableName n := fun n h => by
    simpa [variableName] using congrArg String.toList h
  have hiterator : ∀ n, "x" ≠ iteratorName n := fun n h => by
    simpa [iteratorName] using congrArg String.toList h
  obtain ⟨out,turns,-,hturns,-,hruns⟩ := reshape_copies hshapes (M := device)
    (fun _ _ _ _ _ => rfl) (fun n => ⟨fun _ => hvariable n,fun _ => hiterator n⟩) hlower
  obtain rfl : [3, 2] = turns := Except.ok.inj hturns
  refine ⟨r,st',hlower,out,fun m => ?_⟩
  obtain ⟨inputs,m',hrun,-,hinputs,-⟩ := hruns m
  exact ⟨inputs,m',hrun,hinputs⟩

end Reshape

end MicroLearn.Lower
