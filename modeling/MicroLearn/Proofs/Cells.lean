import MicroLearn.Proofs.Confined

/-!
# Runs over the cells of a tensor

Code without calls runs with a log of what it reads, writes and prints. A loop nest goes
through all cells of a shape, in row-major order.
-/

set_option autoImplicit false

open List (range)

namespace MicroLearn.Code

/-- An access to a cell of a tensor. Variables without an index are no tensors. -/
inductive Access where
  | read (x : String) (cell : List Int)
  | write (x : String) (cell : List Int) (n : Int)
  /-- an operand is printed, times a power of two -/
  | shown (o : Operand) (exponent : Int)

mutual

def Term.reads (M : Machine) (m : Memory) : Term → List Access
  | .int _ | .bool _ => []
  | .var x index _ =>
    Term.readsAll M m index++if index.isEmpty then [] else [.read x (Term.values M m index)]
  | .unary _ e | .exp e | .cast _ e => e.reads M m
  | .arith a _ b | .logic a _ b | .compare a _ b => a.reads M m++b.reads M m
  | .select c a b => c.reads M m++if c.value M m = 0 then b.reads M m else a.reads M m

def Term.readsAll (M : Machine) (m : Memory) : List Term → List Access
  | [] => []
  | t::ts => t.reads M m++Term.readsAll M m ts

end

def Term.writes (M : Machine) (m : Memory) (n : Int) : Term → List Access
  | .var x index _ =>
    Term.readsAll M m index++if index.isEmpty then [] else [.write x (Term.values M m index) n]
  | _ => []

/-- `Run M code m log m'`: the code, which calls no routines, runs from the memory `m` to the memory
`m'`, and the log has all its accesses to cells. -/
inductive Run (M : Machine) : List Instr → Memory → List Access → Memory → Prop
  | nil {m : Memory} : Run M [] m [] m
  | comment {text : String} {rest : List Instr} {m m' : Memory} {log : List Access}
      (next : Run M rest m log m') : Run M (.comment text::rest) m log m'
  | assign {target value : Term} {rest : List Instr} {m m' : Memory} {log : List Access}
      (next : Run M rest (target.store M m (value.value M m)) log m') :
      Run M (.assign target value::rest) m
        (value.reads M m++target.writes M m (value.value M m)++log) m'
  | shown {e : Term} {exponent : Int} {rest : List Instr} {m m' : Memory} {log : List Access}
      (next : Run M rest m log m') :
      Run M (.outputScaled e exponent::rest) m (.shown (e.operand M m) exponent::log) m'
  | branch {c : Term} {yes no rest : List Instr} {m m' : Memory} {log : List Access}
      (next : Run M ((if c.value M m = 0 then no else yes)++rest) m log m') :
      Run M (.branch c yes no::rest) m (c.reads M m++log) m'
  | done {iterator c : Term} {start : Int} {body rest : List Instr} {m m' : Memory}
      {log : List Access} (stop : c.value M (iterator.store M m start) = 0)
      (next : Run M rest (iterator.store M m start) log m') :
      Run M (.count iterator start c body::rest) m (c.reads M (iterator.store M m start)++log) m'
  | more {iterator c : Term} {start : Int} {body rest : List Instr} {m m₁ m₂ : Memory}
      {log₁ log₂ : List Access} (go : c.value M (iterator.store M m start) ≠ 0)
      (turn : Run M body (iterator.store M m start) log₁ m₁)
      (next : Run M (.count iterator (iterator.value M m₁+1) c body::rest) m₁ log₂ m₂) :
      Run M (.count iterator start c body::rest) m
        (c.reads M (iterator.store M m start)++(log₁++log₂)) m₂

variable {M : Machine} {m m' : Memory} {code : List Instr} {log : List Access}

theorem Run.exec (h : Run M code m log m') : ∃ tr, Exec M (code.map .instr) m tr m' := by
  induction h with
  | nil => exact ⟨_,.nil⟩
  | comment _ ih | shown _ ih =>
    obtain ⟨tr,ih⟩ := ih
    exact ⟨tr,.silent rfl ih⟩
  | assign _ ih =>
    obtain ⟨tr,ih⟩ := ih
    exact ⟨_,.assign ih⟩
  | branch _ ih =>
    obtain ⟨tr,ih⟩ := ih
    rw [List.map_append] at ih
    exact ⟨tr,.branch ih⟩
  | done stop _ ih =>
    obtain ⟨tr,ih⟩ := ih
    exact ⟨_,.count (.loopDone stop ih)⟩
  | more go _ _ iht ih =>
    obtain ⟨tr1,turn⟩ := iht
    obtain ⟨tr2,next⟩ := ih
    cases next with
    | silent quiet _ => cases quiet
    | count next => exact ⟨_,.count (.loopMore go turn next)⟩

theorem Run.deterministic {m1 m2 : Memory} {log1 log2 : List Access} (h1 : Run M code m log1 m1)
    (h2 : Run M code m log2 m2) : log1 = log2 ∧ m1 = m2 := by
  induction h1 generalizing log2 m2 with
  | nil => cases h2; exact ⟨rfl,rfl⟩
  | comment _ ih | assign _ ih | shown _ ih | branch _ ih =>
    cases h2
    rename_i next
    obtain ⟨rfl,rfl⟩ := ih next
    exact ⟨rfl,rfl⟩
  | done stop _ ih =>
    cases h2 with
    | done _ next => obtain ⟨rfl,rfl⟩ := ih next; exact ⟨rfl,rfl⟩
    | more go _ _ => exact absurd stop go
  | more go _ _ iht ih =>
    cases h2 with
    | done stop _ => exact absurd stop go
    | more _ turn next =>
      obtain ⟨rfl,rfl⟩ := iht turn
      obtain ⟨rfl,rfl⟩ := ih next
      exact ⟨rfl,rfl⟩

/-- All cells of a tensor in row-major order. -/
def cells : List Int → List (List Int)
  | [] => [[]]
  | d::shape => (range d.toNat).flatMap fun (i : Nat) => (cells shape).map ((i : Int) :: ·)

theorem mem_cells {c shape : List Int} :
    c ∈ cells shape ↔ List.Forall₂ (fun i d => 0 ≤ i ∧ i < d) c shape := by
  induction shape generalizing c with
  | nil => simp [cells]
  | cons d shape ih =>
    simp only [cells, List.mem_flatMap, List.mem_range, List.mem_map, ih,
      List.forall₂_cons_right_iff]
    constructor
    · rintro ⟨i,hi,c,hc,rfl⟩
      exact ⟨i,c,⟨by omega,by omega⟩,hc,rfl⟩
    · rintro ⟨i,c,hi,hc,rfl⟩
      exact ⟨i.toNat,by omega,c,hc,by rw [Int.toNat_of_nonneg hi.1]⟩

theorem cells_sorted (shape : List Int) : (cells shape).Pairwise (· < ·) := by
  induction shape with
  | nil => exact List.pairwise_singleton ..
  | cons d shape ih =>
    refine List.pairwise_flatMap.2 ⟨fun i _ => ?_,?_⟩
    · exact List.pairwise_map.2 (ih.imp fun h => List.Lex.cons h)
    · refine List.pairwise_lt_range.imp ?_
      intro i j hij a ha b hb
      obtain ⟨c,-,rfl⟩ := List.mem_map.1 ha
      obtain ⟨c',-,rfl⟩ := List.mem_map.1 hb
      exact List.Lex.rel (Int.ofNat_lt.2 hij)

section Loops

variable {M : Machine} {s : Settings} {m : Memory} {code step body : List Instr}
  {names : List String} {shape : List Int} {w : String}

def scalars (m : Memory) (names : List String) : List Int := names.map (m · [])

theorem values_plain (names : List String) :
    Term.values M m (names.map plain) = scalars m names := by
  induction names with
  | nil => rfl
  | cons x names ih => simp [Term.values, Term.value, plain, scalars, ih]

theorem readsAll_plain (names : List String) : Term.readsAll M m (names.map plain) = [] := by
  induction names with
  | nil => rfl
  | cons x names ih => simp [Term.readsAll, Term.reads, plain, ih]

theorem scalars_append (a b : List String) : scalars m (a++b) = scalars m a++scalars m b :=
  List.map_append

theorem scalars_congr {m' : Memory} (h : ∀ x ∈ names, m' x = m x) :
    scalars m' names = scalars m names := List.map_congr_left fun x hx => by rw [h x hx]

@[simp] theorem store_plain_self (n : Int) : (plain w).store M m n w [] = n := by
  simp [plain, Term.store, Term.values]

theorem store_plain_ne {x : String} (n : Int) (h : x ≠ w) : (plain w).store M m n x = m x :=
  store_of_ne M m n _ (by simpa [plain, Term.root?] using h)

@[simp] theorem value_plain : (plain w).value M m = m w [] := rfl

theorem count_run {d : Int} {J : Nat → List Access → Memory → Prop} {left j : Nat}
    (log : List Access) (hstore : ∀ j log m n, J j log m → J j log ((plain w).store M m n))
    (hturn : ∀ j < d.toNat, ∀ log m, J j log m → m w [] = j → ∃ log' m', Run M body m log' m' ∧
      J (j+1) (log++log') m' ∧ m' w [] = j) (hj : j+left = d.toNat) (hm : J j log m) :
    ∃ log' m', Run M [.count (plain w) j (lt (plain w) (.int d)) body] m log' m' ∧
      J d.toNat (log++log') m' := by
  have htest : (lt (plain w) (.int d)).value M ((plain w).store M m j) = truth (j < d) := by
    rw [lt, Term.value, value_plain, store_plain_self]
    rfl
  induction left generalizing j log m with
  | zero =>
    refine ⟨[],_,.done (htest.trans ?_) .nil,?_⟩
    · rw [truth, if_neg (by simp; omega)]
    · rw [List.append_nil, ← hj]
      exact hstore _ _ _ _ hm
  | succ left ih =>
    obtain ⟨log1,m1,hrun1,hm1,hj1⟩ :=
      hturn j (by omega) log _ (hstore _ _ _ j hm) (store_plain_self _)
    obtain ⟨log2,m2,hrun2,hm2⟩ := ih (j := j+1) _ (by omega) hm1 (by
      rw [lt, Term.value, value_plain, store_plain_self]
      rfl)
    refine ⟨log1++log2,m2,.more ?_ hrun1 ?_,by rwa [← List.append_assoc]⟩
    · rw [htest, truth, if_pos (by simp; omega)]
      exact one_ne_zero
    · rw [value_plain, hj1]
      exact hrun2

/-- A loop nest goes through all cells of a shape. `P` tells what holds behind the turns for a list
of cells, with the accesses so far. -/
theorem nest_run {P : List (List Int) → List Access → Memory → Prop}
    (hlength : names.length = shape.length) (hnodup : names.Nodup)
    (hcode : nest s shape (names.map plain) body = .ok code)
    (hstore : ∀ done log m x n, x ∈ names → P done log m → P done log ((plain x).store M m n))
    (hbody : ∀ done log m, done++[scalars m names] <+: cells shape → P done log m →
      ∃ log' m', Run M body m log' m' ∧ P (done++[scalars m names]) (log++log') m' ∧
        scalars m' names = scalars m names)
    (hm : P [] [] m) : ∃ log m', Run M code m log m' ∧ P (cells shape) log m' := by
  induction shape generalizing names code m P with
  | nil =>
    obtain rfl := List.length_eq_zero_iff.1 hlength
    obtain rfl := Except.ok.inj hcode
    obtain ⟨log,m',hrun,hP,-⟩ := hbody [] [] m (List.prefix_refl _) hm
    exact ⟨log,m',hrun,hP⟩
  | cons d shape ih =>
    obtain ⟨x,names,rfl⟩ := List.exists_cons_of_length_eq_add_one hlength
    obtain ⟨hx,hnodup⟩ := List.nodup_cons.1 hnodup
    obtain ⟨inner,hinner,hcode⟩ := bind_ok hcode
    obtain ⟨t,ht,hcode⟩ := bind_ok hcode
    obtain rfl := Except.ok.inj hcode
    rw [literal_ok ht]
    let block (i : Nat) := (cells shape).map ((i : Int) :: ·)
    have hblocks : ∀ j, (range (j+1)).flatMap block = (range j).flatMap block++block j := by
      intro j
      simp [List.range_succ]
    refine count_run (J := fun j => P ((range j).flatMap block)) []
      (fun j log m n => hstore _ _ _ _ n List.mem_cons_self) ?_ (Nat.zero_add _) hm
    -- the cells of one turn are those of the inner loops, behind the index of the turn
    intro j hj log m hP hm
    rw [hblocks]
    refine ih (P := fun done log' m => P ((range j).flatMap block++done.map ((j : Int) :: ·))
      (log++log') m ∧ m x [] = j) (Nat.succ.inj hlength) hnodup hinner ?_ ?_ ⟨by simpa using hP,hm⟩
    · rintro done log' m y n hy ⟨hP,hm⟩
      refine ⟨hstore _ _ _ _ _ (List.mem_cons_of_mem _ hy) hP,?_⟩
      rw [store_plain_ne _ (ne_of_mem_of_not_mem hy hx).symm, hm]
    · rintro done log' m hdone ⟨hP,hm⟩
      have hcell : scalars m (x::names) = (j : Int)::scalars m names := congrArg (· :: _) hm
      obtain ⟨e,he⟩ := Nat.exists_eq_add_of_le (Nat.succ_le_of_lt hj)
      have hrange : range (j+1) <+: range d.toNat := by
        rw [he]
        exact ⟨_,(List.range_add ..).symm⟩
      have hprefix : (range j).flatMap block++(done++[scalars m names]).map ((j : Int) :: ·) <+:
          cells (d::shape) := by
        refine List.IsPrefix.trans ?_ (hrange.flatMap block)
        rw [hblocks]
        exact (List.prefix_append_right_inj _).2 (hdone.map _)
      obtain ⟨log'',m',hrun,hP',hcell'⟩ := hbody _ _ m (by simpa [hcell] using hprefix) hP
      rw [hcell] at hP' hcell'
      obtain ⟨hj',hnames⟩ := List.cons.inj hcell'
      exact ⟨log'',m',hrun,⟨by simpa using hP',hj'⟩,hnames⟩

end Loops

end MicroLearn.Code
