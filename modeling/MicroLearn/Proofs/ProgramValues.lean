import Mathlib.Logic.Function.Basic
import MicroLearn.Model.Tree
import MicroLearn.Proofs.Word

/-!
# Values of programs

What a written program computes on exact numbers: the bindings of a program lead from one
environment to the next, and the declared tensors are given with their shapes.
-/

set_option autoImplicit false

namespace MicroLearn.Lang

open Model (Rows asColumn Shaped)

inductive Value (α : Type) where
  | int (n : Int)
  | number (a : α)
  | matrix (m : Rows α)
  | stack (ms : List (Rows α))

abbrev Env (α : Type) := String → Option (Value α)

namespace Value

variable {α : Type}

def rowsFit (m : Rows α) (rows columns : String) : Bool :=
  rows == toString m.length && m.all fun row => columns == toString row.length

def fits : Value α → List String → Bool
  | .matrix m, [rows, columns] => rowsFit m rows columns
  | .stack ms, [count, rows, columns] =>
    count == toString ms.length && ms.all fun m => rowsFit m rows columns
  | .number _, [] => true
  | _, _ => false

def entrywise (f : α → α → α) (a b : Rows α) : Option (Value α) :=
  if a.map List.length = b.map List.length then some (.matrix (List.zipWith (List.zipWith f) a b))
  else none

def product [Zero α] [Add α] [Mul α] (op : Token) : Value α → Value α → Option (Value α)
  | .int m, .int n => if op = .times then some (.int (m*n)) else none
  | .matrix a, .matrix b =>
    match op with
    | .times | .sparseTimes => (Model.product a b).toOption.map .matrix
    | .pointwiseTimes => entrywise (· * ·) a b
    | _ => none
  | .number a, .matrix m => if op = .times then some (.matrix (m.map fun row => row.map (a * ·)))
      else none
  | _, _ => none

def additive [Add α] [Sub α] (op : Token) : Value α → Value α → Option (Value α)
  | .int m, .int n =>
    match op with
    | .plus => some (.int (m+n))
    | .minus => some (.int (m-n))
    | _ => none
  | .matrix a, .matrix b =>
    match op with
    | .plus => entrywise (· + ·) a b
    | .minus => entrywise (· - ·) a b
    | _ => none
  | _, _ => none

def index : Value α → Value α → Option (Value α)
  | .stack ms, .int n => if 0 ≤ n then (ms[n.toNat]?).map .matrix else none
  | _, _ => none

def negated [Neg α] : Value α → Option (Value α)
  | .number a => some (.number (-a))
  | _ => none

def transposed : Value α → Option (Value α)
  | .matrix m => (Model.transpose m).toOption.map .matrix
  | _ => none

def sum [Add α] [Sub α] : List (Value α) → Option (Value α)
  | [] => none
  | x::xs => xs.foldlM (additive .plus) x

def curved (f : α → α) : Value α → Option (Value α)
  | .matrix m => some (.matrix (m.map fun row => row.map f))
  | _ => none

def atLeastZero [Zero α] [LE α] [DecidableLE α] : Value α → Option Bool
  | .int n => some (decide (0 ≤ n))
  | .matrix [[a]] => some (decide (0 ≤ a))
  | _ => none

end Value

def Tree.declared : Tree → Option (List String)
  | .decl shape _ _ => some shape
  | .real _ => some []
  | _ => none

section Evaluation

variable {α : Type} [Zero α] [Add α] [Sub α] [Neg α] [Mul α] [LE α] [DecidableLE α]

/-- The value of an expression. A declaration names one of the tensors, which has to have its shape;
the number that a decimal is bound for is given with them. -/
def Tree.value (curve : Token → α → α) (tensors : Env α) : Tree → Env α → Option (Value α)
  | .int text, _ => (Number.readInt? text).map .int
  | .name id, env => env id
  | .transpose e, env => do (← e.value curve tensors env).transposed
  | .index e i, env => do (← e.value curve tensors env).index (← i.value curve tensors env)
  | .unary op e, env => do if op = .minus then (← e.value curve tensors env).negated else none
  | .product op a b, env => do
    Value.product op (← a.value curve tensors env) (← b.value curve tensors env)
  | .additive op a b, env => do
    Value.additive op (← a.value curve tensors env) (← b.value curve tensors env)
  | .apply op e, env =>
    if op = .tanh ∨ op = .exp then do (← e.value curve tensors env).curved (curve op) else none
  | .sum v first last e, env => do
    let low ← Number.readInt? first
    let high ← Number.readInt? last
    Value.sum (← (List.range (high-low).toNat).mapM fun i : Nat =>
      e.value curve tensors (Function.update env v (some (.int (low+(i : Int))))))
  | .cond e bound t f, env => do
    if bound = "0" then
      if ← (← e.value curve tensors env).atLeastZero then t.value curve tensors env
      else f.value curve tensors env
    else none
  | .bind v d e, env => do
    let x ← match d.declared with
      | some shape => (tensors v).filter fun x => x.fits shape
      | none => d.value curve tensors env
    e.value curve tensors (Function.update env v (some x))
  | .paren e, env => e.value curve tensors env
  | _, _ => none

def bindings (lines : List Line) : List (String × Tree) := lines.map fun l => (l.name,l.value)

theorem bindings_append (a b : List Line) : bindings (a++b) = bindings a++bindings b :=
  List.map_append

def declared (range : String → String × String) (ds : List Declaration) : List (String × Tree) :=
  ds.map fun d => (d.name,.decl (d.shape.map toString) (range d.name).1 (range d.name).2)

def binds (names : List (String × Tree)) (result : Tree) : Tree :=
  names.foldr (fun p e => .bind p.1 p.2 e) result

variable (curve : Token → α → α) (tensors : Env α)

def Leads (env : Env α) (names : List (String × Tree)) (env' : Env α) : Prop :=
  ∀ rest result, (binds (names++rest) result).value curve tensors env =
    (binds rest result).value curve tensors env'

variable {curve tensors} {env env' env'' : Env α}

theorem leads_nil : Leads curve tensors env [] env := fun _ _ => rfl

theorem Leads.append {a b} (ha : Leads curve tensors env a env')
    (hb : Leads curve tensors env' b env'') : Leads curve tensors env (a++b) env'' := by
  intro rest result
  rw [List.append_assoc, ha, hb]

theorem leads_cons {v d x names} (hdecl : d.declared = none)
    (hd : d.value curve tensors env = some x)
    (h : Leads curve tensors (Function.update env v (some x)) names env') :
    Leads curve tensors env ((v,d)::names) env' := by
  intro rest result
  show (Tree.bind v d (binds (names++rest) result)).value curve tensors env = _
  simp only [Tree.value, hdecl, hd]
  exact h rest result

theorem leads_decl {v d shape x names} (hd : d.declared = some shape) (hv : tensors v = some x)
    (hx : x.fits shape = true)
    (h : Leads curve tensors (Function.update env v (some x)) names env') :
    Leads curve tensors env ((v,d)::names) env' := by
  intro rest result
  show (Tree.bind v d (binds (names++rest) result)).value curve tensors env = _
  simp only [Tree.value, hd, hv, Option.filter_some, hx]
  exact h rest result

variable (curve) in
theorem declared_leads (range : String → String × String) (ds : List Declaration)
    (h : ∀ d ∈ ds, ∃ x, tensors d.name = some x ∧ x.fits (d.shape.map toString) = true)
    (env : Env α) :
    ∃ env', (∀ v, env' v = if v ∈ ds.map (·.name) then tensors v else env v) ∧
      Leads curve tensors env (declared range ds) env' := by
  induction ds generalizing env with
  | nil => exact ⟨env,fun v => by simp,leads_nil⟩
  | cons d ds ih =>
    obtain ⟨x,hname,hfits⟩ := h d (by simp)
    obtain ⟨env',hvalues,hleads⟩ :=
      ih (fun e he => h e (by simp [he])) (Function.update env d.name (some x))
    refine ⟨env',?_,leads_decl rfl hname hfits hleads⟩
    intro v
    rw [hvalues]
    by_cases hv : v = d.name
    · subst hv
      simp [hname]
    · simp [hv]

end Evaluation

section Columns

variable {F : Type}

namespace Value

variable {x : List F} {rows cols : Nat} {m : Rows F}

def column (x : List F) : Value F := .matrix (asColumn x)

theorem entrywise_asColumn (f : F → F → F) {y} (h : x.length = y.length) :
    entrywise f (asColumn x) (asColumn y) = some (column (List.zipWith f x y)) := by
  have hshape : (asColumn x).map List.length = (asColumn y).map List.length := by
    simp [asColumn, Function.comp_def, h]
  rw [entrywise, if_pos hshape, column, asColumn, asColumn, List.zipWith_map, asColumn,
    List.map_zipWith]
  rfl

theorem times_or_sparse (sparse : Bool) : (if sparse then Token.sparseTimes else .times) = .times ∨
    (if sparse then Token.sparseTimes else .times) = .sparseTimes := by
  cases sparse <;> simp

theorem product_column [Semiring F] {op}
    (hop : op = .times ∨ op = .sparseTimes) (hm : Shaped rows x.length m) (hrows : 1 ≤ rows)
    (hx : 1 ≤ x.length) :
    product op (.matrix m) (column x) = some (column (m.map (Model.dot · x))) := by
  have hproduct := Model.product_asColumn hm hrows hx
  rcases hop with rfl | rfl
  · simp only [product, column, hproduct]
    rfl
  · simp only [product, column, hproduct]
    rfl

theorem curved_column (f : F → F) (x : List F) : curved f (column x) = some (column (x.map f)) := by
  simp [curved, column, asColumn]

theorem fits_matrix (h : Shaped rows cols m) :
    (matrix m).fits [toString rows, toString cols] = true := by
  have hall : m.all (fun row => toString cols == toString row.length) = true := by
    rw [List.all_eq_true]
    intro row hrow
    rw [h.width row hrow, beq_self_eq_true]
  simp only [fits, rowsFit, h.length, hall, beq_self_eq_true, Bool.and_true]

theorem fits_stack {count} {ms : List (Rows F)} (hcount : ms.length = count)
    (h : ∀ m ∈ ms, Shaped rows cols m) :
    (stack ms).fits [toString count, toString rows, toString cols] = true := by
  have hall : ms.all (fun m => rowsFit m (toString rows) (toString cols)) = true := by
    rw [List.all_eq_true]
    intro m hm
    exact fits_matrix (h m hm)
  simp only [fits, hcount, hall, beq_self_eq_true, Bool.and_true]

end Value

end Columns

end MicroLearn.Lang
