import MicroLearn.Proofs.Binders

/-!
# Programs that keep their tensors

A name bound to a tensor should stand for the same value wherever it is used. The operations
that update their operand in place break this for names that are used again. Which
programs are affected can be told from the program alone: `keepsTensors` is exact.
-/

set_option autoImplicit false

namespace MicroLearn.Lower

open Code
open Lang (Ty Expr Scope Typed)

variable {cx : Context} {e : Expr Ty} {st : State} {code : List Instr} {result : Term} {x : Marked}

def Job.marked (job : Job) (s : Settings) (e : Expr Ty) :
    Except Fault ((List Step × Term) × State) := do
  let cx ← job.context s
  (markProgram cx e).run {}

theorem inScope_start (st : State) (B : List String) :
    InScope [] [] (st.later B) Scan.start Watch.start where
  plain := nofun
  names := nofun
  known := nofun
  ints := nofun
  tensors := nofun

theorem agrees_start (F : String → Prop) : Agrees F Scan.start Watch.start [] where
  clean := by simp [Watch.start, Scan.start]
  stale := nofun
  bindings := nofun
  items := nofun
  apart := .nil

theorem resolveAll_nil (steps : List Step) : Step.resolveAll [] steps = steps := by
  simp [Step.resolveAll]

theorem lower_marked (h : (lower cx e).run {} = .ok ((code,result),st)) :
    ∃ x, mark cx e {} = .ok (x,st) ∧ Step.eraseAll x.steps = code ∧ x.term = result := by
  rw [lower_eq_erase, map_eq_pure_bind] at h
  obtain ⟨x,st1,hx,hpure⟩ := run_bind.1 h
  obtain ⟨heq,rfl⟩ := run_pure.1 hpure
  obtain ⟨hcode,hresult⟩ := Prod.mk.inj heq
  exact ⟨x,hx,hcode.symm,hresult.symm⟩

theorem markProgram_ok (h : mark cx e {} = .ok (x,st)) :
    (markProgram cx e).run {} = .ok ((x.steps++marks x.pending.all,x.term),st) :=
  run_bind.2 ⟨x,st,h,run_pure.2 ⟨rfl,rfl⟩⟩

theorem undisturbed_iff (M : Machine)
    (htyped : Typed [] e) (hnodup : e.binders.Nodup) (hgen : ∀ v ∈ e.binders, ¬ Generated v)
    (hmark : mark cx e {} = .ok (x,st)) (m : Memory) : ∃ tr m',
      Exec M (x.steps++marks x.pending.all) m tr m' ∧ (Undisturbed tr ↔ keepsTensors e = true) := by
  have hall : e.binders++[] = e.binders := List.append_nil _
  obtain ⟨-,tr,m',hexec,hfollows⟩ := typed_simulated M htyped cx [] {} st x [] .start .start []
    hmark (by rw [hall]; exact hnodup) (by rw [hall]; exact hgen) (inScope_start _ _)
    (agrees_start _) m
  rw [resolveAll_nil] at hexec
  have hmarks := item_marks_exec (M := M) x [] e.note (scan e .start).1 m'
  rw [resolveAll_nil] at hmarks
  refine ⟨_,m',hexec.append hmarks,?_⟩
  rw [← Watch.clean_iff]
  exact (hfollows.use m').agrees.clean

theorem lowered_marked {job : Job} {s} (h : job.lowered s e = .ok ((code,result),st)) : ∃ cx x,
      mark cx e {} = .ok (x,st) ∧ Step.eraseAll x.steps = code ∧
        job.marked s e = .ok ((x.steps++marks x.pending.all,result),st) := by
  obtain ⟨cx,hcx,hrun⟩ := bind_ok h
  obtain ⟨x,hx,hcode,rfl⟩ := lower_marked hrun
  refine ⟨cx,x,hx,hcode,?_⟩
  rw [Job.marked, hcx]
  exact markProgram_ok hx

/-- Take a program that is typed and lowered, whose binders are different from one another and
from all names that lowering makes. Its code runs to its end from every memory, on every device.
Every use of a name finds what the name was bound to, with nothing written there in between,
exactly if no name is used after the variable of its tensor has been overwritten. -/
theorem tensors_kept_iff {job : Job} {e₀ : Expr Unit} {e : Expr Ty} {s : Settings}
    {code : List Instr} {result : Term} {st : State} (htyped : job.typed e₀ = .ok (e,s))
    (hlowered : job.lowered s e = .ok ((code,result),st)) (hnodup : e₀.binders.Nodup)
    (hgen : ∀ v ∈ e₀.binders, ¬ Generated v) : ∃ steps,
      job.marked s e = .ok ((steps,result),st) ∧ Step.eraseAll steps = code ∧
      ∀ (M : Machine) (m : Memory),
        (∃ tr m', Exec M steps m tr m' ∧
          Exec M (code.map .instr) m (tr.filter Event.isWrite) m') ∧
        ∀ tr m', Exec M steps m tr m' → (Undisturbed tr ↔ keepsTensors e = true) ∧
          (keepsTensors e = true → KeepsValues M tr) := by
  obtain ⟨htype,-,hbinders,-,-⟩ := job.typed_ok htyped
  rw [← hbinders] at hnodup hgen
  obtain ⟨cx,x,hmark,hcode,hmarked⟩ := lowered_marked hlowered
  have herase : Step.eraseAll (x.steps++marks x.pending.all) = code := by
    rw [eraseAll_append, eraseAll_marks, List.append_nil, hcode]
  refine ⟨_,hmarked,herase,fun M m => ?_⟩
  obtain ⟨tr,m',hexec,hiff⟩ := undisturbed_iff M htype hnodup hgen hmark m
  constructor
  · have hplain := hexec.erase
    rw [herase] at hplain
    exact ⟨tr,m',hexec,hplain⟩
  · intro tr₁ m₁ hexec₁
    obtain ⟨rfl,rfl⟩ := hexec₁.deterministic hexec
    exact ⟨hiff,fun hkeeps => hexec.keepsValues (hiff.2 hkeeps)⟩

namespace SharedTensor

open Lang (Tree)

def model : Tree := .decl ["2", "2"] "-1.0" "1.0"

/-- `let a = … in let b = … in let s = a * b in relu(s) + s` -/
def job : Job where
  tree := .bind "a" model (.bind "b" model (.bind "s" (.product .times (.name "a") (.name "b"))
    (.additive .plus (.apply .relu (.name "s")) (.name "s"))))
  target := "x86"
  algorithm := "bonsai"
  word := 16
  shift := .divide
  exp := .table
  expBits := 6
  maxScale := some (-12)
  profile := none

theorem affected : job.passes (fun e0 e => e0.binders == ["a", "b", "s"] && !keepsTensors e) =
    true := by decide +kernel

theorem not_generated {v} (h : v ∈ ["a", "b", "s"]) : ¬ Generated v := by
  rintro ⟨n, hn | hn⟩
  all_goals
    have hlist := congrArg String.toList hn
    simp only [List.mem_cons, List.not_mem_nil, or_false] at h
    rcases h with rfl | rfl | rfl <;> simp [variableName, iteratorName] at hlist

end SharedTensor

open SharedTensor in
/-- With `relu(s) + s` the second use of `s` is disturbed, on every device. -/
theorem tensors_kept_iff_shared : ∃ e₀ e s code result st steps, job.tree.read = .ok e₀ ∧
    job.typed e₀ = .ok (e,s) ∧ job.lowered s e = .ok ((code,result),st) ∧
    Step.eraseAll steps = code ∧ ∀ (M : Machine) (m : Memory), ∃ tr m',
      Exec M steps m tr m' ∧ ¬ Undisturbed tr := by
  obtain ⟨e₀,e,s,code,result,st,hread,htyped,hlowered,h⟩ := Job.of_passes affected
  simp only [Bool.and_eq_true, Bool.not_eq_true', beq_iff_eq] at h
  obtain ⟨hbinders,hkeeps⟩ := h
  obtain ⟨steps,-,hcode,hruns⟩ := tensors_kept_iff htyped hlowered
    (by rw [hbinders]; decide) (fun v hv => not_generated (hbinders ▸ hv))
  refine ⟨e₀,e,s,code,result,st,steps,hread,htyped,hlowered,hcode,fun M m => ?_⟩
  obtain ⟨⟨tr,m',hexec,-⟩,hall⟩ := hruns M m
  refine ⟨tr,m',hexec,fun hundisturbed => ?_⟩
  rw [(hall tr m' hexec).1, hkeeps] at hundisturbed
  cases hundisturbed

end MicroLearn.Lower
