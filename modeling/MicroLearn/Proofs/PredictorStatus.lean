import MicroLearn.Proofs.FactorSearch

/-!
# Failures of the predictor

The predictor is built by one process and run by another. A run should give an accuracy only if both
end with the status zero, and none otherwise. Only the status one is noticed: with any other the
file of statistics is read, be it from this run or from an earlier one. So a run does what it should
exactly when both statuses are zero or one of them is one.
-/

set_option autoImplicit false

namespace MicroLearn.Deploy

open Model (Work Desk ProcessEnd)
open Number (Cell)

def processEnd (d : Desk) (k : Nat) : ProcessEnd := (d.ends.drop k).headD {}

def status (d : Desk) (k : Nat) : Int := (processEnd d k).status

/-- The building or the running process ends with a status other than zero. -/
def Failed (d : Desk) : Prop := status d 0 ≠ 0 ∨ status d 1 ≠ 0

def Noticed (d : Desk) : Prop := status d 0 = 1 ∨ status d 1 = 1

instance (d : Desk) : Decidable (Noticed d) := inferInstanceAs (Decidable (_ ∨ _))

theorem failed_imp_noticed_iff (d : Desk) :
    (Failed d → Noticed d) ↔ (status d 0 = 0 ∧ status d 1 = 0) ∨ status d 0 = 1 ∨
    status d 1 = 1 := by
  rw [Failed, Noticed]
  omega

section Running

variable {σ β γ : Type}

theorem run_map (f : γ → β) (m : Act σ γ) (w : σ) :
    (f <$> m).run.run w = (f <$> (m.run.run w).1,(m.run.run w).2) := by
  rw [← bind_pure_comp, run_bind]
  rcases m.run.run w with ⟨r,w'⟩
  cases r <;> rfl

theorem readText_run (path : String) (d : Desk) :
    (Work.readText path).run.run d = (match d.files.lookup path with
      | none => .error .missingFile
      | some text => .ok text,d) := by
  rw [Work.readText, run_bind_ok (show (get : Work Desk).run.run d = (.ok d,d) from rfl)]
  cases d.files.lookup path <;> rfl

theorem succeeds_run (m : Work Unit) (d : Desk) : ∃ ok,
    (Work.succeeds m).run.run d = (.ok ok,(m.run.run d).2) := by
  rw [Work.succeeds, ExceptT.run_mk, StateT.run_bind]
  rcases m.run.run d with ⟨_ | _, d'⟩
  · exact ⟨false,rfl⟩
  · exact ⟨true,rfl⟩

def KeepsEnds (m : Work β) : Prop := ∀ d, (m.run.run d).2.ends = d.ends

theorem KeepsEnds.bind {m} {f : γ → Work β} (hm : KeepsEnds m) (hf : ∀ b, KeepsEnds (f b)) :
    KeepsEnds (m >>= f) := by
  intro d
  rw [run_bind, ← hm d]
  rcases m.run.run d with ⟨r,d'⟩
  cases r with
  | error e => rfl
  | ok b => exact hf b d'

theorem keepsEnds_readText (path : String) : KeepsEnds (Work.readText path) := by
  intro d
  rw [readText_run]

theorem keepsEnds_succeeds {m} (hm : KeepsEnds m) : KeepsEnds (Work.succeeds m) := by
  intro d
  obtain ⟨ok,hrun⟩ := succeeds_run m d
  rw [hrun]
  exact hm d

end Running

variable (p : Runner)

namespace Runner

def filesAfter (log : String) (e : ProcessEnd) (files : List (String × String)) :
    List (String × String) :=
  Lower.puts (e.files.map fun f => (p.home++f.1,f.2)) (Lower.put (p.logDir++"/"++log) "" files)

variable (d : Desk)

def stats : Option String :=
  (p.filesAfter "exec.txt" (processEnd d 1)
    (p.filesAfter "msbuild.txt" (processEnd d 0) d.files)).lookup p.statsPath

def reading : Option String → Except Fault Float
  | none => .error .missingFile
  | some text => firstNumber text

/-- What a run gives: no accuracy if a failure was noticed, else what the statistics say. -/
def outcome : Except Fault (Option Float) :=
  if Noticed d then .ok none else some <$> reading (p.stats d)

theorem logged_run (log : String) (args : List String) (d : Desk) :
    (p.logged log args).run.run d = (.ok (status d 0 != 1),{ d with
      files := p.filesAfter log (processEnd d 0) d.files
      ends := d.ends.drop 1
      started := d.started++[args]
      said := d.said++if status d 0 == 1 then "FAILED!!\n\n" else "success\n" }) := by
  rw [logged, filesAfter, Lower.puts, List.foldl_map]
  change ((if status d 0 == 1 then _ else _ : Work Bool).run.run _) = _
  rw [bne]
  cases status d 0 == 1 <;> rfl

theorem build_run : ∃ d', p.build.run.run d = (.ok (status d 0 != 1),d') ∧
    d'.files = p.filesAfter "msbuild.txt" (processEnd d 0) d.files ∧ d'.ends = d.ends.drop 1 :=
  ⟨_,p.logged_run "msbuild.txt" (p.buildCommand p.windows) { d with said := d.said++"Build..." },
    rfl,rfl⟩

theorem readStats_run : p.readStats.run.run d = (reading (d.files.lookup p.statsPath),d) := by
  have hread := readText_run p.statsPath d
  cases htext : d.files.lookup p.statsPath with
  | none =>
    rw [htext] at hread
    exact run_bind_error hread
  | some text =>
    rw [htext] at hread
    exact run_bind_ok hread

theorem execute_run : ∃ d', p.execute.run.run d = (if status d 0 = 1 then .ok none
    else some <$> reading
        ((p.filesAfter "exec.txt" (processEnd d 0) d.files).lookup p.statsPath),d') := by
  have hsay : (Work.say "Execution...").run.run d =
    (.ok (),{ d with said := d.said++"Execution..." }) := rfl
  rw [execute, executeOn, run_bind_ok hsay, run_bind_ok (p.logged_run _ _ _)]
  by_cases h : status d 0 = 1
  · rw [if_pos h, if_neg (by simpa [status, processEnd] using h)]
    exact ⟨_,rfl⟩
  · rw [if_neg h, if_pos (by simpa [status, processEnd] using h), run_map, readStats_run]
    exact ⟨_,rfl⟩

theorem run_outcome : ∃ d', p.run.run.run d = (p.outcome d,d') := by
  obtain ⟨d₁,hbuild,hfiles,hends⟩ := p.build_run d
  have hnext : processEnd d₁ 0 = processEnd d 1 := by
    rw [processEnd, hends]
    rfl
  rw [run, run_bind_ok hbuild, outcome]
  by_cases h : status d 0 = 1
  · rw [if_neg (by simpa using h), if_pos (.inl h)]
    exact ⟨d₁,rfl⟩
  · obtain ⟨d',hexecute⟩ := p.execute_run d₁
    rw [status, hnext, hfiles] at hexecute
    refine ⟨d',?_⟩
    rw [if_pos (by simpa using h), hexecute]
    simp only [Noticed, h, false_or]
    rfl

theorem outcome_eq_none_iff : p.outcome d = .ok none ↔ Noticed d := by
  rw [outcome]
  by_cases h : Noticed d
  · simp [h]
  · cases reading (p.stats d) <;> simp

theorem outcome_eq_some_iff (a : Float) :
    p.outcome d = .ok (some a) ↔ ¬ Noticed d ∧ reading (p.stats d) = .ok a := by
  rw [outcome]
  by_cases h : Noticed d
  · simp [h]
  · cases reading (p.stats d) <;> simp [h]

theorem lookup_filesAfter {log path} {e}
    (hlog : path ≠ p.logDir++"/"++log) (he : ∀ f ∈ e.files, path ≠ p.home++f.1)
    (files : List (String × String)) : (p.filesAfter log e files).lookup path =
        files.lookup path := by
  rw [filesAfter, Lower.lookup_puts_of_notMem, Lower.lookup_put_of_ne hlog]
  intro f hf
  obtain ⟨g,hg,rfl⟩ := List.mem_map.1 hf
  exact he g hg

end Runner

namespace Site

variable {s : Site} {version dataset target : String} {factor : Option Int} {l : Ledger Cell}
variable {d d₁ : Desk}

def Unwritten (d : Desk) : Prop :=
  ∀ k < 2, ∀ f ∈ (processEnd d k).files, p.home++f.1 ≠ p.statsPath

theorem statsPath_ne_log {log} (h : log.toList.head? ≠ some 's') :
    (s.runner version dataset).statsPath ≠ (s.runner version dataset).logDir++"/"++log := by
  intro heq
  have hchars := congrArg String.toList heq
  rw [Runner.statsPath, runner] at hchars
  simp at hchars
  exact h (by rw [← hchars]; rfl)

theorem stats_of_unwritten (h : Unwritten (s.runner version dataset) d) :
    (s.runner version dataset).stats d = d.files.lookup (s.runner version dataset).statsPath := by
  rw [Runner.stats, Runner.lookup_filesAfter, Runner.lookup_filesAfter]
  · exact statsPath_ne_log (by decide)
  · exact fun f hf => (h 0 (by decide) f hf).symm
  · exact statsPath_ne_log (by decide)
  · exact fun f hf => (h 1 (by decide) f hf).symm

theorem keepsEnds_generate (s : Site) (target : String) (factor : Option Int) :
    KeepsEnds (s.generate target factor) := by
  refine (keepsEnds_readText _).bind fun _ => ?_
  cases s.codePath target with
  | none => exact fun _ => rfl
  | some path =>
    refine KeepsEnds.bind (fun _ => rfl) fun d => ?_
    dsimp only
    split
    · exact fun _ => rfl
    · exact KeepsEnds.bind (fun _ => rfl) fun _ _ => rfl
    · exact fun _ => rfl
    · exact fun _ => rfl

theorem keepsEnds_compile (s : Site) (target : String) (factor : Option Int) :
    KeepsEnds (s.compile target factor) := by
  refine KeepsEnds.bind (fun _ => rfl) fun _ => ?_
  refine (keepsEnds_succeeds (keepsEnds_generate s target factor)).bind fun done => ?_
  exact KeepsEnds.bind (fun _ => rfl) fun _ _ => rfl

theorem predict_run (s : Site) (version dataset : String) (d : Desk) : ∃ d',
    (s.steps.predict version dataset).run.run d =
      (Option.map Cell.real <$> (s.runner version dataset).outcome d,d') := by
  obtain ⟨d',hrun⟩ := (s.runner version dataset).run_outcome d
  change ∃ d', (s.predict version dataset).run.run d = _
  rw [predict, bind_pure_comp, run_map, hrun]
  exact ⟨d',rfl⟩

theorem trial_run (h : (s.steps.compile target factor).run.run d = (.ok true,d₁)) :
    ∃ d2, (tryOnce s.steps version dataset target factor).run.run (l,d) =
      match (s.runner version dataset).outcome d₁ with
      | .error e => (.error e,l,d2)
      | .ok none => (.ok .notRun,l,d2)
      | .ok (some a) => (.ok .ran,l.enter factor (some (.real a)),d2) := by
  obtain ⟨d2,hpredict⟩ := s.predict_run version dataset d₁
  rcases houtcome : (s.runner version dataset).outcome d₁ with e | _ | a
  · rw [houtcome] at hpredict
    exact ⟨d2,tryOnce_fault h hpredict⟩
  · rw [houtcome] at hpredict
    exact ⟨d2,tryOnce_notRun h hpredict⟩
  · rw [houtcome] at hpredict
    exact ⟨_,tryOnce_ran h hpredict rfl⟩

theorem processEnd_compiled {ok} (h : (s.steps.compile target factor).run.run d = (.ok ok,d₁))
    (k : Nat) : processEnd d₁ k = processEnd d k := by
  have hends : ((s.compile target factor).run.run d).2.ends = d.ends :=
    keepsEnds_compile s target factor d
  change ((s.steps.compile target factor).run.run d).2.ends = d.ends at hends
  rw [h] at hends
  rw [processEnd, hends, processEnd]

theorem trial_notRun_iff (h : (s.steps.compile target factor).run.run d = (.ok true,d₁)) :
    ((tryOnce s.steps version dataset target factor).run.run (l,d)).1 = .ok .notRun ↔
    Noticed d := by
  have hnoticed : Noticed d₁ ↔ Noticed d := by
    simp only [Noticed, status, processEnd_compiled h]
  obtain ⟨d2,hrun⟩ := trial_run h
  rw [hrun, ← hnoticed, ← (s.runner version dataset).outcome_eq_none_iff]
  rcases (s.runner version dataset).outcome d₁ with e | _ | a <;> simp

theorem trial_of_unwritten
    (h : (s.steps.compile target factor).run.run d = (.ok true,d₁)) (hmissed : ¬ Noticed d)
    (hunwritten : Unwritten (s.runner version dataset) d) {text} {a}
    (htext : d₁.files.lookup (s.runner version dataset).statsPath = some text)
    (ha : Runner.firstNumber text = .ok a) :
    ∃ d2, (tryOnce s.steps version dataset target factor).run.run (l,d) =
      (.ok .ran,l.enter factor (some (.real a)),d2) := by
  have hstats : (s.runner version dataset).stats d₁ = some text := by
    rw [stats_of_unwritten, htext]
    intro k hk
    rw [processEnd_compiled h]
    exact hunwritten k hk
  have houtcome : (s.runner version dataset).outcome d₁ = .ok (some a) := by
    rw [Runner.outcome_eq_some_iff, hstats]
    exact ⟨by simpa only [Noticed, status, processEnd_compiled h] using hmissed,ha⟩
  obtain ⟨d2,hrun⟩ := trial_run h
  rw [houtcome] at hrun
  exact ⟨d2,hrun⟩

def announced (i : Int) (d : Desk) : Desk :=
  { d with said := d.said++("Testing with max scale factor of "++toString i++"\n") }

theorem search_of_noticed {i}
    (h : (s.steps.compile "x86" (some i)).run.run (announced i d) = (.ok true,d₁)) (hd : Noticed d)
    (is : List Int) (found : Bool) :
    ∃ d2, (tryFactors s.steps (i::is) found).run.run (l,d) = (.ok none,l,d2) := by
  have hnone : (s.runner "fixed" "training").outcome d₁ = .ok none := by
    rw [Runner.outcome_eq_none_iff, Noticed, status, status, processEnd_compiled h,
      processEnd_compiled h]
    exact hd
  obtain ⟨d2,htrial⟩ := trial_run h
  rw [hnone] at htrial
  have hsay : (s.steps.say ("Testing with max scale factor of "++toString i++"\n")).run.run d =
    (.ok (),announced i d) := rfl
  refine ⟨d2,?_⟩
  rw [tryFactors, report, run_bind_ok (run_outside hsay), run_bind_ok htrial]
  rfl

end Site

/-- A run should give no accuracy when a process fails, and a trial should then be one that did not
run. Both hold if and only if the two statuses are zero or one of them is one, which ends a search.
With any other statuses a run gives what stands in the statistics, and a trial enters it for its
factor even if it was there before. -/
theorem failures_reported_iff (p : Runner) (d : Desk) :
    ((Failed d → (p.run.run.run d).1 = .ok none) ↔
      (status d 0 = 0 ∧ status d 1 = 0) ∨ status d 0 = 1 ∨ status d 1 = 1) ∧
    (∀ a, (p.run.run.run d).1 = .ok (some a) ↔ ¬ Noticed d ∧ Runner.reading (p.stats d) = .ok a) ∧
    ∀ (s : Site) (l : Ledger Cell),
      (∀ version dataset target factor d₁,
        (s.compile target factor).run.run d = (.ok true,d₁) →
        ((Failed d →
            ((tryOnce s.steps version dataset target factor).run.run (l,d)).1 = .ok .notRun) ↔
          (status d 0 = 0 ∧ status d 1 = 0) ∨ status d 0 = 1 ∨ status d 1 = 1) ∧
        ∀ text a, ¬ Noticed d → Site.Unwritten (s.runner version dataset) d →
          d₁.files.lookup (s.runner version dataset).statsPath = some text →
          Runner.firstNumber text = .ok a →
          ∃ d₂, (tryOnce s.steps version dataset target factor).run.run (l,d) =
            (.ok .ran,l.enter factor (some (.real a)),d₂)) ∧
      ∀ i is found d₁, (s.compile "x86" (some i)).run.run (Site.announced i d) = (.ok true,d₁) →
        Noticed d → ∃ d₂, (tryFactors s.steps (i::is) found).run.run (l,d) = (.ok none,l,d₂) := by
  obtain ⟨d',hrun⟩ := p.run_outcome d
  rw [hrun, p.outcome_eq_none_iff, failed_imp_noticed_iff]
  refine ⟨Iff.rfl,p.outcome_eq_some_iff d,fun s l => ⟨?_,?_⟩⟩
  · intro version dataset target factor d₁ hcompile
    have hcompile : (s.steps.compile target factor).run.run d = (.ok true,d₁) := hcompile
    refine ⟨?_,?_⟩
    · rw [Site.trial_notRun_iff hcompile, failed_imp_noticed_iff]
    · intro text a hmissed hunwritten htext ha
      exact Site.trial_of_unwritten hcompile hmissed hunwritten htext ha
  · intro i is found d₁ hcompile hnoticed
    exact Site.search_of_noticed hcompile hnoticed is found

def smallSite : Site where
  algorithm := "bonsai"
  modelDir := "model"
  trainPath := "train.tsv"
  testPath := "test.tsv"
  scratch := "temp"
  outDir := "arduino"
  program := .bind "a" (.decl ["1", "1"] "-1.0" "1.0") (.name "a")

/-- The building process fails with the status two and the running one is killed, while statistics
of before are at hand. -/
def staleDesk : Desk where
  files := [("temp/input.sd",""), ("temp/output/bonsai-fixed/stats-training.txt","87.5\n")]
  ends := [{ status := 2 }, { status := -11 }]

/-- Neither failure is noticed: the run gives the accuracy of before, and the factor gets it. -/
theorem failures_reported_iff_staleDesk :
    ((smallSite.runner "fixed" "training").run.run.run staleDesk).1 = .ok (some 87.5) ∧
    ∃ d₂, (tryOnce smallSite.steps "fixed" "training" "x86" (some (-1))).run.run
        ({ factor := none },staleDesk) =
      (.ok .ran,{ factor := none, accuracy := [(some (-1),.real 87.5)] },d₂) := by
  have hnumber : Runner.firstNumber "87.5\n" = .ok 87.5 := by decide +kernel
  have hmissed : ¬ Noticed staleDesk := by decide
  obtain ⟨-,hsome,htrial⟩ := failures_reported_iff (smallSite.runner "fixed" "training") staleDesk
  refine ⟨(hsome 87.5).2 ⟨hmissed,by decide +kernel⟩,?_⟩
  have hcompile : ((smallSite.compile "x86" (some (-1))).run.run staleDesk).1 = .ok true := by
    decide +kernel
  have hfile : ((smallSite.compile "x86" (some (-1))).run.run staleDesk).2.files.lookup
      (smallSite.runner "fixed" "training").statsPath = some "87.5\n" := by decide +kernel
  rcases hrun : (smallSite.compile "x86" (some (-1))).run.run staleDesk with ⟨r,d₁⟩
  rw [hrun] at hcompile hfile
  obtain rfl : r = .ok true := hcompile
  refine ((htrial smallSite { factor := none }).1 "fixed" "training" "x86" (some (-1)) d₁ hrun).2
    "87.5\n" 87.5 hmissed ?_ hfile hnumber
  rw [Site.Unwritten]
  decide

end MicroLearn.Deploy
