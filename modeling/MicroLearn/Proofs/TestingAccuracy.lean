import MicroLearn.Deploy.Search
import MicroLearn.Proofs.Declarations

/-!
# What a deployment reports

The outcome of every outside step of a deployment is written into a log. From the log one can tell
whether the code ran on the testing set, with which accuracy, and whether the code for the device
was generated. A deployment should succeed only if all of this did, and report that accuracy. It
does so exactly when nothing fails behind the conversion of the testing set.
-/

set_option autoImplicit false

namespace MicroLearn.Deploy

/-- A step with its result. -/
inductive Outcome (α : Type) where
  | converted (version dataset target : String) (ok : Bool)
  | compiled (target : String) (factor : Option Int) (ok : Bool)
  | predicted (version dataset : String) (accuracy : Option α)

namespace Outcome

variable {α : Type}

def succeeded : Outcome α → Bool
  | converted _ _ _ ok | compiled _ _ ok => ok
  | predicted _ _ accuracy => accuracy.isSome

def onTesting : Outcome α → Bool
  | converted _ dataset _ _ => dataset == "testing"
  | _ => false

end Outcome

section Log

variable {σ α β γ ε : Type}
variable {e : Fault} {m x : Act σ γ} {w w' : σ} {g : Unit → Run σ α β} {text : String}

/-- The steps of a deployment all end, and write their outcomes into a log of the world. -/
structure Steps.Logged (st : Steps σ α) (log : σ → List (Outcome α)) : Prop where
  convert : ∀ version dataset target w, ∃ ok w',
    (st.convert version dataset target).run.run w = (.ok ok,w') ∧
      log w' = log w++[.converted version dataset target ok]
  compile : ∀ target factor w, ∃ ok w', (st.compile target factor).run.run w = (.ok ok,w') ∧
    log w' = log w++[.compiled target factor ok]
  predict : ∀ version dataset w, ∃ a w', (st.predict version dataset).run.run w = (.ok a,w') ∧
    log w' = log w++[.predicted version dataset a]
  copyHeader : ∀ name w, ∃ w', (st.copyHeader name).run.run w = (.ok (),w') ∧ log w' = log w
  say : ∀ text w, ∃ w', (st.say text).run.run w = (.ok (),w') ∧ log w' = log w

/-- A part of a deployment ends with a result, a ledger and new entries of the log as `Q` says. -/
def Leads (log : σ → List ε) (m : Run σ α β) (l : Ledger α)
    (Q : Except Fault β → Ledger α → List ε → Prop) : Prop :=
  ∀ w, ∃ r l' w' new, m.run.run (l,w) = (r,l',w') ∧ log w' = log w++new ∧ Q r l' new

variable {st : Steps σ α} {log : σ → List ε} {l : Ledger α} {Q : Except Fault β → Ledger α →
    List ε → Prop}

theorem leads_pure {b} (h : Q (.ok b) l []) : Leads log (pure b) l Q :=
  fun w => ⟨.ok b,l,w,[],rfl,(List.append_nil _).symm,h⟩

theorem leads_throw (h : Q (.error e) l []) : Leads log (throw e) l Q :=
  fun w => ⟨.error e,l,w,[],rfl,(List.append_nil _).symm,h⟩

theorem Leads.imp {m R}
    (h : Leads log m l Q) (himp : ∀ r l' new, Q r l' new → R r l' new) : Leads log m l R := by
  intro w
  obtain ⟨r,l',w',new,hrun,hlog,hQ⟩ := h w
  exact ⟨r,l',w',new,hrun,hlog,himp r l' new hQ⟩

theorem run_bind (m : Act σ γ) (f : γ → Act σ β) (w : σ) :
    (m >>= f).run.run w = match m.run.run w with
      | (.ok b,w') => (f b).run.run w'
      | (.error e,w') => (.error e,w') := by
  change (ExceptT.bindCont f (m.run.run w).1).run (m.run.run w).2 = _
  rcases m.run.run w with ⟨r,w'⟩
  cases r <;> rfl

theorem run_bind_ok {f : γ → Act σ β} {c : γ}
    (h : m.run.run w = (.ok c,w')) : (m >>= f).run.run w = (f c).run.run w' := by
  rw [run_bind, h]

theorem run_bind_error {f : γ → Act σ β}
    (h : m.run.run w = (.error e,w')) : (m >>= f).run.run w = (.error e,w') := by
  rw [run_bind, h]

theorem Leads.bind {m : Run σ α γ} {f : γ → Run σ α β}
    {P : Except Fault γ → Ledger α → List ε → Prop} (h : Leads log m l P)
    (hok : ∀ b l' new, P (.ok b) l' new → Leads log (f b) l' fun r l'' new' => Q r l'' (new++new'))
    (herror : ∀ e l' new, P (.error e) l' new → Q (.error e) l' new) : Leads log (m >>= f) l Q := by
  intro w
  obtain ⟨r,l',w',new,hrun,hlog,hP⟩ := h w
  cases r with
  | error e => exact ⟨.error e,l',w',new,run_bind_error hrun,hlog,herror e l' new hP⟩
  | ok b =>
    obtain ⟨r,l'',w'',new',hrun',hlog',hQ⟩ := hok b l' new hP w'
    refine ⟨r,l'',w'',new++new',?_,by rw [hlog', hlog, List.append_assoc],hQ⟩
    rw [run_bind_ok hrun]
    exact hrun'

/-- A part of a deployment that ends without a fault. -/
def Returns (log : σ → List ε) (m : Run σ α γ) (l : Ledger α) (R : γ → Ledger α → List ε → Prop) :
    Prop :=
  Leads log m l fun r l' new => ∃ b, r = .ok b ∧ R b l' new

theorem returns_pure {b : γ} {R : γ → Ledger α → List ε → Prop} (h : R b l []) :
    Returns log (pure b) l R :=
  leads_pure ⟨b,rfl,h⟩

theorem Returns.bind {m : Run σ α γ} {f : γ → Run σ α β}
    {R : γ → Ledger α → List ε → Prop} (h : Returns log m l R)
    (hok : ∀ b l' new, R b l' new → Leads log (f b) l' fun r l'' new' => Q r l'' (new++new')) :
    Leads log (m >>= f) l Q := by
  refine Leads.bind h ?_ ?_
  · rintro b l' new ⟨_,hb,hR⟩
    cases hb
    exact hok b l' new hR
  · rintro _ _ _ ⟨_,h,-⟩
    cases h

theorem returns_outside (entry : γ → List ε)
    (hx : ∀ w, ∃ b w', x.run.run w = (.ok b,w') ∧ log w' = log w++entry b) :
    Returns log (outside x) l fun b l' new => l' = l ∧ new = entry b := by
  intro w
  obtain ⟨b,w',hrun,hlog⟩ := hx w
  refine ⟨.ok b,l,w',entry b,?_,hlog,b,rfl,rfl,rfl⟩
  change ((x.run.run w).1,l,(x.run.run w).2) = _
  rw [hrun]

theorem leads_outside {f} (entry : γ → List ε)
    (hx : ∀ w, ∃ b w', x.run.run w = (.ok b,w') ∧ log w' = log w++entry b)
    (h : ∀ b, Leads log (f b) l fun r l' new => Q r l' (entry b++new)) :
    Leads log (outside x >>= f) l Q := by
  refine (returns_outside entry hx).bind ?_
  rintro b _ _ ⟨rfl,rfl⟩
  exact h b

theorem leads_update {f} (h : Leads log (g ()) (f l) Q) : Leads log (update f >>= g) l Q := by
  intro w
  exact h w

theorem leads_ledger {g} (h : Leads log (g l) l Q) : Leads log (ledger >>= g) l Q := fun w => h w

theorem leads_say (hsay : ∀ text w, ∃ w', (st.say text).run.run w = (.ok (),w') ∧ log w' = log w)
    (h : Leads log (g ()) l Q) : Leads log (report st text >>= g) l Q := by
  refine leads_outside (fun _ => []) (fun w => ?_) fun _ => h
  obtain ⟨w',hrun,hlog⟩ := hsay (text++"\n") w
  exact ⟨(),w',hrun,by rw [hlog, List.append_nil]⟩

theorem leads_report {log Q} (hst : st.Logged log)
    (h : Leads log (g ()) l Q) : Leads log (report st text >>= g) l Q :=
  leads_say hst.say h

end Log

section Trials

variable {σ α : Type} {st : Steps σ α} {log : σ → List (Outcome α)} {l : Ledger α}

def Ledger.enter (l : Ledger α) (factor : Option Int) : Option α → Ledger α
  | none => l
  | some a => { l with accuracy := Lower.put factor a l.accuracy }

@[simp] theorem enter_factor (k : Option Int) (a : Option α) : (l.enter k a).factor = l.factor := by
  cases a <;> rfl

@[simp] theorem enter_testing (k : Option Int) (a : Option α) :
    (l.enter k a).testing = l.testing := by
  cases a <;> rfl

theorem lookup_enter (k : Option Int) (a : Option α) :
    (l.enter k a).accuracy.lookup k = a.or (l.accuracy.lookup k) := by
  cases a with
  | none => rfl
  | some a => exact Lower.lookup_put_self

/-- How a trial fared, its accuracy and its outcomes. -/
inductive Tried (version dataset target : String) (factor : Option Int) :
    Trial → Option α → List (Outcome α) → Prop
  | notCompiled : Tried version dataset target factor .notCompiled none
      [.compiled target factor false]
  | notRun : Tried version dataset target factor .notRun none
      [.compiled target factor true, .predicted version dataset none]
  | ran (a : α) : Tried version dataset target factor .ran (some a)
      [.compiled target factor true, .predicted version dataset (some a)]

theorem returns_tryOnce (hst : st.Logged log) (version dataset target : String)
    (factor : Option Int) : Returns log (tryOnce st version dataset target factor) l fun t l' new =>
      ∃ a, l' = l.enter factor a ∧ Tried version dataset target factor t a new := by
  refine leads_outside _ (hst.compile target factor) fun ok => ?_
  cases ok with
  | false => exact returns_pure ⟨none,rfl,.notCompiled⟩
  | true =>
    refine leads_outside _ (hst.predict version dataset) fun a => ?_
    cases a with
    | none => exact returns_pure ⟨none,rfl,.notRun⟩
    | some a =>
      exact leads_update (leads_report hst (returns_pure ⟨some a,rfl,.ran a⟩))

end Trials

section Search

variable {σ α : Type} {st : Steps σ α} {log : σ → List (Outcome α)} {l l' l'' : Ledger α}
  {new new' : List (Outcome α)}

def training (factor : Option Int) (a : α) : List (Outcome α) :=
  [.compiled "x86" factor true, .predicted "fixed" "training" (some a)]

/-- The search leaves the testing set alone, and enters accuracies of trials on the training set. -/
structure Searched (l l' : Ledger α) (new : List (Outcome α)) : Prop where
  factor : l'.factor = l.factor
  testing : l'.testing = l.testing
  entries : ∀ k a, l'.accuracy.lookup k = some a →
    l.accuracy.lookup k = some a ∨ k.isSome ∧ training k a <:+: new
  outcomes : ∀ o ∈ new, o.onTesting = false

theorem Searched.refl (l : Ledger α) : Searched l l [] :=
  ⟨rfl,rfl,fun _ _ h => .inl h,by simp⟩

theorem Searched.trans (h : Searched l l' new) (h' : Searched l' l'' new') :
    Searched l l'' (new++new') where
  factor := h'.factor.trans h.factor
  testing := h'.testing.trans h.testing
  entries k a hk := by
    rcases h'.entries k a hk with hk | ⟨hsome,hinf⟩
    · rcases h.entries k a hk with hk | ⟨hsome,hinf⟩
      · exact .inl hk
      · exact .inr ⟨hsome,hinf.trans (List.prefix_append new new').isInfix⟩
    · exact .inr ⟨hsome,hinf.trans (List.suffix_append new new').isInfix⟩
  outcomes := List.forall_mem_append.2 ⟨h.outcomes,h'.outcomes⟩

theorem Tried.searched {i t a} (h : Tried "fixed" "training" "x86" (some i) t a new) :
    Searched l (l.enter (some i) a) new := by
  cases h with
  | notCompiled | notRun => exact ⟨rfl,rfl,fun _ _ hk => .inl hk,by simp [Outcome.onTesting]⟩
  | ran a =>
    refine ⟨rfl,rfl,fun k b hk => ?_,by simp [Outcome.onTesting]⟩
    by_cases hki : k = some i
    · subst hki
      rw [Ledger.enter, Lower.lookup_put_self] at hk
      cases hk
      exact .inr ⟨rfl,List.infix_rfl⟩
    · rw [Ledger.enter, Lower.lookup_put_of_ne hki] at hk
      exact .inl hk

theorem enter_ne_nil (factor : Option Int) (a : α) : (l.enter factor (some a)).accuracy ≠ [] := by
  rw [Ledger.enter]
  cases l.accuracy with
  | nil => simp [Lower.put]
  | cons e es =>
    rw [Lower.put]
    split <;> simp

theorem returns_tryFactors (hst : st.Logged log) (is : List Int) (found : Bool)
    (hfound : found = true → l.accuracy ≠ []) :
    Returns log (tryFactors st is found) l fun res l' new =>
      Searched l l' new ∧ (res = some true → l'.accuracy ≠ []) := by
  induction is generalizing l found with
  | nil => exact returns_pure ⟨.refl l,by simpa using hfound⟩
  | cons i is ih =>
    refine leads_report hst ((returns_tryOnce hst _ _ _ _).bind ?_)
    rintro t _ new ⟨a,rfl,htried⟩
    have hsearched : Searched l _ new := htried.searched
    have hrest : ∀ found' : Bool, (found' = true → (l.enter (some i) a).accuracy ≠ []) → Leads log
        (tryFactors st is found') (l.enter (some i) a) fun r l'' new' => ∃ res, r = .ok res ∧
          Searched l l'' (new++new') ∧ (res = some true → l''.accuracy ≠ []) := by
      intro found' hfound'
      refine (ih found' hfound').imp ?_
      rintro _ _ _ ⟨res,rfl,h,hres⟩
      exact ⟨res,rfl,hsearched.trans h,hres⟩
    cases htried with
    | notRun => exact returns_pure ⟨by simpa using hsearched,nofun⟩
    | ran a => exact hrest true fun _ => enter_ne_nil _ a
    | notCompiled =>
      cases found with
      | true => exact returns_pure ⟨by simpa using hsearched,fun _ => hfound rfl⟩
      | false => exact hrest false nofun

/-- The factor in use is a number, and the table holds for it the accuracy of a trial on the
training set. -/
def Found (l : Ledger α) (new : List (Outcome α)) : Prop :=
  ∃ n a, l.factor = some n ∧ l.accuracy.lookup (some n) = some a ∧ training (some n) a <:+: new

theorem returns_factorNumber {n : Int} (h : l.factor = some n) :
    Returns log (factorNumber : Run σ α Int) l fun k l' new => k = n ∧ l' = l ∧ new = [] := by
  refine leads_ledger ?_
  rw [h]
  exact returns_pure ⟨rfl,rfl,rfl⟩

variable [LT α] [DecidableLT α]

theorem returns_bestFactor (hst : st.Logged log) (hentries : l.accuracy ≠ []) :
    Returns log (bestFactor st) l fun k l' new =>
      l' = l ∧ new = [] ∧ ∃ a, l.accuracy.lookup k = some a := by
  refine leads_ledger (leads_report hst ?_)
  cases hbest : (byAccuracy l.accuracy).take 5 with
  | nil =>
    have hlength := congrArg List.length hbest
    rw [List.length_take, byAccuracy, List.length_mergeSort, List.length_nil] at hlength
    have := List.length_pos_iff.2 hentries
    omega
  | cons e es =>
    have hmem : e ∈ (byAccuracy l.accuracy).take 5 := hbest ▸ List.mem_cons_self
    have hmem := List.mem_mergeSort.1 (List.mem_of_mem_take hmem)
    refine returns_pure ⟨rfl,rfl,?_⟩
    cases hlookup : l.accuracy.lookup e.1 with
    | some a => exact ⟨a,rfl⟩
    | none =>
      have := List.lookup_eq_none_iff.1 hlookup e hmem
      simp at this

theorem returns_searchFactors (hst : st.Logged log) (hempty : l.accuracy = []) :
    Returns log (searchFactors st) l fun ok l' new => l'.testing = l.testing ∧
      (∀ o ∈ new, o.onTesting = false) ∧ (ok = true → Found l' new) := by
  refine (returns_tryFactors hst factors false nofun).bind ?_
  rintro res l' new ⟨hsearched,hentries⟩
  have hfail : Returns log (pure false) l' fun ok l'' new' => l''.testing = l.testing ∧
      (∀ o ∈ new++new', o.onTesting = false) ∧ (ok = true → Found l'' (new++new')) :=
    returns_pure ⟨hsearched.testing,by simpa using hsearched.outcomes,nofun⟩
  match res with
  | none => exact hfail
  | some false => exact hfail
  | some true =>
    refine leads_report hst (leads_report hst (leads_report hst ?_))
    refine (returns_bestFactor hst (hentries rfl)).bind ?_
    rintro k _ _ ⟨rfl,rfl,a,ha⟩
    refine leads_update (returns_pure ⟨hsearched.testing,?_,fun _ => ?_⟩)
    · simpa using hsearched.outcomes
    · rcases hsearched.entries k a ha with h | ⟨hsome,hinf⟩
      · rw [hempty] at h
        cases h
      · obtain ⟨n,rfl⟩ := Option.isSome_iff_exists.1 hsome
        exact ⟨n,a,rfl,ha,by simpa using hinf⟩

theorem returns_findBestFactor (hst : st.Logged log) (hempty : l.accuracy = []) :
    Returns log (findBestFactor st) l fun ok l' new => l'.testing = l.testing ∧
      (∀ o ∈ new, o.onTesting = false) ∧ (ok = true → Found l' new) := by
  refine leads_report hst (leads_report hst (leads_report hst ?_))
  refine leads_outside _ (hst.convert _ _ _) fun ok => ?_
  cases ok with
  | false => exact returns_pure ⟨rfl,by simp [Outcome.onTesting],nofun⟩
  | true =>
    refine (returns_searchFactors hst hempty).bind ?_
    rintro found l' new ⟨htesting,houtcomes,hfound⟩
    have hall : ∀ o ∈ [Outcome.converted "fixed" "training" "x86" true]++new,
        o.onTesting = false := by
      simpa [Outcome.onTesting] using houtcomes
    cases found with
    | false => exact returns_pure ⟨htesting,by simpa using hall,nofun⟩
    | true =>
      obtain ⟨n,a,hn,ha,hinf⟩ := hfound rfl
      refine (returns_factorNumber hn).bind ?_
      rintro _ _ _ ⟨rfl,rfl,rfl⟩
      refine leads_report hst (returns_pure ⟨htesting,by simpa using hall,fun _ => ?_⟩)
      refine ⟨_,a,hn,ha,?_⟩
      simp only [List.append_nil]
      exact hinf.trans (List.suffix_append _ new).isInfix

end Search

section Ending

variable {σ α : Type} {st : Steps σ α} {log : σ → List (Outcome α)} {l : Ledger α}

inductive Generated (target : String) (factor : Option Int) : Bool → List (Outcome α) → Prop
  | notConverted : Generated target factor false [.converted "fixed" "testing" target false]
  | compiled (ok : Bool) : Generated target factor ok
      [.converted "fixed" "testing" target true, .compiled target factor ok]

/-- What a deployment with the factor `n` does behind its preparation: the outcomes, the result and
the accuracy that is reported. The table has `entered` for this factor. -/
inductive Ending (target : String) (n : Int) (entered : Option α) :
    List (Outcome α) → Except Fault Bool → Option α → Prop
  | notConverted : Ending target n entered [.converted "fixed" "testing" "x86" false]
      (.ok false) none
  | tested {t a ok trial code} :
      Tried "fixed" "testing" "x86" (some n) t (some a) trial → Generated target (some n) ok code →
      Ending target n entered (.converted "fixed" "testing" "x86" true::(trial++code)) (.ok true)
        (some a)
  /-- a failed trial is not noticed; what the table has is taken for its accuracy -/
  | stale {t a ok trial code} : Tried "fixed" "testing" "x86" (some n) t none trial →
      entered = some a → Generated target (some n) ok code →
      Ending target n entered (.converted "fixed" "testing" "x86" true::(trial++code)) (.ok true)
        (some a)
  | missing {t trial} : Tried "fixed" "testing" "x86" (some n) t none trial → entered = none →
      Ending target n entered (.converted "fixed" "testing" "x86" true::trial)
        (.error (.unknownNumber n)) none

def finish (st : Steps σ α) (p : Plan) : Run σ α Bool := do
  if !(← runOnTesting st) then return false
  let a ← enteredAccuracy
  update fun l => { l with testing := some a }
  let _ ← compileForDevice st p
  report st ("\nArduino sketch dumped in the folder "++p.outName++"\n")
  return true

theorem returns_runOnTesting (hst : st.Logged log) {n} (hn : l.factor = some n) :
    Returns log (runOnTesting st) l fun ok l' new =>
      (ok = false ∧ l' = l ∧ new = [.converted "fixed" "testing" "x86" false]) ∨
      (ok = true ∧ ∃ t a trial, Tried "fixed" "testing" "x86" (some n) t a trial ∧
        l' = l.enter (some n) a ∧ new = .converted "fixed" "testing" "x86" true::trial) := by
  refine leads_report hst (leads_report hst (leads_report hst ((returns_factorNumber hn).bind ?_)))
  rintro _ _ _ ⟨rfl,rfl,rfl⟩
  refine leads_report hst (leads_outside _ (hst.convert _ _ _) fun ok => ?_)
  cases ok with
  | false => exact returns_pure (.inl ⟨rfl,rfl,rfl⟩)
  | true =>
    refine (returns_tryOnce hst _ _ _ _).bind ?_
    rintro t _ trial ⟨a,rfl,htried⟩
    exact returns_pure (.inr ⟨rfl,t,a,trial,htried,rfl,by simp⟩)

theorem returns_compileForDevice (hst : st.Logged log) (p : Plan) :
    Returns log (compileForDevice st p) l fun ok l' new => l' = l ∧
    Generated p.target l.factor ok new := by
  refine leads_report hst (leads_report hst (leads_report hst ?_))
  refine leads_outside _ (hst.convert _ _ _) fun ok => ?_
  cases ok with
  | false => exact returns_pure ⟨rfl,.notConverted⟩
  | true =>
    refine leads_outside (fun _ => []) (fun w => ?_) fun _ => leads_ledger ?_
    · obtain ⟨w',hrun,hlog⟩ := hst.copyHeader "seedot_fixed_model.h" w
      exact ⟨(),w',hrun,by rw [hlog, List.append_nil]⟩
    · refine (returns_outside _ (hst.compile p.target l.factor)).imp ?_
      rintro _ _ _ ⟨ok,rfl,rfl,rfl⟩
      exact ⟨ok,rfl,rfl,.compiled ok⟩

theorem leads_enteredAccuracy {n} (hn : l.factor = some n) :
    Leads log (enteredAccuracy : Run σ α α) l fun r l' new => l' = l ∧ new = [] ∧
      r = match l.accuracy.lookup (some n) with
        | some a => .ok a
        | none => .error (.unknownNumber n) := by
  refine leads_ledger ?_
  rw [hn]
  cases l.accuracy.lookup (some n) with
  | some a => exact leads_pure ⟨rfl,rfl,rfl⟩
  | none => exact leads_throw ⟨rfl,rfl,rfl⟩

theorem leads_generation (hst : st.Logged log) (p : Plan) (a : α) : Leads log (do
      update fun l => { l with testing := some a }
      let _ ← compileForDevice st p
      report st ("\nArduino sketch dumped in the folder "++p.outName++"\n")
      return true) l fun r l' new => r = .ok true ∧ l'.factor = l.factor ∧ l'.testing = some a ∧
        ∃ ok, Generated p.target l.factor ok new := by
  refine leads_update ((returns_compileForDevice hst p).bind ?_)
  rintro ok _ code ⟨rfl,hcode⟩
  exact leads_report hst (leads_pure ⟨rfl,rfl,rfl,ok,by simpa using hcode⟩)

theorem leads_finish (hst : st.Logged log) (p : Plan) {n} (hn : l.factor = some n)
    (htesting : l.testing = none) : Leads log (finish st p) l fun r l' new =>
      l'.factor = some n ∧ Ending p.target n (l.accuracy.lookup (some n)) new r l'.testing := by
  refine (returns_runOnTesting hst hn).bind ?_
  rintro ok _ _ (⟨rfl,rfl,rfl⟩ | ⟨rfl,t,a,trial,htried,rfl,rfl⟩)
  · refine leads_pure ⟨hn,?_⟩
    rw [htesting]
    exact .notConverted
  have hfactor : (l.enter (some n) a).factor = some n := by rw [enter_factor, hn]
  refine (leads_enteredAccuracy hfactor).bind ?_ ?_
  · rintro b _ _ ⟨rfl,rfl,hb⟩
    refine (leads_generation hst p b).imp ?_
    rintro _ l' code ⟨rfl,hl',hreport,ok,hcode⟩
    rw [hfactor] at hl' hcode
    rw [hreport]
    refine ⟨hl',?_⟩
    rw [lookup_enter] at hb
    cases a with
    | some a =>
      cases hb
      exact .tested htried hcode
    | none =>
      rw [Option.none_or] at hb
      cases hentered : l.accuracy.lookup (some n) with
      | none =>
        rw [hentered] at hb
        cases hb
      | some c =>
        rw [hentered] at hb
        cases hb
        exact .stale htried rfl hcode
  · rintro e _ _ ⟨rfl,rfl,he⟩
    refine ⟨hfactor,?_⟩
    rw [lookup_enter] at he
    cases a with
    | some a => cases he
    | none =>
      rw [Option.none_or] at he
      cases hentered : l.accuracy.lookup (some n) with
      | some c =>
        rw [hentered] at he
        cases he
      | none =>
        rw [hentered] at he
        cases he
        rw [enter_testing, htesting, List.append_nil]
        exact .missing htried rfl

end Ending

section Honesty

variable {σ α : Type} {st : Steps σ α} {log : σ → List (Outcome α)} {p : Plan} {f : Option Int}
  {r : Except Fault Bool} {l : Ledger α} {tr : List (Outcome α)}

/-- The log ends with a trial on the testing set that ran and with code that was generated. -/
def Deployed (p : Plan) (n : Int) (a : α) (tr : List (Outcome α)) : Prop :=
  [.converted "fixed" "testing" "x86" true, .compiled "x86" (some n) true,
    .predicted "fixed" "testing" (some a), .converted "fixed" "testing" p.target true,
    .compiled p.target (some n) true] <:+ tr

/-- A deployment that succeeds has run its code on the testing set, reports the accuracy of that run
and has generated the code for the device; one that has not done so fails. -/
structure Honest (p : Plan) (r : Except Fault Bool) (l : Ledger α) (tr : List (Outcome α)) :
    Prop where
  sound : r = .ok true → ∃ n a, l.factor = some n ∧ l.testing = some a ∧ Deployed p n a tr
  failing : (¬ ∃ n a, l.factor = some n ∧ Deployed p n a tr) → r = .ok false

def afterTesting (tr : List (Outcome α)) : List (Outcome α) :=
  (tr.dropWhile fun o => !o.onTesting).tail

/-- How a deployment that starts with the factor `f` ends. Either its preparation fails, or it goes
on with the given factor and an empty table, or with a factor that it has tried on the training
set. -/
inductive Account (p : Plan) (f : Option Int) (r : Except Fault Bool) (l : Ledger α) :
    List (Outcome α) → Prop
  | unprepared {tr : List (Outcome α)} : r = .ok false → l.testing = none →
      (∀ o ∈ tr, o.onTesting = false) → Account p f r l tr
  | prepared {n : Int} {entered : Option α} {before after : List (Outcome α)} :
      l.factor = some n → (∀ o ∈ before, o.onTesting = false) →
      (f = some n ∧ entered = none ∨ f = none ∧ ∃ a, entered = some a ∧
        training (some n) a <:+: before) →
      Ending p.target n entered after r l.testing → Account p f r l (before++after)

theorem afterTesting_eq_nil (h : ∀ o ∈ tr, o.onTesting = false) : afterTesting tr = [] := by
  rw [afterTesting, List.dropWhile_eq_nil_iff.2 fun o ho => by rw [h o ho]; rfl, List.tail_nil]

theorem afterTesting_append {before rest : List (Outcome α)} {o : Outcome α}
    (h : ∀ o ∈ before, o.onTesting = false) (ho : o.onTesting = true) :
    afterTesting (before++o::rest) = rest := by
  rw [afterTesting, List.dropWhile_append_of_pos fun o ho => by rw [h o ho]; rfl]
  simp [ho]

theorem honest_of_false (h : r = .ok false) : Honest p r l tr :=
  ⟨fun hr => absurd (h.symm.trans hr) nofun,fun _ => h⟩

theorem not_honest (hr : r ≠ .ok false) (h : ∀ n a, ¬ Deployed p n a tr) : ¬ Honest p r l tr :=
  fun hhonest => hr (hhonest.failing fun ⟨n,a,_,hn⟩ => h n a hn)

theorem honest_iff {n : Int} {entered : Option α} {before after : List (Outcome α)}
    (hn : l.factor = some n) (hbefore : ∀ o ∈ before, o.onTesting = false)
    (h : Ending p.target n entered after r l.testing) :
    Honest p r l (before++after) ↔ ∀ o ∈ afterTesting (before++after), o.succeeded = true := by
  generalize hreport : l.testing = report at h
  cases h with
  | notConverted =>
    rw [afterTesting_append hbefore rfl]
    exact iff_of_true (honest_of_false rfl) nofun
  | @tested t a ok trial code htried hcode =>
    rw [afterTesting_append hbefore rfl]
    cases htried with
    | ran =>
      cases hcode with
      | notConverted =>
        refine iff_of_false (not_honest nofun ?_) (by simp [Outcome.succeeded])
        rintro m b ⟨front,h⟩
        simpa using congrArg List.reverse h
      | compiled =>
        cases ok with
        | false =>
          refine iff_of_false (not_honest nofun ?_) (by simp [Outcome.succeeded])
          rintro m b ⟨front,h⟩
          simpa using congrArg List.reverse h
        | true =>
          have hdeployed : Deployed p n a (before++_) := List.suffix_append before _
          refine iff_of_true ⟨fun _ => ⟨n,a,hn,hreport,hdeployed⟩,fun hnot => ?_⟩
            (by simp [Outcome.succeeded])
          exact absurd ⟨n,a,hn,hdeployed⟩ hnot
  | stale htried _ hcode =>
    rw [afterTesting_append hbefore rfl]
    cases htried <;> cases hcode <;>
      refine iff_of_false (not_honest nofun ?_) (by simp [Outcome.succeeded]) <;>
      rintro m b ⟨front,h⟩ <;>
      simpa using congrArg List.reverse h
  | missing htried =>
    rw [afterTesting_append hbefore rfl]
    cases htried <;>
      refine iff_of_false (not_honest nofun ?_) (by simp [Outcome.succeeded]) <;>
      rintro m b ⟨front,h⟩ <;>
      simpa using congrArg List.reverse h

theorem returns_collectProfile (hst : st.Logged log) :
    Returns log (collectProfile st) l fun _ l' new => l' = l ∧ ∀ o ∈ new, o.onTesting = false := by
  refine leads_report hst (leads_report hst (leads_report hst ?_))
  refine leads_outside _ (hst.convert _ _ _) fun ok => ?_
  cases ok with
  | false => exact returns_pure ⟨rfl,by simp [Outcome.onTesting]⟩
  | true =>
    refine leads_outside _ (hst.predict _ _) fun a => ?_
    cases a with
    | none => exact returns_pure ⟨rfl,by simp [Outcome.onTesting]⟩
    | some a => exact leads_report hst (returns_pure ⟨rfl,by simp [Outcome.onTesting]⟩)

theorem Account.append {before : List (Outcome α)} (hbefore : ∀ o ∈ before, o.onTesting = false)
    (h : Account p f r l tr) : Account p f r l (before++tr) := by
  cases h with
  | unprepared hr htesting htr =>
    exact .unprepared hr htesting (List.forall_mem_append.2 ⟨hbefore,htr⟩)
  | @prepared n entered before' after hn hbefore' hentered hending =>
    rw [← List.append_assoc]
    refine .prepared hn (List.forall_mem_append.2 ⟨hbefore,hbefore'⟩) ?_ hending
    rcases hentered with h | ⟨hf,a,ha,hinf⟩
    · exact .inl h
    · exact .inr ⟨hf,a,ha,hinf.trans (List.suffix_append before before').isInfix⟩

variable [LT α] [DecidableLT α]

def fromSearch (st : Steps σ α) (p : Plan) : Run σ α Bool := do
  if (← ledger).factor.isNone then
    if !(← findBestFactor st) then return false
  finish st p

theorem leads_fromSearch (hst : st.Logged log) (p : Plan) (f : Option Int) :
    Leads log (fromSearch st p) { factor := f } (Account p f) := by
  refine leads_ledger ?_
  cases f with
  | some n =>
    refine (leads_finish hst p (n := n) rfl rfl).imp ?_
    rintro r l after ⟨hn,hending⟩
    rw [← List.nil_append after]
    exact .prepared hn nofun (.inl ⟨rfl,rfl⟩) hending
  | none =>
    refine (returns_findBestFactor hst rfl).bind ?_
    rintro ok l before ⟨htesting,hbefore,hfound⟩
    cases ok with
    | false => exact leads_pure (.unprepared rfl htesting (by simpa using hbefore))
    | true =>
      obtain ⟨n,a,hn,ha,hinf⟩ := hfound rfl
      refine (leads_finish hst p hn htesting).imp ?_
      rintro r l after ⟨hn,hending⟩
      rw [ha] at hending
      exact .prepared hn hbefore (.inr ⟨rfl,a,rfl,hinf⟩) hending

theorem leads_deployFixed (hst : st.Logged log) (p : Plan) (f : Option Int) :
    Leads log (deployFixed st p) { factor := f } (Account p f) := by
  unfold deployFixed
  split
  · refine (returns_collectProfile hst).bind ?_
    rintro ok _ before ⟨rfl,hbefore⟩
    cases ok with
    | false => exact leads_pure (.unprepared rfl rfl (by simpa using hbefore))
    | true => exact (leads_fromSearch hst p f).imp fun r l tr h => h.append hbefore
  · exact leads_fromSearch hst p f

/-- Let all steps of a deployment end, whatever their outcomes, and start it with a factor or
without one. It ends as its account says. It succeeds only with a run on the testing set, the
accuracy of that run and generated code, and fails without them, exactly when every outcome behind
the conversion of the testing set is a success. -/
theorem deployFixed_honest_iff (hst : st.Logged log) (p : Plan) (f : Option Int) (w : σ) :
    ∃ r l w' tr, (deployFixed st p).run.run ({ factor := f },w) = (r,l,w') ∧ log w' = log w++tr ∧
      Account p f r l tr ∧
      (Honest p r l tr ↔ ∀ o ∈ afterTesting tr, o.succeeded = true) := by
  obtain ⟨r,l,w',tr,hrun,hlog,haccount⟩ := leads_deployFixed hst p f w
  refine ⟨r,l,w',tr,hrun,hlog,haccount,?_⟩
  cases haccount with
  | unprepared hr _ htr =>
    rw [afterTesting_eq_nil htr]
    exact iff_of_true (honest_of_false hr) nofun
  | prepared hn hbefore _ hending => exact honest_iff hn hbefore hending

end Honesty

namespace NeverCompiles

/-- Conversions succeed and no code compiles. -/
def steps : Steps (List (Outcome Nat)) Nat where
  setup := pure ()
  convert version dataset target := do
    modify (· ++ [.converted version dataset target true])
    return true
  compile target factor := do
    modify (· ++ [.compiled target factor false])
    return false
  predict version dataset := do
    modify (· ++ [.predicted version dataset none])
    return none
  copyHeader _ := pure ()
  copyFloatCode _ := pure ()
  say _ := pure ()
  percent := toString
  shown := toString

def plan : Plan := ⟨"bonsai","fixed","arduino","out"⟩

theorem logged : steps.Logged id where
  convert _ _ _ _ := ⟨_,_,rfl,rfl⟩
  compile _ _ _ := ⟨_,_,rfl,rfl⟩
  predict _ _ _ := ⟨_,_,rfl,rfl⟩
  copyHeader _ _ := ⟨_,rfl,rfl⟩
  say _ _ := ⟨_,rfl,rfl⟩

end NeverCompiles

open NeverCompiles in
/-- With a given factor and code that never compiles, a deployment does not fail as it should. -/
theorem deployFixed_honest_iff_neverCompiles : ∃ l tr,
    (deployFixed steps plan).run.run ({ factor := some (-5) },[]) =
      (.error (.unknownNumber (-5)),l,tr) ∧ ¬ Honest plan (.error (.unknownNumber (-5))) l tr := by
  obtain ⟨r,l,w',tr,hrun,hlog,-,hiff⟩ := deployFixed_honest_iff logged plan (some (-5)) []
  have hvalue : (deployFixed steps plan).run.run ({ factor := some (-5) },[]) =
      (.error (.unknownNumber (-5)),{ factor := some (-5) },
        [.converted "fixed" "testing" "x86" true, .compiled "x86" (some (-5)) false]) := rfl
  cases hvalue.symm.trans hrun
  cases hlog
  refine ⟨_,_,hvalue,fun honest => ?_⟩
  have hfailed := hiff.1 honest (.compiled "x86" (some (-5)) false) List.mem_cons_self
  cases hfailed

end MicroLearn.Deploy
