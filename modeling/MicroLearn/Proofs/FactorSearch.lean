import MicroLearn.Deploy.Pipeline
import MicroLearn.Proofs.TestingAccuracy

/-!
# The search for a factor

Let it depend on the factor alone whether its code compiles, whether the predictor runs it and with
which accuracy. The search then enters the first unbroken row of factors that run, keeps the best of
them, the greatest one where several are best, and compiles nothing behind the failure that ends the
row. It fails when the predictor does, or when no factor runs.
-/

set_option autoImplicit false

namespace MicroLearn.Deploy

/-- What becomes of a factor: its code does not compile, the predictor fails on it, or it runs. -/
inductive Fate (α : Type) where
  | uncompiled
  | unrun
  | accurate (a : α)

namespace Fate

variable {α : Type}

@[simp] def compiles : Fate α → Bool
  | uncompiled => false
  | unrun | accurate _ => true

@[simp] def succeeds : Fate α → Bool
  | accurate _ => true
  | uncompiled | unrun => false

def isUnrun : Fate α → Bool
  | unrun => true
  | uncompiled | accurate _ => false

@[simp] def accuracy? : Fate α → Option α
  | accurate a => some a
  | uncompiled | unrun => none

def trial : Fate α → Trial
  | uncompiled => .notCompiled
  | unrun => .notRun
  | accurate _ => .ran

theorem isUnrun_iff {fate : Fate α} : fate.isUnrun = true ↔ fate = unrun := by
  cases fate <;> simp [isUnrun]

end Fate

section Rows

variable {α : Type} (fate : Int → Fate α)

/-- The candidates from the first that compiles on; all of them if one has run before. -/
def usable (found : Bool) (is : List Int) : List Int :=
  is.dropWhile fun i => !found && !(fate i).compiles

/-- The candidates that are tried: those that do not compile, then the row of those that run, and
one more. -/
def tried (found : Bool) (is : List Int) : List Int :=
  is.takeWhile (fun i => !found && !(fate i).compiles) ++
    ((usable fate found is).takeWhile (fun i => (fate i).succeeds) ++
      ((usable fate found is).dropWhile fun i => (fate i).succeeds).take 1)

def reported (found : Bool) (tried : List Int) : Option Bool :=
  if tried.any fun i => (fate i).isUnrun then none
  else some (found || tried.any fun i => (fate i).succeeds)

def row : List Int → List (Int × α)
  | [] => []
  | i::is =>
    match fate i with
    | .accurate a => (i,a)::row is
    | _ => []

variable {fate} (is : List Int)

theorem usable_true : usable fate true is = is := by cases is <;> simp [usable]

theorem tried_true : tried fate true is =
    is.takeWhile (fun i => (fate i).succeeds) ++
      (is.dropWhile fun i => (fate i).succeeds).take 1 := by
  rw [tried, usable_true]
  cases is <;> simp

theorem row_fates : ∀ p ∈ row fate is, fate p.1 = .accurate p.2 := by
  induction is with
  | nil => simp [row]
  | cons i is ih =>
    cases hi : fate i with
    | accurate a => simpa [row, hi] using ih
    | _ => simp [row, hi]

theorem row_candidates : (row fate is).map (·.1) = is.takeWhile fun i => (fate i).succeeds := by
  induction is with
  | nil => rfl
  | cons i is ih => cases hi : fate i <;> simp [row, hi, ih]

theorem usable_of_ran (h : ∃ i ∈ tried fate false is, (fate i).succeeds) :
    (usable fate false is = is.dropWhile fun i => !(fate i).succeeds) ∧
      row fate (usable fate false is) ≠ [] := by
  induction is with
  | nil => simp [tried, usable] at h
  | cons i is ih =>
    cases hi : fate i with
    | uncompiled => simpa [usable, hi] using ih (by simpa [tried, usable, hi] using h)
    | unrun => simp [tried, usable, hi] at h
    | accurate a => simp [usable, row, hi]

end Rows

section Sorting

variable {α γ : Type} [LinearOrder γ]

def entered (p : Int × α) : Option Int × α := (some p.1,p.2)

/-- In a row of falling factors, the one that comes first in the order by accuracy is the greatest
of the best. -/
theorem byAccuracy_entered [LT α] [DecidableLT α] (value : α → γ) (won : List (Int × α))
    (hne : won ≠ []) (hfalling : won.Pairwise fun p q => q.1 < p.1)
    (hvalue : ∀ p ∈ won, ∀ q ∈ won, (p.2 < q.2 ↔ value p.2 < value q.2)) :
    ∃ best ∈ won, ∃ rest, byAccuracy (won.map entered) = entered best::rest ∧
      ∀ p ∈ won, value p.2 ≤ value best.2 ∧ (value p.2 = value best.2 → p.1 ≤ best.1) := by
  let numbers : Int × α → Int × γ := fun p => (p.1,value p.2)
  let notBelow : Int × γ → Int × γ → Bool := fun a b => !decide (a.2 < b.2)
  have htrans : ∀ a b c, notBelow a b → notBelow b c → notBelow a c := by
    intro a b c hab hbc
    simp only [notBelow, Bool.not_eq_true', decide_eq_false_iff_not, not_lt] at *
    exact hbc.trans hab
  have htotal : ∀ a b, notBelow a b || notBelow b a := by
    intro a b
    simp only [notBelow, Bool.or_eq_true, Bool.not_eq_true', decide_eq_false_iff_not, not_lt]
    exact le_total b.2 a.2
  obtain ⟨sorted,hsorted⟩ : ∃ sorted, sorted = won.mergeSort fun p q => !decide (p.2 < q.2) :=
    ⟨_,rfl⟩
  have hperm : sorted.Perm won := hsorted ▸ List.mergeSort_perm won _
  have htable : byAccuracy (won.map entered) = sorted.map entered := by
    rw [hsorted]
    symm
    apply List.map_mergeSort
    intro p _ q _
    rfl
  have hnumbers : (won.map numbers).mergeSort notBelow = sorted.map numbers := by
    rw [hsorted, List.map_mergeSort]
    intro p hp q hq
    simp only [notBelow, numbers, hvalue p hp q hq]
  cases sorted with
  | nil => exact absurd hperm.symm.eq_nil hne
  | cons best rest =>
    have hdown := List.pairwise_mergeSort htrans htotal (won.map numbers)
    rw [hnumbers, List.map_cons, List.pairwise_cons] at hdown
    have hkeys : (best::rest).Pairwise fun p q => p.1 ≠ q.1 :=
      (hfalling.imp fun h => h.ne').perm hperm.symm fun h => h.symm
    refine ⟨best,hperm.mem_iff.1 List.mem_cons_self,_,htable,fun p hp => ⟨?_,fun heq => ?_⟩⟩
    · rcases List.mem_cons.1 (hperm.mem_iff.2 hp) with rfl | hrest
      · exact le_rfl
      · simpa [notBelow] using hdown.1 _ (List.mem_map_of_mem hrest)
    · by_contra hgreater
      obtain ⟨front,back,rfl⟩ := List.append_of_mem hp
      obtain ⟨-,hback,hcross⟩ := List.pairwise_append.1 hfalling
      have hbest : best ∈ back := by
        rcases List.mem_append.1 (hperm.mem_iff.1 List.mem_cons_self) with h | h
        · exact absurd (hcross best h p List.mem_cons_self).le hgreater
        · rcases List.mem_cons.1 h with rfl | h
          · exact absurd le_rfl hgreater
          · exact h
      have hpair : [numbers p, numbers best].Sublist ((front++p::back).map numbers) := by
        refine (List.Sublist.map numbers ?_ : List.Sublist ([p, best].map numbers) _)
        exact (List.cons_sublist_cons.2 (List.singleton_sublist.2 hbest)).trans
          (List.sublist_append_right front _)
      have hkept := List.pair_sublist_mergeSort htrans htotal (by simp [notBelow, numbers, heq])
        hpair
      rw [hnumbers] at hkept
      have hrest : numbers best ∈ rest.map numbers := by
        rcases List.sublist_cons_iff.1 hkept with h | ⟨more,hmore,h⟩
        · exact h.subset (by simp)
        · obtain ⟨-,rfl⟩ := List.cons.inj hmore
          exact List.singleton_sublist.1 h
      obtain ⟨q,hq,hsame⟩ := List.mem_map.1 hrest
      exact (List.pairwise_cons.1 hkeys).1 q hq (congrArg Prod.fst hsame).symm

end Sorting

section Search

variable {σ α : Type} {st : Steps σ α} {compiled : σ → List Int} {fate : Int → Fate α}
    {l : Ledger α}

/-- Whether the code for a factor compiles, and what the predictor then says, depends on the factor
alone. The world keeps the factors whose code it was asked for. -/
structure Steps.Fated (st : Steps σ α) (compiled : σ → List Int) (fate : Int → Fate α) : Prop where
  say : ∀ text w, ∃ w', (st.say text).run.run w = (.ok (),w') ∧ compiled w' = compiled w
  compile : ∀ i w, ∃ w', (st.compile "x86" (some i)).run.run w = (.ok (fate i).compiles,w') ∧
    compiled w' = compiled w++[i] ∧ ((fate i).compiles = true →
      ∃ w'', (st.predict "fixed" "training").run.run w' = (.ok (fate i).accuracy?,w'') ∧
        compiled w'' = compiled w')

theorem run_outside {β} {x : Act σ β} {r} {w w'}
    (hx : x.run.run w = (r,w')) : (outside x : Run σ α β).run.run (l,w) = (r,l,w') := by
  change ((x.run.run w).1,l,(x.run.run w).2) = _
  rw [hx]

section Trials

variable {version dataset target : String} {factor : Option Int} {w w₁ w₂ : σ}

variable (h : (st.compile target factor).run.run w = (.ok true,w₁))

include h

theorem tryOnce_compiled :
    (tryOnce st version dataset target factor).run.run (l,w) =
      (outside (st.predict version dataset) >>= fun
        | none => return .notRun
        | some a => do
          update fun l => { l with accuracy := Lower.put factor a l.accuracy }
          report st ("Accuracy is "++st.percent a++"%\n")
          return Trial.ran : Run σ α Trial).run.run (l,w₁) := by
  rw [tryOnce, run_bind_ok (run_outside h)]
  rfl

theorem tryOnce_fault {e} (hpredict : (st.predict version dataset).run.run w₁ = (.error e,w₂)) :
    (tryOnce st version dataset target factor).run.run (l,w) = (.error e,l,w₂) := by
  rw [tryOnce_compiled h, run_bind_error (run_outside hpredict)]

theorem tryOnce_notRun (hpredict : (st.predict version dataset).run.run w₁ = (.ok none,w₂)) :
    (tryOnce st version dataset target factor).run.run (l,w) = (.ok .notRun,l,w₂) := by
  rw [tryOnce_compiled h, run_bind_ok (run_outside hpredict)]
  rfl

theorem tryOnce_ran {a} {w3}
    (hpredict : (st.predict version dataset).run.run w₁ = (.ok (some a),w₂))
    (hsay : (st.say ("Accuracy is "++st.percent a++"%\n"++"\n")).run.run w₂ = (.ok (),w3)) :
    (tryOnce st version dataset target factor).run.run (l,w) =
      (.ok .ran,l.enter factor (some a),w3) := by
  rw [tryOnce_compiled h, run_bind_ok (run_outside hpredict)]
  exact run_bind_ok (run_outside hsay)

end Trials

theorem returns_trial (h : st.Fated compiled fate) (i : Int) :
    Returns compiled (tryOnce st "fixed" "training" "x86" (some i)) l fun t l' tried =>
      t = (fate i).trial ∧ l' = l.enter (some i) (fate i).accuracy? ∧ tried = [i] := by
  intro w
  obtain ⟨w₁,hcompile,hcompiled,hpredict⟩ := h.compile i w
  cases hfate : fate i with
  | uncompiled =>
    refine ⟨.ok .notCompiled,l,w₁,[i],?_,hcompiled,_,rfl,rfl,rfl,rfl⟩
    rw [tryOnce, run_bind_ok (run_outside hcompile), hfate]
    rfl
  | unrun =>
    rw [hfate] at hcompile hpredict
    obtain ⟨w₂,hrun,hsame⟩ := hpredict rfl
    exact ⟨.ok .notRun,l,w₂,[i],tryOnce_notRun hcompile hrun,by rw [hsame, hcompiled],
      _,rfl,rfl,rfl,rfl⟩
  | accurate a =>
    rw [hfate] at hcompile hpredict
    obtain ⟨w₂,hrun,hsame⟩ := hpredict rfl
    obtain ⟨w3,hsay,hsame'⟩ := h.say ("Accuracy is "++st.percent a++"%\n"++"\n") w₂
    exact ⟨.ok .ran,_,w3,[i],tryOnce_ran hcompile hrun hsay,by rw [hsame', hsame, hcompiled],
      _,rfl,rfl,rfl,rfl⟩

theorem put_of_notMem {κ β} [BEq κ] [LawfulBEq κ] {k} {t : List (κ × β)}
    (h : k ∉ t.map (·.1)) (v : β) : Lower.put k v t = t++[(k,v)] := by
  induction t with
  | nil => rfl
  | cons e t ih =>
    rw [List.map_cons, List.mem_cons, not_or] at h
    rw [Lower.put, if_neg (by simpa using fun he => h.1 he.symm), ih h.2, List.cons_append]

theorem returns_tried (h : st.Fated compiled fate) (is : List Int) (found : Bool)
    (hnodup : is.Nodup) (hnew : ∀ i ∈ is, some i ∉ l.accuracy.map (·.1)) :
    Returns compiled (tryFactors st is found) l fun res l' new =>
      new = tried fate found is ∧ res = reported fate found new ∧
        l' = { l with accuracy := l.accuracy++(row fate (usable fate found is)).map entered } := by
  induction is generalizing l found with
  | nil => exact returns_pure (by simp [tried, usable, reported, row])
  | cons i is ih =>
    obtain ⟨hi,hnodup⟩ := List.nodup_cons.1 hnodup
    obtain ⟨hfirst,hnew⟩ := List.forall_mem_cons.1 hnew
    refine leads_say h.say ((returns_trial h i).bind ?_)
    rintro _ _ _ ⟨rfl,rfl,rfl⟩
    cases hfate : fate i with
    | unrun => exact returns_pure (by simp [tried, usable, reported, row, hfate, Ledger.enter,
        Fate.isUnrun])
    | uncompiled =>
      cases found with
      | true => exact returns_pure (by simp [tried, usable, reported, row, hfate, Ledger.enter,
          Fate.isUnrun])
      | false =>
        refine (ih false hnodup hnew).imp ?_
        simp [tried, usable, reported, hfate, Fate.isUnrun]
    | accurate a =>
      have hput : (l.enter (some i) (some a)).accuracy = l.accuracy++[entered (i,a)] :=
        put_of_notMem hfirst a
      refine (ih (l := l.enter (some i) (some a)) true hnodup fun j hj => ?_).imp ?_
      · rw [hput, List.map_append, List.mem_append, not_or]
        refine ⟨hnew j hj,?_⟩
        rw [List.map_singleton, List.mem_singleton]
        rintro ⟨⟩
        exact hi hj
      · rw [hput, tried_true, usable_true]
        simp [tried, usable, reported, row, hfate, Fate.isUnrun]

theorem factors_falling : factors.Pairwise fun i j => j < i := by decide

theorem row_falling : (row fate (usable fate false factors)).Pairwise fun p q => q.1 < p.1 := by
  have hsub : ((row fate (usable fate false factors)).map (·.1)).Sublist factors := by
    rw [row_candidates]
    exact (List.takeWhile_sublist _).trans (List.dropWhile_sublist _)
  exact List.pairwise_map.1 (factors_falling.sublist hsub)

variable [LT α] [DecidableLT α]

theorem returns_first (h : st.Fated compiled fate) {k} {a}
    {rest} (hsorted : byAccuracy l.accuracy = (k,a)::rest) :
    Returns compiled (bestFactor st) l fun k' l' new => k' = k ∧ l' = l ∧ new = [] := by
  refine leads_ledger (leads_say h.say ?_)
  rw [hsorted]
  exact returns_pure ⟨rfl,rfl,rfl⟩

/-- The table holds the longest row of factors that run and starts at the first that does, and the
factor is the greatest of those that are best in that row. -/
structure Keeps {γ : Type} [LinearOrder γ] (value : α → γ) (fate : Int → Fate α) (l : Ledger α)
    (won : List (Int × α)) : Prop where
  table : l.accuracy = won.map entered
  fates : ∀ p ∈ won, fate p.1 = .accurate p.2
  row : won.map (·.1) = (factors.dropWhile fun i => !(fate i).succeeds).takeWhile fun i =>
    (fate i).succeeds
  best : ∃ best ∈ won, l.factor = some best.1 ∧
    ∀ p ∈ won, value p.2 ≤ value best.2 ∧ (value p.2 = value best.2 → p.1 ≤ best.1)

/-- Let the fate of a factor depend on the factor alone and accuracies be compared by value. Started
without accuracies, the search ends. Of the factors `0, -1, -2, …` it compiles, in this order, the
first ones that do not compile, the row of those that run behind them, and one more. It fails if
and only if the predictor fails on one of these or none of them runs. Otherwise it keeps the best
of the row. -/
theorem searchFactors_finds_best {γ : Type} [LinearOrder γ] (value : α → γ)
    (hvalue : ∀ i j a b, fate i = .accurate a → fate j = .accurate b → (a < b ↔ value a < value b))
    (h : st.Fated compiled fate) (f : Option Int) (w : σ) :
    ∃ ok l w', (searchFactors st).run.run ({ factor := f },w) = (.ok ok,l,w') ∧
      compiled w' = compiled w++tried fate false factors ∧
      (ok = false ↔ (∃ i ∈ tried fate false factors, fate i = .unrun) ∨
        ∀ i ∈ tried fate false factors, ¬ (fate i).succeeds) ∧
      (ok = true → ∃ won, Keeps value fate l won) := by
  have hsearch : Returns compiled (searchFactors st) { factor := f } fun ok l new =>
      new = tried fate false factors ∧
      (ok = false ↔ (∃ i ∈ tried fate false factors, fate i = .unrun) ∨
        ∀ i ∈ tried fate false factors, ¬ (fate i).succeeds) ∧
      (ok = true → ∃ won, Keeps value fate l won) := by
    refine (returns_tried h factors false (by decide) (by simp)).bind ?_
    rintro _ _ _ ⟨rfl,rfl,rfl⟩
    by_cases hunrun : ∃ i ∈ tried fate false factors, fate i = .unrun
    · rw [reported, if_pos (by simpa [Fate.isUnrun_iff] using hunrun)]
      exact returns_pure ⟨by simp,by simp [hunrun],by simp⟩
    rw [reported, if_neg (by simpa [Fate.isUnrun_iff] using hunrun)]
    by_cases hran : ∃ i ∈ tried fate false factors, (fate i).succeeds
    · obtain ⟨husable,hne⟩ := usable_of_ran _ hran
      obtain ⟨best,hbest,rest,hsorted,hmost⟩ := byAccuracy_entered value _ hne row_falling
        fun p hp q hq => hvalue _ _ _ _ (row_fates _ p hp) (row_fates _ q hq)
      rw [Bool.false_or, List.any_eq_true.2 hran]
      refine leads_say h.say (leads_say h.say (leads_say h.say ?_))
      refine (returns_first h (k := some best.1) (a := best.2) hsorted).bind ?_
      rintro _ _ _ ⟨rfl,rfl,rfl⟩
      refine leads_update (returns_pure ⟨by simp,?_,fun _ =>
        ⟨_,rfl,row_fates _,?_,best,hbest,rfl,hmost⟩⟩)
      · simpa [hunrun] using hran
      · rw [row_candidates, husable]
    · rw [Bool.false_or, Bool.eq_false_iff.2 (mt List.any_eq_true.1 hran)]
      exact returns_pure ⟨by simp,by simpa [hunrun] using hran,by simp⟩
  obtain ⟨_,l,w',_,hrun,hcompiled,ok,rfl,rfl,hresult⟩ := hsearch w
  exact ⟨ok,l,w',hrun,hcompiled,hresult⟩

end Search

namespace Script

def fate (s : Script) (i : Int) : Fate Number.Cell :=
  match s.prospects.lookup i with
  | some ⟨true,some a⟩ => .accurate a
  | some ⟨true,none⟩ => .unrun
  | _ => .uncompiled

def compiledFactors (r : Rehearsal) : List Int :=
  r.calls.filterMap fun
    | .compile "x86" factor => factor
    | _ => none

theorem compiles_fate (s : Script) (i : Int) :
    ((s.prospects.lookup i).map (·.compiles)).getD false = (s.fate i).compiles := by
  rw [fate]
  rcases s.prospects.lookup i with _ | ⟨_ | _, _ | _⟩ <;> rfl

theorem accuracy_fate (s : Script) (i : Int) (h : (s.fate i).compiles = true) :
    (s.prospects.lookup i).bind (·.accuracy) = (s.fate i).accuracy? := by
  rw [fate] at h ⊢
  rcases hlookup : s.prospects.lookup i with _ | ⟨_ | _, _ | a⟩
  · rfl
  · rfl
  · rw [hlookup] at h
    cases h
  · rfl
  · rfl

theorem fated (s : Script) : s.steps.Fated compiledFactors s.fate where
  say text r := ⟨_,rfl,rfl⟩
  compile i r := by
    let after : Rehearsal :=
      { r with calls := r.calls++[.compile "x86" (some i)], lastCompiled := some i }
    have hrun : (s.steps.compile "x86" (some i)).run.run r =
        (.ok (((s.prospects.lookup i).map (·.compiles)).getD false),after) := rfl
    rw [compiles_fate] at hrun
    refine ⟨after,hrun,by simp [compiledFactors, after],fun hcompiles => ?_⟩
    let last : Rehearsal := { after with calls := after.calls++[.predict "fixed" "training"] }
    have hpredict : (s.steps.predict "fixed" "training").run.run after =
        (.ok ((s.prospects.lookup i).bind (·.accuracy)),last) := rfl
    rw [accuracy_fate s i hcompiles] at hpredict
    exact ⟨last,hpredict,by simp [compiledFactors, last]⟩

/-- Two factors do not compile, three run, two of them equally well, one does not compile, and a
better one behind it is never tried. -/
def threeRun : Script where
  prospects := [(-2,⟨true,some (.int 80)⟩), (-3,⟨true,some (.int 90)⟩), (-4,⟨true,some (.int 90)⟩),
    (-6,⟨true,some (.int 95)⟩)]
  floatAccuracy := none

theorem threeRun_whole {i} {a} (h : threeRun.fate i = .accurate a) : ∃ n, a = .int n := by
  simp only [fate, threeRun] at h
  grind

theorem threeRun_ne_unrun (i : Int) : threeRun.fate i ≠ .unrun := by
  simp only [fate, threeRun]
  grind

end Script

open Script in
/-- The better of the three that run, and the greater of the equally good ones, is kept. -/
theorem searchFactors_finds_best_threeRun : ∃ l r,
    (searchFactors threeRun.steps).run.run ({ factor := none },{ conversions := [] }) =
      (.ok true,l,r) ∧ compiledFactors r = [0, -1, -2, -3, -4, -5] ∧ l.factor = some (-3) := by
  obtain ⟨ok,l,r,hrun,hcompiled,hfails,hkeeps⟩ :=
    searchFactors_finds_best
      (fun a : Number.Cell => a.casesOn (motive := fun _ => Int) id fun _ => 0)
      (by
        intro i j a b ha hb
        obtain ⟨m,rfl⟩ := threeRun_whole ha
        obtain ⟨n,rfl⟩ := threeRun_whole hb
        exact decide_eq_true_iff) (fated threeRun) none { conversions := [] }
  have htried : tried threeRun.fate false factors = [0, -1, -2, -3, -4, -5] := by decide
  rw [htried] at hcompiled hfails
  cases ok with
  | false =>
    rcases hfails.1 rfl with ⟨i,-,hi⟩ | hnone
    · exact absurd hi (threeRun_ne_unrun i)
    · exact absurd rfl (hnone (-2) (by decide))
  | true =>
    obtain ⟨won,-,hfates,hrow,best,hbest,hfactor,hmost⟩ := hkeeps rfl
    have hrow : won.map (·.1) = [-2, -3, -4] := hrow.trans (by decide)
    obtain ⟨⟨_,a⟩,hp,rfl⟩ := List.mem_map.1 (show (-3 : Int) ∈ won.map (·.1) by simp [hrow])
    cases hfates _ hp
    have hkey : best.1 ∈ won.map (·.1) := List.mem_map_of_mem hbest
    obtain ⟨k,b⟩ := best
    refine ⟨l,r,hrun,hcompiled,hfactor.trans ?_⟩
    simp only [hrow, List.mem_cons, List.not_mem_nil, or_false] at hkey
    rcases hkey with rfl | rfl | rfl
    · cases hfates _ hbest
      exact absurd (hmost _ hp).1 (by decide)
    · rfl
    · cases hfates _ hbest
      exact absurd ((hmost _ hp).2 rfl) (by decide)

end MicroLearn.Deploy
