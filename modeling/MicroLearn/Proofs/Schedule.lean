import MicroLearn.Bench.CellTrainer
import MicroLearn.Proofs.Thirds

/-!
# The calls of a training run

A run makes a fixed list of calls, whatever its batches bring: the calls follow
from the phases alone. Weights are restricted to those kept by the last cut, so
every restriction has to come after a cut. This file says exactly when it does.
In the last phase a restriction follows every batch, cut or not, so a run needs a
multiple of the distance between cuts inside the middle phase.
-/

set_option autoImplicit false

namespace MicroLearn.Train

variable (epoch perEpoch n : Nat) (done : Bool)

inductive Call where
  | openEpoch (epoch : Nat)
  | batch (epoch index counter : Nat)
  | threshold (isFirst : Bool)
  | retrain (opens : Bool)
  | closeEpoch (epoch : Nat) (done : Bool)
  deriving Repr, DecidableEq

namespace Phases

def followCalls (p : Phases) (done : Bool) (counter : Nat) : List Call :=
  match p.action done counter with
  | .keep => []
  | .threshold => [.threshold (!done)]
  | .retrain => [.retrain (counter == p.second)]

def doneAfter (p : Phases) (done : Bool) (counter : Nat) : Bool :=
  done || decide (p.action done counter = .threshold)

def batchCalls (p : Phases) (epoch perEpoch : Nat) (done : Bool) : Nat → List Call × Bool
  | 0 => ([],done)
  | n+1 =>
    let index := perEpoch-(n+1)
    let counter := epoch*perEpoch+index
    let later := p.batchCalls epoch perEpoch (p.doneAfter done counter) n
    (.batch epoch index counter::(p.followCalls done counter++later.1),later.2)

def epochCalls (p : Phases) (perEpoch : Nat) (done : Bool) (epoch : Nat) : Nat → List Call × Bool
  | 0 => ([],done)
  | n+1 =>
    let calls := p.batchCalls epoch perEpoch done perEpoch
    let later := p.epochCalls perEpoch calls.2 (epoch+1) n
    (.openEpoch epoch::(calls.1 ++ .closeEpoch epoch calls.2::later.1),later.2)

def calls (p : Phases) (perEpoch count : Nat) : List Call :=
  (p.epochCalls perEpoch p.dense 0 count).1

end Phases

namespace Work

variable {m : Type → Type} [Monad m]

def perform (w : Work m) : Call → m Unit
  | .openEpoch epoch => w.openEpoch epoch
  | .batch epoch index counter => w.batch epoch index counter
  | .threshold isFirst => w.threshold isFirst
  | .retrain opens => w.retrain opens
  | .closeEpoch epoch done => w.closeEpoch epoch done

variable [LawfulMonad m] (w : Work m) (p : Phases)

theorem follow_performs (counter : Nat) : w.follow p done counter =
      (p.followCalls done counter).forM w.perform >>= fun _ => pure (p.doneAfter done counter) := by
  unfold follow Phases.followCalls Phases.doneAfter
  cases p.action done counter <;> simp [perform]

theorem batches_performs : w.batches p epoch perEpoch done n =
      (p.batchCalls epoch perEpoch done n).1.forM w.perform >>= fun _ =>
        pure (p.batchCalls epoch perEpoch done n).2 := by
  induction n generalizing done with
  | zero => simp [batches, Phases.batchCalls]
  | succ n ih =>
    simp only [batches, Phases.batchCalls, follow_performs, ih]
    simp [perform]

theorem epochs_performs (perEpoch epoch n : Nat) (done : Bool) : w.epochs p perEpoch done epoch n =
      (p.epochCalls perEpoch done epoch n).1.forM w.perform >>= fun _ =>
        pure (p.epochCalls perEpoch done epoch n).2 := by
  induction n generalizing done epoch with
  | zero => simp [epochs, Phases.epochCalls]
  | succ n ih =>
    simp only [epochs, Phases.epochCalls, batches_performs, ih]
    simp [perform]

theorem train_performs (perEpoch count : Nat) : w.train p perEpoch count =
      (p.calls perEpoch count).forM w.perform >>= fun _ =>
        pure (p.epochCalls perEpoch p.dense 0 count).2 :=
  epochs_performs w p perEpoch 0 count p.dense

end Work

variable (calls : List Call)

def CutsFirst : Prop :=
  ∀ before opens after, calls = before ++ .retrain opens::after → ∃ isFirst,
    .threshold isFirst ∈ before

def Call.isCut : Call → Bool
  | .threshold _ => true
  | _ => false

/-- Every restriction comes after a cut, where `cut` tells of an earlier one. -/
def Licensed : Bool → List Call → Prop
  | _, [] => True
  | _, .threshold _::calls => Licensed true calls
  | cut, .retrain _::calls => cut = true ∧ Licensed cut calls
  | cut, _::calls => Licensed cut calls

theorem licensed_true : Licensed true calls := by
  induction calls with
  | nil => trivial
  | cons c calls ih => cases c <;> simp [Licensed, ih]

theorem licensed_append (cut : Bool) (a b : List Call) :
    Licensed cut (a++b) ↔ Licensed cut a ∧ Licensed (cut || a.any Call.isCut) b := by
  induction a generalizing cut with
  | nil => simp [Licensed]
  | cons c a ih => cases c <;> simp [Licensed, ih, Call.isCut, and_assoc]

theorem any_isCut : calls.any Call.isCut = true ↔ ∃ isFirst, .threshold isFirst ∈ calls := by
  rw [List.any_eq_true]
  constructor
  · rintro ⟨c,hc,hcut⟩
    cases c with
    | threshold isFirst => exact ⟨isFirst,hc⟩
    | _ => cases hcut
  · rintro ⟨isFirst,hc⟩
    exact ⟨_,hc,rfl⟩

theorem licensed_iff_cutsFirst : Licensed false calls ↔ CutsFirst calls := by
  constructor
  · intro h before opens after heq
    subst heq
    have hcut := ((licensed_append false before _).mp h).2.1
    exact (any_isCut before).mp (by simpa using hcut)
  · intro h
    -- from the front, each further call is licensed by the calls before it
    induction calls using List.reverseRecOn with
    | nil => trivial
    | append_singleton before c ih =>
      have hbefore : Licensed false before := by
        apply ih
        intro first opens after heq
        exact h first opens (after++[c]) (by simp [heq])
      apply (licensed_append false before [c]).mpr
      apply And.intro hbefore
      cases c with
      | retrain opens =>
        have hcut := (any_isCut before).mpr (h before opens [] rfl)
        simp [Licensed, hcut]
      | _ => simp [Licensed]

namespace Phases

variable (p : Phases)

def CutsAt (counter : Nat) : Prop := p.first ≤ counter ∧ counter < p.second ∧ p.trim ∣ counter

/-- Of `n` batches from number `start` on, none comes in the last phase without a cut from `start`
on. -/
def Guarded (start n : Nat) : Prop :=
  n = 0 ∨ start+n ≤ p.second ∨ ∃ counter ≥ start, p.CutsAt counter

variable {p}

theorem action_eq_threshold (hd : p.dense = false) (done : Bool) (counter : Nat) :
    p.action done counter = .threshold ↔ p.CutsAt counter := by
  unfold action CutsAt thresholding
  rw [Nat.dvd_iff_mod_eq_zero]
  simp only [hd, Bool.false_eq_true, if_false]
  split
  · simp_all
  · split <;> simp_all

theorem action_eq_retrain (hd : p.dense = false) (counter : Nat) :
    p.action false counter = .retrain ↔ p.second ≤ counter := by
  unfold action thresholding
  by_cases h : p.second ≤ counter
  · simp [hd, h]
  · simp only [hd, h, Bool.false_eq_true, if_false]
    split <;> simp

theorem doneAfter_false (hd : p.dense = false) (counter : Nat) :
    p.doneAfter false counter = true ↔ p.CutsAt counter := by
  simp [doneAfter, action_eq_threshold hd]

theorem cut_followCalls (counter : Nat) :
    (done || (p.followCalls done counter).any Call.isCut) = p.doneAfter done counter := by
  unfold followCalls doneAfter
  cases p.action done counter <;> simp [Call.isCut]

theorem licensed_followCalls (hd : p.dense = false) (counter : Nat) :
    Licensed false (p.followCalls false counter) ↔ p.Guarded counter 1 := by
  have hr := action_eq_retrain hd counter
  have hguard : p.Guarded counter 1 ↔ counter < p.second := by
    constructor
    · rintro (h | h | ⟨c,hc,hcut⟩)
      · omega
      · omega
      · exact lt_of_le_of_lt hc hcut.2.1
    · exact fun h => .inr (.inl h)
  unfold followCalls
  cases h : p.action false counter <;> simp_all [Licensed]

theorem guarded_add {start a b} (hnone : ∀ c ≥ start, c < start+a → ¬ p.CutsAt c) :
    p.Guarded start a ∧ p.Guarded (start+a) b ↔ p.Guarded start (a+b) := by
  constructor
  · rintro ⟨ha | ha | ha, hb | hb | ⟨c,hc,hcut⟩⟩
    · exact .inl (by omega)
    · exact .inr (.inl (by omega))
    · exact .inr (.inr ⟨c,by omega,hcut⟩)
    · exact .inr (.inl (by omega))
    · exact .inr (.inl (by omega))
    · exact .inr (.inr ⟨c,by omega,hcut⟩)
    all_goals exact .inr (.inr ha)
  · rintro (h | h | ⟨c,hc,hcut⟩)
    · exact ⟨.inl (by omega),.inl (by omega)⟩
    · exact ⟨.inr (.inl (by omega)),.inr (.inl (by omega))⟩
    · have hlater : start+a ≤ c := Nat.le_of_not_lt fun hlt => hnone c hc hlt hcut
      exact ⟨.inr (.inr ⟨c,hc,hcut⟩),.inr (.inr ⟨c,hlater,hcut⟩)⟩

theorem guarded_of_cutsAt {start n} (h : p.CutsAt start) : p.Guarded start n :=
  .inr (.inr ⟨start,le_rfl,h⟩)

theorem batchCalls_done : (p.batchCalls epoch perEpoch true n).2 = true := by
  induction n with
  | zero => rfl
  | succ n ih => exact ih

theorem cut_batchCalls :
    (done || (p.batchCalls epoch perEpoch done n).1.any Call.isCut) =
      (p.batchCalls epoch perEpoch done n).2 := by
  induction n generalizing done with
  | zero => simp [batchCalls]
  | succ n ih =>
    simp only [batchCalls, List.any_cons, List.any_append, Call.isCut, Bool.false_or, ← ih,
      ← cut_followCalls, Bool.or_assoc]

private theorem counter_succ {epoch perEpoch n} (hn : n+1 ≤ perEpoch) :
    epoch*perEpoch+(perEpoch-(n+1))+1 = epoch*perEpoch+(perEpoch-n) := by
  omega

variable (hd : p.dense = false)

include hd

theorem batchCalls_cut (epoch perEpoch n : Nat) (hn : n ≤ perEpoch) :
    (p.batchCalls epoch perEpoch false n).2 = true ↔
      ∃ c ≥ epoch*perEpoch+(perEpoch-n), c < (epoch+1)*perEpoch ∧ p.CutsAt c := by
  induction n with
  | zero =>
    simp only [batchCalls, Bool.false_eq_true, false_iff]
    rintro ⟨c,hc,hlt,_⟩
    rw [Nat.succ_mul] at hlt
    omega
  | succ n ih =>
    simp only [batchCalls]
    have hnext := ih (by omega)
    by_cases hcut : p.CutsAt (epoch*perEpoch+(perEpoch-(n+1)))
    · rw [(doneAfter_false hd _).mpr hcut, batchCalls_done]
      refine ⟨fun _ => ⟨_,le_rfl,?_,hcut⟩,fun _ => rfl⟩
      rw [Nat.succ_mul]
      omega
    · have hdone := Bool.eq_false_iff.mpr (mt (doneAfter_false hd _).mp hcut)
      rw [hdone, hnext]
      constructor
      · rintro ⟨c,hc,h⟩
        exact ⟨c,by omega,h⟩
      · rintro ⟨c,hc,h⟩
        have hne : c ≠ epoch*perEpoch+(perEpoch-(n+1)) := fun he => hcut (he ▸ h.2)
        exact ⟨c,by omega,h⟩

theorem licensed_batchCalls (epoch perEpoch n : Nat) (hn : n ≤ perEpoch) :
    Licensed false (p.batchCalls epoch perEpoch false n).1 ↔
      p.Guarded (epoch*perEpoch+(perEpoch-n)) n := by
  induction n with
  | zero => simp [batchCalls, Licensed, Guarded]
  | succ n ih =>
    simp only [batchCalls, Licensed, licensed_append, licensed_followCalls hd]
    rw [cut_followCalls]
    by_cases hcut : p.CutsAt (epoch*perEpoch+(perEpoch-(n+1)))
    · rw [(doneAfter_false hd _).mpr hcut]
      exact ⟨fun _ => guarded_of_cutsAt hcut,fun _ => ⟨guarded_of_cutsAt hcut,licensed_true _⟩⟩
    · have hdone := Bool.eq_false_iff.mpr (mt (doneAfter_false hd _).mp hcut)
      rw [hdone, ih (by omega), ← counter_succ hn, Nat.add_comm n 1]
      apply guarded_add
      intro c hc hlt hcuts
      have hsame : c = epoch*perEpoch+(perEpoch-(n+1)) := by omega
      exact hcut (hsame ▸ hcuts)

theorem licensed_epochCalls (perEpoch epoch n : Nat) :
    Licensed false (p.epochCalls perEpoch false epoch n).1 ↔
    p.Guarded (epoch*perEpoch) (n*perEpoch) := by
  induction n generalizing epoch with
  | zero => simp [epochCalls, Licensed, Guarded]
  | succ n ih =>
    have hfirst := licensed_batchCalls hd epoch perEpoch perEpoch le_rfl
    have hcut := batchCalls_cut hd epoch perEpoch perEpoch le_rfl
    rw [Nat.sub_self, Nat.add_zero] at hfirst hcut
    simp only [epochCalls, Licensed, licensed_append, hfirst, cut_batchCalls]
    cases hdone : (p.batchCalls epoch perEpoch false perEpoch).2 with
    | true =>
      obtain ⟨c,hc,_,hcuts⟩ := hcut.mp hdone
      exact ⟨fun _ => .inr (.inr ⟨c,hc,hcuts⟩),fun _ => ⟨.inr (.inr ⟨c,hc,hcuts⟩),licensed_true _⟩⟩
    | false =>
      have hnone : ¬ ∃ c ≥ epoch*perEpoch, c < (epoch+1)*perEpoch ∧ p.CutsAt c := by
        rw [← hcut, hdone]
        exact Bool.false_ne_true
      rw [ih, Nat.succ_mul, Nat.succ_mul, Nat.add_comm (n*perEpoch)]
      apply guarded_add
      intro c hc hlt hcuts
      exact hnone ⟨c,hc,by rwa [Nat.succ_mul],hcuts⟩

/-- A run restricts nothing before a cut exactly when it ends before the last phase, or has a
cut. -/
theorem cutsFirst_calls (perEpoch count : Nat) :
    CutsFirst (p.calls perEpoch count) ↔ perEpoch*count ≤ p.second ∨ ∃ counter,
    p.CutsAt counter := by
  unfold calls
  rw [hd, ← licensed_iff_cutsFirst, licensed_epochCalls hd, Nat.mul_comm perEpoch]
  simp only [Guarded, Nat.zero_mul, Nat.zero_add, Nat.zero_le, true_and]
  constructor
  · rintro (h | h | h)
    · exact .inl (by omega)
    · exact .inl h
    · exact .inr h
  · exact .inr

omit hd

/-- A middle phase at least as long as the first one has a cut exactly when it begins with the run,
or reaches beyond the distance between cuts. -/
theorem exists_cutsAt (htrim : 0 < p.trim) (hlong : p.second = 0 ∨ 2*p.first ≤ p.second) :
    (∃ counter, p.CutsAt counter) ↔ p.first = 0 ∧ 0 < p.second ∨ p.trim < p.second := by
  constructor
  · rintro ⟨c,hfirst,hsecond,hdvd⟩
    by_cases hc : c = 0
    · exact .inl ⟨by omega,by omega⟩
    · exact .inr (lt_of_le_of_lt (Nat.le_of_dvd (Nat.pos_of_ne_zero hc) hdvd) hsecond)
  · rintro (⟨hzero,hpos⟩ | hlt)
    · exact ⟨0,by omega,hpos,dvd_zero _⟩
    · by_cases hle : p.first ≤ p.trim
      · exact ⟨p.trim,hle,hlt,dvd_rfl⟩
      · refine ⟨p.trim*((p.first+p.trim-1)/p.trim),?_,?_,Dvd.intro _ rfl⟩
        · have := Nat.lt_mul_div_succ (p.first-1) htrim
          rw [show p.first+p.trim-1 = (p.first-1)+p.trim by omega, Nat.add_div_right _ htrim]
          omega
        · have := Nat.mul_div_le (p.first+p.trim-1) p.trim
          omega

end Phases

theorem ofTotal_exists_cutsAt (total : Nat) :
    (∃ counter, (Phases.ofTotal false total 15).CutsAt counter) ↔ total = 2 ∨ 24 ≤ total := by
  rw [Phases.exists_cutsAt (Nat.zero_lt_succ 14) (.inr (by simp only [Phases.ofTotal]; omega))]
  simp only [Phases.ofTotal]
  omega

end MicroLearn.Train

namespace MicroLearn.Bench

open Train (Call CutsFirst)
open Train

namespace FastJob

theorem perEpoch_pos (t : FastJob) (hsize : 1 ≤ t.size) (hle : t.size ≤ t.examples) :
    1 ≤ t.perEpoch := by
  unfold perEpoch Train.batchCount
  rw [Nat.one_le_div_iff hsize]
  omega

theorem cutsFirst_iff (t : FastJob) (hd : t.dense = false) (hpos : 1 ≤ t.perEpoch*t.epochs) :
    CutsFirst (t.phases.calls t.perEpoch t.epochs) ↔
      t.perEpoch*t.epochs = 2 ∨ 24 ≤ t.perEpoch*t.epochs := by
  have hp : t.phases = .ofTotal false (t.perEpoch*t.epochs) 15 := by rw [phases, hd]
  rw [hp, Phases.cutsFirst_calls rfl, Train.ofTotal_exists_cutsAt]
  -- a run with a batch goes on into the last phase
  have hlast : ¬ t.perEpoch*t.epochs ≤ (Phases.ofTotal false (t.perEpoch*t.epochs) 15).second := by
    simp only [Phases.ofTotal]
    omega
  simp only [hlast, false_or]

end FastJob

namespace TreeJob

theorem cutsFirst_iff (t : TreeJob) (hd : t.dense = false) :
    CutsFirst (t.phases.calls t.batches.perEpoch t.batches.epochs) ↔
      t.batches.perEpoch*t.batches.epochs ≤ t.phases.second ∨
        t.phases.first = 0 ∧ 0 < t.phases.second ∨ t.phases.trim < t.phases.second := by
  have htrim : 0 < t.phases.trim := by
    show 0 < if 2 < t.classes then 15 else 5
    split <;> decide
  rw [Phases.cutsFirst_calls hd, Phases.exists_cutsAt htrim]
  exact Number.twice_third_le t.batches.total

end TreeJob

/-- A run of either trainer makes the calls its phases give, whatever happens in its batches. In
these calls every restriction comes after a cut exactly when the run of a cell has two batches or at
least twenty-four, and when the run of a tree ends before the last phase, has its middle phase at
the start, or goes on with it beyond the distance between cuts. -/
theorem restrictions_follow_cuts_iff (p : Nat)
    (size epochs xTrain xTest yTrain yTest decayStep decayRate data folder : Value) (c : FastJob)
    (t : TreeJob) :
    trainFast p size epochs xTrain xTest yTrain yTest decayStep decayRate data folder = (do
        let job ← startFast p size epochs xTrain xTest yTrain data folder
        let (_,r) ← ((job.phases.calls job.perEpoch job.epochs).forM
          (fastWork p job yTest decayStep decayRate).perform).run {}
        finishFast p job r) ∧ (c.dense = false → 1 ≤ c.size → c.size ≤ c.examples → 1 ≤ c.epochs →
      (CutsFirst (c.phases.calls c.perEpoch c.epochs) ↔
        c.perEpoch*c.epochs = 2 ∨ 24 ≤ c.perEpoch*c.epochs)) ∧
    trainTree p size epochs xTrain xTest yTrain yTest data folder = (do
        let job ← startTree p size epochs xTrain yTrain data folder
        let (_,r) ← ((job.phases.calls job.batches.perEpoch job.batches.epochs).forM
          (treeWork p job xTest yTest).perform).run { best := .int (-10000) }
        finishTree p job r) ∧
    (t.dense = false →
      (CutsFirst (t.phases.calls t.batches.perEpoch t.batches.epochs) ↔
        t.batches.perEpoch*t.batches.epochs ≤ t.phases.second ∨
          t.phases.first = 0 ∧ 0 < t.phases.second ∨ t.phases.trim < t.phases.second)) := by
  refine ⟨?_,?_,?_,t.cutsFirst_iff⟩
  · simp only [trainFast, Train.Work.train_performs, StateT.run_bind, bind_assoc]
    rfl
  · intro hd hsize hle hepochs
    exact c.cutsFirst_iff hd (Nat.mul_pos (c.perEpoch_pos hsize hle) hepochs)
  · simp only [trainTree, Train.Work.train_performs, StateT.run_bind, bind_assoc]
    rfl

def smallFastJob (examples : Nat) : FastJob :=
  ⟨"results","folder",.screen,false,examples,1,1,⟨[0, 0, 0],#[]⟩,.real ⟨[0, 0],#[]⟩,
    .real ⟨[0, 0, 0],#[]⟩⟩

def smallTreeJob (samples : Nat) : TreeJob :=
  ⟨0,"results","folder",.screen,false,3,⟨samples,1,1⟩,.real ⟨[0, 0],#[]⟩,.real ⟨[0, 0],#[]⟩⟩

/-- A run of a single batch restricts the weights and never cuts them; one of twenty-four batches
cuts them first. -/
theorem restrictions_follow_cuts_iff_one_batch : ¬ CutsFirst ((smallFastJob 1).phases.calls 1 1) ∧
      CutsFirst ((smallFastJob 24).phases.calls 24 1) ∧
      ¬ CutsFirst ((smallTreeJob 1).phases.calls 1 1) ∧
      CutsFirst ((smallTreeJob 24).phases.calls 24 1) := by
  have law (c : FastJob) (t : TreeJob) := restrictions_follow_cuts_iff 0 (.int 1) (.int 1) (.int 0)
    (.int 0) (.int 0) (.int 0) (.int 0) (.int 0) (.int 0) (.int 0) c t
  obtain ⟨-,hfastOne,-,htreeOne⟩ := law (smallFastJob 1) (smallTreeJob 1)
  obtain ⟨-,hfastMany,-,htreeMany⟩ := law (smallFastJob 24) (smallTreeJob 24)
  have hone : (smallTreeJob 1).phases = ⟨false,0,0,15⟩ ∧
      (smallTreeJob 1).batches.perEpoch = 1 := by
    decide +kernel
  have hmany : (smallTreeJob 24).phases = ⟨false,8,16,15⟩ ∧
      (smallTreeJob 24).batches.perEpoch = 24 := by
    decide +kernel
  have hone' := htreeOne rfl
  have hmany' := htreeMany rfl
  rw [hone.1, hone.2] at hone'
  rw [hmany.1, hmany.2] at hmany'
  rw [hone.1, hmany.1]
  refine ⟨?_,?_,?_,?_⟩
  · exact fun h => absurd ((hfastOne rfl (by decide) (by decide) (by decide)).mp h) (by decide)
  · exact (hfastMany rfl (by decide) (by decide) (by decide)).mpr (by decide)
  · exact fun h => absurd (hone'.mp h) (by decide)
  · exact hmany'.mpr (by decide)

end MicroLearn.Bench
