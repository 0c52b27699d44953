import Mathlib.Data.List.Forall2
import MicroLearn.Bench.BagTrainer

/-!
# Which labels the rounds use

Rounds are run in a setting where work keeps a state and may fail, and note what
they do with labels: every feed to the training and every call of the update. The
notes of a run, finished or not, name the first labels only. A finished run is one
in which the labels advance from round to round just when no update but the last
one changed them.
-/

set_option autoImplicit false

namespace MicroLearn.Bag

/-- Work that keeps a state and may fail. -/
abbrev Work (ε σ : Type) := ExceptT ε (StateM σ)

namespace Work

variable {ε σ α β : Type}

def after (act : Work ε σ α) (s : σ) : Except ε α × σ := (act.run).run s

theorem after_bind (act : Work ε σ α) (next : α → Work ε σ β) (s : σ) : after (act >>= next) s =
      match after act s with
      | (.ok a,t) => after (next a) t
      | (.error e,t) => (.error e,t) := by
  unfold after
  rw [ExceptT.run_bind, StateT.run_bind]
  cases h : act.run.run s with
  | mk outcome t => cases outcome <;> rfl

def noting {ν : Type} (act : Work ε σ α) : Work ε (σ × List ν) α :=
  ExceptT.mk fun p => ((after act p.1).1,((after act p.1).2,p.2))

def note {ν : Type} (entry : ν) : Work ε (σ × List ν) Unit :=
  ExceptT.mk fun p => (.ok (),(p.1,p.2++[entry]))

def Mirrors {ν : Type} (act : Work ε (σ × List ν) α) (plain : Work ε σ α) : Prop :=
  ∀ s notes, ((after act (s,notes)).1,(after act (s,notes)).2.1) = after plain s

/-- Whatever comes of the work, the notes grow by entries of one kind; if it ends well, they grow as
stated. -/
def Notes {ν : Type} (act : Work ε (σ × List ν) α) (all : ν → Prop) (post : α → List ν → Prop) :
    Prop :=
  ∀ s notes, ∃ more, (after act (s,notes)).2.2 = notes++more ∧ (∀ e ∈ more, all e) ∧
    ∀ a, (after act (s,notes)).1 = .ok a → post a more

section Rules

variable {ν : Type} {all : ν → Prop}
variable {act : Work ε (σ × List ν) α} {plain : Work ε σ α} {next : α → Work ε (σ × List ν) β}
  {Q : β → List ν → Prop}

theorem mirrors_pure (a : α) : Mirrors (pure a : Work ε (σ × List ν) α) (pure a) := fun _ _ => rfl

theorem mirrors_noting (act : Work ε σ α) : Mirrors (noting act : Work ε (σ × List ν) α) act :=
  fun _ _ => rfl

theorem mirrors_bind {plainNext} (h : Mirrors act plain)
    (hnext : ∀ a, Mirrors (next a) (plainNext a)) :
    Mirrors (act >>= next) (plain >>= plainNext) := by
  intro s notes
  have hact := h s notes
  rw [after_bind, after_bind, ← hact]
  cases houtcome : after act (s,notes) with
  | mk outcome p =>
    cases outcome with
    | ok a => exact hnext a p.1 p.2
    | error e => rfl

theorem mirrors_note (entry : ν) (h : Mirrors act plain) :
    Mirrors (note entry >>= fun _ => act) plain := by
  intro s notes
  exact h s (notes++[entry])

theorem notes_pure (a : α) {Q} (h : Q a []) : Notes (pure a : Work ε (σ × List ν) α) all Q :=
  fun _ _ => ⟨[],(List.append_nil _).symm,by simp,by rintro b ⟨⟩; exact h⟩

theorem notes_bind {P} (h : Notes act all P)
    (hnext : ∀ a before, P a before → Notes (next a) all fun b rest => Q b (before++rest)) :
    Notes (act >>= next) all Q := by
  intro s notes
  obtain ⟨before,hnotes,hall,hpost⟩ := h s notes
  rw [after_bind]
  cases houtcome : after act (s,notes) with
  | mk outcome p =>
    rw [houtcome] at hnotes hpost
    cases outcome with
    | error e => exact ⟨before,hnotes,hall,by simp⟩
    | ok a =>
      obtain ⟨rest,hrest,hall',hpost'⟩ := hnext a before (hpost a rfl) p.1 p.2
      refine ⟨before++rest,?_,?_,hpost'⟩
      · rw [hrest, hnotes, List.append_assoc]
      · intro e he
        exact (List.mem_append.1 he).elim (hall e) (hall' e)

theorem notes_silent (act : Work ε σ α)
    (h : ∀ a, Notes (next a) all Q) : Notes (noting act >>= next) all Q := by
  refine notes_bind (P := fun _ before => before = []) ?_ ?_
  · exact fun _ _ => ⟨[],(List.append_nil _).symm,by simp,fun _ _ => rfl⟩
  · rintro a before rfl
    exact h a

theorem notes_entry (entry : ν) (hentry : all entry) (act : Work ε σ α) :
    Notes (note entry >>= fun _ => noting act) all
      (fun a more => (∃ s, (after act s).1 = .ok a) ∧ more = [entry]) := by
  intro s notes
  refine ⟨[entry],?_,by simpa using hentry,fun a ha => ⟨⟨s,?_⟩,rfl⟩⟩
  · rfl
  · exact ha

end Rules

end Work

inductive Event (Labels Scores : Type) where
  | opened (round : Nat)
  | fed (round iteration : Nat) (labels : Labels)
  | updated (labels : Labels) (scores : Scores)

/-- An event that uses no labels but these. -/
def Event.On {Labels Scores : Type} (y : Labels) : Event Labels Scores → Prop
  | .opened _ => True
  | .fed _ _ labels => labels = y
  | .updated labels _ => labels = y

def roundEvents {Labels Scores : Type} (iterations round : Nat) (y : Labels) (x : Scores) :
    List (Event Labels Scores) :=
  .opened round::((List.range iterations).map fun i => .fed round i y)++[.updated y x]

def constantEvents {Labels Scores : Type} (iterations : Nat) (y : Labels) :
    Nat → List Scores → List (Event Labels Scores)
  | _, [] => []
  | round, x::xs => roundEvents iterations round y x++constantEvents iterations y (round+1) xs

/-- The events of rounds whose labels advance: each round is trained and updated on the labels that
the round before gave, and the last ones are the outcome. -/
def Advances {ε Labels Scores : Type} (policy : Labels → Scores → Except ε Labels)
    (iterations : Nat) : Nat → Labels → List Scores → List (Event Labels Scores) → Labels → Prop
  | _, y, [], events, last => events = [] ∧ last = y
  | round, y, x::xs, events, last =>
    ∃ new rest, policy y x = .ok new ∧ events = roundEvents iterations round y x++rest ∧
      Advances policy iterations (round+1) new xs rest last

namespace Rounds

open Work

variable {ε σ Labels Trained Scores : Type}

def traced (w : Rounds (Work ε σ) Labels Trained Scores) :
    Rounds (Work ε (σ × List (Event Labels Scores))) Labels Trained Scores where
  openRound round := note (.opened round) >>= fun _ => noting (w.openRound round)
  train round i labels := note (.fed round i labels) >>= fun _ => noting (w.train round i labels)
  choose tried := noting (w.choose tried)
  restore best := noting (w.restore best)
  score := noting w.score
  update labels scores := note (.updated labels scores) >>= fun _ => noting (w.update labels scores)

variable (w : Rounds (Work ε σ) Labels Trained Scores) (y : Labels)

theorem mirrors_train (round : Nat) (is : List Nat) :
    Mirrors (is.mapM fun i => w.traced.train round i y) (is.mapM fun i => w.train round i y) := by
  induction is with
  | nil => exact mirrors_pure []
  | cons i is ih =>
    rw [List.mapM_cons, List.mapM_cons]
    exact mirrors_bind (mirrors_note _ (mirrors_noting _)) fun _ =>
      mirrors_bind ih fun _ => mirrors_pure _

theorem mirrors_once (iterations round : Nat) :
    Mirrors (w.traced.once y iterations round) (w.once y iterations round) :=
  mirrors_bind (mirrors_note _ (mirrors_noting _)) fun _ =>
  mirrors_bind (mirrors_train w y round _) fun _ =>
  mirrors_bind (mirrors_noting _) fun _ =>
  mirrors_bind (mirrors_noting _) fun _ =>
  mirrors_bind (mirrors_noting _) fun _ =>
  mirrors_bind (mirrors_note _ (mirrors_noting _)) fun _ => mirrors_pure _

theorem mirrors_fromRound (iterations round n : Nat) (last : Option Labels)
    (chosen : List Trained) : Mirrors (w.traced.fromRound y iterations round n last chosen)
      (w.fromRound y iterations round n last chosen) := by
  induction n generalizing round last chosen with
  | zero => exact mirrors_pure _
  | succ n ih => exact mirrors_bind (mirrors_once w y iterations round) fun _ => ih _ _ _

theorem notes_train (round : Nat) (is : List Nat) :
    Notes (is.mapM fun i => w.traced.train round i y) (Event.On y)
      (fun _ more => more = is.map fun i => .fed round i y) := by
  induction is with
  | nil => exact notes_pure [] rfl
  | cons i is ih =>
    rw [List.mapM_cons]
    refine notes_bind (notes_entry (Event.fed round i y) (show Event.On y _ from rfl)
      (w.train round i y)) ?_
    rintro t before ⟨-,rfl⟩
    refine notes_bind ih ?_
    rintro ts rest rfl
    exact notes_pure _ (by simp)

variable {w} {policy : Labels → Scores → Except ε Labels}

theorem notes_once (hpolicy : ∀ y x s, (after (w.update y x) s).1 = policy y x) (y : Labels)
    (iterations round : Nat) : Notes (w.traced.once y iterations round) (Event.On y)
      (fun out more => ∃ x, policy y x = .ok out.1 ∧ more = roundEvents iterations round y x) := by
  refine notes_bind (notes_entry (Event.opened round) trivial (w.openRound round)) ?_
  rintro-opening ⟨-,rfl⟩
  refine notes_bind (notes_train w y round _) ?_
  rintro tried feeds rfl
  refine notes_silent _ fun best => notes_silent _ fun _ => notes_silent _ fun x => ?_
  refine notes_bind (notes_entry (Event.updated y x) (show Event.On y _ from rfl) (w.update y x)) ?_
  rintro new update ⟨⟨s,hnew⟩,rfl⟩
  rw [hpolicy] at hnew
  exact notes_pure _ ⟨x,hnew,by simp [roundEvents]⟩

theorem notes_fromRound (hpolicy : ∀ y x s, (after (w.update y x) s).1 = policy y x) (y : Labels)
    (iterations round n : Nat) (last : Option Labels) (chosen : List Trained) :
    Notes (w.traced.fromRound y iterations round n last chosen) (Event.On y)
      (fun out more => ∃ xs news, xs.length = n ∧
        List.Forall₂ (fun x new => policy y x = .ok new) xs news ∧
        more = constantEvents iterations y round xs ∧ out.1 = news.getLast?.or last) := by
  induction n generalizing round last chosen with
  | zero => exact notes_pure _ ⟨[],[],rfl,.nil,rfl,rfl⟩
  | succ n ih =>
    refine notes_bind (notes_once hpolicy y iterations round) ?_
    rintro ⟨new,best⟩ before ⟨x,hnew,rfl⟩ s notes
    obtain ⟨more,hnotes,hall,hpost⟩ := ih (round+1) (some new) (chosen++[best]) s notes
    refine ⟨more,hnotes,hall,fun out hout => ?_⟩
    obtain ⟨xs,news,hlen,hnews,rfl,hlast⟩ := hpost out hout
    refine ⟨x::xs,new::news,by rw [List.length_cons, hlen],.cons hnew hnews,rfl,?_⟩
    rw [hlast, List.getLast?_cons]
    cases news.getLast? <;> rfl

end Rounds

variable {ε Labels Scores : Type} {policy : Labels → Scores → Except ε Labels} {iterations : Nat}

theorem roundEvents_inj {round} {y y'} {x x'} {rest rest' : List (Event Labels Scores)}
    (h : roundEvents iterations round y x++rest = roundEvents iterations round y' x'++rest') :
    y = y' ∧ x = x' ∧ rest = rest' := by
  obtain ⟨hround,hrest⟩ := List.append_inj h (by simp [roundEvents])
  have hlast := congrArg List.getLast? hround
  simp only [roundEvents, List.cons_append, List.getLast?_cons] at hlast
  simp at hlast
  exact ⟨hlast.1,hlast.2,hrest⟩

theorem Advances.labels_eq {round y y' x xs rest last}
    (h : Advances policy iterations round y xs (roundEvents iterations round y' x++rest) last) :
    y = y' ∧ ∃ new xs', policy y x = .ok new ∧ xs = x::xs' ∧
      Advances policy iterations (round+1) new xs' rest last := by
  cases xs with
  | nil => simp [Advances, roundEvents] at h
  | cons x' xs' =>
    obtain ⟨new,rest',hnew,hevents,hrest⟩ := h
    obtain ⟨rfl,rfl,rfl⟩ := roundEvents_inj hevents
    exact ⟨rfl,new,xs',hnew,rfl,hrest⟩

/-- Rounds that all use the first labels are rounds whose labels advance just when no update but the
last one changes them. -/
theorem constantEvents_advances (iterations : Nat) (y : Labels) (round : Nat) (xs : List Scores)
    (news : List Labels)
    (hnews : List.Forall₂ (fun x new => policy y x = .ok new) xs news) (last : Labels)
    (hlast : news.getLast? = some last) : (∃ xs', xs'.length = xs.length ∧
      Advances policy iterations round y xs' (constantEvents iterations y round xs) last) ↔
      ∀ new ∈ news.dropLast, new = y := by
  induction hnews generalizing round with
  | nil => simp at hlast
  | @cons x new xs news hnew hrest ih =>
    cases hrest with
    | nil =>
      obtain rfl : new = last := by simpa using hlast
      exact ⟨fun _ => by simp,fun _ => ⟨[x],rfl,new,[],hnew,rfl,rfl,rfl⟩⟩
    | @cons x2 new2 xs news hnew2 hrest =>
      rw [List.dropLast_cons_cons, List.forall_mem_cons, ← ih (round+1) hlast]
      constructor
      · rintro ⟨xs',hlen,hadvances⟩
        obtain ⟨-,new',rest,hnew',rfl,hnext⟩ := hadvances.labels_eq
        obtain rfl : new' = new := by simpa [hnew'] using hnew
        obtain rfl : new' = y := hnext.labels_eq.1
        exact ⟨rfl,rest,by simpa using hlen,hnext⟩
      · rintro ⟨rfl,rest,hlen,hadvances⟩
        exact ⟨x::rest,by simpa using hlen,new,_,hnew,rfl,hadvances⟩

def scoresOf : List (Event Labels Scores) → List Scores
  | [] => []
  | .updated _ x::rest => x::scoresOf rest
  | _::rest => scoresOf rest

theorem scoresOf_feeds (round : Nat) (y : Labels) (is : List Nat)
    (rest : List (Event Labels Scores)) :
    scoresOf ((is.map fun i => .fed round i y)++rest) = scoresOf rest := by
  induction is with
  | nil => rfl
  | cons i is ih => exact ih

theorem scoresOf_constantEvents (iterations round : Nat) (y : Labels) (xs : List Scores) :
    scoresOf (constantEvents iterations y round xs) = xs := by
  induction xs generalizing round with
  | nil => rfl
  | cons x xs ih =>
    simp only [constantEvents, roundEvents, List.cons_append, List.append_assoc, scoresOf,
      scoresOf_feeds, List.nil_append, ih]

theorem map_news {β : Type} (view : Labels → β) {y xs news}
    (h : List.Forall₂ (fun x new => policy y x = .ok new) xs news) :
    xs.map (fun x => (policy y x).toOption.map view) = news.map (fun new => some (view new)) := by
  induction h with
  | nil => rfl
  | cons hnew _ ih => rw [List.map_cons, ih, hnew]; rfl

end MicroLearn.Bag

namespace MicroLearn.Bench

open Bag Bag.Work Bag.Rounds

theorem runRounds_of_rounds (d : Nat) (plan : RoundPlan) (s t u : Store) (start : RoundStart)
    (hstart : after (startRounds d plan) s = (.ok start,t)) (last : Grid) (chosen : List Saved)
    (hrun : after ((driverRounds d plan start.policy start.switchAt).all start.labels
      start.iterations
      start.rounds) t = (.ok (some last,chosen),u)) :
    ∃ stats, after (runRounds d plan) s = (.ok (.tuple [.grid last, stats]),u) := by
  unfold runRounds
  rw [after_bind, hstart]
  dsimp only
  rw [after_bind, hrun]
  exact ⟨_,rfl⟩

/-- A run of the driver's rounds on `start.labels`. Taking notes leaves the run as it is; in every
run, also one that fails, nothing but the first labels is fed or updated; and a run that ends well
after some rounds returns what the policy makes of the first labels and the scores of the last
round. It is a run in which the labels advance, each round working on the labels of the update
before it, just when no update but the last one changed the labels. -/
theorem driver_keeps_first_labels (d : Nat) (plan : RoundPlan) (classes : Int) (bags : Grid)
    (s t : Store) (start : RoundStart) (hclasses : plan.classes = .int classes)
    (hbags : plan.bagTrain = .grid bags) (hstart : after (startRounds d plan) s = (.ok start,t)) :
    let rounds := driverRounds d plan start.policy start.switchAt
    let policy := fun y x => newLabels start.policy classes.toNat y x bags
    let run := after (rounds.traced.all start.labels start.iterations start.rounds) (t,[])
    after (rounds.all start.labels start.iterations start.rounds) t = (run.1,run.2.1) ∧
    (∀ e ∈ run.2.2, e.On start.labels) ∧
    ∀ outcome chosen, run.1 = .ok (outcome,chosen) → 1 ≤ start.rounds →
      ∃ last scores news, outcome = some last ∧ scores.length = start.rounds ∧
        List.Forall₂ (fun x new => policy start.labels x = .ok new) scores news ∧
        run.2.2 = constantEvents start.iterations start.labels 0 scores ∧
        news.getLast? = some last ∧
        (∃ stats, after (runRounds d plan) s = (.ok (.tuple [.grid last, stats]),run.2.1)) ∧
        ((∃ xs, xs.length = start.rounds ∧
            Advances policy start.iterations 0 start.labels xs run.2.2 last) ↔
          ∀ new ∈ news.dropLast, new = start.labels) := by
  intro rounds policy run
  have hmirror : (run.1,run.2.1) = after (rounds.all start.labels start.iterations start.rounds)
      t :=
    mirrors_fromRound rounds start.labels start.iterations 0 start.rounds none [] t []
  have hpolicy : ∀ y x s, (after (rounds.update y x) s).1 = policy y x := by
    intro y x s
    simp only [rounds, driverRounds, hclasses, hbags]
    rfl
  obtain ⟨more,hnotes,hall,hpost⟩ :=
    notes_fromRound hpolicy start.labels start.iterations 0 start.rounds none [] t []
  rw [List.nil_append] at hnotes
  refine ⟨hmirror.symm,hnotes ▸ hall,fun outcome chosen hrun hpos => ?_⟩
  obtain ⟨scores,news,hlen,hnews,hevents,hlast⟩ := hpost _ hrun
  have hne : news ≠ [] := by
    rintro rfl
    have := hnews.length_eq
    simp only [List.length_nil] at this
    omega
  obtain ⟨last,hgetLast⟩ : ∃ last, news.getLast? = some last :=
    ⟨_,List.getLast?_eq_getLast_of_ne_nil hne⟩
  have hsome : outcome = some last := by simpa [hgetLast] using hlast
  refine ⟨last,scores,news,hsome,hlen,hnews,hnotes.trans hevents,hgetLast,?_,?_⟩
  · refine runRounds_of_rounds d plan s t _ start hstart last chosen ?_
    rw [← hmirror, hrun, hsome]
  · have hiff := constantEvents_advances start.iterations start.labels 0 scores news
      hnews last hgetLast
    rwa [hlen, ← hevents, ← hnotes] at hiff

namespace TwoRounds

def grid (shape : List Nat) (xs : List Float) : Grid := ⟨.real,⟨shape,xs.toArray⟩⟩

def tensorNames : List String :=
  (["inpX:0", "inpY:0", "batch-size:0", "num-epochs:0"].map (pipelineScope ++ ·)) ++
  (["loss-indicator:0", "loss-indicator-placeholder:0", "loss-indicator-assign-op:0",
    "softmaxed-prediction:0", "acc-tilda:0", "equal-tilda:0"].map (trainerScope ++ ·)) ++
  (["bag-output:0"].map (networkScope .gated ++ ·)) ++
  (["gates/kernel:0", "gates/bias:0", "candidate/kernel:0", "candidate/bias:0"].map
    (variableScope .gated ++ ·))

/-- A bag of two instances of class 1. The model of the first round finds class 1 in the first
instance only, that of the second round in none. -/
def plan : RoundPlan where
  classes := .int 2
  xTrain := .grid (grid [1, 2, 1, 1] [0.5, 0.25])
  yTrain := .grid (grid [1, 2, 2] [0.0, 1.0, 0.0, 1.0])
  bagTrain := .grid ⟨.int,⟨[1],#[1.0]⟩⟩
  xVal := .grid (grid [1, 2, 1, 1] [0.5, 0.25])
  yVal := .grid (grid [1, 2, 2] [0.0, 1.0, 0.0, 1.0])
  bagVal := .grid ⟨.int,⟨[1],#[1.0]⟩⟩
  iterations := .int 1
  rounds := .int 2
  batchSize := .int 1
  epochs := .int 1
  outlet := .screen
  home := .text "m/model"
  policy := .text "top-k"
  share := .real 0.0
  indicator := .none
  named := []

def bench : Bench Nat := do
  let tensors ← tensorNames.mapM fun name => do return (name,← hold (.scalar 0.0) name)
  let graph ← newGraph tensors [.text (pipelineScope++"dataset-init")]
    [("next-x-batch",.list [.text "x"]), ("next-y-batch",.list [.text "y"]),
      ("EMI-train-op",.list [.text "train"]), ("EMI-loss-op",.list [.text "loss"])]
  let pipe ← newPipeline ⟨[.int 2, .int 1, .int 1, .int 2],[]⟩
  reattachPipeline pipe (.part graph)
  let network ← newNetwork .gated true ⟨[.int 2, .int 4, .int 1, .int 1],[]⟩
  reattachNetwork network .gated true (.part graph)
  let trainer ← newBagTrainer ⟨[.int 1, .int 2],[]⟩
  reattachTrainer trainer (.part graph)
  let answers := fun (xs : List Float) => Value.grid (grid [1, 2, 1, 2] xs)
  let training := [.none, .list [.none, .real 0.5, .real 0.5], .text "end",
    .none, answers [0.25, 0.75, 0.25, 0.75], .text "end"]
  let first ← newSession training []
  let second ← newSession ([.none, .list [answers [0.25, 0.75, 0.75, 0.25]], .text "end"]++training)
    []
  let third ← newSession [.none, .list [answers [0.75, 0.25, 0.75, 0.25]], .text "end"] []
  modify fun s => { s with
    queue := [second, third], folders := ["m"]
    files := [("m/model-1000.meta",.text ""), ("m/model-1001.meta",.text "")] }
  let driver ← newBagDriver ⟨[.part pipe, .part network, .part trainer],[]⟩
  setField driver "current" (.part first)
  return driver

def store : Store := (after bench {}).2

def driver : Nat := (after bench {}).1.toOption.getD 0

def start : RoundStart :=
  (after (startRounds driver plan) store).1.toOption.getD ⟨.topRuns 0,0,grid [] [],0,0⟩

def startStore : Store := (after (startRounds driver plan) store).2

def run : Except Fault (Option Grid × List Saved) × Store × List (Event Grid Grid) :=
  after ((driverRounds driver plan start.policy start.switchAt).traced.all start.labels
    start.iterations start.rounds) (startStore,[])

def bitsOf (g : Grid) : List UInt64 := g.entries.map Float.toBits

def bags : Grid := ⟨.int,⟨[1],#[1.0]⟩⟩

def policy (y x : Grid) : Except Fault Grid := newLabels start.policy 2 y x bags

theorem evaluated :
    (after (startRounds driver plan) store).1.isOk = true ∧ start.rounds = 2 ∧ run.1.isOk = true ∧
      (scoresOf run.2.2).map (fun x => (policy start.labels x).toOption.map bitsOf) =
        [some (bitsOf (grid [1, 2, 2] [0.0, 1.0, 1.0, 0.0])), some (bitsOf start.labels)] ∧
      bitsOf (grid [1, 2, 2] [0.0, 1.0, 1.0, 0.0]) ≠ bitsOf start.labels := by
  decide +kernel

theorem eq_ok_of_isOk {α σ : Type} (p : Except Fault α × σ) (a : α) (h : p.1.isOk = true) :
    p = (.ok (p.1.toOption.getD a),p.2) := by
  obtain ⟨outcome,s⟩ := p
  cases outcome with
  | ok b => rfl
  | error e => cases h

theorem started : after (startRounds driver plan) store = (.ok start,startStore) :=
  eq_ok_of_isOk _ _ evaluated.1

theorem ended : ∃ outcome, run.1 = .ok outcome :=
  ⟨_,congrArg Prod.fst (eq_ok_of_isOk run (none,[]) evaluated.2.2.1)⟩

end TwoRounds

open TwoRounds in
/-- Two rounds whose first update drops a label: the second round works on the first labels again,
and the run returns them. -/
theorem driver_keeps_first_labels_two_rounds :
    after (startRounds driver TwoRounds.plan) store = (.ok start,startStore) ∧
      (∀ e ∈ run.2.2, e.On start.labels) ∧
      ∃ last chosen, run.1 = .ok (some last,chosen) ∧ bitsOf last = bitsOf start.labels ∧
        ¬ ∃ xs, xs.length = 2 ∧
        Advances policy start.iterations 0 start.labels xs run.2.2 last := by
  obtain ⟨-,hrounds,-,hpolicy,hchange⟩ := evaluated
  obtain ⟨outcome,hends⟩ := ended
  have hstart := started
  have hrun : run = after
    ((driverRounds driver TwoRounds.plan start.policy start.switchAt).traced.all
    start.labels start.iterations start.rounds) (startStore,[]) := rfl
  have hp : policy = fun y x => newLabels start.policy (Int.toNat 2) y x bags := rfl
  -- the values are known now; from here on they are names, so that nothing is run again
  generalize run = r, start = st, policy = p, store = s, startStore = t at *
  obtain ⟨-,hall,hends'⟩ :=
    driver_keeps_first_labels driver TwoRounds.plan 2 bags s t st rfl rfl hstart
  rw [← hrun] at hall hends'
  rw [← hp] at hends'
  obtain ⟨last,scores,news,hlast,-,hnews,hevents,hgetLast,-,hiff⟩ :=
    hends' outcome.1 outcome.2 hends (by omega)
  rw [hevents, scoresOf_constantEvents, map_news bitsOf hnews] at hpolicy
  obtain ⟨first,second,rfl⟩ : ∃ first second, news = [first, second] :=
    List.length_eq_two.1 (by simpa using congrArg List.length hpolicy)
  obtain rfl : second = last := by simpa using hgetLast
  obtain ⟨hfirst,hsecond⟩ : bitsOf first = bitsOf (grid [1, 2, 2] [0.0, 1.0, 1.0, 0.0]) ∧
      bitsOf second = bitsOf st.labels := by simpa using hpolicy
  refine ⟨hstart,hall,second,outcome.2,by rw [hends, ← hlast],hsecond,fun hadvances => ?_⟩
  rw [← hrounds] at hadvances
  have hsame : first = st.labels := hiff.1 hadvances first (by simp)
  exact hchange (hfirst ▸ congrArg bitsOf hsame)

end MicroLearn.Bench
