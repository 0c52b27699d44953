import MicroLearn.Proofs.Marking

/-!
# What the scan knows of a run

The scan of a program and a watch over the run of its code go side by side. They agree if the
variables that hold the bindings are shared in the run as the scan says, and if the scan calls
those bindings stale that the watch calls spoiled. The values that wait to be used as operands
form a stack.
-/

set_option autoImplicit false

open List (not_mem_nil)

namespace MicroLearn.Lower

open Code
open Lang (Ty Expr)

/-- A binding is known by the binding whose variable it lies in, itself or an earlier one. -/
structure Binding where
  root : String
  /-- the bindings in whose variables it lies or its indices are read -/
  deps : List String
  /-- whether one of these variables was overwritten since -/
  stale : Bool

/-- What is known of the value of an expression: in the variable of which binding it lies, if in
any, whose variables are read to get at it, and the uses that are not yet made. -/
structure Held where
  root : Option String := none
  deps : List String := []
  pending : Pending String := {}

structure Scan where
  table : String → Option Binding
  intact : Bool

namespace Scan

def start : Scan := ⟨fun _ => none,true⟩

def isStale (s : Scan) (v : String) : Bool :=
  match s.table v with
  | some b => b.stale
  | none => false

def use (s : Scan) (names : List String) : Scan :=
  { s with intact := s.intact && names.all fun v => !s.isStale v }

def overwrite (s : Scan) (roots : List String) : Scan :=
  { s with
    table := fun v => (s.table v).map fun b =>
      { b with stale := b.stale || roots.any b.deps.contains } }

def bind (s : Scan) (v : String) (h : Held) : Scan :=
  let b : Binding := match h.root with
    | some o => ⟨o,h.deps,false⟩
    | none => ⟨v,v::h.deps,false⟩
  { s with table := Function.update s.table v (some b) }

def forget (s : Scan) (names : List String) : Scan :=
  { s with table := fun v => if v ∈ names then none else s.table v }

end Scan

namespace Reading

def result : Reading → List Held → Held
  | .passed, h::_ => h
  | .carried, hs =>
    { deps := hs.flatMap Held.deps, pending := keeps .carried (hs.map Held.pending) }
  | .indexed, h::hs =>
    ⟨h.root,h.deps++hs.flatMap Held.deps,keeps .indexed ((h::hs).map Held.pending)⟩
  | .updated, h::hs => ⟨h.root,h.deps,keeps .updated ((h::hs).map Held.pending)⟩
  | _, _ => {}

def overwritten {α : Type} : Reading → List α → List α
  | .updated, xs => xs.take 1
  | .called f, xs =>
    if f ∈ inPlace then xs.take 1
    else if f ∈ withScratch then xs.drop (xs.length-1)
    else []
  | _, _ => []

end Reading

def Scan.operate (s : Scan) (how : Reading) (hs : List Held) : Held × Scan :=
  let ps := hs.map Held.pending
  let s := (s.use (how.uses ps)).overwrite ((how.overwritten hs).filterMap Held.root)
  (how.result hs,s.use (how.rereads ps))

mutual

def scan : Expr Ty → Scan → Held × Scan
  | .int _ _, s | .real _ _, s | .decl _ _ _ _, s => ({},s)
  | .name type id, s =>
    if type = .int then ({},s)
    else match s.table id with
      | some b => (⟨some b.root,b.deps,{ self := [id] }⟩,s)
      | none => ({},s)
  | .transpose _ e, s | .reshape _ e _ _, s | .maxpool _ e _, s =>
    let x := scan e s
    x.2.operate .consumed [x.1]
  | .index _ e i, s =>
    let x := scan e s
    let y := scan i x.2
    y.2.operate .indexed [x.1, y.1]
  | .call _ f args, s =>
    let xs := scanAll args s
    xs.2.operate (.called f) xs.1
  | .unary type op e, s =>
    let x := scan e s
    x.2.operate (unaryReading type op) [x.1]
  | .product type op a b, s =>
    let x := scan a s
    let y := scan b x.2
    y.2.operate (productReading type op) [x.1, y.1]
  | .additive type _ a b, s =>
    let x := scan a s
    let y := scan b x.2
    y.2.operate (plainReading type) [x.1, y.1]
  | .apply _ op e, s =>
    let x := scan e s
    x.2.operate (applyReading op) [x.1]
  | .sum _ _ first last e, s =>
    -- what the summand binds is bound anew in every turn
    let turn (s : Scan) :=
      let x := scan e s
      (x.2.use x.1.pending.all).forget e.binders
    ({},Nat.iterate turn (last-first).toNat s)
  | .cond _ e t f, s =>
    let x := scan e s
    let y := scan t x.2
    let z := scan f y.2
    z.2.operate (plainReading t.note) [x.1, y.1, z.1]
  | .bind _ v d e, s =>
    let x := scan d s
    let s := x.2.use x.1.pending.all
    match d.note with
    | .int => scan e s
    | _ => scan e (s.bind v x.1)

def scanAll : List (Expr Ty) → Scan → List Held × Scan
  | [], s => ([],s)
  | e::es, s =>
    let x := scan e s
    let xs := scanAll es x.2
    (x.1::xs.1,xs.2)

end

/-- No name is used after the variable of its tensor has been overwritten. -/
def keepsTensors (e : Expr Ty) : Bool :=
  let x := scan e .start
  (x.2.use x.1.pending.all).intact

variable {i v' i' : Nat} {B : List String} {x : String}

/-- Names that come up only later: of variables that are not made yet, and of bindings. -/
def Later (v i : Nat) (B : List String) (x : String) : Prop :=
  (∃ n, v ≤ n ∧ x = variableName n) ∨ (∃ n, i ≤ n ∧ x = iteratorName n) ∨ x ∈ B

theorem Later.mono {v B'} (hv : v ≤ v') (hi : i ≤ i')
    (hB : ∀ b ∈ B', b ∈ B) (h : Later v' i' B' x) : Later v i B x := by
  rcases h with ⟨n,hn,h⟩ | ⟨n,hn,h⟩ | h
  · exact .inl ⟨n,hv.trans hn,h⟩
  · exact .inr (.inl ⟨n,hi.trans hn,h⟩)
  · exact .inr (.inr (hB x h))

theorem Made.later {v} (h : Made v i v' i' x) (B : List String) : Later v i B x := by
  rcases h with ⟨n,hn,-,h⟩ | ⟨n,hn,-,h⟩
  · exact .inl ⟨n,hn,h⟩
  · exact .inr (.inl ⟨n,hn,h⟩)

theorem Made.not_later {v} (h : Made v i v' i' x) (hB : ∀ b ∈ B, ¬ Generated b) :
    ¬ Later v' i' B x := by
  intro hl
  rcases h with ⟨n,-,hn,rfl⟩ | ⟨n,-,hn,rfl⟩
  · rcases hl with ⟨k,hk,h⟩ | ⟨k,-,h⟩ | h
    · have := variableName_inj h; omega
    · exact variableName_ne_iteratorName n k h
    · exact hB _ h ⟨n,.inl rfl⟩
  · rcases hl with ⟨k,-,h⟩ | ⟨k,hk,h⟩ | h
    · exact variableName_ne_iteratorName k n h.symm
    · have := iteratorName_inj h; omega
    · exact hB _ h ⟨n,.inr rfl⟩

def Binding.shape (b : Binding) : String × List String := (b.root,b.deps)

def Owner (s : Scan) (o : String) : Prop := ∃ b, s.table o = some b ∧ b.root = o

def storage (w : Watch) (o : String) : Option String := (w.place o).bind Term.root?

/-- Of the variables that belong to bindings, the term mentions those of `deps`. -/
def Reads (s : Scan) (w : Watch) (t : Term) (deps : List String) : Prop :=
  ∀ o x, Owner s o → storage w o = some x → (t.mentions x = true ↔ o ∈ deps)

def LiesIn (s : Scan) (w : Watch) (t : Term) (o : String) : Prop :=
  Owner s o ∧ ∃ x, storage w o = some x ∧ t.root? = some x

/-- The term lies in a variable that lowering has made and that no binding mentions. -/
def Private (s : Scan) (w : Watch) (t : Term) : Prop :=
  ∃ n, t.root? = some (variableName n) ∧ ∀ v b u, s.table v = some b → w.place v = some u →
    u.mentions (variableName n) = false

/-- Nothing about the term or its bindings comes up only later. -/
def Known (F : String → Prop) (t : Term) (deps : List String) : Prop :=
  (∀ x, F x → t.mentions x = false) ∧ ∀ o ∈ deps, ¬ F o

structure BindingFits (F : String → Prop) (s : Scan) (w : Watch) (v : String) (b : Binding)
    (t : Term) : Prop where
  place : w.place v = some t
  root : LiesIn s w t b.root
  named : t.root? = some b.root ∨ ∃ n, t.root? = some (variableName n)
  reads : Reads s w t b.deps
  known : Known F t b.deps
  name : ¬ F v

/-- A value that waits to be used, on the side of the code and on that of the scan. -/
structure Item where
  term : Term
  pending : Pending (String × Term)
  held : Held
  type : Ty

structure ItemFits (F : String → Prop) (s : Scan) (w : Watch) (it : Item) : Prop where
  pending : it.held.pending = it.pending.map Prod.fst
  located : ∀ p ∈ it.pending.all, (∃ b, s.table p.1 = some b) ∧ w.place p.1 = some p.2 ∧ ¬ F p.1
  lies : ∀ o, it.held.root = some o → LiesIn s w it.term o
  hidden : it.held.root = none → it.type ≠ .int → Private s w it.term
  reads : Reads s w it.term it.held.deps
  known : Known F it.term it.held.deps

/-- A value in a variable of its own, which no other value mentions. -/
def Apart (a b : Item) : Prop :=
  a.held.root = none → a.type ≠ .int → ∀ x, a.term.root? = some x → b.term.mentions x = false

structure Agrees (F : String → Prop) (s : Scan) (w : Watch) (stack : List Item) : Prop where
  clean : w.clean ↔ s.intact = true
  stale : ∀ v b, s.table v = some b → (w.spoiled v ↔ b.stale = true)
  bindings : ∀ v b, s.table v = some b → ∃ t, BindingFits F s w v b t
  items : ∀ it ∈ stack, ItemFits F s w it
  apart : stack.Pairwise fun a b => Apart a b ∧ Apart b a

/-- But for the names of `N` the bindings are the same and in the same places; what is stale may
differ. -/
structure Kept (N : List String) (s : Scan) (w : Watch) (s' : Scan) (w' : Watch) : Prop where
  table : ∀ v, v ∉ N → (s'.table v).map Binding.shape = (s.table v).map Binding.shape
  place : ∀ v b, v ∉ N → s.table v = some b → w'.place v = w.place v

section Kept

variable {F : String → Prop} {N : List String} {s s' : Scan} {w w' : Watch}

theorem Binding.of_shape {o o' : Option Binding} (h : o'.map shape = o.map shape) {b}
    (hb : o = some b) : ∃ b', o' = some b' ∧ b'.root = b.root ∧ b'.deps = b.deps := by
  rw [hb] at h
  obtain ⟨b',hb',heq⟩ := Option.map_eq_some_iff.1 h
  exact ⟨b',hb',Prod.mk.inj heq⟩

theorem Kept.of_table (h : Kept N s w s' w') {v} (hv : v ∉ N) {b'} (hb' : s'.table v = some b') :
    ∃ b, s.table v = some b ∧ b.root = b'.root ∧ b.deps = b'.deps :=
  Binding.of_shape (h.table v hv).symm hb'

theorem Kept.to_table (h : Kept N s w s' w') {v} (hv : v ∉ N) {b} (hb : s.table v = some b) :
    ∃ b', s'.table v = some b' ∧ b'.root = b.root ∧ b'.deps = b.deps :=
  Binding.of_shape (h.table v hv) hb

theorem Kept.to_none (h : Kept N s w s' w') {v} (hv : v ∉ N) (hb : s.table v = none) :
    s'.table v = none := by
  have hshape := h.table v hv
  rw [hb, Option.map_none, Option.map_eq_none_iff] at hshape
  exact hshape

theorem Kept.refl (s : Scan) (w : Watch) : Kept [] s w s w := ⟨fun _ _ => rfl,fun _ _ _ _ => rfl⟩

theorem Kept.trans {N' s'' w''} (h : Kept N s w s' w')
    (h' : Kept N' s' w' s'' w'') : Kept (N++N') s w s'' w'' where
  table v hv := by
    rw [List.mem_append, not_or] at hv
    rw [h'.table v hv.2, h.table v hv.1]
  place v b hv hb := by
    rw [List.mem_append, not_or] at hv
    obtain ⟨b',hb',-,-⟩ := h.to_table hv.1 hb
    rw [h'.place v b' hv.2 hb', h.place v b hv.1 hb]

section

variable (h : Kept [] s w s' w')
include h

theorem Kept.owner {o} : Owner s' o ↔ Owner s o := by
  constructor
  · rintro ⟨b',hb',hroot⟩
    obtain ⟨b,hb,hr,-⟩ := h.of_table not_mem_nil hb'
    exact ⟨b,hb,hr.trans hroot⟩
  · rintro ⟨b,hb,hroot⟩
    obtain ⟨b',hb',hr,-⟩ := h.to_table not_mem_nil hb
    exact ⟨b',hb',hr.trans hroot⟩

theorem Kept.storage {o} (ho : Owner s o) : storage w' o = storage w o := by
  obtain ⟨b,hb,-⟩ := ho
  rw [Lower.storage, h.place o b not_mem_nil hb, Lower.storage]

theorem Kept.liesIn {t o} (hl : LiesIn s w t o) : LiesIn s' w' t o := by
  obtain ⟨ho,x,hx,ht⟩ := hl
  exact ⟨h.owner.2 ho,x,by rw [h.storage ho, hx],ht⟩

theorem Kept.reads {t deps} (hr : Reads s w t deps) : Reads s' w' t deps := by
  intro o x ho hx
  have ho' := h.owner.1 ho
  rw [h.storage ho'] at hx
  exact hr o x ho' hx

theorem Kept.hidden {t} (hp : Private s w t) : Private s' w' t := by
  obtain ⟨n,ht,hn⟩ := hp
  refine ⟨n,ht,fun v b' u hb' hu => ?_⟩
  obtain ⟨b,hb,-,-⟩ := h.of_table not_mem_nil hb'
  rw [h.place v b not_mem_nil hb] at hu
  exact hn v b u hb hu

theorem ItemFits.transfer {it} (hi : ItemFits F s w it) : ItemFits F s' w' it :=
  { hi with
    located := fun p hp => by
      obtain ⟨⟨b,hb⟩,hplace,hF⟩ := hi.located p hp
      obtain ⟨b',hb',-,-⟩ := h.to_table not_mem_nil hb
      exact ⟨⟨b',hb'⟩,by rw [h.place p.1 b not_mem_nil hb, hplace],hF⟩
    lies := fun o ho => h.liesIn (hi.lies o ho)
    hidden := fun hr ht => h.hidden (hi.hidden hr ht)
    reads := h.reads hi.reads }

end

theorem Agrees.transfer {stack} (h : Agrees F s w stack) (hs : Kept [] s w s' w')
    (hclean : w'.clean ↔ s'.intact = true)
    (hstale : ∀ v b, s'.table v = some b → (w'.spoiled v ↔ b.stale = true)) :
    Agrees F s' w' stack where
  clean := hclean
  stale := hstale
  bindings v b' hb' := by
    obtain ⟨b,hb,hroot,hdeps⟩ := hs.of_table not_mem_nil hb'
    obtain ⟨t,ht⟩ := h.bindings v b hb
    refine ⟨t,by rw [hs.place v b not_mem_nil hb, ht.place],?_,?_,?_,?_,ht.name⟩
    · rw [← hroot]; exact hs.liesIn ht.root
    · rw [← hroot]; exact ht.named
    · rw [← hdeps]; exact hs.reads ht.reads
    · rw [← hdeps]; exact ht.known
  items it hit := (h.items it hit).transfer hs
  apart := h.apart

end Kept

section Stack

variable {F F' : String → Prop} {s : Scan} {w : Watch} {stack : List Item}

theorem Known.root {t deps x} (h : Known F t deps) (hx : t.root? = some x) : ¬ F x := by
  intro hF
  have hm := h.1 x hF
  rw [mentions_of_root hx] at hm
  cases hm

theorem Known.mono (hF : ∀ x, F' x → F x) {t deps} (h : Known F t deps) : Known F' t deps :=
  ⟨fun x hx => h.1 x (hF x hx),fun o ho hx => h.2 o ho (hF o hx)⟩

theorem ItemFits.mono (hF : ∀ x, F' x → F x) {it} (h : ItemFits F s w it) : ItemFits F' s w it :=
  { h with
    located := fun p hp => (h.located p hp).imp_right (.imp_right fun hn hx => hn (hF _ hx))
    known := h.known.mono hF }

theorem Agrees.mono (hF : ∀ x, F' x → F x) (h : Agrees F s w stack) : Agrees F' s w stack :=
  { h with
    bindings := fun v b hb => by
      obtain ⟨t,ht⟩ := h.bindings v b hb
      exact ⟨t,{ ht with known := ht.known.mono hF, name := fun hx => ht.name (hF v hx) }⟩
    items := fun it hit => (h.items it hit).mono hF }

theorem Agrees.drop {top} (h : Agrees F s w (top++stack)) : Agrees F s w stack :=
  { h with
    items := fun it hit => h.items it (List.mem_append_right _ hit)
    apart := (List.pairwise_append.1 h.apart).2.1 }

theorem Agrees.pop {it} (h : Agrees F s w (it::stack)) : Agrees F s w stack :=
  Agrees.drop (show Agrees F s w ([it]++stack) from h)

variable (h : Agrees F s w stack)

include h

theorem Agrees.push {it} (hi : ItemFits F s w it)
    (ha : ∀ e ∈ stack, Apart it e ∧ Apart e it) : Agrees F s w (it::stack) :=
  { h with
    items := by simpa using ⟨hi,h.items⟩
    apart := List.pairwise_cons.2 ⟨ha,h.apart⟩ }

theorem Agrees.unbound {v} (hv : F v) : s.table v = none := by
  cases hb : s.table v with
  | none => rfl
  | some b =>
    obtain ⟨t,ht⟩ := h.bindings v b hb
    exact absurd hv ht.name

/-- A binding with a variable of its own lies in a known one, which has its name or one that
lowering has made. -/
theorem Agrees.owned {o x} (ho : Owner s o)
    (hx : storage w o = some x) : ¬ F x ∧ (x = o ∨ ∃ n, x = variableName n) := by
  obtain ⟨b,hb,hroot⟩ := ho
  obtain ⟨t,ht⟩ := h.bindings o b hb
  rw [storage, ht.place, Option.bind_some] at hx
  refine ⟨ht.known.root hx,?_⟩
  rcases ht.named with hn | ⟨n,hn⟩
  · exact .inl (Option.some.inj (hx.symm.trans (hroot ▸ hn)))
  · exact .inr ⟨n,Option.some.inj (hx.symm.trans hn)⟩

theorem Agrees.unplaced {x} (hx : F x) {v b u} (hb : s.table v = some b)
    (hu : w.place v = some u) : u.mentions x = false := by
  obtain ⟨t,ht⟩ := h.bindings v b hb
  rw [ht.place] at hu
  rw [← Option.some.inj hu]
  exact ht.known.1 x hx

omit h

variable {x : String} {inFlash : Bool}

theorem mentions_variable {y} : (Term.var x [] inFlash).mentions y = true ↔ x = y := by
  simp [Term.mentions, Term.anyMentions]

theorem reads_variable (h : ∀ o, Owner s o → storage w o ≠ some x) :
    Reads s w (.var x [] inFlash) [] := by
  intro o y ho hy
  rw [mentions_variable]
  refine ⟨?_,nofun⟩
  rintro rfl
  exact absurd hy (h o ho)

theorem known_variable (h : ¬ F x) : Known F (.var x [] inFlash) [] := by
  refine ⟨fun y hy => ?_,nofun⟩
  rw [← Bool.not_eq_true, mentions_variable]
  rintro rfl
  exact h hy

end Stack

section Steps

variable {F F' : String → Prop} {s : Scan} {w : Watch} {stack : List Item}

theorem kept_of_place {w' s'} (hplace : w'.place = w.place)
    (htable : ∀ v, (s'.table v).map Binding.shape = (s.table v).map Binding.shape) :
    Kept [] s w s' w' :=
  ⟨fun v _ => htable v,fun v _ _ _ => by rw [hplace]⟩

theorem isStale_of_table {v b} (h : s.table v = some b) : s.isStale v = b.stale := by
  rw [Scan.isStale, h]

theorem Agrees.use (h : Agrees F s w stack) {uses : List (String × Term)}
    (hu : ∀ p ∈ uses, (∃ b, s.table p.1 = some b) ∧ w.place p.1 = some p.2) (m : Memory) :
    Agrees F (s.use (uses.map Prod.fst)) (w.after (uses.map fun p => .used p.1 p.2 m)) stack ∧
      Kept [] s w (s.use (uses.map Prod.fst)) (w.after (uses.map fun p => .used p.1 p.2 m)) := by
  obtain ⟨hplace,hspoiled,hclean⟩ := w.after_uses uses m
  have hkept : Kept [] s w (s.use (uses.map Prod.fst))
      (w.after (uses.map fun p => .used p.1 p.2 m)) := kept_of_place hplace fun _ => rfl
  refine ⟨h.transfer hkept ?_ fun v b hb => ?_,hkept⟩
  · rw [hclean, h.clean, Scan.use, Bool.and_eq_true, List.all_map, List.all_eq_true]
    refine and_congr Iff.rfl (forall₂_congr fun p hp => ?_)
    obtain ⟨⟨b,hb⟩,hplace⟩ := hu p hp
    simp [hplace, h.stale p.1 b hb, isStale_of_table hb]
  · rw [hspoiled]
    exact h.stale v b hb

/-- Nothing is written but what comes up only later and, of these values, the variables they lie
in. -/
structure Writes (F : String → Prop) (targets : List Item) (tr : List Event) : Prop where
  only : ∀ e ∈ tr, ∃ x, e = .wrote x ∧ (F x ∨ ∃ it ∈ targets, it.term.root? = some x)
  all : ∀ it ∈ targets, ∃ x, it.term.root? = some x ∧ .wrote x ∈ tr

theorem Agrees.mentions_root (h : Agrees F s w stack) {it} (hit : it ∈ stack)
    (htype : it.type ≠ .int) {x} (hx : it.term.root? = some x) {v b t} (hb : s.table v = some b)
    (ht : BindingFits F s w v b t) :
    t.mentions x = true ↔ ∃ o, it.held.root = some o ∧ o ∈ b.deps := by
  have hi := h.items it hit
  cases hroot : it.held.root with
  | none =>
    obtain ⟨n,hn,hmentions⟩ := hi.hidden hroot htype
    obtain rfl := Option.some.inj (hn.symm.trans hx)
    simp [hmentions v b t hb ht.place]
  | some o =>
    obtain ⟨ho,y,hy,hyt⟩ := hi.lies o hroot
    obtain rfl := Option.some.inj (hyt.symm.trans hx)
    simp [ht.reads o y ho hy]

theorem Agrees.overwrite (h : Agrees F s w stack) {targets tr}
    (htargets : ∀ it ∈ targets, it ∈ stack ∧ it.type ≠ .int) (hw : Writes F targets tr) :
    Agrees F (s.overwrite (targets.filterMap fun it => it.held.root)) (w.after tr) stack ∧
      Kept [] s w (s.overwrite (targets.filterMap fun it => it.held.root)) (w.after tr) := by
  have hwrites : ∀ e ∈ tr, ∃ x, e = .wrote x := fun e he =>
    let ⟨x,hx,_⟩ := hw.only e he
    ⟨x,hx⟩
  obtain ⟨hplace,hclean,hspoiled⟩ := w.after_writes hwrites
  have hkept : Kept [] s w (s.overwrite (targets.filterMap fun it => it.held.root))
      (w.after tr) := by
    refine kept_of_place hplace fun v => ?_
    rw [Scan.overwrite, Option.map_map]
    rfl
  refine ⟨h.transfer hkept (by rw [hclean]; exact h.clean) fun v b' hb' => ?_,hkept⟩
  obtain ⟨b,hb,rfl⟩ := Option.map_eq_some_iff.1 hb'
  obtain ⟨t,ht⟩ := h.bindings v b hb
  rw [hspoiled, h.stale v b hb, Bool.or_eq_true]
  refine or_congr Iff.rfl ?_
  simp only [List.any_eq_true, List.mem_filterMap, List.contains_iff_mem]
  constructor
  · rintro ⟨x,t',hx,ht',hm⟩
    obtain rfl := Option.some.inj (ht.place.symm.trans ht')
    obtain ⟨y,hy, hF | ⟨it,hit,hroot⟩⟩ := hw.only _ hx
    · obtain rfl := Event.wrote.inj hy
      rw [ht.known.1 x hF] at hm
      cases hm
    · obtain rfl := Event.wrote.inj hy
      obtain ⟨hstack,htype⟩ := htargets it hit
      obtain ⟨o,ho,hdeps⟩ := (h.mentions_root hstack htype hroot hb ht).1 hm
      exact ⟨o,⟨it,hit,ho⟩,hdeps⟩
  · rintro ⟨o,⟨it,hit,ho⟩,hdeps⟩
    obtain ⟨x,hx,hmem⟩ := hw.all it hit
    obtain ⟨hstack,htype⟩ := htargets it hit
    exact ⟨x,t,hmem,ht.place,(h.mentions_root hstack htype hx hb ht).2 ⟨o,ho,hdeps⟩⟩

end Steps

theorem Kept.weaken {N N' s s' w w'} (hN : ∀ x ∈ N, x ∈ N') (h : Kept N s w s' w') :
    Kept N' s w s' w' :=
  ⟨fun v hv => h.table v fun hmem => hv (hN v hmem),fun v b hv => h.place v b fun hmem =>
    hv (hN v hmem)⟩

theorem Agrees.forget {F F' N s s' w w' stack stack'} (h : Agrees F s w stack) (hN : ∀ x ∈ N, F x)
    (h' : Agrees F' s' w' stack') (hk : Kept N s w s' w') :
    Agrees F (s'.forget N) w' stack ∧ Kept [] s w (s'.forget N) w' := by
  have hkept : Kept [] s w (s'.forget N) w' := by
    refine ⟨fun v _ => ?_,fun v b _ hb => ?_⟩
    · by_cases hv : v ∈ N
      · simp [Scan.forget, hv, h.unbound (hN v hv)]
      · simp [Scan.forget, hv, hk.table v hv]
    · refine hk.place v b (fun hv => ?_) hb
      rw [h.unbound (hN v hv)] at hb
      cases hb
  refine ⟨h.transfer hkept h'.clean fun v b hb => ?_,hkept⟩
  by_cases hv : v ∈ N
  · simp [Scan.forget, hv] at hb
  · exact h'.stale v b (by simpa [Scan.forget, hv] using hb)

theorem overwrite_nil (s : Scan) : s.overwrite [] = s := by
  cases s with
  | mk table intact => simp [Scan.overwrite]

theorem Agrees.quiet {F s w stack tr} (h : Agrees F s w stack)
    (hw : ∀ e ∈ tr, ∃ x, e = .wrote x ∧ F x) :
    Agrees F s (w.after tr) stack ∧ Kept [] s w s (w.after tr) := by
  have hwrites : Writes F [] tr := ⟨fun e he =>
    let ⟨x,hx,hF⟩ := hw e he
    ⟨x,hx,.inl hF⟩,by simp⟩
  have hover := h.overwrite (by simp) hwrites
  rw [List.filterMap_nil, overwrite_nil] at hover
  exact hover

/-- A name can be bound to what lies in the place `t`. -/
structure Bindable (F : String → Prop) (s : Scan) (w : Watch) (stack : List Item) (v : String)
    (t : Term) (held : Held) : Prop where
  lies : ∀ o, held.root = some o → LiesIn s w t o
  own : held.root = none → ∃ x, t.root? = some x ∧ (x = v ∨ ∃ n, x = variableName n) ∧
    (∀ u b p, s.table u = some b → w.place u = some p → p.mentions x = false) ∧
      ∀ it ∈ stack, it.term.mentions x = false
  reads : Reads s w t held.deps
  deps : ∀ o ∈ held.deps, ¬ F o
  apart : ∀ it ∈ stack, it.held.root = none → it.type ≠ .int → ∀ x, it.term.root? = some x →
    t.mentions x = false

section Bind

variable {F F' : String → Prop} {s : Scan} {w : Watch} {stack : List Item} {v : String} {t : Term}
  {held : Held} {m : Memory}
variable {u o : String} {b : Binding}

theorem bind_table_of_ne (h : u ≠ v) : (s.bind v held).table u = s.table u :=
  Function.update_of_ne h _ _

theorem bind_table_of_some (h : held.root = some o) :
    (s.bind v held).table v = some ⟨o,held.deps,false⟩ := by
  simp [Scan.bind, h]

theorem bind_table_of_none (h : held.root = none) :
    (s.bind v held).table v = some ⟨v,v::held.deps,false⟩ := by
  simp [Scan.bind, h]

theorem bind_table_fresh (h : (s.bind v held).table v = some b) : b.stale = false := by
  cases hroot : held.root with
  | none => rw [bind_table_of_none hroot] at h; rw [← Option.some.inj h]
  | some o => rw [bind_table_of_some hroot] at h; rw [← Option.some.inj h]

theorem bound_place_of_ne (h : u ≠ v) : (w.step (.bound v t m)).place u = w.place u :=
  Function.update_of_ne h _ _

theorem bound_place : (w.step (.bound v t m)).place v = some t := Function.update_self ..

theorem bind_kept : Kept [v] s w (s.bind v held) (w.step (.bound v t m)) where
  table u hu := by rw [bind_table_of_ne (by simpa using hu)]
  place u b hu _ := bound_place_of_ne (by simpa using hu)

theorem owner_bind_of_ne (h : o ≠ v) : Owner (s.bind v held) o ↔ Owner s o := by
  simp only [Owner, bind_table_of_ne h]

theorem storage_bound_of_ne (h : o ≠ v) : storage (w.step (.bound v t m)) o = storage w o := by
  simp only [storage, bound_place_of_ne h]

theorem Owner.ne (hv : s.table v = none) (h : Owner s o) : o ≠ v := by
  rintro rfl
  obtain ⟨b,hb,-⟩ := h
  rw [hv] at hb
  cases hb

theorem LiesIn.bind (hv : s.table v = none) {u} (h : LiesIn s w u o) :
    LiesIn (s.bind v held) (w.step (.bound v t m)) u o := by
  obtain ⟨ho,x,hx,hu⟩ := h
  have hne := ho.ne hv
  exact ⟨(owner_bind_of_ne hne).2 ho,x,by rw [storage_bound_of_ne hne, hx],hu⟩

variable (hb : Bindable F s w stack v t held)

include hb

/-- The new binding has a variable of its own only if the value lay in that of no other. -/
theorem Bindable.owner (hv : s.table v = none) (h : Owner (s.bind v held) v) :
    held.root = none := by
  cases hroot : held.root with
  | none => rfl
  | some o =>
    obtain ⟨b,htable,hown⟩ := h
    rw [bind_table_of_some hroot] at htable
    obtain rfl := Option.some.inj htable
    exact absurd hown ((hb.lies o hroot).1.ne hv)

theorem Bindable.reads_bind (hv : s.table v = none) {u deps} (h : Reads s w u deps)
    (hnew : held.root = none → ∀ x, t.root? = some x → (u.mentions x = true ↔ v ∈ deps)) :
    Reads (s.bind v held) (w.step (.bound v t m)) u deps := by
  intro o x ho hx
  by_cases hov : o = v
  · subst hov
    rw [storage, bound_place] at hx
    exact hnew (hb.owner hv ho) x hx
  · rw [owner_bind_of_ne hov] at ho
    rw [storage_bound_of_ne hov] at hx
    exact h o x ho hx

theorem Bindable.item (hF : F v) (hsub : ∀ x, F' x → F x) (hv : s.table v = none) {it}
    (hit : it ∈ stack) (h : ItemFits F s w it) :
    ItemFits F' (s.bind v held) (w.step (.bound v t m)) it where
  pending := h.pending
  located p hp := by
    obtain ⟨hbound,hplace,hn⟩ := h.located p hp
    have hne : p.1 ≠ v := by rintro heq; exact hn (heq ▸ hF)
    exact ⟨by rw [bind_table_of_ne hne]; exact hbound,by rw [bound_place_of_ne hne, hplace],
      fun hx => hn (hsub _ hx)⟩
  lies o ho := (h.lies o ho).bind hv
  hidden hroot htype := by
    obtain ⟨n,hn,hmentions⟩ := h.hidden hroot htype
    refine ⟨n,hn,fun u b p hbu hp => ?_⟩
    by_cases huv : u = v
    · subst huv
      rw [bound_place] at hp
      rw [← Option.some.inj hp]
      exact hb.apart it hit hroot htype _ hn
    · rw [bind_table_of_ne huv] at hbu
      rw [bound_place_of_ne huv] at hp
      exact hmentions u b p hbu hp
  reads := hb.reads_bind hv h.reads fun hroot x hx => by
    obtain ⟨y,hy,-,-,hstack⟩ := hb.own hroot
    obtain rfl := Option.some.inj (hy.symm.trans hx)
    rw [hstack it hit]
    exact ⟨nofun,fun hd => absurd hF (h.known.2 v hd)⟩
  known := h.known.mono hsub

theorem Bindable.fits (hF : F v) (hv : s.table v = none) (hF' : ¬ F' v) (hsub : ∀ x, F' x → F x)
    (hknown : ∀ x, F' x → t.mentions x = false) (h : Agrees F s w stack)
    (htable : (s.bind v held).table v = some b) :
    BindingFits F' (s.bind v held) (w.step (.bound v t m)) v b t := by
  cases hroot : held.root with
  | some o =>
    rw [bind_table_of_some hroot] at htable
    obtain rfl := Option.some.inj htable
    have hlies := hb.lies o hroot
    refine ⟨bound_place,hlies.bind hv,?_,?_,⟨hknown,fun d hd hx => hb.deps d hd (hsub d hx)⟩,hF'⟩
    · obtain ⟨ho,x,hx,ht⟩ := hlies
      rcases (h.owned ho hx).2 with rfl | ⟨n,rfl⟩
      · exact .inl ht
      · exact .inr ⟨n,ht⟩
    · exact hb.reads_bind hv hb.reads fun hn => by rw [hroot] at hn; cases hn
  | none =>
    obtain ⟨x,hx,hname,-,-⟩ := hb.own hroot
    have howner : Owner (s.bind v held) v := ⟨_,bind_table_of_none hroot,rfl⟩
    rw [bind_table_of_none hroot] at htable
    obtain rfl := Option.some.inj htable
    refine ⟨bound_place,⟨howner,x,?_,hx⟩,?_,?_,⟨hknown,?_⟩,hF'⟩
    · rw [storage, bound_place, Option.bind_some, hx]
    · rcases hname with rfl | ⟨n,rfl⟩
      · exact .inl hx
      · exact .inr ⟨n,hx⟩
    · intro o y ho hy
      by_cases hov : o = v
      · subst hov
        rw [storage, bound_place] at hy
        simp [mentions_of_root hy]
      · rw [owner_bind_of_ne hov] at ho
        rw [storage_bound_of_ne hov] at hy
        rw [hb.reads o y ho hy, List.mem_cons]
        exact ⟨.inr,fun hd => hd.resolve_left hov⟩
    · intro d hd hx'
      rcases List.mem_cons.1 hd with rfl | hd
      · exact hF' hx'
      · exact hb.deps d hd (hsub d hx')

theorem Agrees.bind (h : Agrees F s w stack) (hF : F v) (hF' : ¬ F' v) (hsub : ∀ x, F' x → F x)
    (hknown : ∀ x, F' x → t.mentions x = false) :
    Agrees F' (s.bind v held) (w.step (.bound v t m)) stack := by
  have hv := h.unbound hF
  refine ⟨h.clean,fun u b htable => ?_,fun u b htable => ?_,fun it hit =>
    hb.item hF hsub hv hit (h.items it hit),h.apart⟩
  · by_cases huv : u = v
    · subst huv
      simp [Watch.step, bind_table_fresh htable]
    · rw [bind_table_of_ne huv] at htable
      simp [Watch.step, huv, h.stale u b htable]
  · by_cases huv : u = v
    · subst huv
      exact ⟨t,hb.fits hF hv hF' hsub hknown h htable⟩
    · rw [bind_table_of_ne huv] at htable
      obtain ⟨p,hp⟩ := h.bindings u b htable
      refine ⟨p,by rw [bound_place_of_ne huv, hp.place],hp.root.bind hv,hp.named,?_,
        hp.known.mono hsub,fun hx => hp.name (hsub u hx)⟩
      refine hb.reads_bind hv hp.reads fun hroot x hx => ?_
      obtain ⟨y,hy,-,hplaces,-⟩ := hb.own hroot
      obtain rfl := Option.some.inj (hy.symm.trans hx)
      rw [hplaces u b p htable hp.place]
      exact ⟨by simp,fun hd => absurd hF (hp.known.2 v hd)⟩

end Bind

end MicroLearn.Lower
