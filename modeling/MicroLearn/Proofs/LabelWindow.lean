import MicroLearn.Gesture.Watch
import Mathlib

/-!
# The window of a labelling session

Whatever keys come, the window holds `length` rows of the recording, so each curve that is drawn
has `length` values. Labels change only under a label key while the window stands, and then in the
rows of the window and nowhere else.
-/

set_option autoImplicit false

namespace MicroLearn.Gesture

variable {key name : String}

section

variable {α : Type} {lo hi : Int} {xs : List α}

theorem bound_le (n : Nat) (i : Int) : bound n i ≤ n := by
  rw [bound]
  split <;> omega

theorem bound_of_nonneg {n : Nat} {i : Int} (h : 0 ≤ i) (hn : i ≤ n) : bound n i = i.toNat := by
  rw [bound, if_neg (by omega)]
  omega

theorem windowOf_length (h : 0 ≤ lo) (hle : lo ≤ hi) (hn : hi ≤ xs.length) :
    ((windowOf lo hi xs).length : Int) = hi-lo := by
  rw [windowOf, bound_of_nonneg h (by omega), bound_of_nonneg (by omega) hn]
  simp only [List.length_drop, List.length_take]
  omega

theorem setRange_length (x : α) (xs : List α) : (setRange lo hi x xs).length = xs.length := by
  have hhi := bound_le xs.length hi
  rw [setRange]
  split
  · simp only [List.length_append, List.length_take, List.length_replicate, List.length_drop]
    omega
  · rfl

theorem setRange_getElem? (h : 0 ≤ lo) (hle : lo ≤ hi) (hn : hi ≤ xs.length) (x : α) (i : Nat) :
    (setRange lo hi x xs)[i]? = if lo ≤ i ∧ i < hi then some x else xs[i]? := by
  rw [setRange, bound_of_nonneg h (by omega), bound_of_nonneg (by omega) hn]
  split
  · have htake : (xs.take lo.toNat).length = lo.toNat := by
      rw [List.length_take]
      omega
    simp only [List.append_assoc, List.getElem?_append, List.getElem?_replicate, List.getElem?_drop,
      List.getElem?_take, List.length_replicate, htake]
    by_cases hlo : i < lo.toNat
    · rw [if_pos hlo, if_pos hlo, if_neg (by omega)]
    · rw [if_neg hlo]
      by_cases hhi : i < hi.toNat
      · rw [if_pos (by omega), if_pos (by omega), if_pos (by omega)]
      · rw [if_neg (by omega), if_neg (by omega)]
        congr 1
        omega
  · rw [if_neg (by omega)]

end

namespace Session

variable {α : Type} {length : Int} {rows : Nat} {s : Session α}
variable {read : String → Except Fault α} {key : String} {s' : Session α}

/-- A window of `length` rows, perhaps beyond the recording. -/
structure Wide (length : Int) (rows : Nat) (s : Session α) : Prop where
  length_eq : s.length = length
  rows_eq : s.labels.length = rows
  width : s.stop-s.start = length

/-- A window of `length` rows of the recording. -/
structure Framed (length : Int) (rows : Nat) (s : Session α) : Prop extends Wide length rows s where
  start_nonneg : 0 ≤ s.start
  stop_le : s.stop ≤ rows

section

variable (h : s.Wide length rows)
include h

theorem Wide.shift (d : Int) : (s.shift d).Wide length rows :=
  ⟨h.length_eq,h.rows_eq,by have := h.width; simp only [Session.shift]; omega⟩

theorem Wide.front : s.front.Wide length rows ∧ 0 ≤ s.front.start := by
  rw [Session.front]
  split
  · exact ⟨⟨h.length_eq,h.rows_eq,by simp [toFront, h.length_eq]⟩,le_rfl⟩
  · exact ⟨h,by omega⟩

theorem Wide.drift : s.drift.Wide length rows := by
  rw [Session.drift]
  split
  · exact h
  · exact h.shift _

theorem Wide.push (key : String) : (s.push key).Wide length rows := by
  rw [Session.push]
  split_ifs
  · exact h.shift _
  · exact h.shift _
  · exact h

theorem Wide.framed_toEnd (hrows : length ≤ rows) : s.toEnd.Framed length rows := by
  refine ⟨⟨h.length_eq,h.rows_eq,?_⟩,?_,?_⟩
  all_goals
    simp only [toEnd, Session.rows, h.length_eq, h.rows_eq]
    omega

end

theorem Framed.status (h : s.Framed length rows) (text : String) :
    ({ s with status := text } : Session α).Framed length rows :=
  ⟨⟨h.length_eq,h.rows_eq,h.width⟩,h.start_nonneg,h.stop_le⟩

theorem framed_advance (h : s.Framed length rows) (hrows : length ≤ rows) :
    s.advance.Framed length rows := by
  obtain ⟨hwide,hstart⟩ := h.toWide.drift.front
  simp only [advance]
  split
  · exact (hwide.framed_toEnd hrows).status _
  · next hinside =>
    rw [Session.rows, hwide.rows_eq] at hinside
    exact ⟨hwide,hstart,by omega⟩

theorem framed_move (h : s.Framed length rows) (hrows : length ≤ rows) (key : String) :
    (s.move key).Framed length rows := by
  obtain ⟨hwide,hstart⟩ := (h.toWide.push key).front
  simp only [move]
  split
  · exact hwide.framed_toEnd hrows
  · next hinside =>
    rw [Session.rows, hwide.rows_eq] at hinside
    exact ⟨hwide,hstart,by omega⟩

theorem front_labels (s : Session α) : s.front.labels = s.labels := by
  rw [front]
  split <;> rfl

theorem advance_labels (s : Session α) : s.advance.labels = s.labels := by
  have hdrift : s.drift.labels = s.labels := by
    rw [drift]
    split <;> rfl
  rw [← hdrift, ← front_labels s.drift, advance]
  split <;> rfl

theorem move_labels (s : Session α) (key : String) : (s.move key).labels = s.labels := by
  have hpush : (s.push key).labels = s.labels := by
    rw [push]
    split_ifs <;> rfl
  rw [← hpush, ← front_labels (s.push key), move]
  split <;> rfl

theorem label_cases (h : s.label read key = .ok s') : (s.mode = .paused ∧ ∃ x, read key = .ok x ∧
        s' = { s with labels := setRange s.start s.stop x s.labels }) ∨
      s.mode ≠ .paused ∧ s' =
          { s with status := s.status++"Labelling allowed only when paused.\n" } := by
  rw [label] at h
  split at h
  · next hpaused =>
    cases hread : read key with
    | error f => simp [hread] at h
    | ok x =>
      simp only [hread, bind, Except.bind, pure, Except.pure, Except.ok.injEq] at h
      exact .inl ⟨hpaused,x,rfl,h.symm⟩
  · next hplaying => exact .inr ⟨hplaying,(Except.ok.inj h).symm⟩

theorem framed_label
    (h : s.Framed length rows) (hok : s.label read key = .ok s') : s'.Framed length rows := by
  obtain ⟨-,x,-,rfl⟩ | ⟨-,rfl⟩ := label_cases hok
  · exact ⟨⟨h.length_eq,(setRange_length x _).trans h.rows_eq,h.width⟩,h.start_nonneg,h.stop_le⟩
  · exact h.status _

theorem framed_opening {labels} (stride : Int) (hlab : labels.length = rows)
    (hrows : length ≤ rows) : (Session.opening length stride labels).Framed length rows :=
  ⟨⟨rfl,hlab,sub_zero _⟩,le_rfl,hrows⟩

end Session

theorem readLabel_of_bound (h : sessionKeys.lookup key = some .label) :
    ∃ n, Number.readInt? key = some n ∧ readLabel key = .ok (.whole n) := by
  have hkeys : ∀ b ∈ sessionKeys, b.2 = .label → (Number.readInt? b.1).isSome := by decide
  obtain ⟨before,behind,heq,-⟩ := List.lookup_eq_some_iff.1 h
  obtain ⟨n,hn⟩ := Option.isSome_iff_exists.1 (hkeys (key,.label) (by simp [heq]) rfl)
  exact ⟨n,hn,by rw [readLabel, hn]⟩

theorem ne_close_of_bound : sessionKeys.lookup key ≠ some .close := by
  intro h
  have hkeys : ∀ b ∈ sessionKeys, b.2 ≠ .close := by decide
  obtain ⟨before,behind,heq,-⟩ := List.lookup_eq_some_iff.1 h
  exact hkeys (key,.close) (by simp [heq]) rfl

section

variable {file : String} {length : Int} {rows : Nat} {d : Desk Entry}
variable {key : String} {a : Action}

theorem framed_perform (file : String) (h : d.session.Framed length rows) (hrows : length ≤ rows)
    (a : Action)
    (key : String) : (perform readLabel file a key d).1.session.Framed length rows := by
  cases a with
  | advance => exact Session.framed_advance h hrows
  | move => exact Session.framed_move h hrows key
  | toggle => exact ⟨⟨h.length_eq,h.rows_eq,h.width⟩,h.start_nonneg,h.stop_le⟩
  | label =>
    simp only [perform]
    split
    · exact Session.framed_label h ‹_›
    · exact h
  | quit => exact h
  | close => exact h

theorem framed_drain (file : String) (hrows : length ≤ rows) (keys : List String) :
    ∀ {d}, d.session.Framed length rows →
      (drain readLabel file sessionKeys keys d).1.session.Framed length rows := by
  induction keys with
  | nil =>
    intro d h
    exact h
  | cons key rest ih =>
    intro d h
    rw [drain]
    split
    · exact ih h
    · next a _ =>
      have hstep := framed_perform file h hrows a key
      split
      · next heq => exact ih (by rw [heq] at hstep; exact hstep)
      · next heq => rw [heq] at hstep; exact hstep

theorem drain_goes_on {keys} (h : ∀ k ∈ keys, sessionKeys.lookup k ≠ some .quit) :
    ∀ d : Desk Entry, (drain readLabel file sessionKeys keys d).2 = none := by
  induction keys with
  | nil =>
    intro d
    rfl
  | cons key rest ih =>
    intro d
    have hrest := ih fun k hk => h k (List.mem_cons_of_mem _ hk)
    rw [drain]
    split
    · exact hrest d
    · next a ha =>
      have hnone : (perform readLabel file a key d).2 = none := by
        cases a with
        | advance | move | toggle => rfl
        | label =>
          obtain ⟨n,-,hn⟩ := readLabel_of_bound ha
          simp only [perform, Session.label, hn]
          split_ifs <;> rfl
        | quit => exact absurd ha (h key List.mem_cons_self)
        | close => exact absurd ha ne_close_of_bound
      split
      · exact hrest _
      · next heq => rw [heq] at hnone; cases hnone

theorem drain_single (h : sessionKeys.lookup key = some a) (d : Desk Entry) :
    (drain readLabel file sessionKeys [key] d).1.session =
      (perform readLabel file a key d).1.session := by
  rcases hp : perform readLabel file a key d with ⟨d', _ | f⟩ <;> simp [drain, h, hp]

theorem perform_labels (h : a ≠ .label ∨ d.session.mode ≠ .paused) (key : String) :
    (perform readLabel file a key d).1.session.labels = d.session.labels := by
  cases a with
  | advance => exact Session.advance_labels _
  | move => exact Session.move_labels _ _
  | label =>
    simp only [perform]
    split
    · next hok =>
      obtain ⟨hpaused,-⟩ | ⟨-,rfl⟩ := Session.label_cases hok
      · exact absurd hpaused (h.resolve_left fun hne => hne rfl)
      · rfl
    · rfl
  | toggle | quit | close => rfl

theorem key_labels (h : sessionKeys.lookup key ≠ some .label ∨ d.session.mode ≠ .paused) :
    (drain readLabel file sessionKeys [key] d).1.session.labels = d.session.labels := by
  cases hkey : sessionKeys.lookup key with
  | none => simp [drain, hkey]
  | some a =>
    rw [drain_single hkey]
    refine perform_labels (h.imp_left ?_) key
    rintro hne rfl
    exact hne hkey

theorem key_labels_window (hframed : d.session.Framed length rows) (hlen : 0 ≤ length)
    (hkey : sessionKeys.lookup key = some .label) (hpaused : d.session.mode = .paused) :
    let s := d.session
    let s' := (drain readLabel file sessionKeys [key] d).1.session
    s'.start = s.start ∧ s'.stop = s.stop ∧ ∃ n, Number.readInt? key = some n ∧
      ∀ i : Nat, s'.labels[i]? =
        if s.start ≤ i ∧ i < s.stop then some (.whole n) else s.labels[i]? := by
  obtain ⟨n,hn,hread⟩ := readLabel_of_bound hkey
  have hperform : (perform readLabel file .label key d).1.session =
      { d.session with
        labels := setRange d.session.start d.session.stop (.whole n) d.session.labels } := by
    simp [perform, Session.label, hpaused, hread, bind, Except.bind, pure, Except.pure]
  rw [drain_single hkey, hperform]
  refine ⟨rfl,rfl,n,hn,fun i => setRange_getElem? hframed.start_nonneg ?_ ?_ _ i⟩
  · have := hframed.width
    omega
  · rw [hframed.rows_eq]
    exact hframed.stop_le

end

section

variable {file : String} {folders : List String} {t : Table} {length : Int} {rows : Nat}

theorem perform_fault {a key d d' f}
    (h : perform readLabel file a key d = (d',some f)) : f ≠ .requirement := by
  rintro rfl
  cases a with
  | label =>
    simp only [perform, Session.label, readLabel] at h
    split_ifs at h
    · cases hread : Number.readInt? key <;> simp [hread, bind, Except.bind, pure, Except.pure] at h
    · simp at h
  | _ => simp [perform] at h

theorem drain_fault (keys : List String) {f} : ∀ {d d'},
    drain readLabel file sessionKeys keys d = (d',some f) → f ≠ .requirement := by
  induction keys with
  | nil =>
    intro d d' h
    simp [drain] at h
  | cons key rest ih =>
    intro d d' h
    rw [drain] at h
    split at h
    · exact ih h
    · split at h
      · exact ih h
      · next heq =>
        cases h
        exact perform_fault heq

theorem framed_frame (file : String) {d} (hrows : length ≤ rows)
    (h : d.session.Framed length rows) :
    (frame readLabel file sessionKeys d).1.session.Framed length rows := by
  have hdrain := framed_drain file hrows d.pending h
  rw [frame]
  split
  · next heq => rw [heq] at hdrain; exact hdrain
  · next heq =>
    rw [heq] at hdrain
    exact framed_perform file hdrain hrows .advance "default"

theorem frame_fault {d d' f} (h : frame readLabel file sessionKeys d = (d',some f)) :
    f ≠ .requirement := by
  rw [frame] at h
  split at h
  · next heq =>
    cases h
    exact drain_fault _ heq
  · exact perform_fault (a := .advance) h

theorem conclude_fault (log : List Scene) (d : Desk Entry) {f} (h : f ≠ .requirement) :
    (conclude folders log d f).fault ≠ some .requirement := by
  have hfolder : ∀ g, makeFolder "data/labelled_data" folders = .error g → g ≠ .requirement := by
    rintro g hg rfl
    simp only [makeFolder] at hg
    split_ifs at hg
    simp at hg
  rw [conclude]
  split
  · simpa using h
  · split
    · simpa using h
    · next g hg => simpa using hfolder g hg

theorem conclude_log (log : List Scene) (d : Desk Entry) (f : Fault) :
    (conclude folders log d f).log = log := by
  rw [conclude]
  split
  · rfl
  · split <;> rfl

/-- Each curve has as many values as the window has rows. -/
def Curves (length : Int) (log : List Scene) : Prop :=
  ∀ name values, Scene.curve name values ∈ log → (values.length : Int) = length

theorem curves_append {length xs ys} (hx : Curves length xs) (hy : Curves length ys) :
    Curves length (xs++ys) :=
  fun name values h => (List.mem_append.1 h).elim (hx name values) (hy name values)

theorem curves_opening (length : Int) : Curves length (openingScenes length) := by
  intro name values h
  simp [openingScenes, Axes.setUp] at h

theorem Session.Framed.window {s : Session Entry} (h : s.Framed length rows) (hlen : 0 ≤ length)
    {α} {xs : List α} (hxs : xs.length = rows) :
    ((windowOf s.start s.stop xs).length : Int) = length := by
  have hwidth := h.width
  rw [windowOf_length h.start_nonneg (by omega) (by rw [hxs]; exact h.stop_le), hwidth]

/-- The columns of all axes have `rows` rows. -/
def Table.Shows (t : Table) (rows : Nat) : Prop :=
  ∀ a ∈ sensorAxes, ∀ labels : Column, labels.length = rows →
    (columnNow t labels a.column).length = rows

theorem curves_frame {s s'} (hlen : 0 ≤ length) (ht : t.Shows rows)
    (h : s.Framed length rows) (h' : s'.Framed length rows) :
    Curves length (frameScenes t s s') := by
  intro name values hmem
  rw [frameScenes, List.mem_append, List.mem_map] at hmem
  obtain ⟨a,ha,heq⟩ | htold := hmem
  · cases heq
    exact h.window hlen (ht a (List.mem_of_mem_filter ha) _ h'.rows_eq)
  · simp at htold

theorem frames_curves (hlen : 0 ≤ length) (hrows : length ≤ rows) (ht : t.Shows rows)
    (keys : List (List String)) : ∀ {d} {log}, d.session.Framed length rows →
      Curves length log → (frames file folders t keys d log).fault ≠ some .requirement ∧
        Curves length (frames file folders t keys d log).log := by
  induction keys with
  | nil =>
    intro d log hd hlog
    exact ⟨by simp [frames],hlog⟩
  | cons now rest ih =>
    intro d log hd hlog
    have hwindow := hd.window hlen hd.rows_eq
    have hframe := framed_frame file (d := { d with pending := now }) hrows hd
    simp only [frames]
    rw [if_neg (by rw [hwindow, hd.length_eq]; simp)]
    split
    · next heq =>
      rw [conclude_log]
      exact ⟨conclude_fault _ _ (frame_fault heq),hlog⟩
    · next heq =>
      rw [heq] at hframe
      exact ih (hframe.status "") (curves_append hlog (curves_frame hlen ht hd hframe))

end

def Table.Even (t : Table) : Prop := ∀ c ∈ t.columns, c.2.length = t.length

theorem Table.lookup_of_has {t : Table} (h : t.has name) :
    ∃ c, t.columns.lookup name = some c ∧ (name,c) ∈ t.columns := by
  obtain ⟨entry,hentry,rfl⟩ := List.mem_map.1 (List.contains_iff_mem.1 h)
  have hsome : (t.columns.lookup entry.1).isSome := List.lookup_isSome_iff.2 ⟨entry,hentry,by simp⟩
  obtain ⟨c,hc⟩ := Option.isSome_iff_exists.1 hsome
  obtain ⟨before,behind,heq,-⟩ := List.lookup_eq_some_iff.1 hc
  exact ⟨c,hc,by simp [heq]⟩

theorem withLabels_even {t} (h : t.Even) {c} (hc : c ∈ (withLabels t).columns) :
    c.2.length = t.length := by
  rw [withLabels] at hc
  split at hc
  · exact h c hc
  · next hnew =>
    rw [Table.fill, Table.put, if_neg hnew, List.mem_append, List.mem_singleton] at hc
    rcases hc with hc | rfl
    · exact h c hc
    · exact List.length_replicate

theorem withLabels_has (t : Table) : (withLabels t).has "mlabel" := by
  rw [withLabels]
  split
  · assumption
  · next hnew =>
    rw [Table.fill, Table.put, if_neg hnew]
    simp [Table.has, Table.names]

theorem column_length {t} (h : t.Even) (hname : (withLabels t).has name) :
    (((withLabels t).columns.lookup name).getD []).length = t.length := by
  obtain ⟨c,hc,hmem⟩ := Table.lookup_of_has hname
  rw [hc]
  exact withLabels_even h hmem

theorem columnNow_length {t} (h : t.Even) (hname : (withLabels t).has name)
    {labels} (hlabels : labels.length = t.length) :
    (columnNow (withLabels t) labels name).length = t.length := by
  rw [columnNow]
  split
  · exact hlabels
  · exact column_length h hname

theorem watch_curves {file folders t length} (stride : Int)
    (hlen : 0 ≤ length) (heven : t.Even) (hrows : length ≤ t.length) (keys : List (List String)) :
    (watch file folders keys length stride t).fault ≠ some .requirement ∧
      Curves length (watch file folders keys length stride t).log := by
  rw [watch, if_neg (by omega)]
  simp only
  split
  · exact ⟨by simp,curves_opening length⟩
  · next hall =>
    have hshows : (withLabels t).Shows t.length := by
      intro a ha labels hlabels
      refine columnNow_length heven ?_ hlabels
      simpa using List.find?_eq_none.1 hall
        a.column (List.mem_cons_of_mem _ (List.mem_map_of_mem ha))
    exact frames_curves hlen hrows hshows _
      (Session.framed_opening stride (column_length heven (withLabels_has t)) hrows)
      (curves_opening length)

/-- Over a recording of at least `length` rows, the window of a session holds `length` rows after
any keys, each of the axes gets `length` values, no key but those that end the session stops it, and
a further key changes labels only if it is a label key and the window stands: then the rows of the
window hold that label and no other row changes. A whole session, frame by frame, draws `length`
values a curve and never fails on their number. -/
theorem labelling_window (file : String) (t : Table) (length stride : Int) (hlen : 0 ≤ length)
    (heven : t.Even) (hrows : length ≤ t.length) : (∀ (d : Desk Entry) (keys : List String),
      d.session = Session.opening length stride (((withLabels t).columns.lookup "mlabel").getD []) →
      let reached := drain readLabel file sessionKeys keys d
      let s := reached.1.session
      (0 ≤ s.start ∧ s.stop-s.start = length ∧ s.stop ≤ t.length ∧ s.labels.length = t.length) ∧
      (∀ a ∈ sensorAxes, (withLabels t).has a.column →
        ((windowOf s.start s.stop (columnNow (withLabels t) s.labels a.column)).length : Int) =
          length) ∧
      ((∀ k ∈ keys, sessionKeys.lookup k ≠ some .quit) → reached.2 = none) ∧
      ∀ key : String,
        let s' := (drain readLabel file sessionKeys [key] reached.1).1.session
        (sessionKeys.lookup key = some .label → s.mode = .paused →
          s'.start = s.start ∧ s'.stop = s.stop ∧ ∃ n, Number.readInt? key = some n ∧
            ∀ i : Nat, s'.labels[i]? =
              if s.start ≤ i ∧ i < s.stop then some (.whole n) else s.labels[i]?) ∧
        (sessionKeys.lookup key ≠ some .label ∨ s.mode ≠ .paused → s'.labels = s.labels)) ∧
    ∀ (folders : List String) (keys : List (List String)),
      (watch file folders keys length stride t).fault ≠ some .requirement ∧
        Curves length (watch file folders keys length stride t).log := by
  refine ⟨?_,fun folders keys => watch_curves stride hlen heven hrows keys⟩
  intro d keys hd
  have hopen : d.session.Framed length t.length := by
    rw [hd]
    exact Session.framed_opening stride (column_length heven (withLabels_has t)) hrows
  have hframed := framed_drain file hrows keys hopen
  refine ⟨⟨hframed.start_nonneg,hframed.width,hframed.stop_le,hframed.rows_eq⟩,?_,?_,?_⟩
  · intro a _ hcol
    exact hframed.window hlen (columnNow_length heven hcol hframed.rows_eq)
  · exact fun hkeys => drain_goes_on hkeys d
  · exact fun key => ⟨key_labels_window hframed hlen,key_labels⟩

def shortRecording : Table :=
  ⟨["ax", "ay", "az", "gx", "gy", "gz", "toggle"].map fun name => (name,[0, 1, 2, 3, 4].map .whole)⟩

def shortSession : Session Entry :=
  Session.opening 3 2 (((withLabels shortRecording).columns.lookup "mlabel").getD [])

/-- A window of three of five rows that moved on, stopped and was pushed against the end. -/
theorem labelling_window_at_end : let reached :=
      (drain readLabel "walk.csv" sessionKeys ["default", " ", "right"] ⟨shortSession,[],"",none⟩).1
    let s := reached.session
    let s' := (drain readLabel "walk.csv" sessionKeys ["4"] reached).1.session
    shortRecording.Even ∧ (3 : Int) ≤ shortRecording.length ∧ s.start = 2 ∧ s.stop-s.start = 3 ∧
      s'.labels[1]? = s.labels[1]? ∧ s'.labels[4]? = some (.whole 4) ∧
      (watch "walk.csv" [] [[" "], ["4"]] 3 2 shortRecording).fault ≠ some .requirement := by
  have heven : shortRecording.Even := by simp [Table.Even, shortRecording, Table.length]
  have hrows : (3 : Int) ≤ shortRecording.length := by decide
  obtain ⟨hkeys,hwatch⟩ := labelling_window "walk.csv" shortRecording 3 2 (by decide) heven hrows
  obtain ⟨⟨-,hwidth,-⟩,-,-,hlabel⟩ := hkeys ⟨shortSession,[],"",none⟩ ["default", " ", "right"] rfl
  obtain ⟨-,-,n,hn,hrow⟩ := (hlabel "4").1 rfl rfl
  have hfour : Number.readInt? "4" = some 4 := by decide
  rw [hfour, Option.some.injEq] at hn
  subst hn
  exact ⟨heven,hrows,rfl,hwidth,hrow 1,hrow 4,(hwatch [] [[" "], ["4"]]).1⟩

end MicroLearn.Gesture
