import MicroLearn.Proofs.Confined

/-!
# Closed code

Code is closed in a set of names if every variable in it has one of these names or is that of
a loop around it. Putting a closed place for a name closes the code that has this name open.
-/

set_option autoImplicit false

namespace MicroLearn.Code

open Term

/-- All variables of the term have their names among `K`, also those in its indices. -/
def Term.Within (K : String → Prop) (t : Term) : Prop := ∀ x, t.mentions x = true → K x

theorem anyMentions_iff {x ts} : anyMentions x ts = true ↔ ∃ t ∈ ts, t.mentions x = true := by
  induction ts with
  | nil => simp [anyMentions]
  | cons t ts ih => simp [anyMentions, ih]

section Terms

variable {K K' : String → Prop}
variable {t e a b : Term} {y : String} {index : List Term}

theorem Term.Within.mono (h : t.Within K) (hK : ∀ x, K x → K' x) : t.Within K' :=
  fun x hx => hK x (h x hx)

@[simp] theorem within_int (n : Int) : (Term.int n).Within K := by
  intro x hx
  simp [mentions] at hx

@[simp] theorem within_bool (b : Bool) : (Term.bool b).Within K := by
  intro x hx
  simp [mentions] at hx

@[simp] theorem within_var {inFlash} :
    (Term.var y index inFlash).Within K ↔ K y ∧ ∀ t ∈ index, t.Within K := by
  simp only [Within, mentions, Bool.or_eq_true, beq_iff_eq, anyMentions_iff]
  constructor
  · intro h
    exact ⟨h y (.inl rfl),fun t ht x hx => h x (.inr ⟨t,ht,hx⟩)⟩
  · rintro ⟨hy,hindex⟩ x (rfl | ⟨t,ht,hx⟩)
    · exact hy
    · exact hindex t ht x hx

@[simp] theorem within_plain : (plain y).Within K ↔ K y := by simp [plain]

@[simp] theorem within_unary {op} :
    (Term.unary op e).Within K ↔ e.Within K := by simp [Within, mentions]

@[simp] theorem within_arith {op} : (Term.arith a op b).Within K ↔ a.Within K ∧ b.Within K := by
  simp [Within, mentions, or_imp, forall_and]

@[simp] theorem within_logic {op} : (Term.logic a op b).Within K ↔ a.Within K ∧ b.Within K := by
  simp [Within, mentions, or_imp, forall_and]

@[simp] theorem within_compare {op} : (Term.compare a op b).Within K ↔ a.Within K ∧ b.Within K := by
  simp [Within, mentions, or_imp, forall_and]

@[simp] theorem within_select {c} : (Term.select c a b).Within K ↔ c.Within K ∧ a.Within K ∧
    b.Within K := by
  simp [Within, mentions, or_imp, forall_and, and_assoc]

@[simp] theorem within_exp : (Term.exp e).Within K ↔ e.Within K := by
  simp [Within, mentions]

@[simp] theorem within_cast {type} :
    (Term.cast type e).Within K ↔ e.Within K := by simp [Within, mentions]

@[simp] theorem within_inMemory : t.inMemory.Within K ↔ t.Within K := by
  simp [Within]

theorem Term.Within.at (h : t.Within K) {more} (hmore : ∀ u ∈ more, u.Within K) :
    (t.at more).Within K := by
  cases t with
  | var y index inFlash =>
    rw [within_var] at h
    rw [Term.at, within_var]
    refine ⟨h.1,fun u hu => ?_⟩
    rcases List.mem_append.1 hu with hu | hu
    · exact h.2 u hu
    · exact hmore u hu
  | _ => exact h

def Replacement.Within (K : String → Prop) (r : Replacement) : Prop := (r.at [] true).Within K

theorem Replacement.Within.at {r : Replacement} (h : r.Within K)
    (hindex : ∀ t ∈ index, t.Within K) (inFlash : Bool) : (r.at index inFlash).Within K := by
  cases r with
  | var name own flash =>
    simp only [Replacement.Within, Replacement.at, List.append_nil, within_var] at h
    rw [Replacement.at, within_var]
    refine ⟨h.1,fun t ht => ?_⟩
    rcases List.mem_append.1 ht with ht | ht
    · exact h.2 t ht
    · exact hindex t ht
  | int n => exact within_int n

theorem replacement_within {r} (hr : t.replacement? = some r) (h : t.Within K) : r.Within K := by
  cases t with
  | var name index inFlash =>
    obtain rfl := Option.some.inj hr
    simpa [Replacement.Within, Replacement.at] using h
  | int n =>
    obtain rfl := Option.some.inj hr
    exact within_int n
  | _ => cases hr

mutual

theorem within_subst {x : String} {r : Replacement} (hr : r.Within K) : ∀ t : Term,
    t.Within (fun y => K y ∨ y = x) → (t.subst x r).Within K
  | .int n, _ => within_int n
  | .bool b, _ => within_bool b
  | .var y index inFlash, h => by
    rw [within_var] at h
    have hindex := within_substAll hr index h.2
    rw [subst]
    split
    · exact hr.at hindex inFlash
    · rename_i hy
      rw [within_var]
      exact ⟨h.1.resolve_right hy,hindex⟩
  | .unary _ e, h | .exp e, h | .cast _ e, h => by
    simp only [subst, within_unary, within_exp, within_cast] at h ⊢
    exact within_subst hr e h
  | .arith a _ b, h | .logic a _ b, h | .compare a _ b, h => by
    simp only [subst, within_arith, within_logic, within_compare] at h ⊢
    exact ⟨within_subst hr a h.1,within_subst hr b h.2⟩
  | .select c a b, h => by
    rw [within_select] at h
    rw [subst, within_select]
    exact ⟨within_subst hr c h.1,within_subst hr a h.2.1,within_subst hr b h.2.2⟩

theorem within_substAll {x r} (hr : r.Within K) : ∀ ts : List Term,
    (∀ t ∈ ts, t.Within (fun y => K y ∨ y = x)) → ∀ t ∈ substAll x r ts, t.Within K
  | [], _ => nofun
  | t::ts, h => by
    rw [List.forall_mem_cons] at h
    rw [substAll, List.forall_mem_cons]
    exact ⟨within_subst hr t h.1,within_substAll hr ts h.2⟩

end

theorem mem_substArgs {x r seen ts u} (h : u ∈ substArgs x r seen ts) :
    ∃ t ∈ ts, u = t.subst x r := by
  induction ts generalizing seen with
  | nil => cases h
  | cons t ts ih =>
    have hlater : ∀ {seen}, u ∈ substArgs x r seen ts → ∃ t' ∈ t::ts, u = t'.subst x r :=
      fun h => (ih h).imp fun _ => And.imp_left (List.mem_cons_of_mem t)
    have hhere : ∀ {seen}, u ∈ t.subst x r::substArgs x r seen ts → ∃ t' ∈ t::ts,
        u = t'.subst x r :=
      fun h => (List.mem_cons.1 h).elim (fun h => ⟨t,List.mem_cons_self ..,h⟩) hlater
    rw [substArgs] at h
    split at h
    · split at h
      · exact hlater h
      · exact hhere h
    · exact hhere h

end Terms

mutual

/-- Every variable of the instruction is among `K` or that of a loop around it, which is among
`L`. -/
def Instr.Closed (L K : String → Prop) : Instr → Prop
  | .assign target value => target.Within K ∧ value.Within K
  | .branch c yes no => c.Within K ∧ Instr.ClosedAll L K yes ∧ Instr.ClosedAll L K no
  | .count iterator _ c body => ∃ x, iterator = plain x ∧ L x ∧
      c.Within (fun y => K y ∨ y = x) ∧ Instr.ClosedAll L (fun y => K y ∨ y = x) body
  | .repeatWhile c body => c.Within K ∧ Instr.ClosedAll L K body
  | .call _ args => ∀ t ∈ args, t.Within K
  | .clear e _ => e.Within K
  | .output e => e.Within K
  | .outputScaled e _ => e.Within K
  | .comment _ => True
  | .block body => Instr.ClosedAll L K body

def Instr.ClosedAll (L K : String → Prop) : List Instr → Prop
  | [] => True
  | i::is => i.Closed L K ∧ Instr.ClosedAll L K is

end

section Code

variable {L : String → Prop}
variable {code : List Instr} {t e : Term} {n : Int}

@[simp] theorem closedAll_append {K a b} :
    Instr.ClosedAll L K (a++b) ↔ Instr.ClosedAll L K a ∧ Instr.ClosedAll L K b := by
  induction a with
  | nil => simp [Instr.ClosedAll]
  | cons i a ih => simp [Instr.ClosedAll, ih, and_assoc]

theorem closedAll_iff {K} : Instr.ClosedAll L K code ↔ ∀ i ∈ code, i.Closed L K := by
  induction code with
  | nil => simp [Instr.ClosedAll]
  | cons i code ih => simp [Instr.ClosedAll, ih]

mutual

theorem Instr.Closed.mono {K K'} (hK : ∀ x, K x → K' x) : ∀ i : Instr, i.Closed L K → i.Closed L K'
  | .assign _ _, h => ⟨h.1.mono hK,h.2.mono hK⟩
  | .branch _ yes no, h =>
    ⟨h.1.mono hK,Instr.ClosedAll.mono hK yes h.2.1,Instr.ClosedAll.mono hK no h.2.2⟩
  | .count _ _ _ body, ⟨x,hi,hL,hc,hbody⟩ =>
    have hK' : ∀ y, K y ∨ y = x → K' y ∨ y = x := fun y => Or.imp_left (hK y)
    ⟨x,hi,hL,hc.mono hK',Instr.ClosedAll.mono hK' body hbody⟩
  | .repeatWhile _ body, h => ⟨h.1.mono hK,Instr.ClosedAll.mono hK body h.2⟩
  | .call _ _, h => fun t ht => (h t ht).mono hK
  | .clear _ _, h | .output _, h | .outputScaled _ _, h => Within.mono h hK
  | .comment _, _ => trivial
  | .block body, h => Instr.ClosedAll.mono hK body h

theorem Instr.ClosedAll.mono {K K'} (hK : ∀ x, K x → K' x) :
    ∀ is : List Instr, Instr.ClosedAll L K is → Instr.ClosedAll L K' is
  | [], _ => trivial
  | i::is, h => ⟨Instr.Closed.mono hK i h.1,Instr.ClosedAll.mono hK is h.2⟩

end

mutual

theorem closed_subst {K x r} (hr : r.Within K) :
    ∀ i : Instr, i.Closed L (fun y => K y ∨ y = x) → (i.subst x r).Closed L K
  | .assign target value, h => ⟨within_subst hr target h.1,within_subst hr value h.2⟩
  | .branch c yes no, h =>
    ⟨within_subst hr c h.1,closedAll_subst hr yes h.2.1,closedAll_subst hr no h.2.2⟩
  | .count _ _ c body, ⟨z,hi,hL,hc,hbody⟩ => by
    have hr' : r.Within (fun y => K y ∨ y = z) := Within.mono hr fun _ => .inl
    -- the name that is replaced and the variable of the loop change places
    have hswap : ∀ y, (K y ∨ y = x) ∨ y = z → (K y ∨ y = z) ∨ y = x := fun y => or_right_comm.1
    exact ⟨z,hi,hL,within_subst hr' c (hc.mono hswap),
      closedAll_subst hr' body (Instr.ClosedAll.mono hswap body hbody)⟩
  | .repeatWhile c body, h => ⟨within_subst hr c h.1,closedAll_subst hr body h.2⟩
  | .call f args, h => by
    intro u hu
    obtain ⟨t,ht,rfl⟩ := mem_substArgs hu
    exact within_subst hr t (h t ht)
  | .clear e _, h | .output e, h | .outputScaled e _, h => within_subst hr e h
  | .comment _, _ => trivial
  | .block body, h => closedAll_subst hr body h

theorem closedAll_subst {K x r} (hr : r.Within K) :
    ∀ is : List Instr, Instr.ClosedAll L (fun y => K y ∨ y = x) is →
      Instr.ClosedAll L K (Instr.substAll x r is)
  | [], _ => trivial
  | i::is, h => ⟨closed_subst hr i h.1,closedAll_subst hr is h.2⟩

end

theorem Term.Within.not_mentions {K v} (h : t.Within K) (hv : ¬ K v) : t.mentions v = false := by
  rw [← Bool.not_eq_true]
  exact fun hm => hv (h v hm)

mutual

theorem Instr.Closed.not_mentions {K v} (hL : ¬ L v) (hv : ¬ K v) :
    ∀ i : Instr, i.Closed L K → i.mentions v = false
  | .assign _ _, h => by simp [Instr.mentions, h.1.not_mentions hv, h.2.not_mentions hv]
  | .branch _ yes no, h => by
    simp [Instr.mentions, h.1.not_mentions hv, Instr.ClosedAll.not_mentions hL hv yes h.2.1,
      Instr.ClosedAll.not_mentions hL hv no h.2.2]
  | .count _ _ _ body, ⟨x,_,hx,hc,hbody⟩ => by
    have hv' : ¬ (K v ∨ v = x) := by
      rintro (h | rfl)
      · exact hv h
      · exact hL hx
    simp [Instr.mentions, hc.not_mentions hv', Instr.ClosedAll.not_mentions hL hv' body hbody]
  | .repeatWhile _ body, h => by
    simp [Instr.mentions, h.1.not_mentions hv, Instr.ClosedAll.not_mentions hL hv body h.2]
  | .call _ args, h => by
    rw [Instr.mentions, ← Bool.not_eq_true, anyMentions_iff]
    rintro ⟨t,ht,hm⟩
    exact hv (h t ht v hm)
  | .clear _ _, h | .output _, h | .outputScaled _ _, h => Within.not_mentions h hv
  | .comment _, _ => rfl
  | .block body, h => Instr.ClosedAll.not_mentions hL hv body h

theorem Instr.ClosedAll.not_mentions {K v} (hL : ¬ L v) (hv : ¬ K v) :
    ∀ is : List Instr, Instr.ClosedAll L K is → Instr.anyMentions v is = false
  | [], _ => rfl
  | i::is, h => by
    simp [Instr.anyMentions, Instr.Closed.not_mentions hL hv i h.1,
      Instr.ClosedAll.not_mentions hL hv is h.2]

end

variable {K : String → Prop} {s : Settings}

theorem nest_closed {shape} {names : List String} {body}
    (h : nest s shape (names.map plain) body = .ok code) (hlength : names.length = shape.length)
    (hL : ∀ x ∈ names, L x) (hbody : Instr.ClosedAll L (fun y => K y ∨ y ∈ names) body) :
    Instr.ClosedAll L K code := by
  rw [nest_ok h]
  clear h
  induction names generalizing K shape with
  | nil => simpa [nested] using hbody
  | cons x names ih =>
    cases shape with
    | nil => cases hlength
    | cons n shape =>
      rw [List.forall_mem_cons] at hL
      have hopen : Instr.ClosedAll L (fun y => (K y ∨ y = x) ∨ y ∈ names) body := by
        refine hbody.mono (fun y => ?_) body
        rw [List.mem_cons, or_assoc]
        exact id
      exact ⟨⟨x,rfl,hL.1,by simp [lt],ih (Nat.succ.inj hlength) hL.2 hopen⟩,trivial⟩

theorem shiftLeft_within (h : shiftLeft s e n = .ok t) (he : e.Within K) : t.Within K := by
  obtain ⟨_,-,h⟩ := bind_ok h
  split at h
  · rwa [← Except.ok.inj h]
  · cases literal_bind h
    simp [he]

theorem shiftRight_within (h : shiftRight s e n = .ok t) (he : e.Within K) : t.Within K := by
  obtain ⟨_,-,h⟩ := bind_ok h
  split at h
  · rwa [← Except.ok.inj h]
  · cases literal_bind h
    simp [he]

theorem scaleDown_within (h : scaleDown s e n = .ok t) (he : e.Within K) : t.Within K := by
  obtain ⟨_,-,h⟩ := bind_ok h
  split at h
  · rwa [← Except.ok.inj h]
  split at h
  · cases literal_bind h
    simp [absoluteShift, ifPositive, gt, zero, negate, he]
  · cases literal_bind (literal_bind h)
    simp [ifPositive, gt, zero, add, he]
  · cases literal_bind h
    simp [div, he]
  · cases literal_bind h
    simp [ifPositive, gt, zero, he]
  · cases h

end Code

end MicroLearn.Code
