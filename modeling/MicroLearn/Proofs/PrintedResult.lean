import MicroLearn.Proofs.Cells
import MicroLearn.Proofs.ClosedPrograms

/-!
# How a result is printed

The loops behind a program go by the shape that the variable of the result is declared with,
and add all their indices to those the result has. So a result that is a part of a variable is
printed with too many indices, and one that is no variable is not printed.
-/

set_option autoImplicit false

namespace MicroLearn.Code

variable {s : Settings} {p : Printer} {scales : List (String × Int)} {depth : Nat} {x : String}
  {index : List Term} {inFlash : Bool} {dims : List Int} {exponent : Int} {body loops : List Instr}

theorem resultNames_nodup {n : Nat} (h : 105+n ≤ 0xD800) : (resultNames n).Nodup := by
  refine List.Nodup.map_on (fun a ha b hb hab => ?_) List.nodup_range
  rw [List.mem_range] at ha hb
  have hchar : Char.ofNat (105+a) = Char.ofNat (105+b) := by
    simpa using congrArg String.toList hab
  have hval : ∀ k < n, (Char.ofNat (105+k)).toNat = 105+k := fun k hk => by
    rw [Char.toNat_ofNat, if_pos (.inl (by omega))]
  have hsum := congrArg Char.toNat hchar
  rw [hval a ha, hval b hb] at hsum
  omega

theorem values_append (M : Machine) (m : Memory) (ts us : List Term) :
    Term.values M m (ts++us) = Term.values M m ts++Term.values M m us := by
  induction ts with
  | nil => rfl
  | cons t ts ih => exact congrArg (t.value M m :: ·) ih

theorem length_values (M : Machine) (m : Memory) (ts : List Term) :
    (Term.values M m ts).length = ts.length := by
  induction ts with
  | nil => rfl
  | cons t ts ih => exact congrArg (· + 1) ih

theorem resultLoops_run (hloops : resultLoops s (.var x index inFlash) dims exponent = .ok loops)
    (hrank : 105+dims.length ≤ 0xD800)
    (hapart : ∀ y ∈ resultNames dims.length, (Term.var x index inFlash).mentions y = false)
    (M : Machine) (m : Memory) : ∃ m', Run M loops m ((cells dims).map fun c =>
      .shown (.place x (Term.values M m index++c)) exponent) m' := by
  have hlength : (resultNames dims.length).length = dims.length := by simp [resultNames]
  have hvalues : ∀ m' y n, y ∈ resultNames dims.length →
    Term.values M m' index = Term.values M m index →
      Term.values M ((plain y).store M m' n) index = Term.values M m index := by
    intro m' y n hy hm'
    rw [← hm']
    refine Term.values_congr index fun z hz => store_plain_ne n ?_
    rintro rfl
    simpa [Term.mentions, hz] using hapart z hy
  have hplace : ∀ m', Term.values M m' index = Term.values M m index →
      ((Term.var x index inFlash).at ((resultNames dims.length).map plain)).operand M m' =
        .place x (Term.values M m index++scalars m' (resultNames dims.length)) := by
    intro m' hm'
    rw [← hm', ← values_plain (M := M), ← values_append]
    rfl
  suffices h : ∃ log m', Run M loops m log m' ∧ log = ((cells dims).map fun c =>
      .shown (.place x (Term.values M m index++c)) exponent) ∧
          Term.values M m' index = Term.values M m index by
    obtain ⟨log,m',hrun,rfl,-⟩ := h
    exact ⟨m',hrun⟩
  refine nest_run (P := fun done log m' => log = (done.map fun c =>
      .shown (.place x (Term.values M m index++c)) exponent) ∧
        Term.values M m' index = Term.values M m index)
    hlength (resultNames_nodup hrank) hloops (fun _ _ m' y n hy h => ⟨h.1,hvalues m' y n hy h.2⟩)
      ?_ ⟨rfl,rfl⟩
  rintro done log m'-⟨rfl,hindex⟩
  refine ⟨_,m',.shown .nil,⟨?_,hindex⟩,rfl⟩
  rw [hplace m' hindex, List.map_append]
  rfl

theorem nest_isOk {names : List Term} (h : names.length = dims.length) :
    (∃ code, nest s dims names body = .ok code) ↔ ∀ d ∈ dims, number s d = .ok d := by
  induction dims generalizing names with
  | nil => simp [nest]
  | cons d dims ih =>
    obtain ⟨i,names,rfl⟩ := List.exists_cons_of_length_eq_add_one h
    rw [List.forall_mem_cons, and_comm, ← ih (Nat.succ.inj h)]
    constructor
    · rintro ⟨code,hcode⟩
      obtain ⟨inner,hinner,hcode⟩ := bind_ok hcode
      obtain ⟨t,ht,-⟩ := bind_ok hcode
      obtain ⟨k,hk,-⟩ := bind_ok ht
      exact ⟨⟨inner,hinner⟩,hk.trans (congrArg _ (number_ok hk))⟩
    · rintro ⟨⟨inner,hinner⟩,hd⟩
      rw [nest, hinner, literal, hd]
      exact ⟨_,rfl⟩

theorem ending_isVar {t : Term} {text : String} (h : p.ending scales depth (.term t) = .ok text) :
    ∃ x index inFlash, t = .var x index inFlash := by
  obtain ⟨t',ht,h⟩ := bind_ok h
  obtain rfl : t = t' := Except.ok.inj ht
  obtain ⟨name,hname,-⟩ := bind_ok h
  cases t with
  | var x index inFlash => exact ⟨x,index,inFlash,rfl⟩
  | _ => cases hname

theorem ending_loops (htype : p.types.lookup x = some (.tensor dims)) (hdims : dims ≠ [])
    (hscale : scales.lookup x = some exponent) :
    p.ending scales depth (.term (.var x index inFlash)) = (do
      let loops ← resultLoops p.settings (.var x index inFlash) dims exponent
      let body ← p.body depth loops
      return "\n"++body++tabs (depth-1)++"\x7d\n") := by
  have hname : (Term.var x index inFlash).varName = pure x := rfl
  simp [Printer.ending, hname, htype, hscale, hdims]

end MicroLearn.Code

namespace MicroLearn.Lower

open Code
open Lang (Ty Expr)

/-- Take a program that is typed and lowered, with distinct names. Only a variable or a part of one
is printed as its result. If the program is a tensor, its result is a part of a variable, and what
is printed is the text of loops. There are such loops if and only if all dimensions that the
variable is declared with fit a word. Unless a name of theirs occurs in the result, every run of
them prints one place for each cell of the variable, in row-major order, with the indices of the
cell behind those of the result. So there are as many indices as the variable has if and only if the
result has none. -/
theorem result_printed {job : Job} {e₀ : Expr Unit} {e : Expr Ty} {s : Settings}
    {code : List Instr} {result : Term} {st : State} (htyped : job.typed e₀ = .ok (e,s))
    (hlowered : job.lowered s e = .ok ((code,result),st)) (hnodup : e₀.binders.Nodup)
    (hnames : ∀ v ∈ e₀.binders, ¬ Reserved v) (hmodels : e.modelsBound = true)
    (horders : e.ordersFit = true) :
    (∀ depth text, (⟨s,st.types⟩ : Printer).ending st.scales depth (.term result) = .ok text →
      ∃ x index inFlash, result = .var x index inFlash) ∧
    ∀ shape, e.note = .tensor shape → ∃ x index inFlash dims, result = .var x index inFlash ∧
      st.types.lookup x = some (.tensor dims) ∧ dims.drop index.length = shape ∧
      (dims ≠ [] → ∀ depth exponent, st.scales.lookup x = some exponent →
        (⟨s,st.types⟩ : Printer).ending st.scales depth (.term result) = (do
          let loops ← resultLoops s result dims exponent
          let body ← (⟨s,st.types⟩ : Printer).body depth loops
          return "\n"++body++tabs (depth-1)++"\x7d\n")) ∧
      ∀ exponent, ((∃ loops, resultLoops s result dims exponent = .ok loops) ↔
          ∀ d ∈ dims, Code.number s d = .ok d) ∧
        ∀ loops, resultLoops s result dims exponent = .ok loops → 105+dims.length ≤ 0xD800 →
          (∀ y ∈ resultNames dims.length, result.mentions y = false) → ∀ M m,
            (∃ m', Run M loops m ((cells dims).map fun c =>
              .shown (.place x (Term.values M m index++c)) exponent) m') ∧
            ∀ c ∈ cells dims, (Term.values M m index++c).length = dims.length ↔ index = [] := by
  refine ⟨fun depth text h => ending_isVar h,fun shape hshape => ?_⟩
  obtain ⟨htype,-,hbinders,-,-⟩ := job.typed_ok htyped
  rw [← hbinders] at hnodup hnames
  obtain ⟨cx,-,hrun⟩ := bind_ok hlowered
  have hfresh : Fresh [] [] e.binders := by
    refine ⟨hnodup,by simp,fun x hx => ?_⟩
    have hx' := hnames x (by simpa using hx)
    exact ⟨fun h => hx' (.inl h),fun h => hx' (.inr (.inl h))⟩
  obtain ⟨-,hvalue⟩ :=
    typed_closing htype [] [] ⟨⟨[],[],0⟩,0⟩ hmodels horders hfresh nofun {} _ st rfl hrun
  obtain ⟨x,index,inFlash,dims,rfl,hdims,hx⟩ := hvalue.holds hshape
  have hlookup : st.types.lookup x = some (.tensor dims) := by
    rcases hx with ⟨hmem,-⟩ | ⟨hlookup,-⟩
    · cases hmem
    · exact hlookup
  refine ⟨x,index,inFlash,dims,rfl,hlookup,hdims,
    fun hne depth exponent hscale => ending_loops hlookup hne hscale,fun exponent =>
    ⟨nest_isOk (by simp [resultNames]),fun loops hloops hrank hapart M m =>
      ⟨resultLoops_run hloops hrank hapart M m,fun c hc => ?_⟩⟩⟩
  rw [List.length_append, length_values, (mem_cells.1 hc).length_eq, ← List.length_eq_zero_iff]
  omega

namespace FirstPart

/-- `let W = [2,2,3] in … in W[0]` -/
def job : Job :=
  { ReshapedSum.job with tree := .bind "W" (.decl ["2", "2", "3"] "-1.0" "1.0") (.index (.name "W")
    (.int "0")) }

theorem covered : job.passes (fun e0 e => e0.binders == ["W"] && e.modelsBound && e.ordersFit &&
    e.note == .tensor [2, 3]) = true := by decide +kernel

/-- The result has one index, its variable three dimensions, and no loop name occurs in it. -/
theorem indexed : (job.tree.read.toOption.any fun e₀ => (job.typed e₀).toOption.any fun (e,s) =>
    [2, 2, 3].all (fun d => (Code.number s d).toOption == some d) &&
    (job.lowered s e).toOption.any fun ((_,result),st) => match result with
      | .var x index _ => index.length == 1 && st.types.lookup x == some (.tensor [2, 2, 3]) &&
        (resultNames 3).all (!result.mentions ·)
      | _ => false) = true := by decide +kernel

end FirstPart

open FirstPart in
/-- For the six cells of `W[0]` the loops print twelve, each with four indices of the three of
`W`. -/
theorem result_printed_part : ∃ e₀ e s code x index inFlash st, job.tree.read = .ok e₀ ∧
    job.typed e₀ = .ok (e,s) ∧ job.lowered s e = .ok ((code,.var x index inFlash),st) ∧
    e.note = .tensor [2, 3] ∧ st.types.lookup x = some (.tensor [2, 2, 3]) ∧ ∀ exponent M m,
      ∃ loops m', resultLoops s (.var x index inFlash) [2, 2, 3] exponent = .ok loops ∧
        Run M loops m ((cells [2, 2, 3]).map fun c =>
          .shown (.place x (Term.values M m index++c)) exponent) m' ∧
        (cells [2, 2, 3]).length = 12 ∧
        ∀ c ∈ cells [2, 2, 3], (Term.values M m index++c).length = 4 := by
  obtain ⟨e₀,e,s,code,result,st,hread,htyped,hlowered,h⟩ := Job.of_passes covered
  simp only [Bool.and_eq_true, beq_iff_eq] at h
  obtain ⟨⟨⟨hbinders,hmodels⟩,horders⟩,hnote⟩ := h
  have hnames : ∀ v ∈ ["W"], v.toList.length < 3 ∧ v.toList.head? ≠ some 'i' := by decide
  obtain ⟨x,index,inFlash,dims,rfl,htype,-,-,hprinted⟩ := (result_printed htyped hlowered
    (by rw [hbinders]; decide) (fun v hv => short_not_reserved (hnames v (hbinders ▸ hv))) hmodels
    horders).2 [2, 3] hnote
  have hindexed := indexed
  simp only [hread, htyped, hlowered, Except.toOption, Option.any_some, Bool.and_eq_true,
    beq_iff_eq, List.all_eq_true, Bool.not_eq_true'] at hindexed
  obtain ⟨hfits,⟨hindex,hdims⟩,hapart⟩ := hindexed
  obtain rfl : dims = [2, 2, 3] := by simpa [htype] using hdims
  refine ⟨e₀,e,s,code,x,index,inFlash,st,hread,htyped,hlowered,hnote,htype,fun exponent M m => ?_⟩
  obtain ⟨hexists,hloops⟩ := hprinted exponent
  obtain ⟨loops,hok⟩ := hexists.2 fun d hd => by
    have hd := hfits d hd
    split at hd
    · next hnumber => rw [hnumber, Option.some.inj hd]
    · cases hd
  obtain ⟨⟨m',hrun⟩,-⟩ := hloops loops hok (by decide) hapart M m
  refine ⟨loops,m',hok,hrun,by decide,fun c hc => ?_⟩
  rw [List.length_append, length_values, hindex, (mem_cells.1 hc).length_eq]
  rfl

end MicroLearn.Lower
