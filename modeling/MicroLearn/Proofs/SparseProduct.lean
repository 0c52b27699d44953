import MicroLearn.Proofs.TreeSum

/-!
# Sparse and dense products

The sparse form lists the nonzero entries of a matrix, row by row, beside their
columns, and ends each row with a zero. The sparse product walks through these two
streams, one row of the transposed matrix for each element of the vector. Each such
row adds its products to the sums; skipped entries would have added nothing. So the
walk ends with the same sums, modulo the word, as the dense product with its tree sum.
-/

set_option autoImplicit false

namespace MicroLearn.Model

variable {rows cols : Nat}
variable {m : Rows Int} {row : List Int}

theorem foldl_append_sparse {α} (parts : List (Sparse α)) (s : Sparse α) :
    parts.foldl Sparse.append s =
      ⟨s.values++parts.flatMap (·.values),s.indices++parts.flatMap (·.indices)⟩ := by
  induction parts generalizing s with
  | nil => simp
  | cons p parts ih => simp [ih, Sparse.append]

variable (isZero : Int → Bool)

def sparseRows (m : Rows Int) : Sparse Int :=
  ⟨m.flatMap fun row => (sparseRow isZero row).values,m.flatMap fun row =>
    (sparseRow isZero row).indices⟩

theorem toSparse_ok (h : Shaped rows cols m) (hrows : 1 ≤ rows) (isZero : Int → Bool) :
    toSparse isZero m = .ok (sparseRows isZero m) := by
  have hrest : m.mapM (firstEntries cols) = .ok m := by
    have := mapM_ok_of_forall (firstEntries cols) id m fun row hrow => by
      unfold firstEntries
      rw [if_pos (h.width row hrow).ge, List.take_of_length_le (h.width row hrow).le]
      rfl
    rwa [List.map_id] at this
  unfold toSparse
  rw [h.size_ok hrows]
  show (do let rows ← m.mapM (firstEntries cols); pure _) = _
  rw [hrest]
  show Except.ok ((m.map (sparseRow isZero)).foldl Sparse.append ⟨[],[]⟩) = _
  rw [foldl_append_sparse]
  simp [sparseRows, List.flatMap_map]

def kept (row : List Int) : List (Int × Nat) :=
  row.zipIdx.filter fun p => !isZero p.1

theorem sparseRow_values (row : List Int) :
    (sparseRow isZero row).values = (kept isZero row).map (·.1) := rfl

theorem sparseRow_indices (row : List Int) :
    (sparseRow isZero row).indices = (kept isZero row).map (fun p => p.2+1)++[0] := rfl

theorem mem_kept {isZero} {x} {j} :
    (x,j) ∈ kept isZero row ↔ row[j]? = some x ∧ isZero x = false := by
  simp [kept, List.mem_zipIdx_iff_getElem?]

theorem kept_inj {row'} (hlen : row.length = row'.length)
    (h : kept (· == 0) row = kept (· == 0) row') : row = row' := by
  have hle : ∀ {r r' : List Int}, kept (· == 0) r = kept (· == 0) r' →
      ∀ (j : Nat) (x : Int), r[j]? = some x → x ≠ 0 → r'[j]? = some x := by
    intro r r' hk j x hx hne
    have hmem : (x,j) ∈ kept (· == 0) r := mem_kept.mpr ⟨hx,by simpa using hne⟩
    rw [hk] at hmem
    exact (mem_kept.mp hmem).1
  apply List.ext_getElem hlen
  intro j hj hj'
  by_cases hzero : row[j] = 0
  · by_cases hzero' : row'[j] = 0
    · rw [hzero, hzero']
    · have := hle h.symm j _ (List.getElem?_eq_getElem hj') hzero'
      rw [List.getElem?_eq_getElem hj, Option.some.injEq] at this
      exact this
  · have := hle h j _ (List.getElem?_eq_getElem hj) hzero
    rw [List.getElem?_eq_getElem hj', Option.some.injEq] at this
    exact this.symm

theorem sparseRows_inj {m'} (hm : Shaped rows cols m) (hm' : Shaped rows cols m')
    (hvalues : (sparseRows (· == 0) m).values = (sparseRows (· == 0) m').values)
    (hindices : (sparseRows (· == 0) m).indices = (sparseRows (· == 0) m').indices) : m = m' := by
  obtain ⟨hlength,hwidth⟩ := hm
  obtain ⟨hlength',hwidth'⟩ := hm'
  rw [← hlength] at hlength'
  clear hlength
  induction m generalizing m' with
  | nil => exact (List.length_eq_zero_iff.mp hlength').symm
  | cons row m ih =>
    cases m' with
    | nil => simp at hlength'
    | cons row' m' =>
      simp only [sparseRows, List.flatMap_cons, sparseRow_values, sparseRow_indices,
        List.append_assoc] at hvalues hindices
      have hpos : ∀ r : List Int, 0 ∉ (kept (· == 0) r).map (fun p => p.2+1) := by simp
      obtain ⟨hidx,hrest⟩ := Fixed.append_mark_inj (hpos row) (hpos row') hindices
      have hcount : (kept (· == 0) row).length = (kept (· == 0) row').length := by
        simpa using congrArg List.length hidx
      obtain ⟨hval,hrest'⟩ := List.append_inj hvalues (by simpa using hcount)
      have hkept : kept (· == 0) row = kept (· == 0) row' := by
        apply List.ext_getElem hcount
        intro k hk hk'
        have h1 := List.getElem_of_eq hval (by simpa using hk)
        have h2 := List.getElem_of_eq hidx (by simpa using hk)
        simp only [List.getElem_map, Nat.add_right_cancel_iff] at h1 h2
        exact Prod.ext h1 h2
      have hrow : row = row' := by
        apply kept_inj _ hkept
        rw [hwidth row (by simp), hwidth' row' (by simp)]
      rw [hrow, ih hrest' hrest (fun r hr => hwidth r (by simp [hr])) (by simpa using hlength')
        (fun r hr => hwidth' r (by simp [hr]))]

end MicroLearn.Model

namespace MicroLearn.Device

open MicroLearn.Fixed MicroLearn.Number MicroLearn.Model
open List (append_assoc cons_append ext_getElem foldl_cons getD_eq_getElem getElem_map getElem_mem
    length_append length_map map_cons map_nil range replicate sum_nil zipWith)

variable {rows cols : Nat} {m : Rows Int} (shrA shrC factor : Int)

def product (shrA shrC factor x : Int) : Int := div16 (wrap 16 (div16 x shrA*factor)) shrC

/-- The sums after one column, of which each entry adds its term. -/
def addColumn (term : Int → Int) (col sums : List Int) : List Int :=
  zipWith (fun x y => wrap 16 (y+term x)) col sums

theorem addColumn_length (term : Int → Int) (col sums : List Int) (h : col.length = sums.length) :
    (addColumn term col sums).length = sums.length := by
  simp [addColumn, h]

theorem addColumn_inWord (term : Int → Int) (col sums : List Int) :
    ∀ y ∈ addColumn term col sums, InWord 16 y := by
  intro y hy
  simp only [addColumn, List.mem_iff_getElem, List.getElem_zipWith] at hy
  obtain ⟨i,hi,rfl⟩ := hy
  exact wrap_inWord (by decide) _

theorem zeros_inWord : ∀ y ∈ replicate rows (0 : Int), InWord 16 y := by
  intro y hy
  rw [List.eq_of_mem_replicate hy]
  decide

theorem modify_middle (done sums : List Int) (y : Int) (g : Int → Int) :
    (done++y::sums).modify done.length g = done++g y::sums := by
  simp [List.modify_eq_take_cons_drop]

theorem foldl_kept_from (f : Int → Int → Int) (col done sums : List Int)
    (hlen : col.length = sums.length) (hzero : ∀ y ∈ sums, f 0 y = y) :
    ((col.zipIdx done.length).filter fun p => !(p.1 == 0)).foldl (fun c p => c.modify p.2 (f p.1))
      (done++sums) = done++zipWith f col sums := by
  induction col generalizing done sums with
  | nil =>
    rw [List.length_eq_zero_iff.mp hlen.symm]
    rfl
  | cons x col ih =>
    cases sums with
    | nil => simp at hlen
    | cons y sums =>
      have hrest := ih (done++[f x y]) sums (by simpa using hlen)
        (fun z hz => hzero z (by simp [hz]))
      simp only [append_assoc, List.singleton_append, length_append, List.length_singleton] at hrest
      rw [List.zipIdx_cons, List.zipWith_cons_cons]
      by_cases hx : x = 0
      · rw [List.filter_cons_of_neg (by simp [hx]), ← hrest, hx, hzero y (by simp)]
      · rw [List.filter_cons_of_pos (by simp [hx]), foldl_cons, modify_middle, hrest]

theorem foldl_kept {term} (hterm : term 0 = 0) (col sums : List Int)
    (hlen : col.length = sums.length) (hword : ∀ y ∈ sums, InWord 16 y) :
    (kept (· == 0) col).foldl (fun c p => c.modify p.2 fun y => wrap 16 (y+term p.1)) sums =
      addColumn term col sums := by
  apply foldl_kept_from (fun x y => wrap 16 (y+term x)) col [] sums hlen
  intro y hy
  rw [hterm, Int.add_zero, wrap_eq_self (by decide) (hword y hy)]

def stored (indices : List Nat) : List Int := indices.map fun (n : Nat) => wrap 16 (n : Int)

theorem wrap_index {n : Nat} (h : n < 2^15) : wrap 16 (n : Int) = n :=
  wrap_eq_self (by decide) ⟨by simp,by simp [twoPow_eq]; omega⟩

theorem sparseColumn_end (ids vals sums : List Int) (read : Nat) (h : read < 2^15) :
    sparseColumn shrA shrC factor (0::ids) vals read sums = some ⟨ids,vals,read+1,sums⟩ := by
  rw [sparseColumn.eq_def]
  dsimp only
  rw [twoPow_eq, if_neg (by omega), if_pos rfl]

theorem sparseColumn_entry (shrA shrC factor x : Int) (ids vals sums : List Int) (read j : Nat)
    (h : read < 2^15) (hj : j < sums.length) :
    sparseColumn shrA shrC factor (((j+1 : Nat) : Int)::ids) (x::vals) read sums =
      sparseColumn shrA shrC factor ids vals (read+1)
        (sums.modify j fun y => wrap 16 (y+product shrA shrC factor x)) := by
  have hplace : (((j+1 : Nat) : Int)-1).toNat = j := by omega
  rw [sparseColumn.eq_def]
  dsimp only
  rw [twoPow_eq, if_neg (by omega), if_neg (by omega), if_pos (by omega), hplace]
  rfl

theorem stored_cons (n : Nat) (ns : List Nat) (ids : List Int) (hn : n < 2^15) :
    stored (n::ns)++ids = (n : Int)::(stored ns++ids) := by
  simp only [stored, map_cons, cons_append, wrap_index hn]

theorem sparseColumn_walk (entries : List (Int × Nat)) (ids vals : List Int)
    (read : Nat) (sums : List Int) (hin : ∀ p ∈ entries, p.2 < sums.length)
    (hsums : sums.length < 2^15) (hread : read+entries.length < 2^15) :
    sparseColumn shrA shrC factor (stored (entries.map (fun p => p.2+1)++[0])++ids)
        (entries.map (·.1)++vals) read sums =
      some ⟨ids,vals,read+entries.length+1,
        entries.foldl (fun c p => c.modify p.2 fun y => wrap 16 (y+product shrA shrC factor p.1))
          sums⟩ := by
  induction entries generalizing read sums with
  | nil =>
    exact sparseColumn_end _ _ _ _ _ _ _ (by omega)
  | cons p entries ih =>
    have hp := hin p (by simp)
    rw [List.length_cons] at hread
    rw [map_cons, map_cons, cons_append, cons_append, stored_cons _ _ _ (by omega),
      sparseColumn_entry _ _ _ _ _ _ _ _ _ (by omega) hp]
    rw [ih (read+1) _ (fun q hq => by simpa using hin q (by simp [hq])) (by simpa using hsums)
      (by omega)]
    rw [List.length_cons, foldl_cons,
      show read+(entries.length+1)+1 = read+1+entries.length+1 by omega]

theorem sparseColumn_row (col ids vals : List Int) (read : Nat) (sums : List Int)
    (hlen : col.length = sums.length) (hsums : sums.length < 2^15) (hword : ∀ y ∈ sums, InWord 16 y)
    (hread : read+(sparseRow (· == 0) col).indices.length ≤ 2^15) :
    sparseColumn shrA shrC factor (stored (sparseRow (· == 0) col).indices++ids)
        ((sparseRow (· == 0) col).values++vals) read sums =
      some ⟨ids,vals,read+(sparseRow (· == 0) col).indices.length,
        addColumn (product shrA shrC factor) col sums⟩ := by
  rw [sparseRow_indices, sparseRow_values, length_append, length_map, List.length_singleton] at *
  rw [sparseColumn_walk, foldl_kept (by simp [product, div16, divWord, wrap]) _ _ hlen hword]
  · rfl
  · exact fun p hp => hlen ▸ (List.getElem?_eq_some_iff.mp (mem_kept.mp hp).1).1
  · exact hsums
  · omega

theorem stored_append (a b : List Nat) : stored (a++b) = stored a++stored b := List.map_append

/-- The sums after some columns, each beside the number of the vector that it is multiplied with. -/
def addColumns (term : Int → Int → Int) (cols : Rows Int) (bs sums : List Int) : List Int :=
  (cols.zip bs).foldl (fun c p => addColumn (term p.2) p.1 c) sums

theorem sparseProduct_walk (shrA shrB shrC : Int) (cols : Rows Int) (bs ids vals : List Int)
    (read : Nat) (sums : List Int) (hbs : bs.length = cols.length)
    (hlen : ∀ col ∈ cols, col.length = sums.length)
    (hsums : sums.length < 2^15) (hword : ∀ y ∈ sums, InWord 16 y)
    (hread : read+(sparseRows (· == 0) cols).indices.length ≤ 2^15) :
    sparseProduct shrA shrB shrC bs
        ⟨stored (sparseRows (· == 0) cols).indices++ids,(sparseRows (· == 0) cols).values++vals,
          read,sums⟩ =
      some ⟨ids,vals,read+(sparseRows (· == 0) cols).indices.length,
        addColumns (fun b => product shrA shrC (div16 b shrB)) cols bs sums⟩ := by
  induction cols generalizing bs read sums with
  | nil =>
    rw [List.length_eq_zero_iff.mp hbs]
    rfl
  | cons col cols ih =>
    cases bs with
    | nil => simp at hbs
    | cons b bs =>
      have hcol := hlen col (by simp)
      simp only [sparseRows, List.flatMap_cons, length_append] at hread
      simp only [sparseRows, List.flatMap_cons, stored_append, append_assoc, length_append,
        sparseProduct, List.foldlM_cons]
      rw [sparseColumn_row _ _ _ _ _ _ _ _ hcol hsums hword (by omega)]
      have hlength := addColumn_length (product shrA shrC (div16 b shrB)) col sums hcol
      have hrest := ih bs (read+(sparseRow (· == 0) col).indices.length)
        (addColumn (product shrA shrC (div16 b shrB)) col sums) (by simpa using hbs)
        (fun c hc => by rw [hlength]; exact hlen c (by simp [hc])) (by rw [hlength]; exact hsums)
        (addColumn_inWord _ _ _) (by simp only [sparseRows]; omega)
      rw [Nat.add_assoc] at hrest
      exact hrest

section Terms

variable (term : Int → Int → Int)

theorem addColumns_length (cols : Rows Int) (bs sums : List Int)
    (hlen : ∀ col ∈ cols, col.length = sums.length) :
    (addColumns term cols bs sums).length = sums.length := by
  induction cols generalizing bs sums with
  | nil => rfl
  | cons col cols ih =>
    cases bs with
    | nil => rfl
    | cons b bs =>
      have hlength := addColumn_length (term b) col sums (hlen col (by simp))
      rw [← hlength]
      exact ih bs _ fun c hc => by rw [hlength]; exact hlen c (by simp [hc])

theorem addColumns_getD (cols : Rows Int) (bs sums : List Int)
    (hlen : ∀ col ∈ cols, col.length = sums.length) (hword : ∀ y ∈ sums, InWord 16 y) (i : Nat)
    (hi : i < sums.length) : (addColumns term cols bs sums).getD i 0 =
      wrap 16 (sums.getD i 0+((cols.zip bs).map fun p => term p.2 (p.1.getD i 0)).sum) := by
  have hin : InWord 16 (sums.getD i 0) := by
    rw [getD_eq_getElem _ _ hi]
    exact hword _ (getElem_mem hi)
  induction cols generalizing bs sums with
  | nil =>
    rw [List.zip_nil_left, map_nil, sum_nil, Int.add_zero, wrap_eq_self (by decide) hin]
    rfl
  | cons col cols ih =>
    cases bs with
    | nil =>
      rw [List.zip_nil_right, map_nil, sum_nil, Int.add_zero, wrap_eq_self (by decide) hin]
      rfl
    | cons b bs =>
      have hcol := hlen col (by simp)
      have hlength := addColumn_length (term b) col sums hcol
      have hfirst : (addColumn (term b) col sums).getD i 0 =
          wrap 16 (sums.getD i 0+term b (col.getD i 0)) := by
        rw [getD_eq_getElem _ _ (by rw [hlength]; exact hi), getD_eq_getElem _ _ hi,
          getD_eq_getElem _ _ (by rw [hcol]; exact hi)]
        exact List.getElem_zipWith
      have hrest := ih bs (addColumn (term b) col sums)
        (fun c hc => by rw [hlength]; exact hlen c (by simp [hc])) (addColumn_inWord _ _ _)
        (by rw [hlength]; exact hi) (by rw [hfirst]; exact wrap_inWord (by decide) _)
      rw [List.zip_cons_cons, map_cons, List.sum_cons, ← Int.add_assoc]
      refine hrest.trans ?_
      rw [hfirst]
      exact wrap_add_congr (wrap_wrap _) rfl

theorem addColumns_rows (hm : Shaped rows cols m) (bs : List Int) (hbs : bs.length = cols) :
    addColumns term (columns cols m) bs (replicate rows 0) =
      m.map fun row => wrap 16 (zipWith (fun x b => term b x) row bs).sum := by
  have hcols : ∀ col ∈ columns cols m, col.length = (replicate rows (0 : Int)).length := by
    rw [List.length_replicate]
    exact (columns_shaped hm).width
  apply ext_getElem
  · rw [addColumns_length _ _ _ _ hcols, List.length_replicate, length_map, hm.length]
  · intro i hi hi'
    rw [length_map] at hi'
    have hrows : i < rows := by rw [← hm.length]; exact hi'
    have hget := addColumns_getD term _ bs _ hcols zeros_inWord i
      (by rw [List.length_replicate]; exact hrows)
    rw [getD_eq_getElem _ _ hi, List.getD_replicate _ hrows, Int.zero_add] at hget
    rw [hget, getElem_map]
    congr 2
    apply ext_getElem
    · simp [columns, hm.width _ (getElem_mem hi')]
    · intro j hj hj'
      have hjc : j < cols := by simpa [columns, hbs] using hj
      have hwidth : j < m[i].length := by rw [hm.width _ (getElem_mem hi')]; exact hjc
      simp [columns, List.getElem?_eq_getElem hi', List.getElem?_eq_getElem hwidth]

end Terms

def rowSum (shrA shrB shrC : Int) (row bs : List Int) : Int :=
  (zipWith (fun x b => product shrA shrC (div16 b shrB) x) row bs).sum

theorem stores_written (f : Nat → Int) (n : Nat) (tmp : Array Int) (hn : n ≤ tmp.size) :
    (range n).foldl (fun t k => t.setIfInBounds k (f k)) tmp =
      ((range n).map f).toArray++tmp.extract n tmp.size := by
  induction n with
  | zero => simp
  | succ n ih =>
    rw [List.range_succ, List.foldl_append, ih (by omega)]
    apply Array.ext_getElem?
    intro i
    rcases Nat.lt_trichotomy i n with hi | rfl | hi
    · simp [Array.getElem?_append, hi, Nat.lt_succ_of_lt hi]
    · simp [Array.getElem?_setIfInBounds, Array.getElem?_append]
      omega
    · simp [Array.getElem?_append, Array.getElem?_extract, Nat.not_lt.2 hi.le,
        show 0 ≠ i-n by omega, show ¬ i ≤ n by omega, show n+(i-n) = n+1+(i-(n+1)) by omega,
        show i-n < tmp.size-n ↔ i-(n+1) < tmp.size-(n+1) by omega]

variable (bits : Nat) (s : ProductShape) (shrA shrB : Int) (a b : Array Int)

/-- The products that are summed for an entry. -/
def cells (i j : Nat) : Array Int :=
  ((range s.inner).map fun k => wrap bits (divWord bits (a.getD (i*s.inner+k) 0) shrA *
    divWord bits (b.getD (k*s.cols+j) 0) shrB)).toArray

theorem cells_size (i j : Nat) : (cells bits s shrA shrB a b i j).size = s.inner := by
  simp [cells]

theorem matrixProductOf_eq (halving plain : Int) (tmp : Array Int) (hpos : 1 ≤ s.inner)
    (htmp : s.inner ≤ tmp.size) : (matrixProductOf bits s shrA shrB halving plain a b tmp).1 =
      ((range s.rows).flatMap fun i => (range s.cols).map fun j => (i,j)).map fun p =>
        (treeSum bits s.inner halving plain (cells bits s shrA shrB a b p.1 p.2)).getD 0 0 := by
  unfold matrixProductOf
  generalize (range s.rows).flatMap _ = places
  -- the buffer keeps its size from entry to entry
  suffices h : ∀ (out : List Int) (tmp : Array Int), s.inner ≤ tmp.size →
      (places.foldl (fun (x : List Int × Array Int) (p : Nat × Nat) =>
        let t := treeSum bits s.inner halving plain (entryProducts bits s shrA shrB a b p.1 p.2 x.2)
        (x.1++[t.getD 0 0],t)) (out,tmp)).1 = out++places.map fun p =>
          (treeSum bits s.inner halving plain (cells bits s shrA shrB a b p.1 p.2)).getD 0 0 by
    simpa using h [] tmp htmp
  induction places with
  | nil => simp
  | cons p places ih =>
    intro out tmp htmp
    have hsize := cells_size bits s shrA shrB a b p.1 p.2
    have hsum : treeSum bits s.inner halving
      plain (entryProducts bits s shrA shrB a b p.1 p.2 tmp) =
        treeSum bits s.inner halving plain (cells bits s shrA shrB a b p.1 p.2) ++
          tmp.extract s.inner tmp.size := by
      rw [entryProducts, stores_written _ _ _ htmp]
      exact passes_append _ _ _ _ (cells bits s shrA shrB a b p.1 p.2) _ (by omega) hsize.ge
    have hkept : (treeSum bits s.inner halving plain (cells bits s shrA shrB a b p.1 p.2)).size =
        s.inner := (passes_size _ _ _ _ _ _ _ (by omega)).trans hsize
    rw [foldl_cons, map_cons]
    rw [hsum, ih _ _ (by simp only [Array.size_append]; omega), append_assoc,
      List.singleton_append, Array.getD_eq_getD_getElem?, Array.getElem?_append_left (by omega),
      ← Array.getD_eq_getD_getElem?]

theorem matrixProductOf_plain (hbits : 1 ≤ bits) (levels : Nat) (tmp : Array Int)
    (hpos : 1 ≤ s.inner) (hlevels : s.inner ≤ 2^levels) (htmp : s.inner ≤ tmp.size) :
    (matrixProductOf bits s shrA shrB 0 levels a b tmp).1 =
      ((range s.rows).flatMap fun i => (range s.cols).map fun j => (i,j)).map fun p =>
        wrap bits (cells bits s shrA shrB a b p.1 p.2).toList.sum := by
  rw [matrixProductOf_eq _ _ _ _ _ _ _ _ _ hpos htmp]
  refine List.map_congr_left fun p _ => ?_
  have hsize := cells_size bits s shrA shrB a b p.1 p.2
  have hcount : ((0 : Int)+(levels : Int)).toNat = levels := by omega
  have hword : ∀ k < s.inner, InWord bits ((cells bits s shrA shrB a b p.1 p.2).getD k 0) := by
    intro k hk
    simpa [cells, hk] using wrap_inWord hbits _
  rw [treeSum, hcount,
    passes_wrap hbits 0 levels 0 s.inner _ (by omega) hpos le_rfl hlevels (by omega) hword,
    ← leftSum_all, hsize]

theorem product_plain (shrA factor x : Int) :
    product shrA 1 factor x = wrap 16 (div16 x shrA*factor) := by
  rw [product, div16, divWord, Int.tdiv_one, wrap_wrap]

theorem flatten_getD (hm : Shaped rows cols m) (i k : Nat) (hi : i < m.length)
    (hk : k < cols) : m.flatten.toArray.getD (i*cols+k) 0 = m[i].getD k 0 := by
  have hget := flatMap_getElem m id cols hm.width i k hi hk
  rw [List.flatMap_id] at hget
  rw [Array.getD_eq_getD_getElem?, List.getElem?_toArray, hget]
  rfl

theorem matrixProduct_rows (hm : Shaped rows cols m) (shrA shrB : Int)
    (bs : List Int) (hbs : bs.length = cols) (levels : Nat) (tmp : Array Int) (hpos : 1 ≤ cols)
    (hlevels : cols ≤ 2^levels) (htmp : cols ≤ tmp.size) :
    (matrixProduct ⟨rows,cols,1⟩ shrA shrB 0 levels m.flatten.toArray bs.toArray tmp).1 =
      m.map fun row => wrap 16 (rowSum shrA shrB 1 row bs) := by
  have hplaces : ((range rows).flatMap fun i => (range 1).map fun j => (i,j)) =
      (range rows).map fun i => (i,0) := List.map_eq_flatMap.symm
  rw [matrixProduct,
    matrixProductOf_plain 16 ⟨rows,cols,1⟩ shrA shrB _ _ (by decide) levels tmp hpos hlevels htmp,
    hplaces]
  apply ext_getElem
  · simp [hm.length]
  · intro i hi hi'
    rw [length_map] at hi'
    have hwidth := hm.width _ (getElem_mem hi')
    simp only [getElem_map, List.getElem_range, cells]
    congr 2
    apply ext_getElem
    · simp [hwidth, hbs]
    · intro k hk _
      have hkc : k < cols := by simpa using hk
      have hb : bs.toArray.getD (k*1+0) 0 = bs.getD k 0 := by
        rw [Nat.mul_one, Nat.add_zero, Array.getD_eq_getD_getElem?, List.getElem?_toArray,
          List.getD_eq_getElem?_getD]
      simp only [getElem_map, List.getElem_range, List.getElem_zipWith, product_plain, div16]
      rw [flatten_getD hm i k hi' hkc, hb, getD_eq_getElem _ _ (by omega),
        getD_eq_getElem _ _ (by omega)]

/-- The sparse product of a matrix with a vector, from the sparse form of its columns: the form
exists, the walk reads exactly its indices and its values, and each sum is that of the row's
products modulo the word, each product cut by the last factor. With that factor one it is the dense
product, for every number of passes that is enough and whatever the buffer held before. Matrices of
one shape with the same sparse form are equal. -/
theorem sparseProduct_eq_dense (rows cols : Nat) (hrows : 1 ≤ rows) (hcols : 1 ≤ cols)
    (hword : rows < 2^15)
    (a : Rows Int) (ha : Shaped rows cols a) (b : List Int) (hb : b.length = cols) :
    ∃ t form, Model.transpose a = .ok t ∧ toSparse (· == 0) t = .ok form ∧
      (form.indices.length < 2^15 → ∀ (shrA shrB : Int) (ids vals : List Int),
        (∀ shrC : Int,
          sparseProduct shrA shrB shrC b ⟨stored form.indices++ids,form.values++vals,0,
            List.replicate rows 0⟩ =
            some ⟨ids,vals,form.indices.length,a.map fun row =>
              wrap 16 (rowSum shrA shrB shrC row b)⟩) ∧
        ∀ (levels : Nat) (tmp : Array Int), cols ≤ 2^levels → cols ≤ tmp.size →
          sparseProduct shrA shrB 1 b ⟨stored form.indices++ids,form.values++vals,0,
            List.replicate rows 0⟩ = some ⟨ids,vals,form.indices.length,
              (matrixProduct ⟨rows,cols,1⟩ shrA shrB 0 levels a.flatten.toArray b.toArray tmp).1⟩) ∧
      ∀ m m' : Rows Int, Shaped rows cols m → Shaped rows cols m' →
        toSparse (· == 0) m = toSparse (· == 0) m' → m = m' := by
  have hshaped := columns_shaped ha
  refine ⟨columns cols a,sparseRows (· == 0) (columns cols a),transpose_ok ha hrows,
    toSparse_ok hshaped hcols _,?_,?_⟩
  · intro hlen shrA shrB ids vals
    have hwalk : ∀ shrC : Int, _ :=
      fun shrC => sparseProduct_walk shrA shrB shrC (columns cols a) b ids vals 0
      (List.replicate rows 0) (by rw [hb, hshaped.length]) (by simpa using hshaped.width)
        (by simpa using hword)
      zeros_inWord (by omega)
    simp only [Nat.zero_add, addColumns_rows _ ha b hb] at hwalk
    refine ⟨hwalk,fun levels tmp hlevels htmp => ?_⟩
    rw [matrixProduct_rows ha shrA shrB b hb levels tmp hcols hlevels htmp]
    exact hwalk 1
  · intro m m' hm hm' heq
    rw [toSparse_ok hm hrows, toSparse_ok hm' hrows] at heq
    injection heq with heq
    exact sparseRows_inj hm hm' (congrArg Sparse.values heq) (congrArg Sparse.indices heq)

/-- A matrix with an empty row and an empty column; one product leaves the word. -/
theorem sparseProduct_eq_dense_three : Shaped 3 3 [[0, 5, 0], [0, 0, 0], [0, -300, 7]] ∧
      sparseProduct 1 1 1 [9, 200, -4] ⟨[0, 1, 3, 0, 3, 0, 8],[5, -300, 7],0,[0, 0, 0]⟩ =
        some ⟨[8],[],6,[1000, 0, 5508]⟩ ∧
      (matrixProduct ⟨3,3,1⟩ 1 1 0 2 #[0, 5, 0, 0, 0, 0, 0, -300, 7] #[9, 200, -4] #[1, 1, 1]).1 =
        [1000, 0, 5508] := by
  have hshaped : Shaped 3 3 [[0, 5, 0], [0, 0, 0], [0, -300, 7]] := ⟨rfl,by decide⟩
  obtain ⟨t,form,ht,hform,hrun,-⟩ := sparseProduct_eq_dense 3 3 (by decide) (by decide) (by decide)
    _ hshaped [9, 200, -4] rfl
  have ht' : Model.transpose [[0, 5, 0], [0, 0, 0], [0, -300, 7]] =
    .ok [[0, 0, 0], [5, 0, -300], [0, 0, (7 : Int)]] := rfl
  obtain rfl : [[0, 0, 0], [5, 0, -300], [0, 0, (7 : Int)]] = t := by
    injection ht'.symm.trans ht
  have hform' : toSparse (· == 0) [[0, 0, 0], [5, 0, -300], [0, 0, (7 : Int)]] =
      .ok ⟨[5, -300, 7],[0, 1, 3, 0, 3, 0]⟩ := rfl
  obtain rfl : ⟨[5, -300, 7],[0, 1, 3, 0, 3, 0]⟩ = form := by
    injection hform'.symm.trans hform
  obtain ⟨hsparse,hdense⟩ := hrun (by decide) 1 1 [8] []
  have hsums : ([[0, 5, 0], [0, 0, 0], [0, -300, 7]].map fun row =>
      wrap 16 (rowSum 1 1 1 row [9, 200, -4])) = [1000, 0, 5508] := by decide
  refine ⟨hshaped,?_,?_⟩
  · rw [← hsums]
    exact hsparse 1
  · have hsame := (hsparse 1).symm.trans (hdense 2 #[1, 1, 1] (by decide) (by decide))
    rw [← hsums]
    exact (congrArg SparseRun.sums (Option.some.inj hsame)).symm

end MicroLearn.Device
