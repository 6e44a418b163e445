import MdbV8.Target.Heap

/-!
# FixedArrays

`v8fixedarray_t` of `mdb_v8_subr.c`: the type that stands for a `FixedArray` whose elements have not
been read yet. They can be read all at once (`v8fixedarrayAsArray`) or be passed to a callback, for
which they are read a page at a time (`v8fixedarrayIterElements`). `::v8array` prints the elements in
the second way and, with `-i`, in the first.

The two ways do not agree. The loop over the pages goes on while `index < length - 1`, so that it
does not read the last page when that page holds only one element: `iteratedCount` is the number of
elements that it does visit, and `v8fixedarrayIterElements_eq` says that it visits exactly those, in
order. The two agree exactly on the arrays that `iterates_iff` describes.
-/

namespace MdbV8

/-- `v8fixedarray_t`. -/
structure V8FixedArray where
  addr : ℕ
  nelts : ℕ
  deriving DecidableEq, Repr

/-- `v8fixedarray_load`. -/
def v8fixedarrayLoad (t : Target) (addr : ℕ) : Option V8FixedArray :=
  if !t.cfg.isHeapobject addr then none
  else
    match t.readTypebyte addr with
    | none => none
    | some type =>
      if !Target.isType type t.cfg.typeFixedarray then none
      else (t.readHeapSmi addr t.cfg.offFixedarrayLength).map fun nelts => { addr, nelts }

/-- `v8fixedarray_length`. -/
def v8fixedarrayLength (arrayp : V8FixedArray) : ℕ := arrayp.nelts

/-- `maxnpgelts`: the number of elements in a page. -/
def maxnpgelts : ℕ := 1024

section Iter

variable {σ : Type*}

/-- The loop of `v8fixedarray_iter_elements` over the elements of a page. It returns what the last
call of the callback returned, and how many calls returned zero. -/
def iterPage (func : ℕ → ℕ → σ → ℤ × σ) : ℕ → List ℕ → σ → ℤ × ℕ × σ
  | _, [], s => (0, 0, s)
  | index, value :: page, s =>
    let (rv, s) := func index value s
    if rv ≠ 0 then (rv, 0, s)
    else
      let (rv, i, s) := iterPage func (index + 1) page s
      (rv, i + 1, s)

/-- The loop of `v8fixedarray_iter_elements` over the pages. Its counters are unsigned integers; the
page of an array that is not empty has at least one element, so as many rounds as there are elements
are enough. -/
def iterPages (t : Target) (func : ℕ → ℕ → σ → ℤ × σ) (length : ℕ) : ℕ → ℕ → ℕ → σ → ℤ × σ
  | 0, _, _, s => (-1, s)
  | fuel + 1, index, addr, s =>
    let curnpgelts := min (length - index) maxnpgelts
    let curpgsz := curnpgelts * t.cfg.ptrSize
    match t.mdbVread curpgsz addr with
    | none => (-1, s)
    | some buf =>
      let (rv, i, s) := iterPage func index (Target.wordsOf t.cfg.ptrSize buf) s
      let index := index + i
      let addr := t.cfg.add addr curpgsz
      if rv = 0 ∧ index < length - 1 then iterPages t func length fuel index addr s else (rv, s)

/-- `v8fixedarray_iter_elements`. The number of elements is converted to an `unsigned int`. -/
def v8fixedarrayIterElements (t : Target) (arrayp : V8FixedArray) (func : ℕ → ℕ → σ → ℤ × σ)
    (s : σ) : ℤ × σ :=
  let length := v8fixedarrayLength arrayp % 2 ^ 32
  if length = 0 then (0, s)
  else
    iterPages t func length length 0 (t.cfg.add arrayp.addr t.cfg.offFixedarrayData) s

end Iter

/-- `v8fixedarray_as_array`. There is no array for a `FixedArray` without elements. -/
def v8fixedarrayAsArray (t : Target) (arrayp : V8FixedArray) : Option (List ℕ) :=
  if arrayp.nelts = 0 then none
  else
    let arraysz := arrayp.nelts * t.cfg.ptrSize % 2 ^ t.cfg.bits
    if !Allocator.unlimited.gives arraysz then none
    else
      (t.mdbVread arraysz (t.cfg.add arrayp.addr t.cfg.offFixedarrayData)).map
        (Target.wordsOf t.cfg.ptrSize)

/-- `v8array_print_one`; the output is the list of the words that have been printed. -/
def v8arrayPrintOne (_i value : ℕ) (out : List ℕ) : ℤ × List ℕ := (0, out ++ [value])

/-- `dcmd_v8array` with the value of its option `-i`: whether it succeeds, and the words that it
prints. -/
def dcmdV8array (t : Target) (addr : ℕ) (immediate : Bool) : Bool × List ℕ :=
  match v8fixedarrayLoad t addr with
  | none => (false, [])
  | some arrayp =>
    let (rv, out) :=
      if !immediate then v8fixedarrayIterElements t arrayp v8arrayPrintOne []
      else
        let len := v8fixedarrayLength arrayp % 2 ^ 32
        match v8fixedarrayAsArray t arrayp with
        | none => (-1, [])
        | some immed => (0, (List.range len).map fun i => immed.getD i 0)
    (rv == 0, out)

/-! ### The elements that are visited -/

section Visited

variable {σ : Type*}

/-- The state after a callback has been called for each element of a list, from an index on. -/
def visit (func : ℕ → ℕ → σ → ℤ × σ) : ℕ → List ℕ → σ → σ
  | _, [], s => s
  | index, value :: values, s => visit func (index + 1) values (func index value s).2

theorem visit_append (func : ℕ → ℕ → σ → ℤ × σ) (index : ℕ) (xs ys : List ℕ) (s : σ) :
    visit func index (xs ++ ys) s = visit func (index + xs.length) ys (visit func index xs s) := by
  induction xs generalizing index s with
  | nil => rfl
  | cons x xs ih =>
    rw [List.cons_append, visit, ih, visit, List.length_cons, Nat.add_right_comm, Nat.add_assoc]

/-- A callback that never stops the iteration. -/
def Continues (func : ℕ → ℕ → σ → ℤ × σ) : Prop := ∀ i v s, (func i v s).1 = 0

theorem iterPage_eq {func : ℕ → ℕ → σ → ℤ × σ} (hfunc : Continues func) (index : ℕ)
    (page : List ℕ) (s : σ) :
    iterPage func index page s = (0, page.length, visit func index page s) := by
  induction page generalizing index s with
  | nil => rfl
  | cons value page ih =>
    have h0 := hfunc index value s
    rw [iterPage]
    simp only [h0, ne_eq, not_true, if_false, ih]
    rfl

end Visited

/-- The number of elements that the iteration visits in an array of a given length: all of them,
unless the last page would have a single element and is not the first one. -/
def iteratedCount (length : ℕ) : ℕ :=
  if 1 < length ∧ length % maxnpgelts = 1 then length - 1 else length

section Pages

variable {σ : Type*} {t : Target} {base length : ℕ} {bs : List UInt8}

/-- A page of an array that can be read. -/
theorem readPage (h : t.mdbVread (length * t.cfg.ptrSize) base = some bs) {index k : ℕ}
    (hk : index + k ≤ length) :
    ∃ buf, t.mdbVread (k * t.cfg.ptrSize) (base + index * t.cfg.ptrSize) = some buf ∧
      Target.wordsOf t.cfg.ptrSize buf =
        ((Target.wordsOf t.cfg.ptrSize bs).drop index).take k := by
  have hlen := Target.mdbVread_length h
  have hle : (index + k) * t.cfg.ptrSize ≤ length * t.cfg.ptrSize := Nat.mul_le_mul_right _ hk
  exact ⟨_, Target.mdbVread_sub h (by rwa [← Nat.add_mul]),
    Target.wordsOf_sub bs t.cfg.model.ptrSize_pos (hle.trans_eq hlen.symm)⟩

theorem iteratedCount_le (length : ℕ) : iteratedCount length ≤ length := by
  unfold iteratedCount
  split <;> omega

/-- A page that starts before the end of what is visited is visited whole: either it ends there, or
it is a full one. -/
theorem page_visited {length index : ℕ} (hpage : index % maxnpgelts = 0)
    (hindex : index < iteratedCount length) :
    index + min (length - index) maxnpgelts ≤ iteratedCount length ∧
      (index + min (length - index) maxnpgelts < length - 1 ↔
        index + min (length - index) maxnpgelts < iteratedCount length) := by
  simp only [iteratedCount, show maxnpgelts = 1024 from rfl] at *
  split at hindex
  · next hlast => rw [if_pos hlast]; omega
  · next hlast => rw [if_neg hlast]; omega

/-- **The loop over the pages**, from the start of a page on, visits what is left of the elements
that are visited at all. -/
theorem iterPages_eq {func : ℕ → ℕ → σ → ℤ × σ} (hfunc : Continues func)
    (h : t.mdbVread (length * t.cfg.ptrSize) base = some bs) {fuel index : ℕ}
    (hpage : index % maxnpgelts = 0) (hindex : index < iteratedCount length)
    (hfuel : length - index ≤ fuel) (s : σ) :
    iterPages t func length fuel index (base + index * t.cfg.ptrSize) s =
      (0, visit func index
        (((Target.wordsOf t.cfg.ptrSize bs).take (iteratedCount length)).drop index) s) := by
  have hcount := iteratedCount_le length
  have hwords : (Target.wordsOf t.cfg.ptrSize bs).length = length := by
    rw [Target.wordsOf_length, Target.mdbVread_length h, Nat.mul_div_cancel]
    exact t.cfg.model.ptrSize_pos
  have hfit := (Target.mdbVread_eq_some_iff.mp h).1
  generalize hw : Target.wordsOf t.cfg.ptrSize bs = words at hwords
  -- the induction is on the fuel, with a page less to visit in every round
  induction fuel generalizing index s with
  | zero => omega
  | succ fuel ih =>
    obtain ⟨hvisited, hgoes⟩ := page_visited hpage hindex
    generalize hcur : min (length - index) maxnpgelts = cur at hvisited hgoes
    have hcurle : cur ≤ maxnpgelts := hcur ▸ min_le_right _ _
    obtain ⟨buf, hread, hbuf⟩ := readPage h (show index + cur ≤ length by omega)
    rw [hw] at hbuf
    have hpagelen : (Target.wordsOf t.cfg.ptrSize buf).length = cur := by
      rw [hbuf, List.length_take, List.length_drop]
      omega
    -- the page is the first part of what is left to visit
    have hsplit : (words.take (iteratedCount length)).drop index =
        Target.wordsOf t.cfg.ptrSize buf ++
          (words.take (iteratedCount length)).drop (index + cur) := by
      rw [hbuf, ← List.drop_drop, List.drop_take, List.drop_take]
      conv_lhs => rw [← List.take_append_drop cur ((words.drop index).take _)]
      rw [List.take_take, List.drop_take, min_eq_left (by omega)]
    rw [iterPages]
    simp only [hcur, hread, iterPage_eq hfunc, hpagelen, true_and]
    by_cases hmore : index + cur < iteratedCount length
    · have hlt := hgoes.mpr hmore
      have hfull : cur = maxnpgelts := by omega
      have hnext : base + (index + cur) * t.cfg.ptrSize < 2 ^ t.cfg.bits := by
        have : (index + cur) * t.cfg.ptrSize < length * t.cfg.ptrSize :=
          Nat.mul_lt_mul_of_pos_right (by omega) t.cfg.model.ptrSize_pos
        omega
      have haddr : t.cfg.add (base + index * t.cfg.ptrSize) ((cur * t.cfg.ptrSize : ℕ) : ℤ) =
          base + (index + cur) * t.cfg.ptrSize := by
        rw [Config.add, ← Nat.cast_add, Config.wrap_natCast, Nat.add_mul, Nat.add_assoc]
        rwa [Nat.add_assoc, ← Nat.add_mul]
      have hnextpage : (index + cur) % maxnpgelts = 0 := by
        rw [hfull, Nat.add_mod_right, hpage]
      have hmax : maxnpgelts = 1024 := rfl
      rw [if_pos hlt, haddr, ih hnextpage hmore (by omega), hsplit, visit_append, hpagelen]
    · rw [if_neg (fun hlt => hmore (hgoes.mp hlt)), hsplit, visit_append, hpagelen,
        List.drop_of_length_le (by rw [List.length_take]; omega), visit]

end Pages

/-! ### The two ways to read an array -/

section Agree

variable {t : Target} {arrayp : V8FixedArray} {bs : List UInt8}

/-- The elements of a `FixedArray` can be read, and their bytes are `bs`. -/
def Readable (t : Target) (arrayp : V8FixedArray) (bs : List UInt8) : Prop :=
  t.mdbVread (arrayp.nelts * t.cfg.ptrSize) (t.cfg.add arrayp.addr t.cfg.offFixedarrayData) = some bs

/-- Every callback that never stops the iteration is called for each of the words, in order, and for
nothing else. -/
def IteratesAll (t : Target) (arrayp : V8FixedArray) (words : List ℕ) : Prop :=
  ∀ (σ : Type) (func : ℕ → ℕ → σ → ℤ × σ) (s : σ), Continues func →
    v8fixedarrayIterElements t arrayp func s = (0, visit func 0 words s)

theorem Readable.length_words (h : Readable t arrayp bs) :
    (Target.wordsOf t.cfg.ptrSize bs).length = arrayp.nelts := by
  rw [Target.wordsOf_length, Target.mdbVread_length h, Nat.mul_div_cancel]
  exact t.cfg.model.ptrSize_pos

/-- **What the iteration visits**, in an array that can be read. -/
theorem v8fixedarrayIterElements_eq (h : Readable t arrayp bs) {σ : Type*}
    {func : ℕ → ℕ → σ → ℤ × σ} (hfunc : Continues func) (s : σ) :
    v8fixedarrayIterElements t arrayp func s =
      (0, visit func 0
        ((Target.wordsOf t.cfg.ptrSize bs).take (iteratedCount (arrayp.nelts % 2 ^ 32))) s) := by
  unfold v8fixedarrayIterElements v8fixedarrayLength
  by_cases h0 : arrayp.nelts % 2 ^ 32 = 0
  · have hcount : iteratedCount 0 = 0 := rfl
    rw [if_pos h0, h0, hcount, List.take_zero, visit]
  · have hle : 0 + arrayp.nelts % 2 ^ 32 ≤ arrayp.nelts := by
      rw [Nat.zero_add]
      exact Nat.mod_le _ _
    obtain ⟨buf, hread, hbuf⟩ := readPage h hle
    rw [Nat.zero_mul, Nat.add_zero] at hread
    have hpos : 0 < iteratedCount (arrayp.nelts % 2 ^ 32) := by
      unfold iteratedCount
      split <;> omega
    have hpages := iterPages_eq hfunc hread (Nat.zero_mod _) hpos (Nat.sub_le _ 0) s
    rw [Nat.zero_mul, Nat.add_zero, hbuf, List.drop_zero, List.drop_zero, List.take_take,
      min_eq_left (iteratedCount_le _)] at hpages
    rw [if_neg h0, hpages]

theorem visit_count (index : ℕ) (words : List ℕ) (k : ℕ) :
    visit (fun _ _ k => (0, k + 1)) index words k = k + words.length := by
  induction words generalizing index k with
  | nil => rfl
  | cons w words ih =>
    rw [visit, ih, List.length_cons]
    omega

theorem visit_print (index : ℕ) (words out : List ℕ) :
    visit v8arrayPrintOne index words out = out ++ words := by
  induction words generalizing index out with
  | nil => rw [visit, List.append_nil]
  | cons w words ih =>
    rw [visit, ih, v8arrayPrintOne, List.append_assoc]
    rfl

/-- All elements are visited exactly when the last page is not a page of one element that comes
after others, and the length fits an `unsigned int`. -/
theorem iteratesAll_iff (h : Readable t arrayp bs) :
    IteratesAll t arrayp (Target.wordsOf t.cfg.ptrSize bs) ↔
      arrayp.nelts < 2 ^ 32 ∧ ¬ (1 < arrayp.nelts ∧ arrayp.nelts % maxnpgelts = 1) := by
  have hlen := h.length_words
  constructor
  · intro hall
    -- a callback that counts its calls
    have hcount : Continues (fun _ _ (k : ℕ) => ((0 : ℤ), k + 1)) := fun _ _ _ => rfl
    have hvisit := hall ℕ _ 0 hcount
    rw [v8fixedarrayIterElements_eq h hcount, Prod.mk.injEq, visit_count, visit_count,
      List.length_take, hlen] at hvisit
    have hle := iteratedCount_le (arrayp.nelts % 2 ^ 32)
    have hmod := Nat.mod_le arrayp.nelts (2 ^ 32)
    have hlt : arrayp.nelts < 2 ^ 32 := by
      have hpos : 0 < 2 ^ 32 := by positivity
      have := Nat.mod_lt arrayp.nelts hpos
      omega
    rw [Nat.mod_eq_of_lt hlt] at hvisit
    refine ⟨hlt, fun hlast => ?_⟩
    rw [iteratedCount, if_pos hlast] at hvisit
    omega
  · rintro ⟨hlt, hlast⟩ σ func s hfunc
    rw [v8fixedarrayIterElements_eq h hfunc, Nat.mod_eq_of_lt hlt, iteratedCount, if_neg hlast,
      List.take_of_length_le hlen.le]

/-- An array that can be read is returned, unless it fills the address space. -/
theorem v8fixedarrayAsArray_eq (h : Readable t arrayp bs)
    (hlt : arrayp.nelts * t.cfg.ptrSize < 2 ^ t.cfg.bits) :
    v8fixedarrayAsArray t arrayp =
      if arrayp.nelts = 0 then none else some (Target.wordsOf t.cfg.ptrSize bs) := by
  unfold v8fixedarrayAsArray
  by_cases h0 : arrayp.nelts = 0
  · rw [if_pos h0, if_pos h0]
  · have hpos : arrayp.nelts * t.cfg.ptrSize ≠ 0 :=
      Nat.mul_ne_zero h0 t.cfg.model.ptrSize_pos.ne'
    unfold Readable at h
    rw [if_neg h0, if_neg h0]
    simp only [Allocator.unlimited_refuses_iff, Nat.mod_eq_of_lt hlt, if_neg hpos, h]
    rfl

/-- **The two ways to read a FixedArray.** The iteration visits all the elements, the array that is
returned holds them, and `::v8array` prints the same words with and without `-i`, exactly when the
number of elements is 1 or does not leave one element for the last page (and is one that an unsigned
int and the address space can hold). -/
theorem iterates_iff {addr : ℕ} (hload : v8fixedarrayLoad t addr = some arrayp)
    (h : Readable t arrayp bs) :
    (IteratesAll t arrayp (Target.wordsOf t.cfg.ptrSize bs) ∧
      v8fixedarrayAsArray t arrayp =
        (if arrayp.nelts = 0 then none else some (Target.wordsOf t.cfg.ptrSize bs)) ∧
      (dcmdV8array t addr false).2 = (dcmdV8array t addr true).2) ↔
    (arrayp.nelts = 1 ∨ arrayp.nelts % maxnpgelts ≠ 1) ∧ arrayp.nelts < 2 ^ 32 ∧
      arrayp.nelts * t.cfg.ptrSize < 2 ^ t.cfg.bits := by
  have hlen := h.length_words
  constructor
  · rintro ⟨hall, harray, -⟩
    obtain ⟨hlt, hlast⟩ := (iteratesAll_iff h).mp hall
    refine ⟨?_, hlt, ?_⟩
    · by_contra hno
      push Not at hno
      -- a last element that is alone in its page is not visited
      refine hlast ⟨?_, hno.2⟩
      have hmax : maxnpgelts = 1024 := rfl
      have := hno.2
      rcases Nat.lt_trichotomy arrayp.nelts 1 with hz | hz | hz
      · rw [Nat.lt_one_iff.mp hz, Nat.zero_mod] at this
        omega
      · exact absurd hz hno.1
      · exact hz
    · -- a block of all the address space has a size of zero, and is not returned
      have hle := (Target.mdbVread_eq_some_iff.mp h).1
      refine lt_of_le_of_ne (by omega) fun heq => ?_
      have h0 : arrayp.nelts ≠ 0 := by
        rintro h0
        rw [h0, Nat.zero_mul] at heq
        exact absurd heq (by positivity)
      unfold v8fixedarrayAsArray at harray
      rw [if_neg h0, if_neg h0] at harray
      simp [heq] at harray
  · rintro ⟨hlast, hlt, hsize⟩
    have hall : IteratesAll t arrayp (Target.wordsOf t.cfg.ptrSize bs) :=
      (iteratesAll_iff h).mpr ⟨hlt, fun hl => by rcases hlast with h1 | h1 <;> omega⟩
    have harray := v8fixedarrayAsArray_eq h hsize
    refine ⟨hall, harray, ?_⟩
    -- what is printed is what is visited
    have hprint : Continues v8arrayPrintOne := fun _ _ _ => rfl
    unfold dcmdV8array
    simp only [hload, Bool.not_false, Bool.not_true, Bool.false_eq_true, if_true, if_false]
    rw [hall _ v8arrayPrintOne [] hprint, visit_print, harray, v8fixedarrayLength,
      Nat.mod_eq_of_lt hlt]
    by_cases h0 : arrayp.nelts = 0
    · rw [if_pos h0]
      exact List.eq_nil_of_length_eq_zero (hlen.trans h0)
    · rw [if_neg h0]
      apply List.ext_getElem
      · simp [hlen]
      · intro i hi _
        have hi' : i < arrayp.nelts := by simpa [hlen] using hi
        simp [hlen, hi']

/-- A target with the FixedArray `[5, 7]` at `0x1001`. -/
def twoElementsTarget : Target :=
  .ofWords (.sample .lp64)
    [(0x1000, 0x2001), (0x1008, 2 <<< 32), (0x1010, 5), (0x1018, 7), (0x2010, 0xa3)]

/-- Both ways of reading work on an array of two elements. -/
theorem iterates_two :
    IteratesAll twoElementsTarget ⟨0x1001, 2⟩ [5, 7] ∧
      v8fixedarrayAsArray twoElementsTarget ⟨0x1001, 2⟩ = some [5, 7] ∧
      (dcmdV8array twoElementsTarget 0x1001 false).2 =
        (dcmdV8array twoElementsTarget 0x1001 true).2 := by
  have hload : v8fixedarrayLoad twoElementsTarget 0x1001 = some ⟨0x1001, 2⟩ := by decide
  have hread : Readable twoElementsTarget ⟨0x1001, 2⟩
      [5, 0, 0, 0, 0, 0, 0, 0, 7, 0, 0, 0, 0, 0, 0, 0] := by
    unfold Readable
    decide
  exact (iterates_iff hload hread).mpr ⟨by decide, by decide, by decide⟩

/-- A target with a FixedArray of 1025 zeros at `0x1001`. -/
def lonelyElementTarget : Target :=
  .ofWordsAndZeros (.sample .lp64) [(0x1000, 0x2001), (0x1008, 1025 <<< 32), (0x2010, 0xa3)]

/-- The last element of an array of 1025 is not visited. -/
theorem not_iterates_lonely :
    v8fixedarrayLoad lonelyElementTarget 0x1001 = some ⟨0x1001, 1025⟩ ∧
      ∃ bs, Readable lonelyElementTarget ⟨0x1001, 1025⟩ bs ∧
        v8fixedarrayAsArray lonelyElementTarget ⟨0x1001, 1025⟩ = some (Target.wordsOf 8 bs) ∧
        ¬ IteratesAll lonelyElementTarget ⟨0x1001, 1025⟩ (Target.wordsOf 8 bs) := by
  refine ⟨by decide, ?_⟩
  have hmem : ∀ a, lonelyElementTarget.mem a ≠ none := fun a => by
    simp [lonelyElementTarget, Target.ofWordsAndZeros]
  have haddr : lonelyElementTarget.cfg.add 0x1001 lonelyElementTarget.cfg.offFixedarrayData +
      1025 * lonelyElementTarget.cfg.ptrSize ≤ 2 ^ lonelyElementTarget.cfg.bits := by decide
  obtain ⟨bs, hbs⟩ := Target.exists_mdbVread hmem haddr
  have hread : Readable lonelyElementTarget ⟨0x1001, 1025⟩ bs := hbs
  refine ⟨bs, hread, ?_, fun hall => ?_⟩
  · have hptr : lonelyElementTarget.cfg.ptrSize = 8 := rfl
    have hbits : lonelyElementTarget.cfg.bits = 64 := rfl
    have harray := v8fixedarrayAsArray_eq hread (by rw [hptr, hbits]; norm_num)
    rwa [if_neg (by norm_num), hptr] at harray
  · refine ((iteratesAll_iff hread).mp hall).2 ?_
    norm_num [maxnpgelts]

end Agree

end MdbV8
