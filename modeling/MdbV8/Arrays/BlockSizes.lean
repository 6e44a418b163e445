import MdbV8.Functions.Location

/-!
# The sizes of blocks

Three functions read all the elements of a `FixedArray` into a block: `readHeapArray`,
`v8fixedarrayAsArray` and, for the table of the line endings of a script, `jsfuncLineno`. Each of them
multiplies the length that the memory says with the size of a word, as a `size_t`, and what is done with
the block afterwards goes by the length.

On a 32-bit target the length is a number of 31 bits, so the product may be cut and the block is then
shorter than its length says. `sizesMatch_iff` says that this is all that can go wrong, and
`sizesMatch_of_smiShift` that it cannot on a 64-bit target.
-/

namespace MdbV8

section BlockSizes

variable (t : Target)

/-! ### The table of the line endings -/

/-- The part of `jsfunc_lineno` that reads the table: its size and the words of the block. -/
def linenoTable (lendsp : ℕ) : Option (ℕ × List ℕ) :=
  let c := t.cfg
  if jsobjIsUndefined t lendsp then none
  else
    match t.readHeapSmi lendsp c.offFixedarrayLength with
    | none => none
    | some size =>
      let bufsz := size * c.ptrSize % 2 ^ c.bits
      if !Allocator.unlimited.gives bufsz then none
      else
        (t.mdbVread bufsz (c.add lendsp c.offFixedarrayData)).map fun bs =>
          (size, Target.wordsOf c.ptrSize bs)

/-- `jsfunc_lineno` goes on to search the table. -/
theorem jsfuncLineno_eq_linenoTable (lendsp tokpos : ℕ) :
    jsfuncLineno t lendsp tokpos =
      if jsobjIsUndefined t lendsp then
        some (0, positionText t tokpos (t.cfg.smiValue tokpos), 0)
      else
        match linenoTable t lendsp with
        | none => some (-1, [], -1)
        | some (size, data) => (lineSearch data size tokpos).map fun r => (0, r.1, r.2) := by
  unfold jsfuncLineno linenoTable
  dsimp only
  split
  · rfl
  cases t.readHeapSmi lendsp t.cfg.offFixedarrayLength with
  | none => rfl
  | some size =>
    dsimp only
    split
    · rfl
    · cases t.mdbVread _ (t.cfg.add lendsp t.cfg.offFixedarrayData) <;> rfl

/-! ### The three readers -/

/-- **The sizes of the blocks match**: what the three functions read for an address has at least as many
words as its length says. -/
structure SizesMatch (addr : ℕ) : Prop where
  readHeapArray : ∀ arr, t.readHeapArray addr = some arr → 0 < arr.len →
    arr.len ≤ arr.elts.length
  v8fixedarrayAsArray : ∀ arrayp elts, v8fixedarrayLoad t addr = some arrayp →
    v8fixedarrayAsArray t arrayp = some elts → v8fixedarrayLength arrayp ≤ elts.length
  jsfuncLineno : ∀ size data, linenoTable t addr = some (size, data) → size ≤ data.length

/-- A `FixedArray`, by its tag and its type byte. -/
def IsFixedArray (addr : ℕ) : Prop :=
  t.cfg.isHeapobject addr = true ∧
    ∃ type, t.readTypebyte addr = some type ∧ Target.isType type t.cfg.typeFixedarray = true

/-- There is a length at an address whose block would be as large as the address space, or larger, and
what is left of the size when it has been cut can be read. -/
def WrappedBlock (addr : ℕ) : Prop :=
  ∃ len, t.readHeapSmi addr t.cfg.offFixedarrayLength = some len ∧
    2 ^ t.cfg.bits ≤ len * t.cfg.ptrSize ∧ len * t.cfg.ptrSize % 2 ^ t.cfg.bits ≠ 0 ∧
    ∃ bs, t.mdbVread (len * t.cfg.ptrSize % 2 ^ t.cfg.bits)
      (t.cfg.add addr t.cfg.offFixedarrayData) = some bs

variable {t}

/-- A block of a size that has been computed for a length. -/
theorem block_length {len addr : ℕ} {bs : List UInt8}
    (hread : t.mdbVread (len * t.cfg.ptrSize % 2 ^ t.cfg.bits) addr = some bs) :
    len ≤ (Target.wordsOf t.cfg.ptrSize bs).length ↔ len * t.cfg.ptrSize < 2 ^ t.cfg.bits := by
  rw [Target.wordsOf_length, Target.mdbVread_length hread]
  exact Target.le_blockWords_iff t.cfg len

/-- What `read_heap_array` returns for a length that is not zero. -/
theorem readHeapArray_eq {addr len : ℕ} (harray : IsFixedArray t addr)
    (hlen : t.readHeapSmi addr t.cfg.offFixedarrayLength = some len) (hne : len ≠ 0)
    (hsize : len * t.cfg.ptrSize % 2 ^ t.cfg.bits ≠ 0) :
    t.readHeapArray addr =
      (t.mdbVread (len * t.cfg.ptrSize % 2 ^ t.cfg.bits)
        (t.cfg.add addr t.cfg.offFixedarrayData)).map fun bs =>
          ⟨len, Target.wordsOf t.cfg.ptrSize bs⟩ := by
  obtain ⟨hheap, type, htype, his⟩ := harray
  unfold Target.readHeapArray
  simp only [hheap, htype, his, hlen, hne, Allocator.unlimited_refuses_iff, hsize, Bool.not_true,
    Bool.false_eq_true, if_false]

theorem readHeapArray_isFixedArray {addr : ℕ} {arr : Target.HeapArray}
    (h : t.readHeapArray addr = some arr) : IsFixedArray t addr := by
  unfold Target.readHeapArray at h
  split at h
  · cases h
  next hheap =>
  split at h
  · cases h
  next type htype =>
  split at h
  · cases h
  next his =>
  rw [Bool.not_eq_true, Bool.not_eq_false'] at hheap his
  exact ⟨hheap, type, htype, his⟩

theorem v8fixedarrayLoad_isFixedArray {addr : ℕ} {arrayp : V8FixedArray}
    (h : v8fixedarrayLoad t addr = some arrayp) : IsFixedArray t addr := by
  unfold v8fixedarrayLoad at h
  split at h
  · cases h
  next hheap =>
  split at h
  · cases h
  next type htype =>
  split at h
  · cases h
  next his =>
  rw [Bool.not_eq_true, Bool.not_eq_false'] at hheap his
  exact ⟨hheap, type, htype, his⟩

/-- What `v8fixedarray_as_array` returns is a block that has been read. -/
theorem v8fixedarrayAsArray_block {arrayp : V8FixedArray} {elts : List ℕ}
    (h : v8fixedarrayAsArray t arrayp = some elts) :
    arrayp.nelts * t.cfg.ptrSize % 2 ^ t.cfg.bits ≠ 0 ∧
      ∃ bs, elts = Target.wordsOf t.cfg.ptrSize bs ∧
        t.mdbVread (arrayp.nelts * t.cfg.ptrSize % 2 ^ t.cfg.bits)
          (t.cfg.add arrayp.addr t.cfg.offFixedarrayData) = some bs := by
  unfold v8fixedarrayAsArray at h
  split at h
  · cases h
  dsimp only at h
  split at h
  · cases h
  next hsize =>
  obtain ⟨bs, hbs, rfl⟩ := Option.map_eq_some_iff.mp h
  exact ⟨mt Allocator.unlimited_refuses_iff.mpr hsize, bs, rfl, hbs⟩

/-- So is the table that `jsfunc_lineno` searches. -/
theorem linenoTable_block {lendsp size : ℕ} {data : List ℕ}
    (h : linenoTable t lendsp = some (size, data)) :
    ¬ jsobjIsUndefined t lendsp = true ∧
      t.readHeapSmi lendsp t.cfg.offFixedarrayLength = some size ∧
      size * t.cfg.ptrSize % 2 ^ t.cfg.bits ≠ 0 ∧
      ∃ bs, data = Target.wordsOf t.cfg.ptrSize bs ∧
        t.mdbVread (size * t.cfg.ptrSize % 2 ^ t.cfg.bits)
          (t.cfg.add lendsp t.cfg.offFixedarrayData) = some bs := by
  unfold linenoTable at h
  dsimp only at h
  split at h
  · cases h
  next hdef =>
  split at h
  · cases h
  next n hlen =>
  split at h
  · cases h
  next hsize =>
  obtain ⟨bs, hbs, heq⟩ := Option.map_eq_some_iff.mp h
  obtain ⟨rfl, rfl⟩ := Prod.mk.inj heq
  exact ⟨hdef, hlen, mt Allocator.unlimited_refuses_iff.mpr hsize, bs, rfl, hbs⟩

/-- **When the sizes match**: unless there is a length whose block is cut, at a `FixedArray` or at an
address that is not taken to be undefined. -/
theorem sizesMatch_iff (addr : ℕ) :
    SizesMatch t addr ↔
      (WrappedBlock t addr → ¬ IsFixedArray t addr ∧ jsobjIsUndefined t addr = true) := by
  constructor
  · rintro hmatch ⟨len, hlen, hge, hsize, bs, hbs⟩
    have hne : len ≠ 0 := by
      rintro rfl
      exact hsize (by rw [Nat.zero_mul, Nat.zero_mod])
    constructor
    · -- a FixedArray is read with a block that is cut
      intro harray
      have hread := readHeapArray_eq harray hlen hne hsize
      rw [hbs, Option.map_some] at hread
      have hle := hmatch.readHeapArray _ hread (Nat.pos_of_ne_zero hne)
      exact absurd ((block_length hbs).mp hle) (Nat.not_lt.mpr hge)
    · -- and so is the table of line endings
      by_contra hdef
      have htable : linenoTable t addr = some (len, Target.wordsOf t.cfg.ptrSize bs) := by
        unfold linenoTable
        simp only [hdef, hlen, mt Allocator.unlimited_refuses_iff.mp hsize, hbs, Bool.false_eq_true, if_false,
          Option.map_some]
      have hle := hmatch.jsfuncLineno _ _ htable
      exact absurd ((block_length hbs).mp hle) (Nat.not_lt.mpr hge)
  · intro hcond
    -- each of the three has a block that is not cut
    refine ⟨fun arr harr hpos => ?_, fun arrayp elts hload helts => ?_, fun size data htable => ?_⟩
    · obtain ⟨-, hlen, hblock⟩ := t.readHeapArray_elts harr
      obtain ⟨hsize, bs, helts, hbs⟩ := hblock hpos.ne'
      rw [helts, block_length hbs]
      by_contra hge
      exact (hcond ⟨arr.len, hlen, Nat.not_lt.mp hge, hsize, bs, hbs⟩).1
        (readHeapArray_isFixedArray harr)
    · obtain ⟨haddr, hlen⟩ := load_eq hload
      obtain ⟨hsize, bs, rfl, hbs⟩ := v8fixedarrayAsArray_block helts
      rw [v8fixedarrayLength, block_length hbs]
      by_contra hge
      rw [haddr] at hbs
      exact (hcond ⟨arrayp.nelts, hlen, Nat.not_lt.mp hge, hsize, bs, hbs⟩).1
        (v8fixedarrayLoad_isFixedArray hload)
    · obtain ⟨hdef, hlen, hsize, bs, rfl, hbs⟩ := linenoTable_block htable
      rw [block_length hbs]
      by_contra hge
      exact hdef (hcond ⟨size, hlen, Nat.not_lt.mp hge, hsize, bs, hbs⟩).2

/-- **On a 64-bit target the sizes match**, where an SMI is a number of 32 bits: no length is large
enough for its block to be cut. -/
theorem sizesMatch_of_smiShift (hmodel : t.cfg.model = .lp64) (hshift : t.cfg.smiShift = 32)
    (addr : ℕ) : SizesMatch t addr := by
  refine (sizesMatch_iff addr).mpr ?_
  rintro ⟨len, hlen, hge, -, -⟩
  have hlt : len < 2 ^ 32 := by
    unfold Target.readHeapSmi at hlen
    split at hlen
    · cases hlen
    next w hw =>
    split at hlen
    · obtain rfl := Option.some.inj hlen
      have hlt := Target.readPtr_lt hw
      rw [Config.bits, hmodel] at hlt
      change w < 2 ^ 64 at hlt
      rw [Config.smiValue, hshift, Nat.shiftRight_eq_div_pow]
      omega
    · cases hlen
  rw [Config.bits, Config.ptrSize, hmodel] at hge
  change 2 ^ 64 ≤ len * 8 at hge
  omega

end BlockSizes

/-- A `FixedArray` of a 32-bit target, with a length of `2 ^ 30 + 1`: the block for it has four bytes. -/
def wrappedTarget : Target :=
  Target.ofWords (Config.sample .ilp32)
    [(0x1000, 0x2001), (0x1004, 2 ^ 31 + 2), (0x1008, 7), (0x2008, 0xa3)]

theorem not_sizesMatch_wrapped : ¬ SizesMatch wrappedTarget 0x1001 := by
  intro hmatch
  have hread : wrappedTarget.readHeapArray 0x1001 = some ⟨2 ^ 30 + 1, [7]⟩ := by decide +kernel
  exact absurd (hmatch.readHeapArray _ hread (by decide)) (by decide)

end MdbV8
