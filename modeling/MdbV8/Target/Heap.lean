import MdbV8.Target.Memory

/-!
# Reading heap objects

The lowest layer of the module that knows about V8: words, small integers, bytes, the type byte of
an object, its size, and the contents of a `FixedArray`. The functions return `-1` when they fail;
here they return `none`. Each of them checks what it can, since the heap of the target may be
corrupt in any way.
-/

namespace MdbV8

/-- **What the module relies on of `mdb_zalloc` and `mdb_alloc`**, which belong to the debugger: whether
there is a block of some size. A block of no bytes is never had. -/
structure Allocator where
  gives : ℕ → Bool
  gives_zero : gives 0 = false

namespace Allocator

/-- The allocator of a debugger that has memory for everything. -/
def unlimited : Allocator where
  gives size := size != 0
  gives_zero := rfl

/-- What is given is no block of no bytes. -/
theorem ne_zero_of_gives {a : Allocator} {size : ℕ} (h : a.gives size = true) : size ≠ 0 := by
  rintro rfl
  exact absurd (a.gives_zero.symm.trans h) Bool.false_ne_true

@[simp] theorem unlimited_gives (size : ℕ) : unlimited.gives size = (size != 0) := rfl

/-- Only that is not. -/
theorem unlimited_refuses_iff {size : ℕ} : (!unlimited.gives size) = true ↔ size = 0 := by simp

end Allocator

namespace Target

variable (t : Target)

/-- `read_heap_ptr`. -/
def readHeapPtr (addr : ℕ) (off : ℤ) : Option ℕ := t.readPtr (t.cfg.add addr off)

/-- `read_heap_smi`: the word has to be an SMI, and its value is stored. -/
def readHeapSmi (addr : ℕ) (off : ℤ) : Option ℕ :=
  match t.readHeapPtr addr off with
  | none => none
  | some w => if t.cfg.isSmi w then some (t.cfg.smiValue w) else none

/-- `read_heap_double`: the eight bytes of a `double`, as the integer with the same bytes. -/
def readHeapDouble (addr : ℕ) (off : ℤ) : Option ℕ :=
  (t.mdbVread 8 (t.cfg.add addr off)).map leNat

/-- `read_heap_byte`. -/
def readHeapByte (addr : ℕ) (off : ℤ) : Option ℕ := t.readByte (t.cfg.add addr off)

/-- `read_heap_maybesmi`: on 64-bit targets two integers share a word, and the one in the low half
is shifted left by one. -/
def readHeapMaybesmi (addr : ℕ) (off : ℤ) : Option ℕ :=
  match t.cfg.model with
  | .ilp32 => t.readHeapSmi addr off
  | .lp64 =>
    match t.readUint32 (t.cfg.add addr off) with
    | none => none
    | some readval =>
      if t.cfg.add addr off % t.cfg.ptrSize = 0 then some (readval >>> 1) else some readval

/-- `read_typebyte`: the type byte of the object's Map. -/
def readTypebyte (addr : ℕ) : Option ℕ :=
  match t.readPtr (t.cfg.add addr t.cfg.offHeapobjectMap) with
  | none => none
  | some mapaddr =>
    if t.cfg.isHeapobject mapaddr then t.readHeapByte mapaddr t.cfg.offMapInstanceAttributes
    else none

/-- `read_size`: the instance size that the object's Map records, in bytes. -/
def readSize (addr : ℕ) : Option ℕ :=
  match t.readHeapPtr addr t.cfg.offHeapobjectMap with
  | none => none
  | some mapaddr =>
    if t.cfg.isHeapobject mapaddr then
      (t.readHeapByte mapaddr t.cfg.offMapInstanceSize).map (· <<< t.cfg.pointerSizeLog2.toNat)
    else none

/-- Whether a type byte is the one a `V8_TYPE_*` variable holds. -/
def isType (type : ℕ) (v8type : ℤ) : Bool := (type : ℤ) == v8type

/-- An array read from the target: its length, and the words of the block it was read into. -/
structure HeapArray where
  len : ℕ
  elts : List ℕ
  deriving DecidableEq, Repr

/-- A subscript applied to the block. -/
def HeapArray.get (a : HeapArray) (i : ℕ) : ℕ := a.elts.getD i 0

/-- The words that a block of bytes holds. -/
def wordsOf (ptrSize : ℕ) (bs : List UInt8) : List ℕ :=
  (List.range (bs.length / ptrSize)).map fun i => leNat ((bs.drop (i * ptrSize)).take ptrSize)

section WordsOf

variable {ptrSize : ℕ} (bs : List UInt8)

@[simp] theorem wordsOf_length : (wordsOf ptrSize bs).length = bs.length / ptrSize := by
  simp [wordsOf]

theorem wordsOf_getElem {i : ℕ} (hi : i < (wordsOf ptrSize bs).length) :
    (wordsOf ptrSize bs)[i] = leNat ((bs.drop (i * ptrSize)).take ptrSize) := by
  simp [wordsOf]

/-- The words of a part of a block are a part of its words. -/
theorem wordsOf_sub (hpos : 0 < ptrSize) {i k : ℕ} (hik : (i + k) * ptrSize ≤ bs.length) :
    wordsOf ptrSize ((bs.drop (i * ptrSize)).take (k * ptrSize)) =
      ((wordsOf ptrSize bs).drop i).take k := by
  have hsplit : (i + k) * ptrSize = i * ptrSize + k * ptrSize := Nat.add_mul _ _ _
  have hlen : ((bs.drop (i * ptrSize)).take (k * ptrSize)).length = k * ptrSize := by
    rw [List.length_take, List.length_drop]
    omega
  have hwords : i + k ≤ (wordsOf ptrSize bs).length := by
    rw [wordsOf_length]
    exact (Nat.le_div_iff_mul_le hpos).mpr hik
  apply List.ext_getElem
  · rw [wordsOf_length, hlen, Nat.mul_div_cancel _ hpos, List.length_take, List.length_drop]
    omega
  · intro j hj _
    rw [wordsOf_length, hlen, Nat.mul_div_cancel _ hpos] at hj
    -- word `j` of the part lies inside the part
    have hend : j * ptrSize + ptrSize ≤ k * ptrSize := by
      rw [← Nat.succ_mul]
      exact Nat.mul_le_mul_right _ hj
    rw [wordsOf_getElem, List.getElem_take, List.getElem_drop, wordsOf_getElem, List.drop_take,
      List.drop_drop, List.take_take, min_eq_left (by omega), Nat.add_mul]

end WordsOf

/-- `read_heap_array`. The size of the block is computed as a `size_t`. -/
def readHeapArray (addr : ℕ) : Option HeapArray :=
  if !t.cfg.isHeapobject addr then none
  else
    match t.readTypebyte addr with
    | none => none
    | some type =>
      if !isType type t.cfg.typeFixedarray then none
      else
        match t.readHeapSmi addr t.cfg.offFixedarrayLength with
        | none => none
        | some len =>
          if len = 0 then some ⟨0, []⟩
          else
            let sz := len * t.cfg.ptrSize % 2 ^ t.cfg.bits
            if !Allocator.unlimited.gives sz then none
            else (t.mdbVread sz (t.cfg.add addr t.cfg.offFixedarrayData)).map fun bs =>
              ⟨len, wordsOf t.cfg.ptrSize bs⟩

/-- A block holds as many words as it should, if and only if the product that is its size has not been
cut. -/
theorem le_blockWords_iff (c : Config) (len : ℕ) :
    len ≤ len * c.ptrSize % 2 ^ c.bits / c.ptrSize ↔ len * c.ptrSize < 2 ^ c.bits := by
  have hpos : 0 < c.ptrSize := c.model.ptrSize_pos
  constructor
  · intro hle
    by_contra hge
    have hmod : len * c.ptrSize % 2 ^ c.bits < len * c.ptrSize :=
      lt_of_lt_of_le (Nat.mod_lt _ (by positivity)) (Nat.not_lt.mp hge)
    exact absurd (Nat.div_lt_of_lt_mul (hmod.trans_eq (Nat.mul_comm _ _))) (Nat.not_lt.mpr hle)
  · intro hlt
    rw [Nat.mod_eq_of_lt hlt, Nat.mul_div_cancel _ hpos]

/-- What is read as an array is a number of words, whose size in bytes is taken to be a word. -/
theorem readHeapArray_elts {addr : ℕ} {arr : HeapArray} (h : t.readHeapArray addr = some arr) :
    arr.elts.length = arr.len * t.cfg.ptrSize % 2 ^ t.cfg.bits / t.cfg.ptrSize ∧
      t.readHeapSmi addr t.cfg.offFixedarrayLength = some arr.len ∧
      (arr.len ≠ 0 → arr.len * t.cfg.ptrSize % 2 ^ t.cfg.bits ≠ 0 ∧
        ∃ bs, arr.elts = wordsOf t.cfg.ptrSize bs ∧ t.mdbVread (arr.len * t.cfg.ptrSize % 2 ^ t.cfg.bits)
          (t.cfg.add addr t.cfg.offFixedarrayData) = some bs) := by
  unfold readHeapArray at h
  split at h
  · cases h
  · split at h
    · cases h
    · split at h
      · cases h
      · -- the tags and the type have been checked
        split at h
        · cases h
        · next len hlen =>
          split at h
          · next h0 =>
            obtain rfl := Option.some.inj h
            subst h0
            exact ⟨by simp, hlen, fun hne => absurd rfl hne⟩
          · dsimp only at h
            split at h
            · cases h
            · next hsize =>
              obtain ⟨bs, hbs, rfl⟩ := Option.map_eq_some_iff.mp h
              refine ⟨?_, hlen, fun _ => ⟨mt Allocator.unlimited_refuses_iff.mpr hsize, bs, rfl, hbs⟩⟩
              rw [wordsOf_length, mdbVread_length hbs]

/-- The length of an array is the value of an SMI. -/
theorem readHeapArray_smi {addr : ℕ} {arr : HeapArray} (h : t.readHeapArray addr = some arr) :
    ∃ w < 2 ^ t.cfg.bits, arr.len = t.cfg.smiValue w := by
  have hlen := (t.readHeapArray_elts h).2.1
  unfold readHeapSmi at hlen
  cases hw : t.readHeapPtr addr t.cfg.offFixedarrayLength with
  | none => simp [hw] at hlen
  | some w =>
    rw [hw] at hlen
    obtain ⟨-, heq⟩ := Option.ite_none_right_eq_some.mp hlen
    exact ⟨w, t.readPtr_lt hw, (Option.some.inj heq).symm⟩

/-- It is less than the number of words. -/
theorem readHeapArray_len_lt_two_pow {addr : ℕ} {arr : HeapArray}
    (h : t.readHeapArray addr = some arr) : arr.len < 2 ^ t.cfg.bits := by
  obtain ⟨w, hw, hlen⟩ := t.readHeapArray_smi h
  rw [hlen, Config.smiValue, Nat.shiftRight_eq_div_pow]
  exact (Nat.div_le_self _ _).trans_lt hw

/-- An element of an array is a word. -/
theorem readHeapArray_get_lt {addr : ℕ} {arr : HeapArray} (h : t.readHeapArray addr = some arr)
    (i : ℕ) : arr.get i < 2 ^ t.cfg.bits := by
  unfold HeapArray.get
  rw [List.getD_eq_getElem?_getD]
  cases hget : arr.elts[i]? with
  | none => exact Nat.two_pow_pos _
  | some w =>
    obtain ⟨hi, hw⟩ := List.getElem?_eq_some_iff.mp hget
    obtain ⟨hlen, -, hwords⟩ := t.readHeapArray_elts h
    have hne : arr.len ≠ 0 := by
      intro h0
      rw [h0, Nat.zero_mul, Nat.zero_mod, Nat.zero_div] at hlen
      omega
    obtain ⟨-, bs, helts, -⟩ := hwords hne
    have hword := leNat_lt ((bs.drop (i * t.cfg.ptrSize)).take t.cfg.ptrSize)
    have hbytes : (2 : ℕ) ^ t.cfg.bits = 256 ^ t.cfg.ptrSize := by
      rw [Config.bits, Config.ptrSize, DataModel.bits_eq, pow_mul]
      rfl
    -- the element is what some bytes of the block stand for
    have hwi : w = leNat ((bs.drop (i * t.cfg.ptrSize)).take t.cfg.ptrSize) := by
      rw [← hw]
      simp only [helts]
      exact wordsOf_getElem bs _
    rw [Option.getD_some, hwi, hbytes]
    exact hword.trans_le (Nat.pow_le_pow_right (by decide) (List.length_take_le _ _))

end Target

end MdbV8
