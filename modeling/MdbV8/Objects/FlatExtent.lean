import MdbV8.Objects.Contains
import MdbV8.Target.Tags

/-!
# The extent of a string or an array

A sequential string is a header with its characters behind it, and a `FixedArray` is a header with its
elements behind it: the length in the header says where the object ends. `v8contains` adds the header
and the length to the tagged address of the object, but the offsets that the metadata has for the end
of the header (`V8_OFF_SEQASCIISTR_CHARS` and so on) are meant for tagged addresses: the tag has been
subtracted from them. So what it adds up to is the *untagged* address of the end, and with that it
compares the tagged address of the target.

The comparison is off by one, and this shows when the end of the object is one byte past a word
boundary (`reportsExtent_iff`): the last character of a one-byte string is then the only one in its
word. No two-byte string and no array ends there.
-/

namespace MdbV8

/-- The objects whose contents follow their header. -/
inductive FlatKind where
  | oneByteString
  | twoByteString
  | fixedArray
  deriving DecidableEq, Repr

namespace FlatKind

variable (c : Config)

/-- The size of a character or an element. -/
def elementSize : FlatKind → ℕ
  | oneByteString => 1
  | twoByteString => 2
  | fixedArray => c.ptrSize

/-- The offset of the contents, from the tagged address of the object. -/
def offContents : FlatKind → ℤ
  | oneByteString => c.offSeqasciistrChars
  | twoByteString => c.offSeqtwobytestrChars
  | fixedArray => c.offFixedarrayData

/-- The offset of the length. -/
def offLength : FlatKind → ℤ
  | oneByteString => c.offStringLength
  | twoByteString => c.offStringLength
  | fixedArray => c.offFixedarrayLength

/-- The type byte is that of a sequential string, and of no other representation. -/
def IsSeqString (type : ℕ) : Prop :=
  c.typeString type = true ∧ c.strrepSeq type = true ∧ c.strrepCons type = false ∧
    c.strrepSliced type = false ∧ c.strrepExt type = false

/-- The type byte of such an object. -/
def HasType (type : ℕ) : FlatKind → Prop
  | oneByteString => IsSeqString c type ∧ c.strencAscii type = true
  | twoByteString => IsSeqString c type ∧ c.strencAscii type = false
  | fixedArray => (c.typeString type && c.strrepSeq type) = false ∧
      Target.isType type c.typeFixedarray = true

end FlatKind

/-- A sequential string or a `FixedArray` in memory: its header takes up `header` bytes and says that
there are `len` characters or elements. -/
structure FlatObject (t : Target) (kind : FlatKind) (addr type header len : ℕ) : Prop where
  tags : t.cfg.V8Tags
  heap : t.cfg.isHeapobject addr = true
  addr_lt : addr < 2 ^ t.cfg.bits
  read_type : t.readTypebyte addr = some type
  hasType : kind.HasType t.cfg type
  read_length : t.readHeapSmi addr (kind.offLength t.cfg) = some len
  header_pos : 0 < header
  /-- The metadata has the offset of the contents, less the tag (`heap_offset`). -/
  offContents : kind.offContents t.cfg = t.cfg.offHeap header

/-- The untagged address of the end of an object. -/
def flatEnd (c : Config) (kind : FlatKind) (addr header len : ℕ) : ℕ :=
  addr - 1 + (header + len * kind.elementSize c)

namespace FlatObject

variable {t : Target} {kind : FlatKind} {addr type header len : ℕ}

theorem addr_pos (h : FlatObject t kind addr type header len) : 0 < addr := by
  have hmod := h.tags.isHeapobject_iff.mp h.heap
  omega

/-- A sequential string is loaded with its length. -/
theorem v8stringLoad_eq (hread : t.readTypebyte addr = some type)
    (hseq : FlatKind.IsSeqString t.cfg type)
    (hlen : t.readHeapSmi addr t.cfg.offStringLength = some len) :
    v8stringLoad t addr = some { addr, len, type } := by
  obtain ⟨hstring, hrep, hcons, hsliced, hext⟩ := hseq
  unfold v8stringLoad
  simp only [hread, hstring, hrep, hcons, hsliced, hext, hlen, Bool.not_true, Bool.false_eq_true,
    Bool.false_and, if_false]

/-- What `v8contains` adds to the address of an object ends at the untagged end. -/
theorem add_eq (h : FlatObject t kind addr type header len) (off : ℤ)
    (hoff : off = kind.offContents t.cfg + (len * kind.elementSize t.cfg : ℕ)) :
    t.cfg.add addr off = flatEnd t.cfg kind addr header len % 2 ^ t.cfg.bits := by
  have hpos := h.addr_pos
  have hend : ((addr : ℤ) + off) = (flatEnd t.cfg kind addr header len : ℕ) := by
    rw [hoff, h.offContents, Config.offHeap, h.tags.heapTag]
    unfold flatEnd
    push_cast [Nat.cast_sub hpos]
    ring
  unfold Config.add
  rw [hend, Config.wrap_natCast_mod]

/-- **The answer of `v8contains`**: it compares the target, which is tagged, with the end of the
object, which is not. -/
theorem v8contains_eq (h : FlatObject t kind addr type header len) (target : ℕ) :
    v8contains t addr type target =
      some (decide (target < flatEnd t.cfg kind addr header len % 2 ^ t.cfg.bits)) := by
  have htype := h.hasType
  have hlength := h.read_length
  unfold v8contains
  cases kind with
  | oneByteString =>
    -- the end of the characters is computed from the length
    obtain ⟨hseq, hascii⟩ := htype
    have hload := v8stringLoad_eq h.read_type hseq hlength
    have hadd := h.add_eq (t.cfg.offSeqasciistrChars + len)
      (by simp [FlatKind.offContents, FlatKind.elementSize])
    simp only [hseq.1, hseq.2.1, hload, hascii, hadd, Bool.and_true, if_true, Option.map_some]
  | twoByteString =>
    obtain ⟨hseq, hascii⟩ := htype
    have hload := v8stringLoad_eq h.read_type hseq hlength
    have hadd := h.add_eq (t.cfg.offSeqtwobytestrChars + 2 * len)
      (by simp [FlatKind.offContents, FlatKind.elementSize, mul_comm])
    simp only [hseq.1, hseq.2.1, hload, hascii, hadd, Bool.and_true, if_true, Option.map_some,
      Bool.false_eq_true, if_false]
  | fixedArray =>
    -- and so is that of the words
    obtain ⟨hstring, harray⟩ := htype
    have hload : v8fixedarrayLoad t addr = some { addr, nelts := len } := by
      have hlength' : t.readHeapSmi addr t.cfg.offFixedarrayLength = some len := hlength
      unfold v8fixedarrayLoad
      simp only [h.heap, h.read_type, harray, hlength', Bool.not_true, Bool.false_eq_true, if_false,
        Option.map_some]
    have hadd := h.add_eq (t.cfg.offFixedarrayData + (len * t.cfg.ptrSize : ℕ)) rfl
    simp only [hstring, harray, hload, v8fixedarrayLength, hadd, Bool.false_eq_true, if_false,
      if_true, Option.map_some]

end FlatObject

/-- `v8contains` answers, for every tagged word at the object or behind it, whether the word begins
before the end of the object. -/
def ReportsExtent (t : Target) (kind : FlatKind) (addr type header len : ℕ) : Prop :=
  ∀ target, addr ≤ target → target < 2 ^ t.cfg.bits → (target - 1) % t.cfg.ptrSize = 0 →
    v8contains t addr type target =
      some (decide (target - 1 < flatEnd t.cfg kind addr header len))

/-- Comparing words, which are tagged, with an end that is reduced to the size of the address space
instead of comparing the untagged words with the end. -/
theorem wordsBefore_iff {w n addr e : ℕ} (hwn : (w = 4 ∧ n = 2 ^ 32) ∨ (w = 8 ∧ n = 2 ^ 64))
    (haddr : 0 < addr) (hend : addr - 1 < e) :
    (∀ target, addr ≤ target → target < n → (target - 1) % w = 0 →
        (target < e % n ↔ target - 1 < e)) ↔
      (e < n ∧ e % w ≠ 1) ∨ (n ≤ e ∧ (n - w + 1 < e % n ∨ n - w + 1 < addr)) := by
  constructor
  · intro h
    rcases Nat.lt_or_ge e n with hlt | hge
    · -- a word one past the end of the object would be at the end itself
      refine .inl ⟨hlt, fun hone => ?_⟩
      have hlast := h e (by omega) hlt (by rcases hwn with ⟨rfl, -⟩ | ⟨rfl, -⟩ <;> omega)
      rw [Nat.mod_eq_of_lt hlt] at hlast
      omega
    · -- every word is before the end, the last one too
      refine .inr ⟨hge, ?_⟩
      by_contra hno
      have hlast := h (n - w + 1) (by omega)
        (by rcases hwn with ⟨rfl, rfl⟩ | ⟨rfl, rfl⟩ <;> omega)
        (by rcases hwn with ⟨rfl, rfl⟩ | ⟨rfl, rfl⟩ <;> omega)
      omega
  · rintro (⟨hlt, hone⟩ | ⟨hge, hwrap⟩) target hle htarget hword
    · rw [Nat.mod_eq_of_lt hlt]
      rcases hwn with ⟨rfl, -⟩ | ⟨rfl, -⟩ <;> omega
    · have hlast : target ≤ n - w + 1 := by
        rcases hwn with ⟨rfl, rfl⟩ | ⟨rfl, rfl⟩ <;> omega
      omega

/-- **When `v8contains` has the extent of a string or an array right**: if the object ends inside the
address space, unless its end is one byte past a word boundary; and otherwise, if what is left of the
end when it wraps around is still past the last word there is. -/
theorem reportsExtent_iff {t : Target} {kind : FlatKind} {addr type header len : ℕ}
    (h : FlatObject t kind addr type header len) :
    ReportsExtent t kind addr type header len ↔
      let e := flatEnd t.cfg kind addr header len
      let last := 2 ^ t.cfg.bits - t.cfg.ptrSize + 1
      (e < 2 ^ t.cfg.bits ∧ e % t.cfg.ptrSize ≠ 1) ∨
        (2 ^ t.cfg.bits ≤ e ∧ (last < e % 2 ^ t.cfg.bits ∨ last < addr)) := by
  have haddr := h.addr_pos
  have hlt := h.addr_lt
  have hend : addr - 1 < flatEnd t.cfg kind addr header len := by
    have := h.header_pos
    unfold flatEnd
    omega
  unfold ReportsExtent
  simp only [h.v8contains_eq, Option.some.injEq, decide_eq_decide]
  generalize flatEnd t.cfg kind addr header len = e at hend ⊢
  rcases t.cfg.model.ptrSize_cases with ⟨-, hw, hn⟩ | ⟨-, hw, hn⟩
  · rw [show t.cfg.ptrSize = 4 from hw, show t.cfg.bits = 32 from hn] at *
    exact wordsBefore_iff (.inl ⟨rfl, rfl⟩) haddr hend
  · rw [show t.cfg.ptrSize = 8 from hw, show t.cfg.bits = 64 from hn] at *
    exact wordsBefore_iff (.inr ⟨rfl, rfl⟩) haddr hend

/-- A target with two one-byte strings: one of two characters at `0x1001`, and one of a single
character at `0x1101`, in a word of its own behind the header of 24 bytes. -/
def flatTarget : Target :=
  .ofWords (.sample .lp64)
    [(0x1000, 0x2001), (0x1008, 2 <<< 32), (0x1018, 0x6968), (0x1100, 0x2001), (0x1108, 1 <<< 32),
      (0x1118, 0x78), (0x2010, 0x04)]

theorem flat_sample : FlatObject flatTarget .oneByteString 0x1001 0x04 24 2 where
  tags := Config.v8Tags_sample .lp64
  heap := by decide
  addr_lt := by decide
  read_type := by decide
  hasType := by unfold FlatKind.HasType FlatKind.IsSeqString; decide
  read_length := by decide
  header_pos := by decide
  offContents := by decide

/-- The extent of a string of two characters is right. -/
theorem reportsExtent_sample : ReportsExtent flatTarget .oneByteString 0x1001 0x04 24 2 :=
  (reportsExtent_iff flat_sample).mpr (.inl (by decide))

/-- The only character of a string is reported to lie outside of it. -/
theorem not_reportsExtent_sample :
    FlatObject flatTarget .oneByteString 0x1101 0x04 24 1 ∧
      v8contains flatTarget 0x1101 0x04 0x1119 = some false ∧
      ¬ ReportsExtent flatTarget .oneByteString 0x1101 0x04 24 1 := by
  have hobj : FlatObject flatTarget .oneByteString 0x1101 0x04 24 1 :=
    ⟨Config.v8Tags_sample .lp64, by decide, by decide, by decide,
      by unfold FlatKind.HasType FlatKind.IsSeqString; decide, by decide, by decide, by decide⟩
  have hcontains : v8contains flatTarget 0x1101 0x04 0x1119 = some false := by decide
  refine ⟨hobj, hcontains, fun h => ?_⟩
  have hword := h 0x1119 (by decide) (by decide) (by decide)
  rw [hcontains] at hword
  exact absurd hword (by decide)

end MdbV8
