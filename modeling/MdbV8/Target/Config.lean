import Mathlib

/-!
# Configuration of the target

Before it inspects a process, the module reads from it the *metadata* that V8 leaves in its
binaries: the names of the type bytes, the classes with the offsets of their fields, and a list of
tags, masks, shifts and indexes. Everything else in the module is written against those values.
`Config` is that configuration as it stands once `autoconfigure` has returned.

A constant that the metadata does not have is `-1`, as in the source, and so is every constant a
configuration leaves out here. The module is built for the data model of its target, so the width
of a word of the target (`uintptr_t`) is also the width of a `size_t` of the module.

Words are natural numbers below `2 ^ bits`, and signed values are integers. `Config.wrap` is the
conversion of an integer to a word.
-/

namespace MdbV8

/-- The data model of the target, and of the module that was built for it. -/
inductive DataModel where
  | ilp32
  | lp64
  deriving DecidableEq, Repr

namespace DataModel

/-- The number of bits of a `uintptr_t`. -/
def bits : DataModel → ℕ
  | .ilp32 => 32
  | .lp64 => 64

/-- `sizeof (uintptr_t)`. -/
def ptrSize : DataModel → ℕ
  | .ilp32 => 4
  | .lp64 => 8

theorem bits_eq (m : DataModel) : m.bits = 8 * m.ptrSize := by cases m <;> rfl

theorem ptrSize_pos (m : DataModel) : 0 < m.ptrSize := by cases m <;> decide

end DataModel

/-- One field of a C++ class of V8 (`v8_field_t`). -/
structure V8Field where
  name : String
  offset : ℤ
  isbyte : Bool
  isstr : Bool
  deriving DecidableEq, Repr

/-- One C++ class of V8 (`v8_class_t`), with its fields in the order of their offsets. -/
structure V8Class where
  name : String
  fields : List V8Field
  deriving DecidableEq, Repr

/-- The values the module is configured with. The names are those of the source, without the `V8_`
they all start with. -/
structure Config where
  model : DataModel
  v8Major : ℕ
  v8Minor : ℕ
  v8Build : ℕ
  v8Patch : ℕ
  /-- `v8_classes`. -/
  classes : List V8Class := []
  /-- `v8_types`, up to its first entry with an empty name. -/
  types : List (String × ℕ) := []
  isNotStringMask : ℤ := -1
  stringTag : ℤ := -1
  stringEncodingMask : ℤ := -1
  asciiStringTag : ℤ := -1
  oneByteStringTag : ℤ := -1
  stringRepresentationMask : ℤ := -1
  seqStringTag : ℤ := -1
  consStringTag : ℤ := -1
  slicedStringTag : ℤ := -1
  externalStringTag : ℤ := -1
  failureTag : ℤ := -1
  failureTagMask : ℤ := -1
  heapObjectTag : ℤ := -1
  heapObjectTagMask : ℤ := -1
  smiTag : ℤ := -1
  smiTagMask : ℤ := -1
  smiValueShift : ℤ := -1
  smiShiftSize : ℤ := -1
  pointerSizeLog2 : ℤ := -1
  issharedShift : ℤ := -1
  dictShift : ℤ := -1
  dictPrefixSize : ℤ := -1
  dictEntrySize : ℤ := -1
  dictStartIndex : ℤ := -1
  propindexMask : ℤ := -1
  propindexShift : ℤ := -1
  propIdxContent : ℤ := -1
  propIdxFirst : ℤ := -1
  propTypeField : ℤ := -1
  propTypeMask : ℤ := -1
  propDescKey : ℤ := -1
  propDescDetails : ℤ := -1
  propDescValue : ℤ := -1
  propDescSize : ℤ := -1
  transitionsIdxDesc : ℤ := -1
  typeAccessorinfo : ℤ := -1
  typeAccessorpair : ℤ := -1
  typeExecutableaccessorinfo : ℤ := -1
  typeJsobject : ℤ := -1
  typeJsarray : ℤ := -1
  typeJsfunction : ℤ := -1
  typeJsboundfunction : ℤ := -1
  typeJsdate : ℤ := -1
  typeJsregexp : ℤ := -1
  typeHeapnumber : ℤ := -1
  typeMutableheapnumber : ℤ := -1
  typeOddball : ℤ := -1
  typeFixedarray : ℤ := -1
  typeMap : ℤ := -1
  typeJstypedarray : ℤ := -1
  elementsKindShift : ℤ := -1
  elementsKindBitcount : ℤ := -1
  elementsFastElements : ℤ := -1
  elementsFastHoleyElements : ℤ := -1
  elementsDictionaryElements : ℤ := -1
  contextNcommon : ℤ := -1
  contextIdxClosure : ℤ := -1
  contextIdxPrev : ℤ := -1
  contextIdxExt : ℤ := -1
  contextIdxGlobal : ℤ := -1
  contextIdxNative : ℤ := -1
  scopeinfoIdxNparams : ℤ := -1
  scopeinfoIdxNstacklocals : ℤ := -1
  scopeinfoOffsetStackLocals : ℤ := -1
  scopeinfoIdxNcontextlocals : ℤ := -1
  scopeinfoIdxFirstVars : ℤ := -1
  offCodeInstructionSize : ℤ := -1
  offCodeInstructionStart : ℤ := -1
  offConsstringFirst : ℤ := -1
  offConsstringSecond : ℤ := -1
  offExternalstringResource : ℤ := -1
  offFixedarrayData : ℤ := -1
  offFixedarrayLength : ℤ := -1
  offHeapnumberValue : ℤ := -1
  offHeapobjectMap : ℤ := -1
  offJsarrayLength : ℤ := -1
  offJsdateValue : ℤ := -1
  offJsregexpData : ℤ := -1
  offJsboundfunctionBoundArguments : ℤ := -1
  offJsboundfunctionBoundTargetFunction : ℤ := -1
  offJsboundfunctionBoundThis : ℤ := -1
  offJsfunctionLiteralsOrBindings : ℤ := -1
  offJsfunctionShared : ℤ := -1
  offJsobjectElements : ℤ := -1
  offJsobjectProperties : ℤ := -1
  offMapConstructor : ℤ := -1
  offMapInobjectProperties : ℤ := -1
  offMapInstanceAttributes : ℤ := -1
  offMapInstanceDescriptors : ℤ := -1
  offMapInstanceSize : ℤ := -1
  offMapLayoutDescriptor : ℤ := -1
  offMapBitField2 : ℤ := -1
  offMapBitField3 : ℤ := -1
  offMapTransitions : ℤ := -1
  offOddballToString : ℤ := -1
  offScriptLineEnds : ℤ := -1
  offScriptName : ℤ := -1
  offScriptSource : ℤ := -1
  offSeqasciistrChars : ℤ := -1
  offSeqtwobytestrChars : ℤ := -1
  offSharedfunctioninfoCode : ℤ := -1
  offSharedfunctioninfoCompilerHints : ℤ := -1
  offSharedfunctioninfoFunctionTokenPosition : ℤ := -1
  offSharedfunctioninfoIdentifier : ℤ := -1
  offSharedfunctioninfoScript : ℤ := -1
  offSharedfunctioninfoName : ℤ := -1
  offSlicedstringParent : ℤ := -1
  offSlicedstringOffset : ℤ := -1
  offStringLength : ℤ := -1
  offJstypedarrayLength : ℤ := -1

namespace Config

variable (c : Config)

/-- The width of a word. -/
abbrev bits : ℕ := c.model.bits

/-- `sizeof (uintptr_t)`. -/
abbrev ptrSize : ℕ := c.model.ptrSize

/-- The conversion of an integer to a word. -/
def wrap (x : ℤ) : ℕ := (x % 2 ^ c.bits).toNat

/-- The address `off` bytes past `addr`. -/
def add (addr : ℕ) (off : ℤ) : ℕ := c.wrap (addr + off)

/-- A word read as an `intptr_t`. -/
def toSigned (w : ℕ) : ℤ := if w < 2 ^ (c.bits - 1) then w else (w : ℤ) - 2 ^ c.bits

theorem wrap_lt (x : ℤ) : c.wrap x < 2 ^ c.bits := by
  have hpos : (0 : ℤ) < 2 ^ c.bits := by positivity
  have hlt := Int.emod_lt_of_pos x hpos
  have hnn := Int.emod_nonneg x hpos.ne'
  unfold wrap
  zify
  rwa [Int.toNat_of_nonneg hnn]

theorem add_lt (addr : ℕ) (off : ℤ) : c.add addr off < 2 ^ c.bits := c.wrap_lt _

/-- An integer that fits a word is its own conversion. -/
theorem wrap_of_lt {x : ℤ} (h0 : 0 ≤ x) (h : x < 2 ^ c.bits) : c.wrap x = x.toNat := by
  unfold wrap
  rw [Int.emod_eq_of_lt h0 h]

theorem wrap_natCast {x : ℕ} (h : x < 2 ^ c.bits) : c.wrap x = x := by
  rw [wrap_of_lt c (by positivity) (by exact_mod_cast h), Int.toNat_natCast]

theorem wrap_natCast_mod (x : ℕ) : c.wrap x = x % 2 ^ c.bits := by
  have hcast : (2 : ℤ) ^ c.bits = ((2 ^ c.bits : ℕ) : ℤ) := by push_cast; rfl
  rw [wrap, hcast, ← Int.natCast_mod, Int.toNat_natCast]

theorem add_natCast (addr off : ℕ) : c.add addr off = (addr + off) % 2 ^ c.bits := by
  rw [add, ← Nat.cast_add, wrap_natCast_mod]

/-- Address arithmetic that does not leave the address space. -/
theorem add_of_lt {addr : ℕ} {off : ℤ} (h0 : 0 ≤ addr + off) (h : addr + off < 2 ^ c.bits) :
    (c.add addr off : ℤ) = addr + off := by
  rw [add, wrap_of_lt c h0 h, Int.toNat_of_nonneg h0]

/-- Going on by some bytes from an address that is itself reached from another. -/
theorem add_add (addr : ℕ) (x y : ℤ) :
    c.add (c.add addr x) y = c.add addr (x + y) := by
  unfold add wrap
  rw [Int.toNat_of_nonneg (Int.emod_nonneg _ (by positivity)), Int.emod_add_emod, add_assoc]

/-! ### The macros of `v8dbg.h` -/

/-- `V8_OFF_HEAP`: the offset of a field from a tagged pointer to its object. -/
def offHeap (x : ℤ) : ℤ := x - c.heapObjectTag

/-- A word with the bits of a mask equal to a tag. -/
def tagged (w : ℕ) (mask tag : ℤ) : Bool := w &&& c.wrap mask == c.wrap tag

/-- `V8_IS_SMI`. -/
def isSmi (w : ℕ) : Bool := c.tagged w c.smiTagMask c.smiTag

/-- `V8_IS_FAILURE`. -/
def isFailure (w : ℕ) : Bool := c.failureTagMask != -1 && c.tagged w c.failureTagMask c.failureTag

/-- `V8_IS_HEAPOBJECT`. -/
def isHeapobject (w : ℕ) : Bool := c.tagged w c.heapObjectTagMask c.heapObjectTag

/-- The number of bits an SMI is shifted by. -/
def smiShift : ℕ := (c.smiValueShift + c.smiShiftSize).toNat

/-- `V8_SMI_VALUE` of a `uintptr_t`: the shift is a logical one. -/
def smiValue (w : ℕ) : ℕ := w >>> c.smiShift

/-- `V8_SMI_VALUE` of an `intptr_t`: the shift is an arithmetic one. -/
def smiValueSigned (w : ℕ) : ℤ := c.toSigned w >>> c.smiShift

/-- `V8_VALUE_SMI` of a `uintptr_t`. -/
def valueSmi (v : ℕ) : ℕ := (v <<< c.smiShift) % 2 ^ c.bits

/-- `V8_TYPE_STRING`. -/
def typeString (type : ℕ) : Bool := c.tagged type c.isNotStringMask c.stringTag

/-- `V8_STRENC_ASCII`. -/
def strencAscii (type : ℕ) : Bool :=
  (c.asciiStringTag != -1 && c.tagged type c.stringEncodingMask c.asciiStringTag) ||
    (c.oneByteStringTag != -1 && c.tagged type c.stringEncodingMask c.oneByteStringTag)

/-- `V8_STRREP_SEQ`. -/
def strrepSeq (type : ℕ) : Bool := c.tagged type c.stringRepresentationMask c.seqStringTag

/-- `V8_STRREP_CONS`. -/
def strrepCons (type : ℕ) : Bool := c.tagged type c.stringRepresentationMask c.consStringTag

/-- `V8_STRREP_SLICED`. -/
def strrepSliced (type : ℕ) : Bool := c.tagged type c.stringRepresentationMask c.slicedStringTag

/-- `V8_STRREP_EXT`. -/
def strrepExt (type : ℕ) : Bool := c.tagged type c.stringRepresentationMask c.externalStringTag

/-! ### Lookups in the metadata -/

/-- `enum_lookup_str` on `v8_types`: the name of a type byte. -/
def enumLookupStr (val : ℕ) : Option String :=
  (c.types.find? fun e => e.2 == val).map Prod.fst

/-- `conf_field_lookup`. -/
def confFieldLookup (klass field : String) : Option V8Field :=
  (c.classes.find? fun clp => clp.name == klass).bind fun clp =>
    clp.fields.find? fun flp => flp.name == field

/-- `heap_offset`. -/
def heapOffset (klass field : String) : Option ℤ :=
  (c.confFieldLookup klass field).map fun flp => c.offHeap flp.offset

/-- `v8_version_current_older`. -/
def v8VersionCurrentOlder (major minor build patch : ℕ) : Bool :=
  c.v8Major < major || (c.v8Major == major &&
    (c.v8Minor < minor || (c.v8Minor == minor &&
      (c.v8Build < build || (c.v8Build == build && c.v8Patch < patch)))))

/-! ### A configuration -/

/-- A configuration like that of V8 3.14 on a data model, for the examples of this development.
Where the source has a fallback for a constant, it has that value. -/
def sample (model : DataModel) : Config where
  model
  v8Major := 3
  v8Minor := 14
  v8Build := 5
  v8Patch := 9
  types := [("FixedArray", 0xa3), ("Map", 0x81), ("HeapNumber", 0x84), ("Oddball", 0x83),
    ("JSObject", 0xab), ("JSArray", 0xb2), ("JSFunction", 0xb5), ("JSDate", 0xa9)]
  isNotStringMask := 0x80
  stringTag := 0
  stringEncodingMask := 4
  asciiStringTag := 4
  stringRepresentationMask := 3
  seqStringTag := 0
  consStringTag := 1
  slicedStringTag := 3
  externalStringTag := 2
  failureTag := 3
  failureTagMask := 3
  heapObjectTag := 1
  heapObjectTagMask := 3
  smiTag := 0
  smiTagMask := 1
  smiValueShift := 1
  smiShiftSize := if model = .lp64 then 31 else 0
  pointerSizeLog2 := if model = .lp64 then 3 else 2
  issharedShift := 0
  dictShift := 24
  dictPrefixSize := 2
  dictEntrySize := 3
  dictStartIndex := 3
  propindexMask := 0x3ff00000
  propindexShift := 20
  propIdxFirst := 3
  propTypeField := 1
  propTypeMask := 7
  propDescKey := 0
  propDescDetails := 1
  propDescValue := 2
  propDescSize := 3
  typeJsobject := 0xab
  typeJsarray := 0xb2
  typeJsfunction := 0xb5
  typeJsdate := 0xa9
  typeHeapnumber := 0x84
  typeOddball := 0x83
  typeFixedarray := 0xa3
  typeMap := 0x81
  elementsKindShift := 3
  elementsKindBitcount := 5
  elementsFastElements := 2
  elementsFastHoleyElements := 3
  elementsDictionaryElements := 6
  contextNcommon := 4
  contextIdxClosure := 0
  contextIdxPrev := 1
  contextIdxExt := 2
  contextIdxGlobal := 3
  scopeinfoIdxNparams := 1
  scopeinfoIdxNstacklocals := 2
  scopeinfoIdxNcontextlocals := 3
  scopeinfoIdxFirstVars := 4
  offConsstringFirst := 3 * model.ptrSize - 1
  offConsstringSecond := 4 * model.ptrSize - 1
  offExternalstringResource := 3 * model.ptrSize - 1
  offFixedarrayData := 2 * model.ptrSize - 1
  offFixedarrayLength := model.ptrSize - 1
  offHeapnumberValue := model.ptrSize - 1
  offHeapobjectMap := -1
  offJsarrayLength := 3 * model.ptrSize - 1
  offJsdateValue := 3 * model.ptrSize - 1
  offJsfunctionShared := 5 * model.ptrSize - 1
  offJsobjectElements := 2 * model.ptrSize - 1
  offJsobjectProperties := model.ptrSize - 1
  offMapConstructor := 4 * model.ptrSize - 1
  offMapInobjectProperties := model.ptrSize
  offMapInstanceAttributes := 2 * model.ptrSize - 1
  offMapInstanceDescriptors := 5 * model.ptrSize - 1
  offMapInstanceSize := model.ptrSize - 1
  offMapBitField2 := 2 * model.ptrSize + 2
  offMapBitField3 := 8 * model.ptrSize - 1
  offOddballToString := model.ptrSize - 1
  offSeqasciistrChars := 3 * model.ptrSize - 1
  offSeqtwobytestrChars := 3 * model.ptrSize - 1
  offSharedfunctioninfoFunctionTokenPosition := 12 * model.ptrSize - 1
  offSharedfunctioninfoScript := 8 * model.ptrSize - 1
  offSharedfunctioninfoName := model.ptrSize - 1
  offSlicedstringParent := 3 * model.ptrSize - 1
  offSlicedstringOffset := 4 * model.ptrSize - 1
  offStringLength := model.ptrSize - 1

end Config

end MdbV8
