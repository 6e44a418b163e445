import MdbV8.Metadata.Symbols
import MdbV8.Metadata.Types

/-!
# The constants

What the module uses of the metadata by itself is in a number of variables: the tags, masks, shifts and
indexes of V8, and the offsets of the fields that it reads. Two tables say which symbol or which field a
variable gets its value from, in which versions of V8 that is not there, and what it is then.
`autoconfigure` goes through both of them, and then replaces some variables by others: of a field that
has been moved or renamed there are two entries, and one variable is used.

The entries of the tables are written by their places in a structure, as they are in the source. Some of
the offsets depend on the size of a word.
-/

namespace MdbV8

/-- The variables that are configured. -/
inductive V8Var where
  | offFpContextOrFrameType | offFpContext | offFpFunction | offFpMarker | offFpArgs
  | firstNonstringType | isNotStringMask | stringTag | notStringTag | stringEncodingMask
  | twoByteStringTag | asciiStringTag | oneByteStringTag | stringRepresentationMask | seqStringTag
  | consStringTag | slicedStringTag | externalStringTag | failureTag | failureTagMask
  | heapObjectTag | heapObjectTagMask | smiTag | smiTagMask | smiValueShift | smiShiftSize
  | pointerSizeLog2 | dictShift | dictPrefixSize | dictEntrySize | dictStartIndex | propindexMask
  | propindexShift | issharedShift | propIdxFirst | propTypeField | propTypeMask | propIdxContent
  | propDescKey | propDescDetails | propDescValue | propDescSize | transitionsIdxDesc
  | elementsKindShift | elementsKindBitcount | elementsFastElements | elementsFastHoleyElements
  | elementsDictionaryElements | contextNcommon | contextIdxClosure | contextIdxPrev
  | contextIdxExt | contextIdxGlobal | contextIdxNative | scopeinfoIdxNparams
  | scopeinfoIdxNstacklocals | scopeinfoOffsetStackLocals | scopeinfoIdxNcontextlocals
  | scopeinfoIdxFirstVars | offCodeInstructionSize | offCodeInstructionStart | offConsstringFirst
  | offConsstringSecond | offExternalstringResource | offFixedarrayData | offFixedarrayLength
  | offHeapnumberValue | offHeapobjectMap | offJsarrayLength | offJsdateValue
  | offJsboundfunctionBoundArguments | offJsboundfunctionBoundTargetFunction
  | offJsboundfunctionBoundThis | offJsfunctionContext | offJsfunctionLiteralsOrBindings
  | offJsfunctionShared | offJsobjectElements | offJsobjectProperties | offJsreceiverProperties
  | offJsregexpData | offMapConstructor | offMapConstructorOrBackpointer
  | offMapInobjectProperties | offMapInobjectPropertiesOrCtorFunIndex | offMapInstanceAttributes
  | offMapInstanceDescriptors | offMapLayoutDescriptor | offMapTransitions | offMapInstanceSize
  | offMapBitField2 | offMapBitField3 | offOddballToString | offScriptLineEnds | offScriptName
  | offScriptSource | offSeqasciistrChars | offSeqonebytestrChars | offSeqtwobytestrChars
  | offSharedfunctioninfoCode | offSharedfunctioninfoCompilerHints
  | offSharedfunctioninfoEndPosition | offSharedfunctioninfoFunctionTokenPosition
  | offSharedfunctioninfoInferredName | offSharedfunctioninfoIdentifier
  | offSharedfunctioninfoLength | offSharedfunctioninfoName | offSharedfunctioninfoScopeInfo
  | offSharedfunctioninfoScript | offSlicedstringOffset | offSlicedstringParent | offStringLength
  | offJstypedarrayLength | offJsarraybufferBackingstore | offJsarraybufferviewBuffer
  | offJsarraybufferviewContentOffset | offMapBitField | compilerHintsBoundFunction
  | typeAccessorinfo | typeAccessorpair | typeExecutableaccessorinfo | typeJsobject | typeJsarray
  | typeJsfunction | typeJsboundfunction | typeJsdate | typeJsregexp | typeHeapnumber
  | typeMutableheapnumber | typeOddball | typeFixedarray | typeMap | typeJstypedarray
  deriving DecidableEq, Repr

/-- The values of the variables. -/
abbrev V8Vars := V8Var → ℤ

/-- The variables before anything is configured: those of the type bytes have an initial value. -/
def V8Vars.start : V8Vars
  | .typeAccessorinfo | .typeAccessorpair | .typeExecutableaccessorinfo | .typeJsobject | .typeJsarray |
    .typeJsfunction | .typeJsboundfunction | .typeJsdate | .typeJsregexp |
    .typeHeapnumber | .typeMutableheapnumber | .typeOddball | .typeFixedarray |
    .typeMap | .typeJstypedarray => -1
  | _ => 0

/-! ### Flags -/

/-- `V8_CONSTANT_OPTIONAL`. -/
def v8ConstantOptional : ℕ := 1

/-- `V8_CONSTANT_HASFALLBACK`. -/
def v8ConstantHasfallback : ℕ := 2

/-- `V8_CONSTANT_REMOVED`. -/
def v8ConstantRemoved : ℕ := 4

/-- `V8_CONSTANT_ADDED`. -/
def v8ConstantAdded : ℕ := 8

/-- `V8_CONSTANT_MAJOR`. -/
def v8ConstantMajor (flags : ℕ) : ℕ := (flags >>> 4) &&& ((1 <<< 4) - 1)

/-- `V8_CONSTANT_MINOR`. -/
def v8ConstantMinor (flags : ℕ) : ℕ := (flags >>> 8) &&& ((1 <<< 9) - 1)

/-- `V8_CONSTANT_FALLBACK`. -/
def v8ConstantFallback (maj min : ℕ) : ℕ :=
  v8ConstantOptional ||| v8ConstantHasfallback ||| (maj <<< 4) ||| (min <<< 8)

/-- `V8_CONSTANT_REMOVED_SINCE`. -/
def v8ConstantRemovedSince (maj min : ℕ) : ℕ := v8ConstantRemoved ||| (maj <<< 4) ||| (min <<< 8)

/-- `V8_CONSTANT_ADDED_SINCE`. -/
def v8ConstantAddedSince (maj min : ℕ) : ℕ := v8ConstantAdded ||| (maj <<< 4) ||| (min <<< 8)

/-- `v8_version_older`. -/
def v8VersionOlder (major minor flags : ℕ) : Bool :=
  major < v8ConstantMajor flags || (major == v8ConstantMajor flags && minor < v8ConstantMinor flags)

/-- `v8_version_at_least`. -/
def v8VersionAtLeast (major minor flags : ℕ) : Bool :=
  major > v8ConstantMajor flags || (major == v8ConstantMajor flags && minor ≥ v8ConstantMinor flags)

/-- A flag is set. -/
def flagSet (flags flag : ℕ) : Bool := flags &&& flag != 0

/-! ### The tables -/

/-- `v8_constant_t`. -/
structure V8Constant where
  valp : V8Var
  symbol : CStr
  flags : ℕ
  fallback : ℤ
  deriving DecidableEq, Repr

/-- An entry of which the last places may be left out. -/
def V8Constant.entry (valp : V8Var) (symbol : String) (flags : ℕ := 0) (fallback : ℤ := 0) :
    V8Constant :=
  ⟨valp, symbol.toList, flags, fallback⟩

/-- `v8_constants`. -/
def v8Constants (m : DataModel) : List V8Constant :=
  [.entry .offFpContextOrFrameType "v8dbg_off_fp_context_or_frame_type" (v8ConstantFallback 5 1)
      (if m = .lp64 then -0x8 else -0x4),
    .entry .offFpContext "v8dbg_off_fp_context",
    .entry .offFpFunction "v8dbg_off_fp_function",
    .entry .offFpMarker "v8dbg_off_fp_marker" (v8ConstantRemovedSince 5 1),
    .entry .offFpArgs "v8dbg_off_fp_args",
    .entry .firstNonstringType "v8dbg_FirstNonstringType",
    .entry .isNotStringMask "v8dbg_IsNotStringMask",
    .entry .stringTag "v8dbg_StringTag",
    .entry .notStringTag "v8dbg_NotStringTag",
    .entry .stringEncodingMask "v8dbg_StringEncodingMask",
    .entry .twoByteStringTag "v8dbg_TwoByteStringTag",
    .entry .asciiStringTag "v8dbg_AsciiStringTag" (v8ConstantRemovedSince 3 29),
    .entry .oneByteStringTag "v8dbg_OneByteStringTag" (v8ConstantAddedSince 3 29),
    .entry .stringRepresentationMask "v8dbg_StringRepresentationMask",
    .entry .seqStringTag "v8dbg_SeqStringTag",
    .entry .consStringTag "v8dbg_ConsStringTag",
    .entry .slicedStringTag "v8dbg_SlicedStringTag" (v8ConstantFallback 0 0) 0x3,
    .entry .externalStringTag "v8dbg_ExternalStringTag",
    .entry .failureTag "v8dbg_FailureTag" (v8ConstantRemovedSince 3 28),
    .entry .failureTagMask "v8dbg_FailureTagMask" (v8ConstantRemovedSince 3 28),
    .entry .heapObjectTag "v8dbg_HeapObjectTag",
    .entry .heapObjectTagMask "v8dbg_HeapObjectTagMask",
    .entry .smiTag "v8dbg_SmiTag",
    .entry .smiTagMask "v8dbg_SmiTagMask",
    .entry .smiValueShift "v8dbg_SmiValueShift",
    .entry .smiShiftSize "v8dbg_SmiShiftSize" (v8ConstantFallback 0 0)
      (if m = .lp64 then 31 else 0),
    .entry .pointerSizeLog2 "v8dbg_PointerSizeLog2",
    .entry .dictShift "v8dbg_bit_field3_dictionary_map_shift" (v8ConstantFallback 3 13) 24,
    .entry .dictPrefixSize "v8dbg_dict_prefix_size" (v8ConstantFallback 3 11) 2,
    .entry .dictEntrySize "v8dbg_dict_entry_size" (v8ConstantFallback 3 11) 3,
    .entry .dictStartIndex "v8dbg_dict_start_index" (v8ConstantFallback 3 11) 3,
    .entry .propindexMask "v8dbg_prop_index_mask" (v8ConstantFallback 3 26) 0x3ff00000,
    .entry .propindexShift "v8dbg_prop_index_shift" (v8ConstantFallback 3 26) 20,
    .entry .issharedShift "v8dbg_isshared_shift" (v8ConstantFallback 3 11),
    .entry .propIdxFirst "v8dbg_prop_idx_first",
    .entry .propTypeField "v8dbg_prop_type_field",
    .entry .propTypeMask "v8dbg_prop_type_mask",
    .entry .propIdxContent "v8dbg_prop_idx_content" v8ConstantOptional,
    .entry .propDescKey "v8dbg_prop_desc_key" (v8ConstantFallback 0 0),
    .entry .propDescDetails "v8dbg_prop_desc_details" (v8ConstantFallback 0 0) 1,
    .entry .propDescValue "v8dbg_prop_desc_value" (v8ConstantFallback 0 0) 2,
    .entry .propDescSize "v8dbg_prop_desc_size" (v8ConstantFallback 0 0) 3,
    .entry .transitionsIdxDesc "v8dbg_transitions_idx_descriptors" v8ConstantOptional,
    .entry .elementsKindShift "v8dbg_elements_kind_shift" (v8ConstantFallback 0 0) 3,
    .entry .elementsKindBitcount "v8dbg_elements_kind_bitcount" (v8ConstantFallback 0 0) 5,
    .entry .elementsFastElements "v8dbg_elements_fast_elements" (v8ConstantFallback 0 0) 2,
    .entry .elementsFastHoleyElements "v8dbg_elements_fast_holey_elements" (v8ConstantFallback 0 0)
      3,
    .entry .elementsDictionaryElements "v8dbg_elements_dictionary_elements" (v8ConstantFallback 0 0)
      6,
    .entry .contextNcommon "v8dbg_context_ncommon" (v8ConstantFallback 0 0) 4,
    .entry .contextIdxClosure "v8dbg_context_idx_closure" (v8ConstantFallback 0 0),
    .entry .contextIdxPrev "v8dbg_context_idx_prev" (v8ConstantFallback 0 0) 1,
    .entry .contextIdxExt "v8dbg_context_idx_ext" (v8ConstantFallback 0 0) 2,
    .entry .contextIdxGlobal "v8dbg_context_idx_global" (v8ConstantFallback 0 0) 3,
    .entry .contextIdxNative "v8dbg_context_idx_native" (v8ConstantFallback 4 9) 3,
    .entry .scopeinfoIdxNparams "v8dbg_scopeinfo_idx_nparams" (v8ConstantFallback 3 7) 1,
    .entry .scopeinfoIdxNstacklocals "v8dbg_scopeinfo_idx_nstacklocals" (v8ConstantFallback 3 7) 2,
    .entry .scopeinfoOffsetStackLocals "v8dbg_scopeinfo_offset_stack_locals"
      (v8ConstantFallback 4 4) 1,
    .entry .scopeinfoIdxNcontextlocals "v8dbg_scopeinfo_idx_ncontextlocals" (v8ConstantFallback 3 7)
      3,
    .entry .scopeinfoIdxFirstVars "v8dbg_scopeinfo_idx_first_vars" (v8ConstantFallback 4 5) 6]

/-- `v8_offset_t`. -/
structure V8Offset where
  valp : V8Var
  klass : CStr
  member : CStr
  optional : ℕ
  flags : ℕ
  fallback : ℤ
  deriving DecidableEq, Repr

/-- An entry of which the last places may be left out. -/
def V8Offset.entry (valp : V8Var) (klass member : String) (optional : ℕ := 0) (flags : ℕ := 0)
    (fallback : ℤ := 0) : V8Offset :=
  ⟨valp, klass.toList, member.toList, optional, flags, fallback⟩

/-- `v8_offsets`. -/
def v8Offsets (m : DataModel) : List V8Offset :=
  [.entry .offCodeInstructionSize "Code" "instruction_size",
    .entry .offCodeInstructionStart "Code" "instruction_start",
    .entry .offConsstringFirst "ConsString" "first",
    .entry .offConsstringSecond "ConsString" "second",
    .entry .offExternalstringResource "ExternalString" "resource",
    .entry .offFixedarrayData "FixedArray" "data",
    .entry .offFixedarrayLength "FixedArray" "length",
    .entry .offHeapnumberValue "HeapNumber" "value",
    .entry .offHeapobjectMap "HeapObject" "map",
    .entry .offJsarrayLength "JSArray" "length",
    .entry .offJsdateValue "JSDate" "value" 1,
    .entry .offJsboundfunctionBoundArguments "JSBoundFunction" "bound_arguments" 0
      (v8ConstantAddedSince 4 9),
    .entry .offJsboundfunctionBoundTargetFunction "JSBoundFunction" "bound_target_function" 0
      (v8ConstantAddedSince 4 9),
    .entry .offJsboundfunctionBoundThis "JSBoundFunction" "bound_this" 0 (v8ConstantAddedSince 4 9),
    .entry .offJsfunctionContext "JSFunction" "context" 1,
    .entry .offJsfunctionLiteralsOrBindings "JSFunction" "literals_or_bindings" 0
      (v8ConstantRemovedSince 4 9),
    .entry .offJsfunctionShared "JSFunction" "shared",
    .entry .offJsobjectElements "JSObject" "elements",
    .entry .offJsobjectProperties "JSObject" "properties" 0 (v8ConstantRemovedSince 4 9),
    .entry .offJsreceiverProperties "JSReceiver" "properties" 0 (v8ConstantAddedSince 4 9),
    .entry .offJsregexpData "JSRegExp" "data" 1,
    .entry .offMapConstructor "Map" "constructor" 0 (v8ConstantRemovedSince 4 3),
    .entry .offMapConstructorOrBackpointer "Map" "constructor_or_backpointer" 0
      (v8ConstantAddedSince 4 3),
    .entry .offMapInobjectProperties "Map" "inobject_properties" 0 (v8ConstantRemovedSince 4 6),
    .entry .offMapInobjectPropertiesOrCtorFunIndex "Map"
      "inobject_properties_or_constructor_function_index" 0 (v8ConstantFallback 4 6)
      (if m = .lp64 then 8 else 4),
    .entry .offMapInstanceAttributes "Map" "instance_attributes",
    .entry .offMapInstanceDescriptors "Map" "instance_descriptors" 1,
    .entry .offMapLayoutDescriptor "Map" "layout_descriptor" 1,
    .entry .offMapTransitions "Map" "transitions" 1,
    .entry .offMapInstanceSize "Map" "instance_size",
    .entry .offMapBitField2 "Map" "bit_field2" 1,
    .entry .offMapBitField3 "Map" "bit_field3" 1,
    .entry .offOddballToString "Oddball" "to_string",
    .entry .offScriptLineEnds "Script" "line_ends",
    .entry .offScriptName "Script" "name",
    .entry .offScriptSource "Script" "source",
    .entry .offSeqasciistrChars "SeqAsciiString" "chars" 1,
    .entry .offSeqonebytestrChars "SeqOneByteString" "chars" 1,
    .entry .offSeqtwobytestrChars "SeqTwoByteString" "chars" 1,
    .entry .offSharedfunctioninfoCode "SharedFunctionInfo" "code",
    .entry .offSharedfunctioninfoCompilerHints "SharedFunctionInfo" "compiler_hints",
    .entry .offSharedfunctioninfoEndPosition "SharedFunctionInfo" "end_position",
    .entry .offSharedfunctioninfoFunctionTokenPosition "SharedFunctionInfo"
      "function_token_position",
    .entry .offSharedfunctioninfoInferredName "SharedFunctionInfo" "inferred_name"
      (v8ConstantRemovedSince 5 1),
    .entry .offSharedfunctioninfoIdentifier "SharedFunctionInfo" "function_identifier"
      (v8ConstantFallback 5 1) (if m = .lp64 then 79 else 39),
    .entry .offSharedfunctioninfoLength "SharedFunctionInfo" "length",
    .entry .offSharedfunctioninfoName "SharedFunctionInfo" "name",
    .entry .offSharedfunctioninfoScopeInfo "SharedFunctionInfo" "scope_info" 1,
    .entry .offSharedfunctioninfoScript "SharedFunctionInfo" "script",
    .entry .offSlicedstringOffset "SlicedString" "offset",
    .entry .offSlicedstringParent "SlicedString" "parent" 1,
    .entry .offStringLength "String" "length",
    .entry .offJstypedarrayLength "JSTypedArray" "length" 0 (v8ConstantFallback 4 5)
      (if m = .lp64 then 55 else 27),
    .entry .offJsarraybufferBackingstore "JSArrayBuffer" "backing_store" 0 (v8ConstantFallback 4 6)
      (if m = .lp64 then 23 else 11),
    .entry .offJsarraybufferviewBuffer "JSArrayBufferView" "buffer" 0 (v8ConstantFallback 3 20)
      (if m = .lp64 then 23 else 11),
    .entry .offJsarraybufferviewContentOffset "JSArrayBufferView" "byte_offset" 0
      (v8ConstantFallback 4 6) (if m = .lp64 then 31 else 15)]

/-! ### The loops over the tables -/

/-- The condition under which both loops count an entry as failed that has not been found. -/
def missingFails (major minor flags : ℕ) : Bool :=
  !flagSet flags v8ConstantOptional &&
    (!flagSet flags v8ConstantRemoved || v8VersionOlder major minor flags) &&
    (!flagSet flags v8ConstantAdded || v8VersionAtLeast major minor flags)

/-- The condition under which both loops do not use the fallback. -/
def noFallback (major minor flags : ℕ) : Bool :=
  !flagSet flags v8ConstantHasfallback || major < v8ConstantMajor flags ||
    (major == v8ConstantMajor flags && minor < v8ConstantMinor flags)

/-- The body of the loop over `v8_constants`, with the values of the variables and the number of
failures. -/
def constantStep (readsym : Readsym) (major minor : ℕ) (r : V8Vars × ℕ) (cnp : V8Constant) :
    V8Vars × ℕ :=
  match readsym cnp.symbol with
  | some val => (Function.update r.1 cnp.valp val, r.2)
  | none =>
    if missingFails major minor cnp.flags then (r.1, r.2 + 1)
    else if noFallback major minor cnp.flags then (Function.update r.1 cnp.valp (-1), r.2)
    else (Function.update r.1 cnp.valp cnp.fallback, r.2)

/-- `conf_field_lookup`. -/
def confFieldLookup (classes : List ConfClass) (klass field : CStr) : Option ConfField :=
  (classes.find? fun clp => clp.name = klass).bind fun clp =>
    clp.fields.find? fun flp => flp.name = field

/-- `heap_offset`. -/
def heapOffset (vars : V8Vars) (classes : List ConfClass) (klass field : CStr) : Option ℤ :=
  (confFieldLookup classes klass field).map fun flp => flp.offset - vars .heapObjectTag

/-- The offset of the field of an entry, in the class that it names or, instead of a `FixedArray`, in
its base class. -/
def offsetLookup (vars : V8Vars) (classes : List ConfClass) (offp : V8Offset) : Option ℤ :=
  match heapOffset vars classes offp.klass offp.member with
  | some val => some val
  | none =>
    if offp.klass = "FixedArray".toList then
      heapOffset vars classes "FixedArrayBase".toList offp.member
    else none

/-- The body of the loop over `v8_offsets`. -/
def offsetStep (classes : List ConfClass) (major minor : ℕ) (r : V8Vars × ℕ) (offp : V8Offset) :
    V8Vars × ℕ :=
  match offsetLookup r.1 classes offp with
  | some val => (Function.update r.1 offp.valp val, r.2)
  | none =>
    if offp.optional ≠ 0 then (Function.update r.1 offp.valp (-1), r.2)
    else
      let failed := if missingFails major minor offp.flags then r.2 + 1 else r.2
      if noFallback major minor offp.flags then (Function.update r.1 offp.valp (-1), failed)
      else (Function.update r.1 offp.valp offp.fallback, failed)

/-! ### The types -/

/-- The types that are looked for by their names. -/
def wellKnownTypes : List (String × V8Var) :=
  [("JSObject", .typeJsobject), ("JSArray", .typeJsarray),
    ("JSBoundFunction", .typeJsboundfunction), ("JSFunction", .typeJsfunction),
    ("FixedArray", .typeFixedarray), ("AccessorInfo", .typeAccessorinfo),
    ("AccessorPair", .typeAccessorpair), ("ExecutableAccessorInfo", .typeExecutableaccessorinfo),
    ("HeapNumber", .typeHeapnumber), ("MutableHeapNumber", .typeMutableheapnumber),
    ("JSDate", .typeJsdate), ("JSRegExp", .typeJsregexp), ("Oddball", .typeOddball),
    ("Map", .typeMap), ("JSTypedArray", .typeJstypedarray)]

/-- The body of the loop over `v8_types`. -/
def typeStep (vars : V8Vars) (ep : V8Enum) : V8Vars :=
  match wellKnownTypes.find? fun e => ep.name = e.1.toList with
  | none => vars
  | some (_, valp) => Function.update vars valp ep.value

/-- The types without which the module cannot be used. -/
def requiredTypes : List V8Var := [.typeJsobject, .typeJsarray, .typeJsfunction, .typeFixedarray]

/-! ### The variables that are replaced -/

/-- An assignment to a variable that may be made. -/
structure Substitution where
  target : V8Var
  value : V8Vars → Option ℤ

/-- A variable takes the value of another one, if that one is there. -/
def Substitution.replaceBy (target other : V8Var) : Substitution where
  target
  value vars := if vars other ≠ -1 then some (vars other) else none

/-- A variable that is not there takes some value. -/
def Substitution.ifMissing (target : V8Var) (value : V8Vars → ℤ) : Substitution where
  target
  value vars := if vars target = -1 then some (value vars) else none

/-- The assignment. -/
def Substitution.run (vars : V8Vars) (sub : Substitution) : V8Vars :=
  match sub.value vars with
  | none => vars
  | some val => Function.update vars sub.target val

/-! ### What is configured -/

/-- The globals that are configured. -/
structure V8State where
  conf : ConfState
  v8Build : ℕ := 0
  v8Patch : ℕ := 0
  vars : V8Vars := .start

namespace V8State

variable (st : V8State)

/-- `v8_version_current_older`. -/
def v8VersionCurrentOlder (major minor build patch : ℕ) : Bool :=
  st.conf.v8Major < major || (st.conf.v8Major == major &&
    (st.conf.v8Minor < minor || (st.conf.v8Minor == minor &&
      (st.v8Build < build || (st.v8Build == build && st.v8Patch < patch)))))

/-- The loop over `v8_constants`. -/
def constantsLoop (readsym : Readsym) : V8Vars × ℕ :=
  (v8Constants st.conf.model).foldl (constantStep readsym st.conf.v8Major st.conf.v8Minor)
    (st.vars, 0)

/-- The type of a `MutableHeapNumber`, which is not in the metadata. -/
def inferMutable (types : List V8Enum) (vars : V8Vars) : V8Vars :=
  if vars .typeHeapnumber ≠ -1 ∧ vars .typeMutableheapnumber = -1 then
    if st.v8VersionCurrentOlder 4 6 85 23 then
      Function.update vars .typeMutableheapnumber (vars .typeHeapnumber + 1)
    else
      match types.find? fun ep => ep.name = "Code".toList with
      | none => vars
      | some ep => Function.update vars .typeMutableheapnumber (ep.value + 1)
  else vars

/-- The loop over `v8_types`, and what follows it. -/
def typesLoop (types : List V8Enum) (r : V8Vars × ℕ) : V8Vars × ℕ :=
  let vars := types.foldl typeStep r.1
  (st.inferMutable types vars, r.2 + requiredTypes.countP fun valp => vars valp = -1)

/-- The loop over `v8_offsets`. -/
def offsetsLoop (r : V8Vars × ℕ) : V8Vars × ℕ :=
  (v8Offsets st.conf.model).foldl (offsetStep st.conf.classes st.conf.v8Major st.conf.v8Minor) r

/-- The variables before some of them are replaced, and the number of failures. -/
def loops (readsym : Readsym) (types : List V8Enum) : V8Vars × ℕ :=
  st.offsetsLoop (st.typesLoop types (st.constantsLoop readsym))

/-- The index of the first variable of a `ScopeInfo`, which there is no single fallback for. -/
def firstVars : Option ℤ :=
  if st.conf.v8Major > 4 ∨ (st.conf.v8Major = 4 ∧ st.conf.v8Minor ≥ 3) then some 5
  else if st.conf.v8Major > 3 ∨ (st.conf.v8Major = 3 ∧ st.conf.v8Minor ≥ 7) then some 4
  else none

/-- The bit of the compiler hints that marks a bound function. -/
def boundFunctionBit : ℤ :=
  if st.v8VersionCurrentOlder 3 28 71 19 then 13
  else if st.v8VersionCurrentOlder 4 5 103 30 then 8
  else 10

/-- The assignments at the end of `autoconfigure`. -/
def substitutions : List Substitution :=
  let word : ℤ := st.conf.model.ptrSize
  [.replaceBy .offSeqasciistrChars .offSeqonebytestrChars,
    .ifMissing .offSeqtwobytestrChars fun vars => vars .offSeqasciistrChars,
    .ifMissing .offSlicedstringParent fun vars => vars .offSlicedstringOffset - word,
    .ifMissing .offJsfunctionContext fun vars => vars .offJsfunctionShared + word,
    .ifMissing .offSharedfunctioninfoScopeInfo fun vars =>
      match heapOffset vars st.conf.classes "SharedFunctionInfo".toList
        "optimized_code_map".toList with
      | none => -1
      | some val => val + word,
    .ifMissing .offMapBitField fun vars => vars .offMapInstanceAttributes + 2,
    .ifMissing .offMapBitField2 fun vars => vars .offMapInstanceAttributes + 3,
    { target := .scopeinfoIdxFirstVars
      value := fun vars => if vars .scopeinfoIdxFirstVars = -1 then st.firstVars else none },
    .replaceBy .offMapConstructor .offMapConstructorOrBackpointer,
    .replaceBy .offMapInobjectProperties .offMapInobjectPropertiesOrCtorFunIndex,
    .ifMissing .offJsobjectProperties fun vars => vars .offJsreceiverProperties,
    .ifMissing .offFpContextOrFrameType fun vars => vars .offFpMarker,
    .ifMissing .offSharedfunctioninfoIdentifier fun vars => vars .offSharedfunctioninfoInferredName,
    { target := .compilerHintsBoundFunction
      value := fun vars =>
        if vars .typeJsboundfunction = -1 then some st.boundFunctionBit else none }]

/-- Exactly one of the classes of strings with one byte for a character has to be there. -/
def stringsFail (vars : V8Vars) : Bool :=
  !((vars .offSeqasciistrChars != -1) ^^ (vars .offSeqonebytestrChars != -1))

/-- The part of `autoconfigure` after the classes: the variables, and the number of failures. -/
def configureVars (readsym : Readsym) (types : List V8Enum) : V8Vars × ℕ :=
  let r := st.loops readsym types
  (st.substitutions.foldl Substitution.run r.1, r.2 + if stringsFail r.1 then 1 else 0)

end V8State

/-- `v8_cfg_t`. -/
structure V8Cfg where
  name : Option CStr
  label : Option CStr
  symbols : List CStr
  readsym : Readsym

/-- `autoconfigure`: what it returns, and the globals. There is nothing if it does not come to its end,
because an assertion fails, because of a cycle among the classes, or because the table of types is not
ended. -/
def autoconfigure (cfgp : V8Cfg) (st : V8State) : Option (ℤ × V8State) :=
  if st.conf.classes ≠ [] then none
  else
    let r := cfgIter cfgp.readsym cfgp.symbols st.conf
    if r.1 ≠ 0 then some (-1, { st with conf := r.2 })
    else
      match offsetPass r.2.model (r.2.classes.length + 1) (r.2.classes.map ConfClass.name)
        r.2.classes with
      | none => none
      | some classes =>
        let st := { st with conf := { r.2 with classes } }
        match st.conf.types.walk nTypes nTypes with
        | none => none
        | some types =>
          let (vars, failed) := st.configureVars cfgp.readsym types
          some (if failed ≠ 0 then -1 else 0, { st with vars })

end MdbV8
