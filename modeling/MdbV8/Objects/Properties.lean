import MdbV8.Objects.Values

/-!
# The properties of a JavaScript object

`jsobjProperties` finds the properties of an object and calls a function for each of them, with the
name and the value. An object has up to two groups of properties:

* those with numeric names, in the `elements` array, which is an array of values, perhaps with
  holes, or a dictionary;
* the others, in a dictionary (the `properties` array of the object), or else described by the
  *descriptors* of its Map, which say of each property whether it is stored in the object itself or
  in the `properties` array, and where there.

The function that is called is a parameter, and so is the state it works on. What it returns may
stop the iteration. `propinfo` collects flags that say what kinds of properties there are; the
caller has them, as `*propinfop`, when the iteration has gone well.

A subscript that is past the end of its array yields zero here. When that can happen is the subject of
`Objects/Subscripts.lean`.
-/

namespace MdbV8

/-! ### Flags -/

/-- `JPI_NUMERIC`. -/
def jpiNumeric : ℕ := 0x01

/-- `JPI_DICT`. -/
def jpiDict : ℕ := 0x02

/-- `JPI_INOBJECT`. -/
def jpiInobject : ℕ := 0x04

/-- `JPI_PROPS`. -/
def jpiProps : ℕ := 0x08

/-- `JPI_SKIPPED`. -/
def jpiSkipped : ℕ := 0x10

/-- `JPI_BADLAYOUT`. -/
def jpiBadlayout : ℕ := 0x20

/-- `JPI_BADPROPS`. -/
def jpiBadprops : ℕ := 0x40

/-- `JPI_MAYBE_GARBAGE`. -/
def jpiMaybeGarbage : ℕ := jpiSkipped ||| jpiBadlayout ||| jpiBadprops

/-- `JPI_UNDEFPROPNAME`. -/
def jpiUndefpropname : ℕ := 0x80

/-- `JPI_HASTRANSITIONS`. -/
def jpiHastransitions : ℕ := 0x100

/-- `JPI_HASCONTENT`. -/
def jpiHascontent : ℕ := 0x200

/-- The function that is called for each property: with the name, and with the value or a NULL
pointer. -/
abbrev PropFunc (σ : Type*) := List UInt8 → Option V8Propvalue → σ → ℤ × σ

section Properties

variable (t : Target) {σ : Type*}

/-- The flag for a value that does not look valid. -/
def garbageInfo (w : ℕ) : ℕ := if jsobjMaybeGarbage t w then jpiBadprops else 0

/-! ### Dictionaries -/

/-- What `read_heap_dict` makes of a key. -/
inductive DictKey where
  /-- An empty or a deleted entry. -/
  | skip
  /-- The key is neither a number nor a string that can be printed. -/
  | fail
  /-- The name of a property. -/
  | name (buf : List UInt8)
  deriving DecidableEq, Repr

/-- The name of an SMI key. The value is converted from a `uintptr_t` to an `intptr_t` and printed
with `PRIdPTR` into 512 bytes. -/
def smiKeyName (c : Config) (key : ℕ) : List UInt8 := (fmtInt (c.toSigned (c.smiValue key))).take 511

/-- The part of the loop of `read_heap_dict` that finds the name of a property. -/
def dictKey (key : ℕ) : DictKey :=
  if jsobjIsUndefined t key then .skip
  else if t.cfg.isSmi key then .name (smiKeyName t.cfg key)
  else if jsobjIsHole t key then .skip
  else
    match t.readTypebyte key with
    | none => .fail
    | some type =>
      if !t.cfg.typeString type then .fail
      else
        let (rv, buf) := jsstrLocal t key jsstrNone 512
        if rv ≠ 0 then .fail else .name buf

/-- The loop of `read_heap_dict`. The layout of an entry is key, value, details. -/
def readHeapDictLoop (dict : Target.HeapArray) (func : PropFunc σ) :
    ℕ → ℕ → σ → ℕ → ℤ × σ × ℕ
  | 0, _, s, propinfo => (-1, s, propinfo)
  | fuel + 1, i, s, propinfo =>
    if t.cfg.add i 1 < dict.len then
      let next := t.cfg.add i t.cfg.dictEntrySize
      match dictKey t (dict.get i) with
      | .skip => readHeapDictLoop dict func fuel next s propinfo
      | .fail => (-1, s, propinfo)
      | .name buf =>
        let value := dict.get (i + 1)
        let propinfo := propinfo ||| garbageInfo t value
        let (rv, s) := func buf (some (.addr value)) s
        if rv = -1 then (-1, s, propinfo) else readHeapDictLoop dict func fuel next s propinfo
    else (0, s, propinfo)

/-- `read_heap_dict`. An entry takes at least two words, so that there are fewer entries than
words. -/
def readHeapDict (addr : ℕ) (func : PropFunc σ) (s : σ) (propinfo : ℕ) : ℤ × σ × ℕ :=
  match t.readHeapArray addr with
  | none => (-1, s, propinfo)
  | some dict =>
    if t.cfg.dictEntrySize < 2 then (-1, s, propinfo)
    else
      readHeapDictLoop t dict func (dict.len + 1)
        (t.cfg.wrap (t.cfg.dictStartIndex + t.cfg.dictPrefixSize)) s propinfo

/-! ### Numeric properties -/

/-- The loop over an array of elements. It says whether it has come to the end. -/
def jsobjFastElements (holey : Bool) (func : PropFunc σ) : ℕ → List ℕ → σ → ℕ → Bool × σ × ℕ
  | _, [], s, propinfo => (true, s, propinfo)
  | ii, elt :: elts, s, propinfo =>
    if holey && jsobjIsHole t elt then jsobjFastElements holey func (ii + 1) elts s propinfo
    else
      let propinfo := propinfo ||| garbageInfo t elt
      let (rv, s) := func (fmtInt ii) (some (.addr elt)) s
      if rv ≠ 0 then (false, s, propinfo)
      else jsobjFastElements holey func (ii + 1) elts s propinfo

/-- The kind of elements that a Map's second bit field says its objects have. -/
def elementsKind (c : Config) (bitField2 : ℕ) : ℕ :=
  (bitField2 >>> c.elementsKindShift.toNat) &&& (1 <<< c.elementsKindBitcount.toNat - 1)

/-- The properties with numeric names. The type that is compared with that of a typed array is the
type of the `properties` field. -/
def jsobjElements (addr map type : ℕ) (func : PropFunc σ) (s : σ) : Bool × σ × ℕ :=
  let c := t.cfg
  if c.elementsKindShift = -1 ∨ Target.isType type c.typeJstypedarray then (true, s, 0)
  else
    match t.readHeapPtr addr c.offJsobjectElements with
    | none => (true, s, 0)
    | some elements =>
      match t.readHeapArray elements with
      | none => (true, s, 0)
      | some elts =>
        if elts.len = 0 then (true, s, 0)
        else
          match t.readByte (c.add map c.offMapBitField2) with
          | none => (false, s, 0)
          | some bitField2 =>
            let kind := elementsKind c bitField2
            if kind = c.elementsFastElements ∨ kind = c.elementsFastHoleyElements then
              jsobjFastElements t (kind == c.elementsFastHoleyElements) func 0 elts.elts s jpiNumeric
            else if kind = c.elementsDictionaryElements then
              let (rv, s, propinfo) := readHeapDict t elements func s (jpiNumeric ||| jpiDict)
              (rv == 0, s, propinfo)
            else (true, s, jpiNumeric)

/-! ### The layout of an object -/

/-- The third bit field of a Map. -/
def mapBitField3 (map : ℕ) : Option ℕ :=
  let addr := t.cfg.add map t.cfg.offMapBitField3
  match t.cfg.confFieldLookup "Map" "bit_field3" with
  | some flp => if flp.isbyte then t.readUint32 addr else (t.readPtr addr).map t.cfg.smiValue
  | none => t.readUint32 addr

/-- Whether the properties of the objects of a Map are in a dictionary. -/
def jsobjIsDict (map : ℕ) : Option Bool :=
  let c := t.cfg
  if c.dictShift ≠ -1 then
    (mapBitField3 t map).map fun bitField3 => bitField3 &&& (1 <<< c.dictShift.toNat) != 0
  else if c.offMapInstanceDescriptors ≠ -1 then
    (t.readPtr (c.add map c.offMapInstanceDescriptors)).map fun bitField3 =>
      c.smiValue bitField3 == 1 <<< c.issharedShift.toNat
  else some false

/-- `JL_MAXBITVECS`. -/
def jlMaxbitvecs : ℕ := 8

/-- `jsobj_layout_t`: which properties are untagged. -/
structure JsobjLayout where
  haslayout : Bool := false
  alltagged : Bool := false
  array : Bool := false
  length : ℕ := 0
  bitvecs : List ℕ := []
  deriving DecidableEq, Repr

/-- The offset of the data of a `FixedTypedArray` from its base pointer, at the next multiple of the
size of a `double`. -/
def layoutDataOffset (c : Config) (off : ℤ) : ℤ :=
  let off := off + c.ptrSize
  let off := if c.v8VersionCurrentOlder 4 6 85 23 then off else off + c.ptrSize
  (off + 7) / 8 * 8

/-- `jsobj_layout_load`. -/
def jsobjLayoutLoad (map : ℕ) : Option JsobjLayout :=
  let c := t.cfg
  match c.model with
  | .ilp32 => some {}
  | .lp64 =>
    if c.offMapLayoutDescriptor = -1 then some {}
    else
      match t.readHeapPtr map c.offMapLayoutDescriptor with
      | none => none
      | some descriptor =>
        if c.isSmi descriptor then
          let word := c.smiValue descriptor % 2 ^ 32
          some { haslayout := true, alltagged := word == 0, length := 1, bitvecs := [word] }
        else
          match c.heapOffset "FixedTypedArrayBase" "base_pointer" with
          | none => none
          | some off =>
            match t.readHeapSmi descriptor c.offFixedarrayLength with
            | none => none
            | some length =>
              if length > jlMaxbitvecs then none
              else
                (t.mdbVread (length * 4)
                    (c.wrap (c.offHeap (descriptor + layoutDataOffset c off)))).map fun bs =>
                  { haslayout := true, array := true, length, bitvecs := Target.wordsOf 4 bs }

/-- `jsobj_layout_untagged`. -/
def jsobjLayoutUntagged (c : Config) (layout : JsobjLayout) (propidx : ℕ) : Bool :=
  if !layout.haslayout || layout.alltagged then false
  else
    -- the quotient is converted to an `int`, and back to a `size_t` for the comparison
    let whichword := c.wrap (toInt32 (propidx / 32))
    if whichword ≥ layout.length then false
    else (layout.bitvecs.getD whichword 0).testBit (propidx % 32)

/-! ### Descriptors -/

/-- What `jsobj_properties` has read before it looks at the descriptors. -/
structure JsobjDescs where
  addr : ℕ
  props : Target.HeapArray
  descs : Target.HeapArray
  content : Target.HeapArray
  size : ℕ
  ninprops : ℕ
  rndescs : ℤ
  layout : JsobjLayout

/-- The address of the descriptors array, and a flag. -/
def descsPtr (map : ℕ) : Option (ℕ × ℕ) :=
  let c := t.cfg
  if c.offMapInstanceDescriptors = -1 then
    if c.offMapTransitions = -1 ∨ c.transitionsIdxDesc = -1 ∨ c.propIdxContent ≠ -1 then none
    else
      match t.readPtr (c.add map c.offMapTransitions) with
      | none => none
      | some ptr =>
        (t.readHeapArray ptr).map fun trans =>
          (trans.get c.transitionsIdxDesc.toNat, jpiHastransitions)
  else (t.readPtr (c.add map c.offMapInstanceDescriptors)).map fun ptr => (ptr, 0)

/-- The array that the details and the values of the descriptors are in, the number of descriptors,
and a flag. -/
def descsContent (descs : Target.HeapArray) : Option (Target.HeapArray × ℤ × ℕ) :=
  let c := t.cfg
  if c.propIdxContent = -1 then
    some (descs,
      if descs.len > c.wrap c.propIdxFirst then
        (((descs.len - c.wrap c.propIdxFirst) / c.wrap c.propDescSize : ℕ) : ℤ)
      else 0, 0)
  else
    let rndescs := c.toSigned (c.wrap (descs.len - c.propIdxFirst))
    if c.wrap c.propIdxContent < descs.len then
      (t.readHeapArray (descs.get c.propIdxContent.toNat)).map fun content =>
        (content, rndescs, jpiHascontent)
    else some (⟨0, []⟩, rndescs, jpiHascontent)

/-- Reading all that is needed to process the descriptors. `ptr` is the `properties` array. -/
def jsobjDescs (addr map ptr : ℕ) : Option (JsobjDescs × ℕ) :=
  match t.readHeapArray ptr with
  | none => none
  | some props =>
    match descsPtr t map with
    | none => none
    | some (descsAddr, transitionsInfo) =>
      match t.readHeapArray descsAddr with
      | none => none
      | some descs =>
        let size := (t.readSize addr).getD 0
        match t.readByte (t.cfg.add map t.cfg.offMapInobjectProperties) with
        | none => none
        | some ninprops =>
          match descsContent t descs with
          | none => none
          | some (content, rndescs, contentInfo) =>
            (jsobjLayoutLoad t map).map fun layout =>
              ({ addr, props, descs, content, size, ninprops, rndescs, layout },
                transitionsInfo ||| contentInfo)

/-- `V8_DESC_ISFIELD`. -/
def descIsfield (c : Config) (details : ℕ) : Bool :=
  c.tagged (c.smiValue details) c.propTypeMask c.propTypeField

/-- `V8_PROP_FIELDINDEX`. -/
def propFieldindex (c : Config) (details : ℕ) : ℕ :=
  (c.smiValue details &&& c.wrap c.propindexMask) >>> c.propindexShift.toNat

/-- The indexes of the key, the value and the details of a descriptor. -/
def descIdx (c : Config) (ii : ℕ) : ℕ × ℕ × ℕ :=
  if c.propIdxContent ≠ -1 then (c.wrap (ii + c.propIdxFirst), ii <<< 1, (ii <<< 1) + 1)
  else
    let baseidx := c.propIdxFirst + ii * c.propDescSize
    (c.wrap (baseidx + c.propDescKey), c.wrap (baseidx + c.propDescValue),
      c.wrap (baseidx + c.propDescDetails))

/-- Where a property is stored: its index, and its address in the object or its index in the
`properties` array. -/
structure PropPlace where
  propidx : ℤ
  propaddr : ℕ := 0
  proparrayidx : ℤ := -1
  deriving DecidableEq, Repr

/-- `v8_major > 3 || (v8_major == 3 && v8_minor >= 26)`. -/
def fieldindexInDetails (c : Config) : Bool := c.v8Major > 3 || (c.v8Major == 3 && c.v8Minor ≥ 26)

/-- Where the descriptor at an index says that its property is stored. Since V8 3.26 that is a bit
field of the details; before, it is the value of the descriptor, which has to be an SMI. -/
def propPlace (c : Config) (d : JsobjDescs) (details value : ℕ) : Option PropPlace :=
  if fieldindexInDetails c then
    let propidx := c.toSigned (propFieldindex c details)
    if propidx < d.ninprops then
      some { propidx, propaddr :=
        c.wrap (d.addr + c.offHeap (d.size - (d.ninprops - propidx) * c.ptrSize)) }
    else some { propidx, proparrayidx := propidx - d.ninprops }
  else if !c.isSmi value then none
  else
    let propidx := c.smiValueSigned value - d.ninprops
    if propidx < 0 then
      some { propidx, propaddr := c.wrap (d.addr + c.offHeap (d.size + propidx * c.ptrSize)) }
    else some { propidx, proparrayidx := propidx }

/-- What `jsobj_properties` makes of a descriptor. -/
inductive DescOut where
  /-- There is no property to be reported, but perhaps a flag to be set. -/
  | skip (propinfo : ℕ)
  /-- The iteration is given up. -/
  | bad
  /-- A property, with flags to be set. -/
  | prop (name : List UInt8) (value : V8Propvalue) (propinfo : ℕ)
  deriving DecidableEq, Repr

/-- The value of a property whose word is `ptr`. -/
def propOut (d : JsobjDescs) (name : List UInt8) (place : PropPlace) (ptr propinfo : ℕ) : DescOut :=
  if jsobjLayoutUntagged t.cfg d.layout (t.cfg.wrap place.propidx) then
    .prop name (.double ptr) propinfo
  else .prop name (.addr ptr) (propinfo ||| garbageInfo t ptr)

/-- The body of the loop of `jsobj_properties` over the descriptors, up to the call of the
function. -/
def jsobjDesc (d : JsobjDescs) (ii : ℕ) : DescOut :=
  let (keyidx, validx, detidx) := descIdx t.cfg ii
  if detidx ≥ d.content.len then .skip jpiSkipped
  else if !descIsfield t.cfg (d.content.get detidx) then .skip 0
  else if keyidx ≥ d.descs.len then .skip jpiSkipped
  else
    let key := d.descs.get keyidx
    let (rv, buf) := jsstrLocal t key jsstrNone 1024
    if rv ≠ 0 then .skip (if jsobjIsUndefined t key then jpiUndefpropname else jpiSkipped)
    else
      match propPlace t.cfg d (d.content.get detidx) (d.content.get validx) with
      | none => .skip jpiSkipped
      | some place =>
        if place.propaddr ≠ 0 then
          match t.readPtr place.propaddr with
          | none => .skip jpiSkipped
          | some ptr => propOut t d buf place ptr jpiInobject
        else if 0 ≤ place.proparrayidx ∧ place.proparrayidx < d.props.len then
          propOut t d buf place (d.props.get place.proparrayidx.toNat) jpiProps
        else if place.propidx < d.rndescs then .skip 0
        else .bad

/-- The loop of `jsobj_properties` over the descriptors, from index `ii` on. It says whether it has
come to the end. -/
def jsobjDescLoop (d : JsobjDescs) (func : PropFunc σ) : ℕ → ℕ → σ → ℕ → Bool × σ × ℕ
  | 0, _, s, propinfo => (true, s, propinfo)
  | n + 1, ii, s, propinfo =>
    match jsobjDesc t d ii with
    | .skip flags => jsobjDescLoop d func n (ii + 1) s (propinfo ||| flags)
    | .bad => (false, s, propinfo)
    | .prop name value flags =>
      let (rv, s) := func name (some value) s
      if rv ≠ 0 then (false, s, propinfo ||| flags)
      else jsobjDescLoop d func n (ii + 1) s (propinfo ||| flags)

/-- `jsobj_properties`. The last component is `*propinfop`, which only a success and a dictionary
set. -/
def jsobjProperties (addr : ℕ) (func : PropFunc σ) (s : σ) (propinfop : ℕ) : ℤ × σ × ℕ :=
  let c := t.cfg
  match t.readPtr (c.add addr c.offJsobjectProperties) with
  | none => (-1, s, propinfop)
  | some ptr =>
    match t.readTypebyte ptr with
    | none => (-1, s, propinfop)
    | some type =>
      if !Target.isType type c.typeFixedarray then
        let buf := bytesOf "<" ++ bytesOf ((c.enumLookupStr type).getD "unknown") ++ bytesOf ">"
        let (rv, s) := func (buf.take 255) none s
        (rv, s, jpiBadlayout)
      else
        match t.readPtr (c.add addr c.offHeapobjectMap) with
        | none => (-1, s, propinfop)
        | some map =>
          match jsobjElements t addr map type func s with
          | (false, s, _) => (-1, s, propinfop)
          | (true, s, propinfo) =>
            match jsobjIsDict t map with
            | none => (-1, s, propinfop)
            | some true => readHeapDict t ptr func s (propinfo ||| jpiDict)
            | some false =>
              match jsobjDescs t addr map ptr with
              | none => (-1, s, propinfop)
              | some (d, flags) =>
                match jsobjDescLoop t d func d.rndescs.toNat 0 s (propinfo ||| flags) with
                | (false, s, _) => (-1, s, propinfop)
                | (true, s, propinfo) => (0, s, propinfo)

end Properties

end MdbV8
