import MdbV8.Functions.SourceLines
import MdbV8.Objects.Contains
import MdbV8.Objects.Storage
import MdbV8.Print.SmallInts
import MdbV8.Strings.Flat

/-!
# Objects and their memory

The comment above `jsobj_properties` tells how V8 lays out the properties of an object. Here an object is a
value of its own (`JsObject`), with the properties that a program sees (`JsObject.props`), and `StoredObject`
says that memory is laid out for it, in any of the ways that the comment has: elements in an array with or
without holes, or in a dictionary; other properties in slots that the descriptors of the Map tell, or in a
dictionary; and the number of the slot in the details of a descriptor, or in its value.

A slot has a number. The first ones are in the object itself, and the others in its `properties` array.
-/

namespace MdbV8

/-! ### Objects -/

/-- The key of a property in a dictionary. -/
inductive PropKey where
  | index (n : ℕ)
  | name (s : List UInt8)
  deriving DecidableEq, Repr

/-- The name that a program sees. -/
def PropKey.text : PropKey → List UInt8
  | index n => fmtInt n
  | name s => s

/-- An entry of a dictionary. -/
inductive DictEntry where
  | empty
  | deleted
  | prop (key : PropKey) (value : ℕ)
  deriving DecidableEq, Repr

namespace DictEntry

/-- The property of an entry. -/
def prop? : DictEntry → Option (List UInt8 × ℕ)
  | prop key value => some (key.text, value)
  | _ => none

/-- The index that an entry is for. -/
def index? : DictEntry → Option ℕ
  | prop (.index n) _ => some n
  | _ => none

end DictEntry

/-- The numeric properties. -/
inductive Elements where
  | fast (elts : List ℕ)
  | holey (elts : List (Option ℕ))
  | dict (entries : List DictEntry)
  deriving DecidableEq, Repr

namespace Elements

/-- The numeric properties that a program sees. -/
def props : Elements → List (List UInt8 × ℕ)
  | fast elts => elts.zipIdx.map fun e => (fmtInt e.2, e.1)
  | holey elts => elts.zipIdx.filterMap fun e => e.1.map fun w => (fmtInt e.2, w)
  | dict entries => entries.filterMap DictEntry.prop?

/-- The entries of a dictionary. -/
def entries : Elements → List DictEntry
  | dict entries => entries
  | _ => []

/-- The elements of an array with holes. -/
def holeyElts : Elements → List ℕ
  | holey elts => elts.reduceOption
  | _ => []

end Elements

/-- A descriptor: of a property in a slot, or something else. -/
inductive Descriptor where
  | field (name : List UInt8) (slot : ℕ)
  | other
  deriving DecidableEq, Repr

/-- The other properties. -/
inductive NamedProps where
  | fast (descs : List Descriptor) (inobject properties : List ℕ)
  | dict (entries : List DictEntry)
  deriving DecidableEq, Repr

/-- The property of a descriptor, whose value is in one of the slots. -/
def Descriptor.prop? (slots : List ℕ) : Descriptor → Option (List UInt8 × ℕ)
  | field name slot => slots[slot]?.map (name, ·)
  | other => none

namespace NamedProps

/-- The properties that are not numeric. -/
def props : NamedProps → List (List UInt8 × ℕ)
  | fast descs inobject properties => descs.filterMap (Descriptor.prop? (inobject ++ properties))
  | dict entries => entries.filterMap DictEntry.prop?

/-- The entries of a dictionary. -/
def entries : NamedProps → List DictEntry
  | dict entries => entries
  | _ => []

end NamedProps

/-- **An object.** -/
structure JsObject where
  elements : Elements
  named : NamedProps
  deriving DecidableEq, Repr

namespace JsObject

/-- **The properties that a program sees**: the numeric ones, then the others. -/
def props (o : JsObject) : List (List UInt8 × ℕ) := o.elements.props ++ o.named.props

/-- The indexes that are keys in a dictionary. -/
def indexes (o : JsObject) : List ℕ := (o.elements.entries ++ o.named.entries).filterMap DictEntry.index?

end JsObject

/-! ### The metadata -/

/-- The bit fields of the details of a descriptor: the low bits are the type, which has some value for a
field, and others are the slot. -/
structure PropBits where
  typeBits : ℕ
  field : ℕ
  shift : ℕ
  width : ℕ
  deriving DecidableEq, Repr

/-- The metadata has these bit fields. -/
structure Config.HasPropBits (c : Config) (b : PropBits) : Prop where
  typeMask : c.propTypeMask = ((2 ^ b.typeBits - 1 : ℕ) : ℤ)
  typeField : c.propTypeField = (b.field : ℕ)
  field_lt : b.field < 2 ^ b.typeBits
  indexMask : c.propindexMask = (((2 ^ b.width - 1) * 2 ^ b.shift : ℕ) : ℤ)
  indexShift : c.propindexShift = (b.shift : ℕ)
  type_fits : b.typeBits < 32
  index_fits : b.shift + b.width < 32

/-- **The metadata of V8** that matters for properties. -/
structure Config.V8Props (c : Config) (b : PropBits) : Prop extends c.V8Tags, c.HasPropBits b where
  smis : c.V8Smis
  /-- Strings and numbers are no oddballs. -/
  string : ∀ type, c.typeString type = true → c.enumLookupStr type ≠ some "Oddball"
  number : ∀ type, Target.isType type c.typeHeapnumber = true →
    c.typeString type = false ∧ c.enumLookupStr type ≠ some "Oddball"
  array : ∀ type, Target.isType type c.typeFixedarray = true →
    Target.isType type c.typeJstypedarray = false
  hasKind : c.elementsKindShift ≠ -1
  /-- The kinds of elements differ. -/
  holey : c.elementsFastHoleyElements ≠ c.elementsFastElements
  dictKind : c.elementsDictionaryElements ≠ c.elementsFastElements ∧
    c.elementsDictionaryElements ≠ c.elementsFastHoleyElements

/-! ### Memory -/

section Memory

variable (t : Target) (b : PropBits)

/-- A string at an address: in any representation, of characters that are printed as they are. -/
def NameAt (addr : ℕ) (name : List UInt8) : Prop :=
  ∃ d leaves, StringTree t addr d leaves ∧ d ≤ 255 ∧ leaves.flatten = name.map UInt8.toNat ∧
    ∀ ch ∈ name, ch ≠ 0 ∧ ch ≤ 126

/-- An oddball at an address. -/
structure OddballAt (addr : ℕ) (name : String) : Prop where
  tagged : t.cfg.isHeapobject addr = true
  type : ∃ type, t.readTypebyte addr = some type ∧ t.cfg.enumLookupStr type = some "Oddball"
  string : ∃ strptr, t.readHeapPtr addr t.cfg.offOddballToString = some strptr ∧
    NameAt t strptr (bytesOf name)

/-- The largest index that is a small integer is below this. -/
def smiIndexes (c : Config) : ℕ := 2 ^ (c.smiBits - 1)

/-- A key in a dictionary. An index that is no small integer is a number in the heap. -/
def KeyAt (key : ℕ) : PropKey → Prop
  | .index n =>
    if n < smiIndexes t.cfg then key = t.cfg.smiWord n
    else t.cfg.isHeapobject key = true ∧
      ∃ type, t.readTypebyte key = some type ∧ Target.isType type t.cfg.typeHeapnumber = true
  | .name s => t.cfg.isHeapobject key = true ∧ NameAt t key s ∧ s.length < 512

/-- An entry of a dictionary. -/
def EntryAt (key value : ℕ) : DictEntry → Prop
  | .empty => OddballAt t key "undefined"
  | .deleted => OddballAt t key "hole"
  | .prop k w => KeyAt t key k ∧ value = w

/-- A dictionary: behind a few words, its entries, of the key, the value and perhaps more words. -/
def DictAt (addr : ℕ) (entries : List DictEntry) : Prop :=
  ∃ start size dict, t.readHeapArray addr = some dict ∧
    t.cfg.dictStartIndex + t.cfg.dictPrefixSize = (start : ℕ) ∧ t.cfg.dictEntrySize = (size : ℕ) ∧
    2 ≤ size ∧ dict.len = start + entries.length * size ∧ dict.len + start + size < 2 ^ t.cfg.bits ∧
    ∀ k entry, entries[k]? = some entry →
      EntryAt t (dict.get (start + k * size)) (dict.get (start + k * size + 1)) entry

/-- An element, or the hole. -/
def EltAt (w : ℕ) : Option ℕ → Prop
  | none => OddballAt t w "hole"
  | some elt => w = elt

/-- The elements of an object, in the kind of array that the Map says. -/
def ElementsAt (addr map : ℕ) (elements : Elements) : Prop :=
  let c := t.cfg
  ∃ ptr arr bitField2, t.readHeapPtr addr c.offJsobjectElements = some ptr ∧
    t.readHeapArray ptr = some arr ∧ arr.len = arr.elts.length ∧
    t.readByte (c.add map c.offMapBitField2) = some bitField2 ∧
    let kind : ℤ := elementsKind c bitField2
    match elements with
    | .fast elts => kind = c.elementsFastElements ∧ arr.elts = elts
    | .holey elts => kind = c.elementsFastHoleyElements ∧ List.Forall₂ (EltAt t) arr.elts elts
    | .dict entries => kind = c.elementsDictionaryElements ∧ DictAt t ptr entries

/-- The address of the descriptors: the Map has it, or its transitions do. -/
inductive DescsAddr (map : ℕ) : ℕ → Prop
  | direct {ptr : ℕ} (hoff : t.cfg.offMapInstanceDescriptors ≠ -1)
      (hptr : t.readPtr (t.cfg.add map t.cfg.offMapInstanceDescriptors) = some ptr) : DescsAddr map ptr
  | transitions {ptr trans : ℕ} {arr : Target.HeapArray} {idx : ℕ}
      (hoff : t.cfg.offMapInstanceDescriptors = -1) (htrans : t.cfg.offMapTransitions ≠ -1)
      (hidx : t.cfg.transitionsIdxDesc = (idx : ℕ)) (hcontent : t.cfg.propIdxContent = -1)
      (hread : t.readPtr (t.cfg.add map t.cfg.offMapTransitions) = some trans)
      (harr : t.readHeapArray trans = some arr) (hget : arr.elts[idx]? = some ptr) : DescsAddr map ptr

/-- A descriptor: its key, its value and its details. -/
structure DescAt (key value details : ℕ) (desc : Descriptor) : Prop where
  /-- Only that of a property in a slot has the type of a field. -/
  isfield : t.cfg.smiValue details % 2 ^ b.typeBits = b.field ↔ desc ≠ .other
  name : ∀ name slot, desc = .field name slot → NameAt t key name ∧ name.length < 1024
  /-- The slot is in the details, or it is the value. -/
  slot : ∀ name slot, desc = .field name slot →
    if fieldindexInDetails t.cfg then
      t.cfg.smiValue details / 2 ^ b.shift % 2 ^ b.width = slot
    else slot < smiIndexes t.cfg ∧ value = t.cfg.smiWord slot

/-- The descriptors, in one array with groups of words, or their details and values in an array of their
own. -/
inductive DescsAt (descs : Target.HeapArray) : List Descriptor → Prop
  | joint {ds : List Descriptor} {first size k v d : ℕ} (hcontent : t.cfg.propIdxContent = -1)
      (hfirst : t.cfg.propIdxFirst = (first : ℕ)) (hsize : t.cfg.propDescSize = (size : ℕ))
      (hk : t.cfg.propDescKey = (k : ℕ)) (hv : t.cfg.propDescValue = (v : ℕ))
      (hd : t.cfg.propDescDetails = (d : ℕ)) (hlt : k < size ∧ v < size ∧ d < size)
      (hlen : descs.len = first + ds.length * size)
      (hdescs : ∀ i desc, ds[i]? = some desc →
        DescAt t b (descs.get (first + i * size + k)) (descs.get (first + i * size + v))
          (descs.get (first + i * size + d)) desc) : DescsAt descs ds
  | separate {ds : List Descriptor} {first idx : ℕ} {content : Target.HeapArray}
      (hcontent : t.cfg.propIdxContent = (idx : ℕ)) (hfirst : t.cfg.propIdxFirst = (first : ℕ))
      (hidx : idx < descs.len) (hread : t.readHeapArray (descs.get idx) = some content)
      (hlen : descs.len = first + ds.length) (hlen' : content.len = 2 * ds.length)
      (hdescs : ∀ i desc, ds[i]? = some desc →
        DescAt t b (descs.get (first + i)) (content.get (2 * i)) (content.get (2 * i + 1)) desc) :
      DescsAt descs ds

/-- No property is an untagged `double`. -/
def AllTagged (map : ℕ) : Prop :=
  ∃ layout, jsobjLayoutLoad t map = some layout ∧ (layout.haslayout = false ∨ layout.alltagged = true)

/-- The slots in the object itself: they are the last words of it, behind its Map. -/
structure InobjectAt (addr map : ℕ) (inobject : List ℕ) : Prop where
  count : t.readByte (t.cfg.add map t.cfg.offMapInobjectProperties) = some inobject.length
  size : ∃ size, t.readSize addr = some size ∧ (inobject.length + 1) * t.cfg.ptrSize ≤ size ∧
    addr + size ≤ 2 ^ t.cfg.bits ∧
    ∀ slot w, inobject[slot]? = some w →
      t.readPtr (addr - 1 + size - (inobject.length - slot) * t.cfg.ptrSize) = some w

/-- The properties that are not numeric. `ptr` is the `properties` field. -/
def NamedAt (addr map ptr : ℕ) : NamedProps → Prop
  | .fast ds inobject properties =>
    jsobjIsDict t map = some false ∧
      t.readHeapArray ptr = some ⟨properties.length, properties⟩ ∧
      InobjectAt t addr map inobject ∧ AllTagged t map ∧
      (∃ descsAddr descs, DescsAddr t map descsAddr ∧ t.readHeapArray descsAddr = some descs ∧
        DescsAt t b descs ds) ∧
      ∀ name slot, .field name slot ∈ ds → slot < inobject.length + properties.length
  | .dict entries => jsobjIsDict t map = some true ∧ DictAt t ptr entries

/-- **Memory is laid out for an object.** -/
structure StoredObject (addr : ℕ) (o : JsObject) : Prop where
  tagged : t.cfg.isHeapobject addr = true
  props : ∃ ptr map type, t.readPtr (t.cfg.add addr t.cfg.offJsobjectProperties) = some ptr ∧
    t.readTypebyte ptr = some type ∧ Target.isType type t.cfg.typeFixedarray = true ∧
    t.readPtr (t.cfg.add addr t.cfg.offHeapobjectMap) = some map ∧
    ElementsAt t addr map o.elements ∧ NamedAt t b addr map ptr o.named

end Memory

end MdbV8
