import MdbV8.Objects.Events

/-!
# How an object stores its properties

The properties with numeric names are stored in an array of elements or in a dictionary, and the others
as *fast* properties, which the descriptors of the Map tell where to find, or in a dictionary. This module
says what it is that a dictionary, the elements and the descriptors hold, entry by entry and in their
order (`DictHolds`, `ElementsHold`, `NamedHold`). For an object whose parts hold some properties, the
events are these properties, each marked as one of a dictionary or not (`StoresProps.events`).
-/

namespace MdbV8

/-- A property with its value. -/
abbrev NamedValue : Type := List UInt8 × V8Propvalue

/-- The events for properties, which are in a dictionary or not. -/
def eventsOf (dict : Bool) (props : List NamedValue) : List PropEvent :=
  props.map fun p => { name := p.1, value := p.2, dict }

section Holds

variable (t : Target)

/-! ### What is stored where -/

/-- The entry of a dictionary at an index, if it is one of a property. -/
def dictProp (dict : Target.HeapArray) (i : ℕ) : Option NamedValue :=
  match dictKey t (dict.get i) with
  | .name buf => some (buf, .addr (dict.get (i + 1)))
  | _ => none

/-- A dictionary at an address has `n` entries of `size` words behind its first `start` words, each of
them empty or one of a property, and these are the properties. -/
structure DictLayout (addr start size n : ℕ) (dict : Target.HeapArray) (props : List NamedValue) :
    Prop where
  read : t.readHeapArray addr = some dict
  start_eq : t.cfg.dictStartIndex + t.cfg.dictPrefixSize = start
  size_eq : t.cfg.dictEntrySize = size
  two_le : 2 ≤ size
  fits : dict.len + start + size < 2 ^ t.cfg.bits
  entries : ∀ k, start + k * size + 1 < dict.len ↔ k < n
  keys : ∀ k < n, dictKey t (dict.get (start + k * size)) ≠ .fail
  props_eq : props = (List.range n).filterMap fun k => dictProp t dict (start + k * size)

/-- A dictionary holds properties. -/
def DictHolds (addr : ℕ) (props : List NamedValue) : Prop :=
  ∃ start size n dict, DictLayout t addr start size n dict props

/-- The properties in an array of elements, from an index on. -/
def elementProps (holey : Bool) (elts : List ℕ) (ii : ℕ) : List NamedValue :=
  (elts.zipIdx ii).filterMap fun e =>
    if holey && jsobjIsHole t e.1 then none else some (fmtInt e.2, .addr e.1)

/-- The elements of an object hold properties, in a dictionary or in an array. -/
def ElementsHold (addr map : ℕ) (dict : Bool) (props : List NamedValue) : Prop :=
  let c := t.cfg
  ∃ elements elts, t.readHeapPtr addr c.offJsobjectElements = some elements ∧
    t.readHeapArray elements = some elts ∧
    (elts.len = 0 ∧ props = [] ∨ elts.len ≠ 0 ∧
      ∃ bitField2, t.readByte (c.add map c.offMapBitField2) = some bitField2 ∧
        let kind : ℤ := elementsKind c bitField2
        let fast := kind = c.elementsFastElements ∨ kind = c.elementsFastHoleyElements
        if dict then ¬ fast ∧ kind = c.elementsDictionaryElements ∧ DictHolds t elements props
        else fast ∧ props = elementProps t (kind == c.elementsFastHoleyElements) elts.elts 0)

/-- The property that a descriptor is about, if it is about one. -/
def descProp (d : JsobjDescs) (ii : ℕ) : Option NamedValue :=
  match jsobjDesc t d ii with
  | .prop name value _ => some (name, value)
  | _ => none

/-- Properties that are not numeric are held in a dictionary, or as fast properties. `ptr` is the
`properties` array. -/
def NamedHold (addr map ptr : ℕ) (dict : Bool) (props : List NamedValue) : Prop :=
  jsobjIsDict t map = some dict ∧
    if dict then DictHolds t ptr props
    else ∃ d flags, jsobjDescs t addr map ptr = some (d, flags) ∧
      (∀ ii < d.rndescs.toNat, jsobjDesc t d ii ≠ .bad) ∧
      props = (List.range d.rndescs.toNat).filterMap (descProp t d)

/-- An object stores numeric properties and other ones, each in a dictionary or not. -/
structure StoresProps (addr : ℕ) (numericDict namedDict : Bool) (numeric named : List NamedValue) :
    Prop where
  hasKind : t.cfg.elementsKindShift ≠ -1
  props : ∃ ptr type map, t.readPtr (t.cfg.add addr t.cfg.offJsobjectProperties) = some ptr ∧
    t.readTypebyte ptr = some type ∧ Target.isType type t.cfg.typeFixedarray = true ∧
    Target.isType type t.cfg.typeJstypedarray = false ∧
    t.readPtr (t.cfg.add addr t.cfg.offHeapobjectMap) = some map ∧
    ElementsHold t addr map numericDict numeric ∧ NamedHold t addr map ptr namedDict named

/-! ### The events of what is stored -/

variable {t}

/-- The index that follows that of an entry is not larger than the loop can count. -/
theorem DictLayout.index_lt {addr start size n : ℕ} {dict : Target.HeapArray}
    {props : List NamedValue} (h : DictLayout t addr start size n dict props) {k : ℕ} (hk : k ≤ n) :
    start + k * size + 1 < 2 ^ t.cfg.bits := by
  have hfits := h.fits
  have htwo := h.two_le
  cases k with
  | zero => omega
  | succ k =>
    have hlast := (h.entries k).mpr (Nat.lt_of_succ_le hk)
    rw [Nat.succ_mul]
    omega

theorem Config.add_of_natCast_lt (c : Config) {addr off : ℕ} {x : ℤ} (hx : x = off)
    (h : addr + off < 2 ^ c.bits) : c.add addr x = addr + off := by
  rw [hx, Config.add_natCast, Nat.mod_eq_of_lt h]

/-- The index of the value of an entry. -/
theorem DictLayout.add_one {addr start size n : ℕ} {dict : Target.HeapArray}
    {props : List NamedValue} (h : DictLayout t addr start size n dict props) {k : ℕ} (hk : k ≤ n) :
    t.cfg.add (start + k * size) 1 = start + k * size + 1 :=
  t.cfg.add_of_natCast_lt Nat.cast_one.symm (h.index_lt hk)

/-- The loop over a dictionary, from an entry on. -/
theorem DictLayout.loopEvents {addr start size n : ℕ} {dict : Target.HeapArray}
    {props : List NamedValue} (h : DictLayout t addr start size n dict props) {m k fuel : ℕ}
    (hk : k + m = n) (hfuel : m < fuel) :
    ∃ flags, dictLoopEvents t dict fuel (start + k * size) =
      ⟨eventsOf true ((List.range' k m).filterMap fun k => dictProp t dict (start + k * size)), true,
        flags⟩ := by
  induction m generalizing k fuel with
  | zero =>
    obtain ⟨fuel, rfl⟩ := Nat.exists_eq_add_of_lt hfuel
    have hend : ¬ start + k * size + 1 < dict.len := fun hlt =>
      absurd ((h.entries k).mp hlt) (by omega)
    rw [dictLoopEvents, h.add_one (by omega), if_neg hend]
    exact ⟨0, rfl⟩
  | succ m ih =>
    obtain ⟨fuel, rfl⟩ := Nat.exists_eq_add_of_lt (Nat.zero_lt_of_lt hfuel)
    rw [Nat.zero_add] at hfuel ⊢
    have hin : k < n := by omega
    obtain ⟨flags, hrest⟩ := ih (show k + 1 + m = n by omega) (show m < fuel by omega)
    have hstep : start + (k + 1) * size = start + k * size + size := by
      rw [Nat.succ_mul, Nat.add_assoc]
    -- the next entry is still below the limit of a word
    have hlt : start + k * size + size < 2 ^ t.cfg.bits := by
      have hnext := h.index_lt (k := k + 1) hin
      omega
    rw [dictLoopEvents, h.add_one hin.le, if_pos ((h.entries k).mpr hin),
      t.cfg.add_of_natCast_lt h.size_eq hlt, ← hstep, hrest, List.range'_succ]
    -- the entry is skipped, or it has a name
    have hkey := h.keys k hin
    dsimp only
    cases hname : dictKey t (dict.get (start + k * size)) with
    | skip => exact ⟨flags, by rw [List.filterMap_cons_none (by rw [dictProp, hname])]⟩
    | fail => exact absurd hname hkey
    | name buf =>
      refine ⟨garbageInfo t (dict.get (start + k * size + 1)) ||| flags, ?_⟩
      rw [List.filterMap_cons_some (b := (buf, .addr (dict.get (start + k * size + 1))))
        (by rw [dictProp, hname])]
      rfl

/-- The events of a dictionary. -/
theorem DictHolds.events {addr : ℕ} {props : List NamedValue} (h : DictHolds t addr props) :
    ∃ flags, dictEvents t addr = ⟨eventsOf true props, true, flags⟩ := by
  obtain ⟨start, size, n, dict, h⟩ := h
  have htwo := h.two_le
  have hn : n ≤ dict.len := by
    rcases Nat.eq_zero_or_pos n with rfl | hpos
    · exact Nat.zero_le _
    · have hlast := (h.entries (n - 1)).mpr (by omega)
      have hmul : n - 1 ≤ (n - 1) * size := Nat.le_mul_of_pos_right _ (by omega)
      omega
  have hstart : t.cfg.wrap (t.cfg.dictStartIndex + t.cfg.dictPrefixSize) = start + 0 * size := by
    have hfits := h.fits
    rw [h.start_eq, Config.wrap_natCast t.cfg (by omega), Nat.zero_mul, Nat.add_zero]
  obtain ⟨flags, hloop⟩ := h.loopEvents (Nat.zero_add n) (Nat.lt_succ_of_le hn)
  refine ⟨flags, ?_⟩
  have hsize : ¬ t.cfg.dictEntrySize < 2 := by
    rw [h.size_eq]
    exact_mod_cast Nat.not_lt.mpr htwo
  rw [dictEvents, h.read]
  dsimp only
  rw [if_neg hsize, hstart, hloop, h.props_eq, List.range_eq_range']

/-- The events of an array of elements. -/
theorem fastEvents_eq (holey : Bool) (elts : List ℕ) (ii : ℕ) :
    ∃ flags, fastEvents t holey ii elts =
      ⟨eventsOf false (elementProps t holey elts ii), true, flags⟩ := by
  induction elts generalizing ii with
  | nil => exact ⟨0, rfl⟩
  | cons elt elts ih =>
    obtain ⟨flags, hrest⟩ := ih (ii + 1)
    rw [fastEvents, elementProps, List.zipIdx_cons, List.filterMap_cons]
    split
    · -- a hole is no property
      exact ⟨flags, hrest⟩
    · rw [hrest]
      exact ⟨garbageInfo t elt ||| flags, rfl⟩

/-- The events of the elements of an object. -/
theorem ElementsHold.events {addr map type : ℕ} {dict : Bool} {props : List NamedValue}
    (h : ElementsHold t addr map dict props) (hkind : t.cfg.elementsKindShift ≠ -1)
    (htype : Target.isType type t.cfg.typeJstypedarray = false) :
    ∃ flags, elementEvents t addr map type = ⟨eventsOf dict props, true, flags⟩ := by
  obtain ⟨elements, elts, hptr, harray, hprops⟩ := h
  unfold elementEvents
  extract_lets c
  rw [if_neg (by simpa [c, htype] using hkind), hptr]
  dsimp only
  rw [harray]
  dsimp only
  rcases hprops with ⟨hlen, rfl⟩ | ⟨hlen, bitField2, hbyte, hprops⟩
  · rw [if_pos hlen]
    exact ⟨0, rfl⟩
  rw [if_neg hlen, hbyte]
  dsimp only at hprops ⊢
  -- the elements are in a dictionary, or one behind the other
  cases dict with
  | true =>
    obtain ⟨hnotfast, hdictkind, hdict⟩ := hprops
    obtain ⟨flags, hevents⟩ := hdict.events
    rw [if_neg hnotfast, if_pos hdictkind, hevents]
    exact ⟨_, rfl⟩
  | false =>
    obtain ⟨hfast, rfl⟩ := hprops
    obtain ⟨flags, hevents⟩ := fastEvents_eq (t := t)
      ((elementsKind c bitField2 : ℤ) == c.elementsFastHoleyElements) elts.elts 0
    rw [if_pos hfast, hevents]
    exact ⟨_, rfl⟩

/-- The events of the descriptors. -/
theorem descEvents_eq (d : JsobjDescs) {n : ℕ} (ii : ℕ)
    (h : ∀ k < n, jsobjDesc t d (ii + k) ≠ .bad) :
    ∃ flags, descEvents t d n ii =
      ⟨eventsOf false ((List.range' ii n).filterMap (descProp t d)), true, flags⟩ := by
  induction n generalizing ii with
  | zero => exact ⟨0, rfl⟩
  | succ n ih =>
    obtain ⟨flags, hrest⟩ := ih (ii + 1) fun k hk => by
      have hnext := h (k + 1) (Nat.succ_lt_succ hk)
      rwa [show ii + (k + 1) = ii + 1 + k by omega] at hnext
    rw [descEvents, List.range'_succ, hrest]
    have hfirst := h 0 (Nat.succ_pos n)
    rw [Nat.add_zero] at hfirst
    cases hdesc : jsobjDesc t d ii with
    | skip flags' => exact ⟨_, by rw [List.filterMap_cons_none (by rw [descProp, hdesc])]; rfl⟩
    | bad => exact absurd hdesc hfirst
    | prop name value flags' =>
      refine ⟨flags' ||| flags, ?_⟩
      rw [List.filterMap_cons_some (b := (name, value)) (by rw [descProp, hdesc])]
      rfl

/-- The events of the properties that are not numeric. -/
theorem NamedHold.events {addr map ptr : ℕ} {dict : Bool} {props : List NamedValue}
    (h : NamedHold t addr map ptr dict props) :
    ∃ flags, namedEvents t addr map ptr = ⟨eventsOf dict props, true, flags⟩ := by
  obtain ⟨hmode, hprops⟩ := h
  unfold namedEvents
  rw [hmode]
  cases dict with
  | true =>
    obtain ⟨flags, hevents⟩ := DictHolds.events hprops
    exact ⟨jpiDict ||| flags, by rw [hevents]; rfl⟩
  | false =>
    obtain ⟨d, flags, hdescs, hbad, rfl⟩ := hprops
    obtain ⟨flags', hevents⟩ := descEvents_eq d 0 fun k hk => by
      rw [Nat.zero_add]
      exact hbad k hk
    refine ⟨flags ||| flags', ?_⟩
    dsimp only
    rw [hdescs]
    dsimp only
    rw [hevents, List.range_eq_range']
    rfl

/-- **The events of an object** are the properties that it stores. -/
theorem StoresProps.events {addr : ℕ} {numericDict namedDict : Bool} {numeric named : List NamedValue}
    (h : StoresProps t addr numericDict namedDict numeric named) :
    ∃ flags, jsobjEvents t addr =
      .props ⟨eventsOf numericDict numeric ++ eventsOf namedDict named, true, flags⟩ := by
  obtain ⟨ptr, type, map, hptr, htype, hfixed, htyped, hmap, helements, hnamed⟩ := h.props
  obtain ⟨flags, hnumeric⟩ := helements.events h.hasKind htyped
  obtain ⟨flags', hrest⟩ := hnamed.events
  refine ⟨flags ||| flags', ?_⟩
  unfold jsobjEvents
  dsimp only
  rw [hptr]
  dsimp only
  rw [htype]
  dsimp only
  rw [hfixed, hmap]
  dsimp only
  rw [hnumeric, hrest]
  rfl

end Holds

end MdbV8
