import MdbV8.Objects.Decoded

/-!
# The properties of an object, read back

**The round trip of objects and memory**: for an object that memory is laid out for, whatever ways it is
stored in, `jsobj_properties` calls a function for exactly the properties that a program sees, in their
order and with their values (`deliversProps_iff`). That is so if every index in a dictionary is a small
integer, and no index or element is a word that is taken for the address of an oddball; and where it is
not so, properties are missing, or there are none at all.
-/

namespace MdbV8

section Skips

variable {α β : Type} {f g : α → Option β}

/-- A function that sometimes leaves something out makes a part of a list. -/
theorem filterMap_sublist_of_skips (h : ∀ x, g x = none ∨ g x = f x) (xs : List α) :
    (xs.filterMap g).Sublist (xs.filterMap f) := by
  induction xs with
  | nil => exact List.Sublist.slnil
  | cons x xs ih =>
    rw [List.filterMap_cons, List.filterMap_cons]
    rcases h x with hx | hx
    · rw [hx]
      cases f x with
      | none => exact ih
      | some y => exact ih.cons y
    · rw [hx]
      cases f x with
      | none => exact ih
      | some y => exact ih.cons_cons y

/-- It makes all of it if it leaves nothing out. -/
theorem filterMap_eq_iff_of_skips (h : ∀ x, g x = none ∨ g x = f x) (xs : List α) :
    xs.filterMap g = xs.filterMap f ↔ ∀ x ∈ xs, g x = f x := by
  refine ⟨fun heq => ?_, List.filterMap_congr⟩
  induction xs with
  | nil => exact fun x hx => absurd hx List.not_mem_nil
  | cons x xs ih =>
    rw [List.filterMap_cons, List.filterMap_cons] at heq
    have hx : g x = f x := by
      rcases h x with hnone | hx
      · cases hf : f x with
        | none => exact hnone
        | some y =>
          -- the rest cannot make up for it
          rw [hnone, hf] at heq
          have hlen : (xs.filterMap g).length = (xs.filterMap f).length + 1 := congrArg List.length heq
          have hle := (filterMap_sublist_of_skips h xs).length_le
          omega
      · exact hx
    rw [hx] at heq
    refine List.forall_mem_cons.mpr ⟨hx, ih ?_⟩
    cases hf : f x with
    | none => rwa [hf] at heq
    | some y =>
      rw [hf] at heq
      exact (List.cons.inj heq).2

end Skips

section Shown

variable (t : Target)

/-! ### What is left out -/

/-- An entry is passed over, or it is found. -/
theorem DictEntry.shown?_skips (e : DictEntry) :
    e.shown? t = none ∨ e.shown? t = e.prop?.map delivered := by
  unfold DictEntry.shown?
  split
  · split
    · exact .inl rfl
    · exact .inr rfl
  · exact .inr rfl

/-- An entry is found if its index is. -/
theorem DictEntry.shown?_eq_iff (e : DictEntry) :
    e.shown? t = e.prop?.map delivered ↔
      ∀ n, e.index? = some n → jsobjIsUndefined t (t.cfg.smiWord n) = false := by
  match e with
  | .empty => exact iff_of_true rfl nofun
  | .deleted => exact iff_of_true rfl nofun
  | .prop (.name s) value => exact iff_of_true rfl nofun
  | .prop (.index n) value =>
    unfold DictEntry.shown? DictEntry.index?
    dsimp only
    split
    · next h => exact iff_of_false nofun fun hall => by simp [hall n rfl] at h
    · next h =>
      refine iff_of_true rfl fun m hm => ?_
      rw [← Option.some.inj hm]
      exact Bool.eq_false_iff.mpr h

/-- The properties of a dictionary that are found. -/
theorem shownEntries (entries : List DictEntry) :
    (entries.filterMap (DictEntry.shown? t)).Sublist
        ((entries.filterMap DictEntry.prop?).map delivered) ∧
      (entries.filterMap (DictEntry.shown? t) = (entries.filterMap DictEntry.prop?).map delivered ↔
        ∀ n ∈ entries.filterMap DictEntry.index?, jsobjIsUndefined t (t.cfg.smiWord n) = false) := by
  rw [List.map_filterMap]
  refine ⟨filterMap_sublist_of_skips (DictEntry.shown?_skips t) _, ?_⟩
  rw [filterMap_eq_iff_of_skips (DictEntry.shown?_skips t)]
  constructor
  · intro h n hn
    obtain ⟨e, he, hindex⟩ := List.mem_filterMap.mp hn
    exact (DictEntry.shown?_eq_iff t e).mp (h e he) n hindex
  · intro h e he
    exact (DictEntry.shown?_eq_iff t e).mpr fun n hn => h n (List.mem_filterMap.mpr ⟨e, he, hn⟩)

/-- An element that is found is one that is not taken for a hole. -/
theorem shownElt_some (w ii : ℕ) :
    (shownElt t (some w, ii) = none ∨ shownElt t (some w, ii) = some (delivered (fmtInt ii, w))) ∧
      (shownElt t (some w, ii) = some (delivered (fmtInt ii, w)) ↔ jsobjIsHole t w = false) := by
  unfold shownElt
  rw [Option.bind_some]
  split
  · next h => exact ⟨.inl rfl, iff_of_false nofun (by simp [h])⟩
  · next h => exact ⟨.inr rfl, iff_of_true rfl (Bool.eq_false_iff.mpr h)⟩

/-- The elements of an array with holes that are found. -/
theorem shownElts (elts : List (Option ℕ)) :
    (elts.zipIdx.filterMap (shownElt t)).Sublist ((Elements.holey elts).props.map delivered) ∧
      (elts.zipIdx.filterMap (shownElt t) = (Elements.holey elts).props.map delivered ↔
        ∀ w ∈ elts.reduceOption, jsobjIsHole t w = false) := by
  have hskips (e : Option ℕ × ℕ) : shownElt t e = none ∨
      shownElt t e = (e.1.map fun w => (fmtInt e.2, w)).map delivered := by
    obtain ⟨elt, ii⟩ := e
    cases elt with
    | none => exact .inl rfl
    | some w => exact (shownElt_some t w ii).1
  unfold Elements.props
  rw [List.map_filterMap]
  refine ⟨filterMap_sublist_of_skips hskips _, (filterMap_eq_iff_of_skips hskips _).trans ?_⟩
  constructor
  · -- a word that is found is one at some index
    intro h w hw
    obtain ⟨ii, hii, hget⟩ := List.mem_iff_getElem.mp (List.reduceOption_mem_iff.mp hw)
    have hmem : (some w, ii) ∈ elts.zipIdx :=
      List.mem_zipIdx_iff_getElem?.mpr (List.getElem?_eq_some_iff.mpr ⟨hii, hget⟩)
    exact (shownElt_some t w ii).2.mp (h (some w, ii) hmem)
  · -- a hole is skipped on both sides
    rintro h ⟨elt, ii⟩ he
    cases elt with
    | none => rfl
    | some w =>
      have hw : w ∈ elts.reduceOption :=
        List.reduceOption_mem_iff.mpr (List.mem_of_getElem? (List.mem_zipIdx_iff_getElem?.mp he))
      exact (shownElt_some t w ii).2.mpr (h w hw)

/-- The numeric properties that are found. -/
theorem Elements.shown_props (elements : Elements) :
    (elements.shown t).Sublist (elements.props.map delivered) ∧
      (elements.shown t = elements.props.map delivered ↔
        (∀ n ∈ elements.entries.filterMap DictEntry.index?,
          jsobjIsUndefined t (t.cfg.smiWord n) = false) ∧
        ∀ w ∈ elements.holeyElts, jsobjIsHole t w = false) := by
  cases elements with
  | fast elts =>
    have heq : (Elements.fast elts).shown t = (Elements.fast elts).props.map delivered := by
      unfold Elements.shown Elements.props
      rw [List.map_map]
      rfl
    exact ⟨heq ▸ List.Sublist.refl _, iff_of_true heq ⟨nofun, nofun⟩⟩
  | holey elts =>
    obtain ⟨hsub, hiff⟩ := shownElts t elts
    exact ⟨hsub, hiff.trans ⟨fun h => ⟨nofun, h⟩, And.right⟩⟩
  | dict entries =>
    obtain ⟨hsub, hiff⟩ := shownEntries t entries
    exact ⟨hsub, hiff.trans ⟨fun h => ⟨h, nofun⟩, And.left⟩⟩

/-- The other properties that are found. -/
theorem NamedProps.shown_props (named : NamedProps) :
    (named.shown t).Sublist (named.props.map delivered) ∧
      (named.shown t = named.props.map delivered ↔
        ∀ n ∈ named.entries.filterMap DictEntry.index?,
          jsobjIsUndefined t (t.cfg.smiWord n) = false) := by
  cases named with
  | fast descs inobject properties => exact ⟨List.Sublist.refl _, iff_of_true rfl nofun⟩
  | dict entries => exact shownEntries t entries

/-- **What is found is what there is**, if nothing is taken for an oddball. -/
theorem JsObject.shown_eq_iff (o : JsObject) :
    o.elements.shown t ++ o.named.shown t = o.props.map delivered ↔
      (∀ n ∈ o.indexes, jsobjIsUndefined t (t.cfg.smiWord n) = false) ∧
        ∀ w ∈ o.elements.holeyElts, jsobjIsHole t w = false := by
  obtain ⟨hnumeric, hnumeric'⟩ := o.elements.shown_props t
  obtain ⟨hnamed, hnamed'⟩ := o.named.shown_props t
  have happend : o.elements.shown t ++ o.named.shown t = o.props.map delivered ↔
      o.elements.shown t = o.elements.props.map delivered ∧
        o.named.shown t = o.named.props.map delivered := by
    unfold JsObject.props
    rw [List.map_append]
    constructor
    · intro h
      have hlen := congrArg List.length h
      rw [List.length_append, List.length_append] at hlen
      -- neither part can make up for what the other one lacks
      have hle := hnumeric.length_le
      have hle' := hnamed.length_le
      exact List.append_inj h (by omega)
    · rintro ⟨h, h'⟩
      rw [h, h']
  rw [happend, hnumeric', hnamed']
  unfold JsObject.indexes
  rw [List.filterMap_append]
  constructor
  · rintro ⟨⟨helements, hholes⟩, hentries⟩
    exact ⟨fun n hn => (List.mem_append.mp hn).elim (helements n) (hentries n), hholes⟩
  · rintro ⟨hindexes, hholes⟩
    exact ⟨⟨fun n hn => hindexes n (List.mem_append_left _ hn), hholes⟩,
      fun n hn => hindexes n (List.mem_append_right _ hn)⟩

end Shown

/-! ### The round trip -/

/-- **Properties are delivered**: the iteration succeeds, and a function that never stops it is called for
these properties. -/
def DeliversProps (t : Target) (addr : ℕ) (props : List (List UInt8 × ℕ)) : Prop :=
  ∀ {σ : Type} (func : PropFunc σ), (∀ name val s, (func name val s).1 = 0) → ∀ s propinfop,
    (jsobjProperties t addr func s propinfop).1 = 0 ∧
      (jsobjProperties t addr func s propinfop).2.1 =
        props.foldl (fun s p => (func p.1 (some (.addr p.2)) s).2) s

section RoundTrip

variable {t : Target} {b : PropBits} (hprops : t.cfg.V8Props b)

include hprops

/-- An object whose indexes are not too large stores what is found of its properties. -/
theorem StoredObject.storesProps {addr : ℕ} {o : JsObject} (h : StoredObject t b addr o)
    (hindex : ∀ n ∈ o.indexes, n < smiIndexes t.cfg) :
    ∃ numericDict namedDict,
      StoresProps t addr numericDict namedDict (o.elements.shown t) (o.named.shown t) := by
  obtain ⟨ptr, map, type, hptr, htype, hfixed, hmap, helements, hnamed⟩ := h.props
  unfold JsObject.indexes at hindex
  rw [List.filterMap_append] at hindex
  obtain ⟨numericDict, hnumeric⟩ :=
    helements.holds hprops fun n hn => hindex n (List.mem_append_left _ hn)
  obtain ⟨namedDict, hnamed⟩ :=
    hnamed.holds hprops h.tagged fun n hn => hindex n (List.mem_append_right _ hn)
  exact ⟨numericDict, namedDict, hprops.hasKind, ptr, type, map, hptr, htype, hfixed,
    hprops.array type hfixed, hmap, hnumeric, hnamed⟩

/-- What is found of the properties of an object whose indexes are not too large. -/
theorem StoredObject.events {addr : ℕ} {o : JsObject} (h : StoredObject t b addr o)
    (hindex : ∀ n ∈ o.indexes, n < smiIndexes t.cfg) :
    ∃ es, jsobjEvents t addr = .props es ∧ es.ok = true ∧
      es.events.map (fun e => (e.name, e.value)) = o.elements.shown t ++ o.named.shown t := by
  obtain ⟨numericDict, namedDict, hstores⟩ := h.storesProps hprops hindex
  obtain ⟨flags, hevents⟩ := hstores.events
  refine ⟨_, hevents, rfl, ?_⟩
  have hmap (dict : Bool) (props : List NamedValue) :
      (eventsOf dict props).map (fun e => (e.name, e.value)) = props := by
    unfold eventsOf
    rw [List.map_map]
    exact List.map_id props
  rw [List.map_append, hmap, hmap]

/-- The iteration fails for an object with an index that is too large. -/
theorem StoredObject.fails {addr : ℕ} {o : JsObject} (h : StoredObject t b addr o) {n : ℕ}
    (hn : n ∈ o.indexes) (hlarge : ¬ n < smiIndexes t.cfg) :
    ∃ es, jsobjEvents t addr = .props es ∧ es.ok = false := by
  obtain ⟨ptr, map, type, hptr, htype, hfixed, hmap, helements, hnamed⟩ := h.props
  refine ⟨(elementEvents t addr map type).append (namedEvents t addr map ptr), ?_, ?_⟩
  · unfold jsobjEvents
    dsimp only
    rw [hptr]
    dsimp only
    rw [htype]
    dsimp only
    rw [hfixed, hmap]
    rfl
  · unfold JsObject.indexes at hn
    rw [List.filterMap_append] at hn
    unfold PropEvents.append
    rcases List.mem_append.mp hn with hn | hn
    · -- the index is in the elements, or in the other properties
      have hfails := helements.fails hprops (hprops.array type hfixed) hn hlarge
      rw [if_neg (by rw [hfails]; exact Bool.false_ne_true)]
      exact hfails
    · have hfails := hnamed.fails hprops hn hlarge
      split
      · exact hfails
      · next hnot => exact Bool.eq_false_iff.mpr hnot

/-- **The round trip of objects and memory.** For an object that memory is laid out for, the properties that
are delivered are those that a program sees, if and only if every index in a dictionary is a small integer,
and no index is taken for `undefined`, and no element of an array with holes is taken for a hole. -/
theorem deliversProps_iff {addr : ℕ} {o : JsObject} (h : StoredObject t b addr o) :
    DeliversProps t addr o.props ↔
      (∀ n ∈ o.indexes, n < smiIndexes t.cfg ∧ jsobjIsUndefined t (t.cfg.smiWord n) = false) ∧
        ∀ w ∈ o.elements.holeyElts, jsobjIsHole t w = false := by
  have hsome : Function.Injective fun p : NamedValue => (p.1, some p.2) := by
    rintro ⟨name, value⟩ ⟨name', value'⟩ heq
    obtain ⟨hname, hvalue⟩ := Prod.mk.inj heq
    exact Prod.ext hname (Option.some.inj hvalue)
  constructor
  · intro hdelivers
    -- an index that is too large would have made the iteration fail
    have hindex : ∀ n ∈ o.indexes, n < smiIndexes t.cfg := by
      intro n hn
      by_contra hlarge
      obtain ⟨es, hevents, hok⟩ := h.fails hprops hn hlarge
      have hrv := (hdelivers (fun _ _ s => (0, s)) (fun _ _ _ => rfl) () 0).1
      have hrun := jsobjProperties_eq t (fun _ _ s => (0, s)) addr () 0
      rw [hevents] at hrun
      rw [hrun.rv, hok, Bool.and_false] at hrv
      cases hrv
    obtain ⟨es, hevents, -, hes⟩ := h.events hprops hindex
    -- a callback that writes down its arguments is given the properties
    have hlog : deliveredProps t addr = (o.props.map delivered).map fun p => (p.1, some p.2) := by
      refine (hdelivers (fun name val log => (0, log ++ [(name, val)])) (fun _ _ _ => rfl) [] 0).2.trans ?_
      rw [List.foldl_append_eq_append, List.nil_append, ← List.flatMap_def, ← List.map_eq_flatMap,
        List.map_map]
      rfl
    -- so those that are found are all that there are
    have hshown : o.elements.shown t ++ o.named.shown t = o.props.map delivered := by
      rw [deliveredProps_eq, hevents] at hlog
      rw [← hes]
      refine List.map_injective_iff.mpr hsome (Eq.trans ?_ hlog)
      rw [List.map_map]
      rfl
    obtain ⟨hundefined, hholes⟩ := (o.shown_eq_iff t).mp hshown
    exact ⟨fun n hn => ⟨hindex n hn, hundefined n hn⟩, hholes⟩
  · rintro ⟨hindex, hholes⟩ σ func hfunc s propinfop
    obtain ⟨es, hevents, hok, hes⟩ := h.events hprops fun n hn => (hindex n hn).1
    rw [(o.shown_eq_iff t).mpr ⟨fun n hn => (hindex n hn).2, hholes⟩] at hes
    have hrun := jsobjProperties_eq t func addr s propinfop
    rw [hevents] at hrun
    -- conversely, the callback is called for every event, and the events are the properties
    have hall := runEvents_of_zero func hfunc es.events s
    rw [hrun.rv, hrun.state, hall, hok]
    refine ⟨rfl, ?_⟩
    let call (s : σ) (p : NamedValue) : σ := (func p.1 (some p.2) s).2
    calc es.events.foldl (fun s e => call s (e.name, e.value)) s
        = (es.events.map fun e => (e.name, e.value)).foldl call s := List.foldl_map.symm
      _ = (o.props.map delivered).foldl call s := by rw [hes]
      _ = o.props.foldl (fun s p => call s (delivered p)) s := List.foldl_map

end RoundTrip

/-! ### An object with holes and slots -/

/-- The bit fields of the metadata of the examples. -/
def sampleBits : PropBits := { typeBits := 3, field := 1, shift := 20, width := 10 }

/-- No string or number is an oddball. -/
theorem Config.eq_of_oddball {type : ℕ}
    (h : (Config.sample .lp64).enumLookupStr type = some "Oddball") : type = 0x83 := by
  unfold Config.enumLookupStr at h
  obtain ⟨⟨name, val⟩, hfind, hname⟩ := Option.map_eq_some_iff.mp h
  obtain rfl : name = "Oddball" := hname
  have hval : val = type := by simpa using List.find?_some hfind
  have hmem := List.mem_of_find?_eq_some hfind
  simp [Config.sample] at hmem
  omega

/-- The metadata of the examples. -/
theorem Config.v8Props_sample : (Config.sample .lp64).V8Props sampleBits where
  heapTag := rfl
  heapMask := rfl
  smiTag := rfl
  smiMask := rfl
  map := rfl
  typeMask := rfl
  typeField := rfl
  field_lt := by decide
  indexMask := by decide
  indexShift := rfl
  type_fits := by decide
  index_fits := by decide
  smis := Config.v8Smis_sample .lp64
  string type hstring hname := by
    rw [Config.eq_of_oddball hname] at hstring
    exact absurd hstring (by decide)
  number type hnumber := by
    have htype : type = 0x84 := by
      have heq : (type : ℤ) = 0x84 := by simpa [Target.isType, Config.sample] using hnumber
      omega
    rw [htype]
    exact ⟨by decide, by decide⟩
  array type harray := by
    have heq : (type : ℤ) = 0xa3 := by simpa [Target.isType, Config.sample] using harray
    unfold Target.isType
    rw [heq]
    decide
  hasKind := by decide
  holey := by decide
  dictKind := by decide

/-- An object at `0x1001`: with a hole and an element; and with one property in the object itself, whose
value is the object again, and one that is not. -/
def slotsObject : JsObject where
  elements := .holey [none, some 0x500000000]
  named := .fast [.field [97] 0, .other, .field [98] 1] [0x1001] [0x900000000]

/-- Its memory, and the oddball for holes at `0x7001`. -/
def slotsTarget : Target :=
  .ofWords (.sample .lp64)
    [(0x1000, 0x2001), (0x1008, 0x6001), (0x1010, 0x6101), (0x1018, 0x1001),
      -- its Map, and those of a FixedArray, of a string and of an oddball
      (0x2000, 0x3101), (0x2008, 0x0104), (0x2010, 0x180000ab), (0x2028, 0x6201), (0x2040, 0),
      (0x3010, 0xa3), (0x4010, 0x04), (0x7110, 0x83),
      -- the properties, the elements and the descriptors
      (0x6000, 0x3001), (0x6008, 0x100000000), (0x6010, 0x900000000),
      (0x6100, 0x3001), (0x6108, 0x200000000), (0x6110, 0x7001), (0x6118, 0x500000000),
      (0x6200, 0x3001), (0x6208, 0xc00000000), (0x6210, 0), (0x6218, 0), (0x6220, 0),
      (0x6228, 0x5001), (0x6230, 0x100000000), (0x6238, 0), (0x6240, 0), (0x6248, 0), (0x6250, 0),
      (0x6258, 0x5101), (0x6260, 0x100000000), (0x6268, 0x100000000),
      -- the oddball and the names
      (0x7000, 0x7101), (0x7008, 0x5201),
      (0x5000, 0x4001), (0x5008, 0x100000000), (0x5018, 0x61),
      (0x5100, 0x4001), (0x5108, 0x100000000), (0x5118, 0x62),
      (0x5200, 0x4001), (0x5208, 0x400000000), (0x5218, 0x656c6f68)]

/-- A sequential string is a name. -/
theorem nameAt_slots {addr : ℕ} {name : List UInt8}
    (hload : v8stringLoad slotsTarget addr = some { addr, len := name.length, type := 4 })
    (hread : ReadsChars slotsTarget addr true 0 name.length (name.map UInt8.toNat))
    (hascii : ∀ ch ∈ name, ch ≠ 0 ∧ ch ≤ 126) : NameAt slotsTarget addr name :=
  ⟨0, [name.map UInt8.toNat],
    .seq hload (show slotsTarget.cfg.strrepSeq 4 = true by decide)
      (show ReadsChars slotsTarget addr (slotsTarget.cfg.strencAscii 4) 0 name.length _ from hread),
    by decide, by simp, hascii⟩

theorem slotsTarget_a : NameAt slotsTarget 0x5001 [97] :=
  nameAt_slots (by decide) ⟨[97], by decide, by decide⟩ (by simp)

theorem slotsTarget_b : NameAt slotsTarget 0x5101 [98] :=
  nameAt_slots (by decide) ⟨[98], by decide, by decide⟩ (by simp)

theorem slotsTarget_hole : OddballAt slotsTarget 0x7001 "hole" where
  tagged := by decide
  type := ⟨0x83, by decide, by decide⟩
  string := ⟨0x5201, by decide,
    nameAt_slots (by decide) ⟨[104, 111, 108, 101], by decide, by decide⟩ (by simp [bytesOf])⟩

/-- The slots of the object. -/
theorem inobjectAt_slots : InobjectAt slotsTarget 0x1001 0x2001 [0x1001] where
  count := by decide
  size := by
    refine ⟨32, by decide, by decide, by decide, fun slot w hw => ?_⟩
    obtain rfl : slot = 0 := Nat.lt_one_iff.mp (List.getElem?_eq_some_iff.mp hw).1
    obtain rfl := Option.some.inj hw
    decide

/-- The descriptor of a slot. -/
theorem descAt_slots (slot : ℕ) {key : ℕ} {name : List UInt8} (hname : NameAt slotsTarget key name)
    (hlen : name.length < 1024) (hslot : slot < 2 ^ 31) :
    DescAt slotsTarget sampleBits key (slotsTarget.cfg.smiWord slot) 0x100000000 (.field name slot) where
  isfield := iff_of_true (by decide) nofun
  name name' slot' heq := by
    cases heq
    exact ⟨hname, hlen⟩
  slot name' slot' heq := by
    cases heq
    exact ⟨hslot, rfl⟩

theorem storedObject_slots : StoredObject slotsTarget sampleBits 0x1001 slotsObject where
  tagged := by decide
  props := by
    refine ⟨0x6001, 0x2001, 0xa3, by decide, by decide, by decide, by decide, ?_, ?_⟩
    · refine ⟨0x6101, ⟨2, [0x7001, 0x500000000]⟩, 0x18, by decide, by decide, rfl, by decide, by decide, ?_⟩
      exact .cons slotsTarget_hole (.cons rfl .nil)
    · let descs : Target.HeapArray :=
        ⟨12, [0, 0, 0, 0x5001, 0x100000000, 0, 0, 0, 0, 0x5101, 0x100000000, 0x100000000]⟩
      refine ⟨by decide, by decide, inobjectAt_slots, ⟨{}, by decide, .inl rfl⟩,
        ⟨0x6201, descs, .direct (by decide) (by decide), by decide +kernel, ?_⟩, fun name slot hmem => ?_⟩
      · refine .joint (k := 0) (v := 2) (d := 1) (by decide) (show _ = ((3 : ℕ) : ℤ) from rfl)
          (show _ = ((3 : ℕ) : ℤ) from rfl) rfl rfl rfl (by decide) rfl fun i desc hdesc => ?_
        match i, hdesc with
        | 0, rfl => exact descAt_slots 0 slotsTarget_a (by decide) (by decide)
        | 1, rfl => exact ⟨iff_of_false (by decide) (by simp), nofun, nofun⟩
        | 2, rfl => exact descAt_slots 1 slotsTarget_b (by decide) (by decide)
      · have hle : slot ≤ 1 := by
          simp at hmem
          omega
        exact Nat.lt_succ_of_le hle

/-- The holes are passed over, and the slots found. -/
theorem deliversProps_slots :
    DeliversProps slotsTarget 0x1001 [([49], 0x500000000), ([97], 0x1001), ([98], 0x900000000)] :=
  (deliversProps_iff Config.v8Props_sample storedObject_slots).mpr ⟨nofun, by
    intro w hw
    obtain rfl := List.mem_singleton.mp hw
    decide⟩

end MdbV8
