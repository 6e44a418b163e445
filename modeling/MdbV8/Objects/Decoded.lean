import MdbV8.Objects.Encoded

/-!
# The parts of an object, read back

What `jsobj_properties` makes of memory that is laid out for the parts of an object: of the keys of a
dictionary, of a dictionary, of the elements, and of the descriptors with the slots that they tell
(`ElementsAt.holds`, `NamedAt.holds`). What it finds is what is there, with two exceptions. An index that
is no small integer makes it fail (`ElementsAt.fails`, `NamedAt.fails`). And an entry is passed over if the
word of its index is taken for the address of `undefined`, as is an element if it is taken for the hole.
-/

namespace MdbV8

section Decoded

variable {t : Target} {b : PropBits}

/-! ### Names and keys -/

/-- **A name is printed as it is** into an array that it fits. -/
theorem NameAt.jsstrLocal_eq {addr : ℕ} {name : List UInt8} (h : NameAt t addr name) {n : ℕ} (h8 : 8 ≤ n)
    (hfits : name.length < n) (hn : n < 2 ^ t.cfg.bits) :
    jsstrLocal t addr jsstrNone n = (0, name) := by
  obtain ⟨d, leaves, htree, hd, hflat, hascii⟩ := h
  obtain ⟨strp, hload⟩ := htree.exists_load
  obtain ⟨s, hwrite, hgrows, htext⟩ := v8stringWrite_tree t msfAsciionly htree hload hd
    (show jsstrDepth jsstrNone = 0 from rfl) { bytes := fun _ => 0 } 0 h8 hn
  have hchars : charsText msfAsciionly leaves.flatten = name := by
    rw [charsText_asciionly, hflat, List.map_map]
    calc name.map (asciiByte ∘ UInt8.toNat) = name.map id :=
          List.map_congr_left fun ch hch => asciiByte_toNat (hascii ch hch).2
      _ = name := List.map_id name
  -- the array has room for all of the characters
  have hroom : outBytes msfAsciionly leaves.flatten ≤ freshRoom n jsstrNone := by
    rw [outBytes_of_not_json msfAsciionly_ne_json, hflat, List.length_map]
    change name.length ≤ n - 1
    omega
  have hname : s.text = name := by
    rw [htext, treeText_of_fits msfAsciionly hroom, hchars]
    exact (List.append_nil _).trans (List.nil_append _)
  have hcur : s.curbuf = name.length := by
    rw [← hname]
    exact (CharMem.upTo_length _ _).symm
  -- what is printed is what a writer with this room writes
  have hprint : jsstrPrint t addr jsstrNone (OutBuf.fresh (fun _ => 0) n) =
      (0, mdbv8StrbufLegacyUpdate s) := by
    have hbuf : (OutBuf.fresh (fun _ => 0) n).toStrbuf =
        mdbv8StrbufInit { bytes := fun _ => 0 } 0 n := rfl
    unfold jsstrPrint
    rw [hload]
    dsimp only
    rw [hbuf, hwrite]
  have hstr : (mdbv8StrbufLegacyUpdate s).str n = name.takeWhile (· != 0) := by
    rw [OutBuf.str_eq]
    · exact congrArg _ hname
    · exact hgrows.nul rfl
    · change s.curbuf < n
      omega
  -- no character is a NUL, so that the string ends behind the name
  have hnul : name.takeWhile (· != 0) = name :=
    List.takeWhile_eq_self_iff.mpr fun ch hch => by simpa using (hascii ch hch).1
  unfold jsstrLocal
  rw [hprint]
  dsimp only
  rw [hstr, hnul]

/-- The array is not larger than memory. -/
theorem lt_two_pow_bits {c : Config} {n : ℕ} (hn : n < 2 ^ 32) : n < 2 ^ c.bits := by
  rcases c.model.ptrSize_cases with ⟨-, -, hbits⟩ | ⟨-, -, hbits⟩
  · rwa [Config.bits, hbits]
  · rw [Config.bits, hbits]
    omega

/-- The type of a string. -/
theorem NameAt.exists_type {addr : ℕ} {name : List UInt8} (h : NameAt t addr name) :
    ∃ type, t.readTypebyte addr = some type ∧ t.cfg.typeString type = true := by
  obtain ⟨d, leaves, htree, -⟩ := h
  obtain ⟨strp, hload⟩ := htree.exists_load
  unfold v8stringLoad at hload
  cases htype : t.readTypebyte addr with
  | none =>
    rw [htype] at hload
    cases hload
  | some type =>
    refine ⟨type, rfl, ?_⟩
    rw [htype] at hload
    dsimp only at hload
    by_contra hnot
    rw [if_pos (by simpa using hnot)] at hload
    cases hload

/-- Something that is no oddball by its type. -/
theorem jsobjIsOddball_of_type {addr type : ℕ} (htype : t.readTypebyte addr = some type)
    (hname : t.cfg.enumLookupStr type ≠ some "Oddball") (name : String) :
    jsobjIsOddball t addr name = false := by
  unfold jsobjIsOddball
  rw [htype]
  dsimp only
  rw [if_pos (by simpa using hname)]

/-- **An oddball** is the one with its name. -/
theorem OddballAt.jsobjIsOddball_eq {addr : ℕ} {name : String} (h : OddballAt t addr name)
    (hlen : (bytesOf name).length < 16) (other : String) :
    jsobjIsOddball t addr other = (bytesOf name == bytesOf other) := by
  obtain ⟨type, htype, hname⟩ := h.type
  obtain ⟨strptr, hptr, hstring⟩ := h.string
  have hprint := hstring.jsstrLocal_eq (by decide : 8 ≤ 16) hlen (lt_two_pow_bits (by decide))
  unfold jsobjIsOddball
  rw [htype]
  dsimp only
  rw [if_neg (by simp [hname]), hptr]
  dsimp only
  rw [hprint]
  rfl

variable (hprops : t.cfg.V8Props b)

include hprops

/-- The key of an entry that is empty, or that has been deleted. -/
theorem dictKey_of_oddball {key : ℕ} {name : String} (h : OddballAt t key name)
    (hname : name = "undefined" ∨ name = "hole") : dictKey t key = .skip := by
  have hsmi : t.cfg.isSmi key = false := hprops.toV8Tags.isSmi_eq_false h.tagged
  unfold dictKey jsobjIsUndefined jsobjIsHole
  rcases hname with rfl | rfl
  · rw [h.jsobjIsOddball_eq (by decide), if_pos (by decide)]
  · rw [h.jsobjIsOddball_eq (by decide), if_neg (by decide), hsmi, if_neg Bool.false_ne_true,
      h.jsobjIsOddball_eq (by decide), if_pos (by decide)]

/-- The key of a property with a name. -/
theorem dictKey_of_name {key : ℕ} {s : List UInt8} (h : KeyAt t key (.name s)) :
    dictKey t key = .name s := by
  obtain ⟨hheap, hname, hlen⟩ := h
  obtain ⟨type, htype, hstring⟩ := hname.exists_type
  have hodd := jsobjIsOddball_of_type htype (hprops.string type hstring)
  unfold dictKey jsobjIsUndefined jsobjIsHole
  rw [hodd, if_neg Bool.false_ne_true, hprops.toV8Tags.isSmi_eq_false hheap, if_neg Bool.false_ne_true,
    hodd, if_neg Bool.false_ne_true, htype]
  dsimp only
  rw [hstring, hname.jsstrLocal_eq (by decide) hlen (lt_two_pow_bits (by decide))]
  rfl

/-- The key of a property with an index that is no small integer. -/
theorem dictKey_of_number {key n : ℕ} (h : KeyAt t key (.index n)) (hn : ¬ n < smiIndexes t.cfg) :
    dictKey t key = .fail := by
  rw [KeyAt, if_neg hn] at h
  obtain ⟨hheap, type, htype, hnumber⟩ := h
  obtain ⟨hstring, hname⟩ := hprops.number type hnumber
  have hodd := jsobjIsOddball_of_type htype hname
  unfold dictKey jsobjIsUndefined jsobjIsHole
  rw [hodd, if_neg Bool.false_ne_true, hprops.toV8Tags.isSmi_eq_false hheap, if_neg Bool.false_ne_true,
    hodd, if_neg Bool.false_ne_true, htype]
  dsimp only
  rw [hstring]
  rfl

/-- The key of a property with an index that is a small integer. -/
theorem dictKey_of_index {key n : ℕ} (h : KeyAt t key (.index n)) (hn : n < smiIndexes t.cfg) :
    dictKey t key = if jsobjIsUndefined t (t.cfg.smiWord n) then .skip else .name (fmtInt n) := by
  rw [KeyAt, if_pos hn] at h
  subst h
  have hint : t.cfg.IsSmiInt n := by
    unfold Config.IsSmiInt smiIndexes at *
    constructor
    · have hpos : (0 : ℤ) ≤ 2 ^ (t.cfg.smiBits - 1) := by positivity
      omega
    · exact_mod_cast hn
  have hvalue := smiValue_of_nonneg hprops.smis hint (Int.natCast_nonneg n)
  rw [dictKey_smiWord hprops.smis, hvalue]

/-! ### Dictionaries -/

omit hprops in
/-- A list that is gone through by its indexes. -/
theorem filterMap_range {α β : Type} {xs : List α} {f : ℕ → Option β} {g : α → Option β}
    (h : ∀ (k : ℕ) (x : α), xs[k]? = some x → f k = g x) :
    (List.range xs.length).filterMap f = xs.filterMap g := by
  induction xs using List.reverseRecOn with
  | nil => rfl
  | append_singleton xs x ih =>
    have hlast : f xs.length = g x := h xs.length x (by simp)
    rw [List.length_append, List.length_singleton, List.range_succ, List.filterMap_append,
      List.filterMap_append, ih fun k y hk => h k y ?_]
    · rw [List.filterMap_cons, hlast, List.filterMap_nil, List.filterMap_cons, List.filterMap_nil]
    · rw [List.getElem?_append_left (List.getElem?_eq_some_iff.mp hk).1, hk]

/-- The property of an entry, unless its key is not found. -/
def DictEntry.shown? (t : Target) (e : DictEntry) : Option NamedValue :=
  match e.index? with
  | some n => if jsobjIsUndefined t (t.cfg.smiWord n) then none
    else e.prop?.map fun p => (p.1, .addr p.2)
  | none => e.prop?.map fun p => (p.1, .addr p.2)

/-- What is made of an entry, if its index is not too large. -/
theorem dictProp_eq {dict : Target.HeapArray} {i : ℕ} {entry : DictEntry}
    (h : EntryAt t (dict.get i) (dict.get (i + 1)) entry)
    (hindex : ∀ n, entry.index? = some n → n < smiIndexes t.cfg) :
    dictKey t (dict.get i) ≠ .fail ∧ dictProp t dict i = entry.shown? t := by
  unfold dictProp
  cases entry with
  | empty =>
    rw [dictKey_of_oddball hprops h (.inl rfl)]
    exact ⟨nofun, rfl⟩
  | deleted =>
    rw [dictKey_of_oddball hprops h (.inr rfl)]
    exact ⟨nofun, rfl⟩
  | prop key value =>
    obtain ⟨hkey, rfl⟩ := h
    -- a name has no index, and an index may be too large for a smi
    cases key with
    | name s =>
      rw [dictKey_of_name hprops hkey]
      exact ⟨nofun, rfl⟩
    | index n =>
      rw [dictKey_of_index hprops hkey (hindex n rfl)]
      unfold DictEntry.shown? DictEntry.index?
      dsimp only
      split
      · exact ⟨nofun, rfl⟩
      · exact ⟨nofun, rfl⟩

/-- **A dictionary** is read as its entries, where no index is too large. -/
theorem DictAt.holds {addr : ℕ} {entries : List DictEntry} (h : DictAt t addr entries)
    (hindex : ∀ n ∈ entries.filterMap DictEntry.index?, n < smiIndexes t.cfg) :
    DictHolds t addr (entries.filterMap (DictEntry.shown? t)) := by
  obtain ⟨start, size, dict, hread, hstart, hsize, htwo, hlen, hfits, hentries⟩ := h
  have hentry (k : ℕ) (entry : DictEntry) (hk : entries[k]? = some entry) :=
    dictProp_eq hprops (hentries k entry hk) fun n hn =>
      hindex n (List.mem_filterMap.mpr ⟨entry, List.mem_of_getElem? hk, hn⟩)
  refine ⟨start, size, entries.length, dict, hread, hstart, hsize, htwo, hfits, fun k => ?_,
    fun k hk => ?_, ?_⟩
  · rw [hlen]
    constructor
    · intro hlt
      by_contra hge
      have hmul := Nat.mul_le_mul_right size (Nat.not_lt.mp hge)
      omega
    · intro hlt
      have hmul := Nat.mul_le_mul_right size (Nat.succ_le_of_lt hlt)
      rw [Nat.succ_mul] at hmul
      omega
  · exact (hentry k entries[k] (List.getElem?_eq_getElem hk)).1
  · exact (filterMap_range fun k entry hk => (hentry k entry hk).2).symm

omit hprops in
/-- An entry whose key cannot be read ends the loop. -/
theorem dictLoopEvents_fail {dict : Target.HeapArray} {start size n : ℕ}
    (hsize : t.cfg.dictEntrySize = (size : ℕ)) (hlen : dict.len = start + n * size)
    (hfits : dict.len + start + size < 2 ^ t.cfg.bits) (htwo : 2 ≤ size) {j : ℕ} (hj : j < n)
    (hfail : dictKey t (dict.get (start + j * size)) = .fail) {k fuel : ℕ} (hk : k ≤ j) :
    (dictLoopEvents t dict fuel (start + k * size)).ok = false := by
  induction fuel generalizing k with
  | zero => rfl
  | succ fuel ih =>
    have hin : (k + 1) * size ≤ n * size := Nat.mul_le_mul_right _ (by omega)
    have hstep : start + (k + 1) * size = start + k * size + size := by
      rw [Nat.succ_mul, Nat.add_assoc]
    rw [Nat.succ_mul] at hin
    rw [dictLoopEvents, t.cfg.add_of_natCast_lt Nat.cast_one.symm (by omega), if_pos (by omega),
      t.cfg.add_of_natCast_lt hsize (by omega), ← hstep]
    rcases Nat.eq_or_lt_of_le hk with rfl | hlt
    · rw [hfail]
    · have hrest := ih (k := k + 1) hlt
      cases dictKey t (dict.get (start + k * size)) with
      | skip => exact hrest
      | fail => rfl
      | name buf => exact hrest

/-- **An index that is too large** makes a dictionary fail. -/
theorem DictAt.fails {addr : ℕ} {entries : List DictEntry} (h : DictAt t addr entries) {n : ℕ}
    (hn : n ∈ entries.filterMap DictEntry.index?) (hlarge : ¬ n < smiIndexes t.cfg) :
    (dictEvents t addr).ok = false := by
  obtain ⟨start, size, dict, hread, hstart, hsize, htwo, hlen, hfits, hentries⟩ := h
  obtain ⟨entry, hentry, hindex⟩ := List.mem_filterMap.mp hn
  obtain ⟨j, hj, rfl⟩ := List.mem_iff_getElem.mp hentry
  have hat := hentries j entries[j] (List.getElem?_eq_getElem hj)
  -- an entry with such an index is the one that fails
  have hfail : dictKey t (dict.get (start + j * size)) = .fail := by
    cases hcase : entries[j] with
    | empty => rw [hcase] at hindex; cases hindex
    | deleted => rw [hcase] at hindex; cases hindex
    | prop key value =>
      rw [hcase] at hat hindex
      cases key with
      | name s => cases hindex
      | index m =>
        obtain rfl : m = n := Option.some.inj hindex
        exact dictKey_of_number hprops hat.1 hlarge
  have hstart' : t.cfg.wrap (t.cfg.dictStartIndex + t.cfg.dictPrefixSize) = start + 0 * size := by
    rw [hstart, Config.wrap_natCast t.cfg (by omega), Nat.zero_mul, Nat.add_zero]
  unfold dictEvents
  rw [hread]
  dsimp only
  -- the loop stops there, if it comes there
  rw [if_neg (by rw [hsize]; omega), hstart']
  exact dictLoopEvents_fail hsize hlen hfits htwo hj hfail (Nat.zero_le j)

/-! ### Elements -/

/-- The property of an element of an array with holes, unless it is taken for one. -/
def shownElt (t : Target) (e : Option ℕ × ℕ) : Option NamedValue :=
  e.1.bind fun w => if jsobjIsHole t w then none else some (fmtInt e.2, .addr w)

/-- The numeric properties that are found. -/
def Elements.shown (t : Target) : Elements → List NamedValue
  | fast elts => elts.zipIdx.map fun e => (fmtInt e.2, .addr e.1)
  | holey elts => elts.zipIdx.filterMap (shownElt t)
  | dict entries => entries.filterMap (DictEntry.shown? t)

omit hprops in
/-- An array without holes. -/
theorem elementProps_fast (elts : List ℕ) :
    elementProps t false elts 0 = (Elements.fast elts).shown t := by
  unfold elementProps Elements.shown
  simp only [Bool.false_and, Bool.false_eq_true, if_false]
  exact congrFun List.filterMap_eq_map' elts.zipIdx

omit hprops in
/-- An array with holes, from an index on. -/
theorem elementProps_holey {ws : List ℕ} {elts : List (Option ℕ)} (h : List.Forall₂ (EltAt t) ws elts)
    (ii : ℕ) : elementProps t true ws ii = (elts.zipIdx ii).filterMap (shownElt t) := by
  induction h generalizing ii with
  | nil => rfl
  | @cons w elt ws elts hw _ ih =>
    have hrest := ih (ii + 1)
    unfold elementProps at hrest ⊢
    rw [List.zipIdx_cons, List.zipIdx_cons, List.filterMap_cons, List.filterMap_cons, hrest]
    cases elt with
    | none =>
      have hhole : jsobjIsHole t w = true := by
        unfold jsobjIsHole
        rw [OddballAt.jsobjIsOddball_eq hw (by decide)]
        decide
      rw [hhole]
      rfl
    | some elt =>
      obtain rfl : w = elt := hw
      simp only [Bool.true_and, shownElt, Option.bind_some]

/-- **The elements** are held, where no index is too large. -/
theorem ElementsAt.holds {addr map : ℕ} {elements : Elements} (h : ElementsAt t addr map elements)
    (hindex : ∀ n ∈ elements.entries.filterMap DictEntry.index?, n < smiIndexes t.cfg) :
    ∃ dict, ElementsHold t addr map dict (elements.shown t) := by
  obtain ⟨ptr, arr, bitField2, hptr, harr, hlen, hbyte, hkind⟩ := h
  cases elements with
  | fast elts =>
    obtain ⟨hkind, rfl⟩ := hkind
    have hnot : ((elementsKind t.cfg bitField2 : ℤ) == t.cfg.elementsFastHoleyElements) = false := by
      rw [hkind]
      simpa using hprops.holey.symm
    refine ⟨false, ptr, arr, hptr, harr, ?_⟩
    -- an empty array is left out before its kind is looked at
    by_cases h0 : arr.len = 0
    · have hnil : arr.elts = [] := List.eq_nil_of_length_eq_zero (hlen ▸ h0)
      exact .inl ⟨h0, by rw [hnil]; rfl⟩
    · refine .inr ⟨h0, bitField2, hbyte, .inl hkind, ?_⟩
      rw [hnot, elementProps_fast]
  | holey elts =>
    obtain ⟨hkind, helts⟩ := hkind
    -- the kind says that there may be holes
    have hyes : ((elementsKind t.cfg bitField2 : ℤ) == t.cfg.elementsFastHoleyElements) = true := by
      rw [hkind]
      exact beq_self_eq_true _
    refine ⟨false, ptr, arr, hptr, harr, ?_⟩
    by_cases h0 : arr.len = 0
    · have hnil : arr.elts = [] := List.eq_nil_of_length_eq_zero (hlen ▸ h0)
      rw [hnil] at helts
      cases helts
      exact .inl ⟨h0, rfl⟩
    · refine .inr ⟨h0, bitField2, hbyte, .inr hkind, ?_⟩
      rw [hyes, elementProps_holey helts]
      rfl
  | dict entries =>
    obtain ⟨hkind, hdict⟩ := hkind
    -- the entries are those of a dictionary
    have hholds := hdict.holds hprops hindex
    refine ⟨true, ptr, arr, hptr, harr, ?_⟩
    by_cases h0 : arr.len = 0
    · obtain ⟨start, size, dict, hread, -, -, htwo, hlen', -⟩ := hdict
      obtain rfl : arr = dict := Option.some.inj (harr.symm.trans hread)
      have hnil : entries = [] := by
        cases entries with
        | nil => rfl
        | cons entry entries =>
          rw [List.length_cons, Nat.succ_mul] at hlen'
          omega
      rw [hnil]
      exact .inl ⟨h0, rfl⟩
    · refine .inr ⟨h0, bitField2, hbyte, ?_, hkind, hholds⟩
      rw [hkind]
      exact not_or.mpr hprops.dictKind

/-- **An index that is too large** makes the elements fail. -/
theorem ElementsAt.fails {addr map type : ℕ} {elements : Elements}
    (h : ElementsAt t addr map elements) (htype : Target.isType type t.cfg.typeJstypedarray = false) {n : ℕ}
    (hn : n ∈ elements.entries.filterMap DictEntry.index?) (hlarge : ¬ n < smiIndexes t.cfg) :
    (elementEvents t addr map type).ok = false := by
  obtain ⟨ptr, arr, bitField2, hptr, harr, hlen, hbyte, hkind⟩ := h
  cases elements with
  | fast elts => cases hn
  | holey elts => cases hn
  | dict entries =>
    obtain ⟨hkind, hdict⟩ := hkind
    have hfails := hdict.fails hprops hn hlarge
    -- there is an entry, so that the array is not empty
    have h0 : arr.len ≠ 0 := by
      obtain ⟨start, size, dict, hread, -, -, htwo, hlen', -⟩ := hdict
      obtain rfl : arr = dict := Option.some.inj (harr.symm.trans hread)
      obtain ⟨entry, hentry, -⟩ := List.mem_filterMap.mp hn
      have hpos := Nat.mul_pos (List.length_pos_of_mem hentry) (Nat.zero_lt_of_lt htwo)
      change 0 < entries.length * size at hpos
      omega
    -- the object is no typed array, and it has a dictionary
    have hnot : ¬ (t.cfg.elementsKindShift = -1 ∨ Target.isType type t.cfg.typeJstypedarray = true) := by
      rw [htype]
      exact not_or.mpr ⟨hprops.hasKind, Bool.false_ne_true⟩
    unfold elementEvents
    dsimp only
    rw [if_neg hnot, hptr]
    dsimp only
    rw [harr]
    dsimp only
    rw [if_neg h0, hbyte]
    dsimp only
    rw [if_neg (by rw [hkind]; exact not_or.mpr hprops.dictKind), if_pos hkind]
    exact hfails

/-! ### Descriptors -/

/-- The type of a descriptor. -/
theorem descIsfield_iff {key value details : ℕ} {desc : Descriptor} (h : DescAt t b key value details desc) :
    descIsfield t.cfg details = true ↔ desc ≠ .other := by
  have hmask : t.cfg.wrap t.cfg.propTypeMask = 2 ^ b.typeBits - 1 := by
    have hle : 2 ^ b.typeBits ≤ 2 ^ 31 :=
      Nat.pow_le_pow_right (by decide) (Nat.le_of_lt_succ hprops.type_fits)
    rw [hprops.typeMask, t.cfg.wrap_small (by omega)]
  have hfield : t.cfg.wrap t.cfg.propTypeField = b.field := by
    have hle : 2 ^ b.typeBits ≤ 2 ^ 31 :=
      Nat.pow_le_pow_right (by decide) (Nat.le_of_lt_succ hprops.type_fits)
    have hlt := hprops.field_lt
    rw [hprops.typeField, t.cfg.wrap_small (by omega)]
  rw [← h.isfield]
  unfold descIsfield Config.tagged
  rw [hmask, hfield, beq_iff_eq, Nat.and_two_pow_sub_one_eq_mod]

/-- The slot in the details. -/
theorem propFieldindex_eq (details : ℕ) :
    propFieldindex t.cfg details = t.cfg.smiValue details / 2 ^ b.shift % 2 ^ b.width := by
  have hmask : t.cfg.wrap t.cfg.propindexMask = (2 ^ b.width - 1) <<< b.shift := by
    have hpow : 2 ^ b.width * 2 ^ b.shift ≤ 2 ^ 31 := by
      rw [← Nat.pow_add]
      have hfits := hprops.index_fits
      exact Nat.pow_le_pow_right (by decide) (by omega)
    have hle : (2 ^ b.width - 1) * 2 ^ b.shift ≤ 2 ^ b.width * 2 ^ b.shift :=
      Nat.mul_le_mul_right _ (Nat.sub_le _ _)
    rw [hprops.indexMask, t.cfg.wrap_small (by omega), Nat.shiftLeft_eq]
  unfold propFieldindex
  rw [hmask, hprops.indexShift, Int.toNat_natCast, Nat.shiftRight_and_distrib, Nat.shiftLeft_shiftRight,
    Nat.and_two_pow_sub_one_eq_mod, Nat.shiftRight_eq_div_pow]

omit hprops in
/-- The integer of the word of a slot. -/
theorem smiValueSigned_smiWord (h : t.cfg.V8Smis) {slot : ℕ} (hslot : slot < smiIndexes t.cfg) :
    t.cfg.smiValueSigned (t.cfg.smiWord slot) = slot := by
  unfold smiIndexes at hslot
  unfold Config.smiValueSigned Config.smiWord Config.wrap Config.toSigned
  rw [Int.shiftRight_eq_div_pow]
  rcases h.cases with ⟨hbits, hshift, hsmi⟩ | ⟨hbits, hshift, hsmi⟩
  · rw [hsmi] at hslot
    rw [hbits, hshift]
    split <;> omega
  · rw [hsmi] at hslot
    rw [hbits, hshift]
    split <;> omega

/-- **Where a slot is**: its number is in the details, or it is the value. -/
theorem propPlace_eq {d : JsobjDescs} {key value details : ℕ} {name : List UInt8} {slot : ℕ}
    (h : DescAt t b key value details (.field name slot)) :
    ∃ place, propPlace t.cfg d details value = some place ∧
      if slot < d.ninprops then place.propaddr = inobjectSlot t.cfg d.addr d.size d.ninprops slot
      else place.propaddr = 0 ∧ place.proparrayidx = ((slot - d.ninprops : ℕ) : ℤ) := by
  have hslot := h.slot name slot rfl
  by_cases hdetails : fieldindexInDetails t.cfg = true
  · rw [if_pos hdetails] at hslot
    -- the number fits the bits that it has been put into
    have hidx : t.cfg.toSigned (propFieldindex t.cfg details) = slot := by
      have hle : 2 ^ b.width ≤ 2 ^ 31 := by
        have hfits := hprops.index_fits
        exact Nat.pow_le_pow_right (by decide) (by omega)
      have hlt : slot < 2 ^ b.width := hslot ▸ Nat.mod_lt _ (Nat.two_pow_pos _)
      rw [propFieldindex_eq hprops, hslot, Config.toSigned, if_pos]
      rcases t.cfg.model.ptrSize_cases with ⟨-, -, hbits⟩ | ⟨-, -, hbits⟩
      · rw [Config.bits, hbits]
        omega
      · rw [Config.bits, hbits]
        omega
    unfold propPlace
    rw [if_pos hdetails, hidx]
    dsimp only
    -- the slot is in the object, or in the array behind it
    by_cases hin : slot < d.ninprops
    · rw [if_pos (by exact_mod_cast hin)]
      refine ⟨_, rfl, ?_⟩
      rw [if_pos hin]
      rfl
    · rw [if_neg (by exact_mod_cast hin)]
      refine ⟨_, rfl, ?_⟩
      rw [if_neg hin]
      dsimp only
      omega
  · rw [if_neg hdetails] at hslot
    obtain ⟨hlt, rfl⟩ := hslot
    unfold propPlace
    rw [if_neg hdetails, isSmi_smiWord hprops.smis, smiValueSigned_smiWord hprops.smis hlt]
    simp only [Bool.not_true, Bool.false_eq_true, if_false]
    -- and so for a slot that is the value
    by_cases hin : slot < d.ninprops
    · rw [if_pos (by omega)]
      refine ⟨_, rfl, ?_⟩
      rw [if_pos hin]
      unfold inobjectSlot
      dsimp only
      congr 3
      ring
    · rw [if_neg (by omega)]
      refine ⟨_, rfl, ?_⟩
      rw [if_neg hin]
      dsimp only
      omega

omit hprops in
/-- The address of a slot in the object. -/
theorem inobjectSlot_eq {c : Config} (htag : c.heapObjectTag = 1) {addr size n slot : ℕ} (hslot : slot < n)
    (haddr : 0 < addr) (hsize : (n + 1) * c.ptrSize ≤ size) (hfits : addr + size ≤ 2 ^ c.bits) :
    inobjectSlot c addr size n slot = addr - 1 + size - (n - slot) * c.ptrSize ∧
      inobjectSlot c addr size n slot ≠ 0 := by
  have hpos : 0 < c.ptrSize := c.model.ptrSize_pos
  have hle : (n - slot) * c.ptrSize ≤ n * c.ptrSize := Nat.mul_le_mul_right _ (Nat.sub_le _ _)
  rw [Nat.succ_mul] at hsize
  have hcast : ((n : ℤ) - slot) * c.ptrSize = (((n - slot) * c.ptrSize : ℕ) : ℤ) := by
    push_cast [Nat.cast_sub hslot.le]
    rfl
  have heq : (addr : ℤ) + c.offHeap (size - ((n : ℤ) - slot) * c.ptrSize) =
      ((addr - 1 + size - (n - slot) * c.ptrSize : ℕ) : ℤ) := by
    unfold Config.offHeap
    rw [htag, hcast]
    omega
  have hword : inobjectSlot c addr size n slot = addr - 1 + size - (n - slot) * c.ptrSize := by
    unfold inobjectSlot
    rw [heq, Config.wrap_natCast c (by omega)]
  exact ⟨hword, by omega⟩

/-- What has been read before the descriptors are gone through. -/
structure SlotsRead (t : Target) (d : JsobjDescs) (inobject properties : List ℕ) : Prop where
  props : d.props = ⟨properties.length, properties⟩
  ninprops : d.ninprops = inobject.length
  slots : ∀ slot w, inobject[slot]? = some w →
    inobjectSlot t.cfg d.addr d.size d.ninprops slot ≠ 0 ∧
      t.readPtr (inobjectSlot t.cfg d.addr d.size d.ninprops slot) = some w
  tagged : ∀ idx, jsobjLayoutUntagged t.cfg d.layout idx = false

/-- The property that is delivered. -/
def delivered (p : List UInt8 × ℕ) : NamedValue := (p.1, .addr p.2)

/-- **One descriptor.** -/
theorem descProp_eq {d : JsobjDescs} {inobject properties : List ℕ} (hd : SlotsRead t d inobject properties)
    {ii keyidx validx detidx : ℕ} (hidx : descIdx t.cfg ii = (keyidx, validx, detidx))
    (hkey : keyidx < d.descs.len) (hdet : detidx < d.content.len) {desc : Descriptor}
    (h : DescAt t b (d.descs.get keyidx) (d.content.get validx) (d.content.get detidx) desc)
    (hslot : ∀ name slot, desc = .field name slot → slot < inobject.length + properties.length) :
    jsobjDesc t d ii ≠ .bad ∧
      descProp t d ii = (desc.prop? (inobject ++ properties)).map delivered := by
  have hfield := descIsfield_iff hprops h
  unfold descProp jsobjDesc
  rw [hidx]
  dsimp only
  rw [if_neg (Nat.not_le.mpr hdet)]
  cases desc with
  | other =>
    have hnot : descIsfield t.cfg (d.content.get detidx) = false := by
      rw [Bool.eq_false_iff]
      exact fun hyes => hfield.mp hyes rfl
    rw [hnot]
    exact ⟨nofun, rfl⟩
  | field name slot =>
    obtain ⟨hname, hlen⟩ := h.name name slot rfl
    obtain ⟨place, hplace, hwhere⟩ := propPlace_eq hprops (d := d) h
    have hprint := hname.jsstrLocal_eq (by decide) hlen (lt_two_pow_bits (by decide))
    have hlt := hslot name slot rfl
    rw [hfield.mpr nofun]
    simp only [Bool.not_true, Bool.false_eq_true, if_false, if_neg (Nat.not_le.mpr hkey), hprint, ne_eq,
      not_true_eq_false, hplace]
    rw [hd.ninprops] at hwhere
    by_cases hin : slot < inobject.length
    · -- in the object
      rw [if_pos hin] at hwhere
      obtain ⟨hne, hread⟩ := hd.slots slot inobject[slot] (List.getElem?_eq_getElem hin)
      rw [hd.ninprops] at hne hread
      have hprop : Descriptor.prop? (inobject ++ properties) (.field name slot) =
          some (name, inobject[slot]) := by
        rw [Descriptor.prop?, List.getElem?_append_left hin, List.getElem?_eq_getElem hin]
        rfl
      rw [hwhere]
      simp only [hne, not_false_eq_true, if_true, hread, propOut, hd.tagged, Bool.false_eq_true, if_false,
        hprop]
      exact ⟨nofun, rfl⟩
    · -- in the array
      rw [if_neg hin] at hwhere
      obtain ⟨hzero, hidx'⟩ := hwhere
      have hlt' : slot - inobject.length < properties.length := by omega
      have hprop : Descriptor.prop? (inobject ++ properties) (.field name slot) =
          some (name, properties[slot - inobject.length]) := by
        rw [Descriptor.prop?, List.getElem?_append_right (Nat.not_lt.mp hin), List.getElem?_eq_getElem hlt']
        rfl
      have hbounds : 0 ≤ place.proparrayidx ∧ place.proparrayidx < (d.props.len : ℤ) := by
        rw [hidx', hd.props]
        exact ⟨Int.natCast_nonneg _, by exact_mod_cast hlt'⟩
      have hget : d.props.get place.proparrayidx.toNat = properties[slot - inobject.length] := by
        rw [hidx', hd.props, Int.toNat_natCast]
        exact List.getD_eq_getElem _ _ hlt'
      rw [hzero]
      simp only [not_true_eq_false, if_false, if_pos hbounds, hget, propOut, hd.tagged, Bool.false_eq_true,
        hprop]
      exact ⟨nofun, rfl⟩

/-- The arrays that the descriptors are in, and where each of them is. -/
theorem DescsAt.content {descs : Target.HeapArray} {ds : List Descriptor} {descsAddr : ℕ}
    (h : DescsAt t b descs ds) (hread : t.readHeapArray descsAddr = some descs) :
    ∃ content flags, descsContent t descs = some (content, (ds.length : ℤ), flags) ∧
      ∀ ii desc, ds[ii]? = some desc → ∃ keyidx validx detidx,
        descIdx t.cfg ii = (keyidx, validx, detidx) ∧ keyidx < descs.len ∧ detidx < content.len ∧
          DescAt t b (descs.get keyidx) (content.get validx) (content.get detidx) desc := by
  have hlt := t.readHeapArray_len_lt_two_pow hread
  cases h with
  | @joint first size k v d hcontent hfirst hsize hk hv hd hin hlen hdescs =>
    -- the descriptors are in one array, in groups of `size` words
    refine ⟨descs, 0, ?_, fun ii desc hdesc => ?_⟩
    · unfold descsContent
      dsimp only
      rw [if_pos hcontent, hfirst, hsize, Config.wrap_natCast t.cfg (by omega)]
      by_cases hnil : ds.length = 0
      · rw [if_neg (by rw [hlen, hnil, Nat.zero_mul]; omega), hnil]
        rfl
      · have hpos : 0 < ds.length * size := Nat.mul_pos (Nat.pos_of_ne_zero hnil) (by omega)
        have hle : size ≤ ds.length * size := Nat.le_mul_of_pos_left _ (Nat.pos_of_ne_zero hnil)
        rw [if_pos (by omega), Config.wrap_natCast t.cfg (by omega), hlen, Nat.add_sub_cancel_left,
          Nat.mul_div_cancel _ (by omega)]
    · obtain ⟨hii, -⟩ := List.getElem?_eq_some_iff.mp hdesc
      -- each group is inside of the array
      have hgroup : (ii + 1) * size ≤ ds.length * size := Nat.mul_le_mul_right _ hii
      rw [Nat.succ_mul] at hgroup
      have hword (x : ℕ) (hx : x < size) :
          t.cfg.wrap ((first : ℤ) + ii * (size : ℕ) + (x : ℕ)) = first + ii * size + x := by
        have hcast : (first : ℤ) + ii * (size : ℕ) + (x : ℕ) = ((first + ii * size + x : ℕ) : ℤ) := by
          push_cast
          rfl
        rw [hcast, Config.wrap_natCast t.cfg (by omega)]
      refine ⟨first + ii * size + k, first + ii * size + v, first + ii * size + d, ?_, by omega, by omega,
        hdescs ii desc hdesc⟩
      unfold descIdx
      rw [if_neg (not_not.mpr hcontent), hfirst, hsize, hk, hv, hd]
      dsimp only
      rw [hword k hin.1, hword v hin.2.1, hword d hin.2.2]
  | @separate first idx content hcontent hfirst hidx hread' hlen hlen' hdescs =>
    -- the values and the details are in an array of their own
    have hsep : t.cfg.propIdxContent ≠ -1 := by
      rw [hcontent]
      exact (by omega : ((idx : ℕ) : ℤ) ≠ -1)
    refine ⟨content, jpiHascontent, ?_, fun ii desc hdesc => ?_⟩
    · have hlength : t.cfg.toSigned (t.cfg.wrap ((descs.len : ℤ) - (first : ℕ))) = ds.length := by
        -- the length of an array is a small integer
        obtain ⟨w, hw, hsmi⟩ := t.readHeapArray_smi hread
        have hsmall : descs.len < 2 ^ (t.cfg.bits - 1) := by
          rw [hsmi, Config.smiValue, Nat.shiftRight_eq_div_pow]
          rcases hprops.smis.cases with ⟨hbits, hshift, -⟩ | ⟨hbits, hshift, -⟩
          · rw [hbits] at hw ⊢
            rw [hshift]
            omega
          · rw [hbits] at hw ⊢
            rw [hshift]
            omega
        have hcast : (descs.len : ℤ) - (first : ℕ) = (ds.length : ℕ) := by omega
        rw [hcast, Config.wrap_natCast t.cfg (by omega), Config.toSigned, if_pos (by omega)]
      unfold descsContent
      dsimp only
      rw [if_neg hsep, hfirst, hlength, hcontent, Config.wrap_natCast t.cfg (by omega), if_pos hidx,
        Int.toNat_natCast, hread']
      rfl
    · obtain ⟨hii, -⟩ := List.getElem?_eq_some_iff.mp hdesc
      have hcast : (ii : ℤ) + (first : ℕ) = ((first + ii : ℕ) : ℤ) := by
        push_cast
        ring
      have hshift : ii <<< 1 = 2 * ii := by rw [Nat.shiftLeft_eq, pow_one, Nat.mul_comm]
      refine ⟨first + ii, 2 * ii, 2 * ii + 1, ?_, by omega, by omega, hdescs ii desc hdesc⟩
      unfold descIdx
      rw [if_pos hsep, hfirst, hcast, Config.wrap_natCast t.cfg (by omega), hshift]

omit hprops in
/-- The address of the descriptors. -/
theorem DescsAddr.descsPtr {map ptr : ℕ} (h : DescsAddr t map ptr) :
    ∃ flags, descsPtr t map = some (ptr, flags) := by
  unfold MdbV8.descsPtr
  dsimp only
  cases h with
  | direct hoff hptr => exact ⟨0, by rw [if_neg hoff, hptr]; rfl⟩
  | @transitions trans arr idx hoff htrans hidx hcontent hread harr hget =>
    have hnot : ¬ (t.cfg.offMapTransitions = -1 ∨ t.cfg.transitionsIdxDesc = -1 ∨
        t.cfg.propIdxContent ≠ -1) := by
      rw [hidx]
      exact not_or.mpr ⟨htrans, not_or.mpr ⟨by omega, not_not.mpr hcontent⟩⟩
    refine ⟨jpiHastransitions, ?_⟩
    rw [if_pos hoff, if_neg hnot, hread]
    dsimp only
    rw [harr, hidx, Int.toNat_natCast, Option.map_some, Target.HeapArray.get,
      List.getD_eq_getElem?_getD, hget]
    rfl

/-- The properties that are found, of those that are not numeric. -/
def NamedProps.shown (t : Target) : NamedProps → List NamedValue
  | dict entries => entries.filterMap (DictEntry.shown? t)
  | fast descs inobject properties => (fast descs inobject properties).props.map delivered

/-- **The other properties** are held, where no index is too large. -/
theorem NamedAt.holds {addr map ptr : ℕ} {named : NamedProps} (h : NamedAt t b addr map ptr named)
    (hheap : t.cfg.isHeapobject addr = true)
    (hindex : ∀ n ∈ named.entries.filterMap DictEntry.index?, n < smiIndexes t.cfg) :
    ∃ dict, NamedHold t addr map ptr dict (named.shown t) := by
  cases named with
  | dict entries =>
    obtain ⟨hmode, hdict⟩ := h
    exact ⟨true, hmode, hdict.holds hprops hindex⟩
  | fast ds inobject properties =>
    obtain ⟨hmode, hread, hinobject, htagged, ⟨descsAddr, descs, haddr, hdescs, hds⟩, hslots⟩ := h
    obtain ⟨size, hsize, hbehind, hfits, hwords⟩ := hinobject.size
    obtain ⟨layout, hlayout, hnone⟩ := htagged
    obtain ⟨flags, hptr⟩ := haddr.descsPtr
    obtain ⟨content, flags', hcontent, heach⟩ := hds.content hprops hdescs
    let d : JsobjDescs :=
      ⟨addr, ⟨properties.length, properties⟩, descs, content, size, inobject.length, ds.length, layout⟩
    -- the descriptors are those that the Map refers to
    have hd : jsobjDescs t addr map ptr = some (d, flags ||| flags') := by
      unfold jsobjDescs
      rw [hread]
      dsimp only
      rw [hptr]
      dsimp only
      rw [hdescs]
      dsimp only
      rw [hinobject.count]
      dsimp only
      rw [hcontent, hsize, hlayout]
      rfl
    have hpos : 0 < addr := by
      have hmod := hprops.toV8Tags.isHeapobject_iff.mp hheap
      omega
    -- the slots are read as they have been laid out
    have hslotsRead : SlotsRead t d inobject properties := by
      refine ⟨rfl, rfl, fun slot w hw => ?_, fun idx => ?_⟩
      · obtain ⟨hlt, -⟩ := List.getElem?_eq_some_iff.mp hw
        obtain ⟨heq, hne⟩ := inobjectSlot_eq hprops.heapTag hlt hpos hbehind hfits
        refine ⟨hne, ?_⟩
        change t.readPtr (inobjectSlot t.cfg addr size inobject.length slot) = some w
        rw [heq]
        exact hwords slot w hw
      · unfold jsobjLayoutUntagged
        rcases hnone with h | h
        · rw [if_pos (by rw [show d.layout = layout from rfl, h]; rfl)]
        · rw [if_pos (by rw [show d.layout = layout from rfl, h, Bool.or_true])]
    -- each descriptor makes the property that it stands for
    have hprop (ii : ℕ) (desc : Descriptor) (hii : ds[ii]? = some desc) : jsobjDesc t d ii ≠ .bad ∧
        descProp t d ii = (desc.prop? (inobject ++ properties)).map delivered := by
      obtain ⟨keyidx, validx, detidx, hidx, hkey, hdet, hdesc⟩ := heach ii desc hii
      exact descProp_eq hprops hslotsRead hidx hkey hdet hdesc fun name slot heq =>
        hslots name slot (heq ▸ List.mem_of_getElem? hii)
    refine ⟨false, hmode, d, flags ||| flags', hd, fun ii hii => ?_, ?_⟩
    · exact (hprop ii ds[ii] (List.getElem?_eq_getElem hii)).1
    · change _ = (List.range ds.length).filterMap _
      rw [filterMap_range fun ii desc hii => (hprop ii desc hii).2]
      exact List.map_filterMap

/-- **An index that is too large** makes the other properties fail. -/
theorem NamedAt.fails {addr map ptr : ℕ} {named : NamedProps} (h : NamedAt t b addr map ptr named) {n : ℕ}
    (hn : n ∈ named.entries.filterMap DictEntry.index?) (hlarge : ¬ n < smiIndexes t.cfg) :
    (namedEvents t addr map ptr).ok = false := by
  cases named with
  | fast descs inobject properties => cases hn
  | dict entries =>
    obtain ⟨hmode, hdict⟩ := h
    unfold namedEvents
    rw [hmode]
    exact hdict.fails hprops hn hlarge

end Decoded

end MdbV8
