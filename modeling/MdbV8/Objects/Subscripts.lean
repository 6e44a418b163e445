import MdbV8.Objects.Events

/-!
# The subscripts of arrays

`jsobj_properties` and `read_heap_dict` read arrays from the target, of lengths that are what the memory
says, and apply subscripts to them that are computed from the constants of the layout and from what is in
the arrays. Most of them are compared with a length first. This module has the two functions once more,
with every subscript that is applied checked against the length that has been read for the array: there is
no result where one is not below it.

Three subscripts are not compared. The one of the transitions array is a constant, and the array may be
shorter. The one of the value of a descriptor is only as good as the one of its details, which is
compared. And where the constant for the array of contents is not below the number of descriptors, no
array has been read, and its length has never been assigned. `subscriptsFit_iff` says that it is these,
and an index into a dictionary that has come to the last value of its type.
-/

namespace MdbV8

/-- A subscript that is applied to an array, if it is below the length of the array. -/
def Target.HeapArray.sub (a : Target.HeapArray) (i : ℕ) : Option ℕ :=
  if i < a.len then some (a.get i) else none

theorem Target.HeapArray.sub_of_lt {a : Target.HeapArray} {i : ℕ} (h : i < a.len) :
    a.sub i = some (a.get i) := if_pos h

theorem Target.HeapArray.sub_of_le {a : Target.HeapArray} {i : ℕ} (h : a.len ≤ i) :
    a.sub i = none := if_neg (Nat.not_lt.mpr h)

/-- The callback that does nothing. -/
def jsobjNoop : PropFunc Unit := fun _ _ _ => (0, ())

/-! ### With checked subscripts -/

namespace Checked

variable (t : Target) {σ : Type*} (func : PropFunc σ)

/-- The loop of `read_heap_dict`. -/
def readHeapDictLoop (dict : Target.HeapArray) : ℕ → ℕ → σ → ℕ → Option (ℤ × σ × ℕ)
  | 0, _, s, propinfo => some (-1, s, propinfo)
  | fuel + 1, i, s, propinfo =>
    if t.cfg.add i 1 < dict.len then
      let next := t.cfg.add i t.cfg.dictEntrySize
      match dict.sub i with
      | none => none
      | some key =>
        match dictKey t key with
        | .skip => readHeapDictLoop dict fuel next s propinfo
        | .fail => some (-1, s, propinfo)
        | .name buf =>
          match dict.sub (i + 1) with
          | none => none
          | some value =>
            let propinfo := propinfo ||| garbageInfo t value
            let (rv, s) := func buf (some (.addr value)) s
            if rv = -1 then some (-1, s, propinfo)
            else readHeapDictLoop dict fuel next s propinfo
    else some (0, s, propinfo)

/-- `read_heap_dict`. -/
def readHeapDict (addr : ℕ) (s : σ) (propinfo : ℕ) : Option (ℤ × σ × ℕ) :=
  match t.readHeapArray addr with
  | none => some (-1, s, propinfo)
  | some dict =>
    if t.cfg.dictEntrySize < 2 then some (-1, s, propinfo)
    else
      readHeapDictLoop t func dict (dict.len + 1)
        (t.cfg.wrap (t.cfg.dictStartIndex + t.cfg.dictPrefixSize)) s propinfo

/-- The loop over an array of elements, for `n` of them from the index `ii` on. -/
def jsobjFastElements (holey : Bool) (elts : Target.HeapArray) :
    ℕ → ℕ → σ → ℕ → Option (Bool × σ × ℕ)
  | 0, _, s, propinfo => some (true, s, propinfo)
  | n + 1, ii, s, propinfo =>
    match elts.sub ii with
    | none => none
    | some elt =>
      if holey && jsobjIsHole t elt then jsobjFastElements holey elts n (ii + 1) s propinfo
      else
        let propinfo := propinfo ||| garbageInfo t elt
        let (rv, s) := func (fmtInt ii) (some (.addr elt)) s
        if rv ≠ 0 then some (false, s, propinfo)
        else jsobjFastElements holey elts n (ii + 1) s propinfo

/-- The properties with numeric names. -/
def jsobjElements (addr map type : ℕ) (s : σ) : Option (Bool × σ × ℕ) :=
  let c := t.cfg
  if c.elementsKindShift = -1 ∨ Target.isType type c.typeJstypedarray then some (true, s, 0)
  else
    match t.readHeapPtr addr c.offJsobjectElements with
    | none => some (true, s, 0)
    | some elements =>
      match t.readHeapArray elements with
      | none => some (true, s, 0)
      | some elts =>
        if elts.len = 0 then some (true, s, 0)
        else
          match t.readByte (c.add map c.offMapBitField2) with
          | none => some (false, s, 0)
          | some bitField2 =>
            let kind := elementsKind c bitField2
            if kind = c.elementsFastElements ∨ kind = c.elementsFastHoleyElements then
              jsobjFastElements t func (kind == c.elementsFastHoleyElements) elts elts.len 0 s
                jpiNumeric
            else if kind = c.elementsDictionaryElements then
              (readHeapDict t func elements s (jpiNumeric ||| jpiDict)).map okOf
            else some (true, s, jpiNumeric)

/-- The address of the descriptors array, and a flag. -/
def descsPtr (map : ℕ) : Option (Option (ℕ × ℕ)) :=
  let c := t.cfg
  if c.offMapInstanceDescriptors = -1 then
    if c.offMapTransitions = -1 ∨ c.transitionsIdxDesc = -1 ∨ c.propIdxContent ≠ -1 then some none
    else
      match t.readPtr (c.add map c.offMapTransitions) with
      | none => some none
      | some ptr =>
        match t.readHeapArray ptr with
        | none => some none
        | some transitions =>
          (transitions.sub c.transitionsIdxDesc.toNat).map fun ptr => some (ptr, jpiHastransitions)
  else some ((t.readPtr (c.add map c.offMapInstanceDescriptors)).map fun ptr => (ptr, 0))

/-- The array of contents. Where it is not read, its length is none. -/
def descsContent (descs : Target.HeapArray) : Option (Option (Target.HeapArray × ℤ × ℕ)) :=
  let c := t.cfg
  if c.propIdxContent = -1 then
    some (some (descs,
      if descs.len > c.wrap c.propIdxFirst then
        (((descs.len - c.wrap c.propIdxFirst) / c.wrap c.propDescSize : ℕ) : ℤ)
      else 0, 0))
  else
    let rndescs := c.toSigned (c.wrap (descs.len - c.propIdxFirst))
    if c.wrap c.propIdxContent < descs.len then
      (descs.sub c.propIdxContent.toNat).map fun ptr =>
        (t.readHeapArray ptr).map fun content => (content, rndescs, jpiHascontent)
    else some (some (⟨0, []⟩, rndescs, jpiHascontent))

/-- Reading all that is needed to process the descriptors. -/
def jsobjDescs (addr map ptr : ℕ) : Option (Option (JsobjDescs × ℕ)) :=
  match t.readHeapArray ptr with
  | none => some none
  | some props =>
    match descsPtr t map with
    | none => none
    | some none => some none
    | some (some (descsAddr, transitionsInfo)) =>
      match t.readHeapArray descsAddr with
      | none => some none
      | some descs =>
        let size := (t.readSize addr).getD 0
        match t.readByte (t.cfg.add map t.cfg.offMapInobjectProperties) with
        | none => some none
        | some ninprops =>
          match descsContent t descs with
          | none => none
          | some none => some none
          | some (some (content, rndescs, contentInfo)) =>
            some ((jsobjLayoutLoad t map).map fun layout =>
              ({ addr, props, descs, content, size, ninprops, rndescs, layout },
                transitionsInfo ||| contentInfo))

/-- The body of the loop over the descriptors. `ncontent` is what the index of the details is compared
with. The value of a descriptor is only read before V8 3.26. -/
def jsobjDesc (d : JsobjDescs) (ncontent ii : ℕ) : Option DescOut :=
  let (keyidx, validx, detidx) := descIdx t.cfg ii
  if detidx ≥ ncontent then some (.skip jpiSkipped)
  else
    match d.content.sub detidx with
    | none => none
    | some details =>
      if !descIsfield t.cfg details then some (.skip 0)
      else if keyidx ≥ d.descs.len then some (.skip jpiSkipped)
      else
        match d.descs.sub keyidx with
        | none => none
        | some key =>
          let (rv, buf) := jsstrLocal t key jsstrNone 1024
          if rv ≠ 0 then
            some (.skip (if jsobjIsUndefined t key then jpiUndefpropname else jpiSkipped))
          else
            match if fieldindexInDetails t.cfg then some 0 else d.content.sub validx with
            | none => none
            | some value =>
              match propPlace t.cfg d details value with
              | none => some (.skip jpiSkipped)
              | some place =>
                if place.propaddr ≠ 0 then
                  match t.readPtr place.propaddr with
                  | none => some (.skip jpiSkipped)
                  | some ptr => some (propOut t d buf place ptr jpiInobject)
                else if 0 ≤ place.proparrayidx ∧ place.proparrayidx < d.props.len then
                  (d.props.sub place.proparrayidx.toNat).map fun ptr =>
                    propOut t d buf place ptr jpiProps
                else if place.propidx < d.rndescs then some (.skip 0)
                else some .bad

/-- The loop over the descriptors. -/
def jsobjDescLoop (d : JsobjDescs) (ncontent : ℕ) : ℕ → ℕ → σ → ℕ → Option (Bool × σ × ℕ)
  | 0, _, s, propinfo => some (true, s, propinfo)
  | n + 1, ii, s, propinfo =>
    match jsobjDesc t d ncontent ii with
    | none => none
    | some (.skip flags) => jsobjDescLoop d ncontent n (ii + 1) s (propinfo ||| flags)
    | some .bad => some (false, s, propinfo)
    | some (.prop name value flags) =>
      let (rv, s) := func name (some value) s
      if rv ≠ 0 then some (false, s, propinfo ||| flags)
      else jsobjDescLoop d ncontent n (ii + 1) s (propinfo ||| flags)

end Checked

/-- The length of the array of contents, as the loop has it: what is in the variable, `ncontent`, if no
array has been read. -/
def contentLen (c : Config) (ncontent : ℕ) (d : JsobjDescs) : ℕ :=
  if c.propIdxContent ≠ -1 ∧ ¬ c.wrap c.propIdxContent < d.descs.len then ncontent else d.content.len

namespace Checked

variable (t : Target) {σ : Type*} (func : PropFunc σ)

/-- `jsobj_properties`, where the variable for the length of the array of contents is `ncontent` at
first. -/
def jsobjProperties (ncontent addr : ℕ) (s : σ) (propinfop : ℕ) : Option (ℤ × σ × ℕ) :=
  let c := t.cfg
  match t.readPtr (c.add addr c.offJsobjectProperties) with
  | none => some (-1, s, propinfop)
  | some ptr =>
    match t.readTypebyte ptr with
    | none => some (-1, s, propinfop)
    | some type =>
      if !Target.isType type c.typeFixedarray then
        let buf := bytesOf "<" ++ bytesOf ((c.enumLookupStr type).getD "unknown") ++ bytesOf ">"
        let (rv, s) := func (buf.take 255) none s
        some (rv, s, jpiBadlayout)
      else
        match t.readPtr (c.add addr c.offHeapobjectMap) with
        | none => some (-1, s, propinfop)
        | some map =>
          match jsobjElements t func addr map type s with
          | none => none
          | some (false, s, _) => some (-1, s, propinfop)
          | some (true, s, propinfo) =>
            match jsobjIsDict t map with
            | none => some (-1, s, propinfop)
            | some true => readHeapDict t func ptr s (propinfo ||| jpiDict)
            | some false =>
              match jsobjDescs t addr map ptr with
              | none => none
              | some none => some (-1, s, propinfop)
              | some (some (d, flags)) =>
                match jsobjDescLoop t func d (contentLen c ncontent d) d.rndescs.toNat 0 s
                    (propinfo ||| flags) with
                | none => none
                | some (false, s, _) => some (-1, s, propinfop)
                | some (true, s, propinfo) => some (0, s, propinfo)

end Checked

/-- **The subscripts fit**: whatever is called for the properties of an object, and whatever is in the
variable that has not been assigned, every subscript that is applied to an array is below its length. -/
def SubscriptsFit (t : Target) (addr : ℕ) : Prop :=
  ∀ (ncontent : ℕ) {σ : Type} (func : PropFunc σ) (s : σ) (propinfop : ℕ),
    Checked.jsobjProperties t func ncontent addr s propinfop ≠ none

/-! ### When they fit -/

/-- The constants of the layout are indexes, or `-1` where that stands for none, and a descriptor has a
size. -/
structure LayoutOk (c : Config) : Prop where
  indexes : ∀ x ∈ [c.propIdxFirst, c.propDescKey, c.propDescDetails, c.propDescValue, c.dictStartIndex,
    c.dictPrefixSize], 0 ≤ x ∧ x < 2 ^ (c.bits - 1)
  optional : ∀ x ∈ [c.transitionsIdxDesc, c.propIdxContent], x = -1 ∨ 0 ≤ x ∧ x < 2 ^ (c.bits - 1)
  descSize : 0 < c.propDescSize ∧ c.propDescSize < 2 ^ (c.bits - 1)

section Fits

variable (t : Target)

/-- The loop over a dictionary, from an index on, does not come to the last index of its type, which would
be taken to be less than the length. -/
def DictLoopFits (dict : Target.HeapArray) : ℕ → ℕ → Prop
  | 0, _ => True
  | fuel + 1, i =>
    t.cfg.add i 1 < dict.len → i + 1 ≠ 2 ^ t.cfg.bits ∧
      (dictKey t (dict.get i) ≠ .fail → DictLoopFits dict fuel (t.cfg.add i t.cfg.dictEntrySize))

/-- The index of a dictionary does not come to the last one of its type. -/
def DictFits (addr : ℕ) : Prop :=
  ∀ dict, t.readHeapArray addr = some dict → ¬ t.cfg.dictEntrySize < 2 →
    DictLoopFits t dict (dict.len + 1) (t.cfg.wrap (t.cfg.dictStartIndex + t.cfg.dictPrefixSize))

/-- The elements of an object are no dictionary, or one that fits. -/
def ElementsFit (addr map type : ℕ) : Prop :=
  ¬ (t.cfg.elementsKindShift = -1 ∨ Target.isType type t.cfg.typeJstypedarray) →
    ∀ elements elts bitField2, t.readHeapPtr addr t.cfg.offJsobjectElements = some elements →
      t.readHeapArray elements = some elts → elts.len ≠ 0 →
      t.readByte (t.cfg.add map t.cfg.offMapBitField2) = some bitField2 →
      ¬ (elementsKind t.cfg bitField2 = t.cfg.elementsFastElements ∨
        elementsKind t.cfg bitField2 = t.cfg.elementsFastHoleyElements) →
      elementsKind t.cfg bitField2 = t.cfg.elementsDictionaryElements → DictFits t elements

/-- The transitions array, if there is one, is long enough for the constant. -/
def TransitionsFit (map : ℕ) : Prop :=
  t.cfg.offMapInstanceDescriptors = -1 →
    ¬ (t.cfg.offMapTransitions = -1 ∨ t.cfg.transitionsIdxDesc = -1 ∨ t.cfg.propIdxContent ≠ -1) →
      ∀ ptr transitions, t.readPtr (t.cfg.add map t.cfg.offMapTransitions) = some ptr →
        t.readHeapArray ptr = some transitions → t.cfg.transitionsIdxDesc.toNat < transitions.len

/-- The array of contents is that of the descriptors, or it is read. -/
def ContentRead (c : Config) (descs : Target.HeapArray) : Prop :=
  c.propIdxContent = -1 ∨ c.wrap c.propIdxContent < descs.len

/-- The descriptor at an index fits: if it is a field, with its details in the array of contents and a
name, then its value is in that array too. Since V8 3.26 the value is not looked at. -/
def DescFits (d : JsobjDescs) (ii : ℕ) : Prop :=
  let (keyidx, validx, detidx) := descIdx t.cfg ii
  fieldindexInDetails t.cfg = false → detidx < d.content.len →
    descIsfield t.cfg (d.content.get detidx) = true → keyidx < d.descs.len →
      (jsstrLocal t (d.descs.get keyidx) jsstrNone 1024).1 = 0 → validx < d.content.len

/-- The descriptors from an index on fit, up to one that ends the loop. -/
def DescsFit (d : JsobjDescs) : ℕ → ℕ → Prop
  | 0, _ => True
  | n + 1, ii => DescFits t d ii ∧ (jsobjDesc t d ii ≠ .bad → DescsFit d n (ii + 1))

/-- The properties that are not numeric fit. -/
structure NamedFit (addr map ptr : ℕ) : Prop where
  dict : jsobjIsDict t map = some true → DictFits t ptr
  transitions : jsobjIsDict t map = some false → ∀ props, t.readHeapArray ptr = some props →
    TransitionsFit t map
  descs : jsobjIsDict t map = some false → ∀ d flags, jsobjDescs t addr map ptr = some (d, flags) →
    0 < d.rndescs → ContentRead t.cfg d.descs ∧ DescsFit t d d.rndescs.toNat 0

/-- The properties of an object are reached: its `properties` array, and its Map. -/
structure PropsReached (addr ptr map type : ℕ) : Prop where
  readProps : t.readPtr (t.cfg.add addr t.cfg.offJsobjectProperties) = some ptr
  readType : t.readTypebyte ptr = some type
  fixed : Target.isType type t.cfg.typeFixedarray = true
  readMap : t.readPtr (t.cfg.add addr t.cfg.offHeapobjectMap) = some map

/-- The arrays of an object fit. -/
structure ArraysFit (addr : ℕ) : Prop where
  elements : ∀ ptr map type, PropsReached t addr ptr map type → ElementsFit t addr map type
  named : ∀ ptr map type, PropsReached t addr ptr map type →
    (elementEvents t addr map type).ok = true → NamedFit t addr map ptr

end Fits

/-! ### Dictionaries and elements -/

section Elements

variable {t : Target} {σ : Type*} (func : PropFunc σ)

theorem checked_readHeapDictLoop {dict : Target.HeapArray} {fuel i : ℕ} (hi : i < 2 ^ t.cfg.bits)
    (h : DictLoopFits t dict fuel i) (s : σ) (propinfo : ℕ) :
    Checked.readHeapDictLoop t func dict fuel i s propinfo =
      some (readHeapDictLoop t dict func fuel i s propinfo) := by
  induction fuel generalizing i s propinfo with
  | zero => rfl
  | succ fuel ih =>
    rw [Checked.readHeapDictLoop, readHeapDictLoop]
    split
    · next hlt =>
      obtain ⟨hlast, hrest⟩ := h hlt
      -- the next index is one more
      have hsucc : i + 1 < dict.len := by
        rw [show t.cfg.add i 1 = (i + 1) % 2 ^ t.cfg.bits from t.cfg.add_natCast i 1,
          Nat.mod_eq_of_lt (by omega)] at hlt
        exact hlt
      rw [Target.HeapArray.sub_of_lt (Nat.lt_of_succ_lt hsucc)]
      dsimp only
      cases hkey : dictKey t (dict.get i) with
      | skip => exact ih (t.cfg.add_lt _ _) (hrest (by simp [hkey])) _ _
      | fail => rfl
      | name buf =>
        dsimp only
        rw [Target.HeapArray.sub_of_lt hsucc]
        dsimp only
        split
        · rfl
        · exact ih (t.cfg.add_lt _ _) (hrest (by simp [hkey])) _ _
    · rfl

/-- A callback that does nothing goes through the whole dictionary. -/
theorem dictLoopFits_of_noop {dict : Target.HeapArray} (hlen : dict.len < 2 ^ t.cfg.bits)
    {fuel i propinfo : ℕ}
    (h : Checked.readHeapDictLoop t jsobjNoop dict fuel i () propinfo ≠ none) :
    DictLoopFits t dict fuel i := by
  induction fuel generalizing i propinfo with
  | zero => trivial
  | succ fuel ih =>
    intro hlt
    rw [Checked.readHeapDictLoop, if_pos hlt] at h
    dsimp only at h
    rcases Nat.lt_or_ge i dict.len with hi | hi
    · -- an index below the length is not the last one of its type
      refine ⟨by omega, fun hfail => ?_⟩
      rw [Target.HeapArray.sub_of_lt hi] at h
      dsimp only at h
      cases hkey : dictKey t (dict.get i) with
      | skip =>
        rw [hkey] at h
        exact ih h
      | fail => exact absurd hkey hfail
      | name buf =>
        rw [hkey] at h
        dsimp only at h
        rcases Nat.lt_or_ge (i + 1) dict.len with hnext | hnext
        · rw [Target.HeapArray.sub_of_lt hnext] at h
          exact ih h
        · rw [Target.HeapArray.sub_of_le hnext] at h
          exact absurd rfl h
    · rw [Target.HeapArray.sub_of_le hi] at h
      exact absurd rfl h

theorem checked_readHeapDict {addr : ℕ} (h : DictFits t addr) (s : σ) (propinfo : ℕ) :
    Checked.readHeapDict t func addr s propinfo = some (readHeapDict t addr func s propinfo) := by
  unfold Checked.readHeapDict readHeapDict
  cases hread : t.readHeapArray addr with
  | none => rfl
  | some dict =>
    dsimp only
    split
    · rfl
    · next hsize =>
      exact checked_readHeapDictLoop func (t.cfg.wrap_lt _) (h dict hread hsize) s propinfo

theorem dictFits_of_noop {addr propinfo : ℕ}
    (h : Checked.readHeapDict t jsobjNoop addr () propinfo ≠ none) : DictFits t addr := by
  intro dict hread hsize
  have hlt : dict.len < 2 ^ t.cfg.bits := t.readHeapArray_len_lt_two_pow hread
  unfold Checked.readHeapDict at h
  rw [hread] at h
  dsimp only at h
  rw [if_neg hsize] at h
  exact dictLoopFits_of_noop hlt h

/-- The loop over an array of elements stays inside the array. -/
theorem exists_jsobjFastElements {elts : Target.HeapArray} (holey : Bool) {n ii : ℕ}
    (h : ii + n ≤ elts.len) (s : σ) (propinfo : ℕ) :
    ∃ r, Checked.jsobjFastElements t func holey elts n ii s propinfo = some r ∧
      ((∀ name val s, (func name val s).1 = 0) → r.1 = true) := by
  induction n generalizing ii s propinfo with
  | zero => exact ⟨_, rfl, fun _ => rfl⟩
  | succ n ih =>
    rw [Checked.jsobjFastElements, Target.HeapArray.sub_of_lt (by omega)]
    dsimp only
    split
    · exact ih (by omega) _ _
    split
    · next hstop => exact ⟨_, rfl, fun hzero => absurd (hzero _ _ _) hstop⟩
    · exact ih (by omega) _ _

theorem fastEvents_ok (t : Target) (holey : Bool) (ii : ℕ) (elts : List ℕ) :
    (fastEvents t holey ii elts).ok = true := by
  induction elts generalizing ii with
  | nil => rfl
  | cons elt elts ih =>
    rw [fastEvents]
    split
    · exact ih _
    · exact ih _

/-- **The elements** of an object whose elements fit: no subscript is out of its range, and whether the
loop comes to its end is up to the memory and to the callback. -/
theorem exists_jsobjElements {addr map type : ℕ} (h : ElementsFit t addr map type) (s : σ) :
    ∃ r, Checked.jsobjElements t func addr map type s = some r ∧
      (r.1 = true → (elementEvents t addr map type).ok = true) ∧
      ((∀ name val s, (func name val s).1 = 0) → (elementEvents t addr map type).ok = true →
        r.1 = true) := by
  unfold Checked.jsobjElements elementEvents
  dsimp only
  split
  · exact ⟨_, rfl, fun _ => rfl, fun _ _ => rfl⟩
  next htyped =>
  cases helements : t.readHeapPtr addr t.cfg.offJsobjectElements with
  | none => exact ⟨_, rfl, fun _ => rfl, fun _ _ => rfl⟩
  | some elements =>
    cases hread : t.readHeapArray elements with
    | none =>
      dsimp only
      rw [hread]
      exact ⟨_, rfl, fun _ => rfl, fun _ _ => rfl⟩
    | some elts =>
      dsimp only
      rw [hread]
      dsimp only
      split
      · exact ⟨_, rfl, fun _ => rfl, fun _ _ => rfl⟩
      next hlen =>
      cases hbits : t.readByte (t.cfg.add map t.cfg.offMapBitField2) with
      | none => exact ⟨_, rfl, fun hok => hok, fun _ hok => hok⟩
      | some bitField2 =>
        dsimp only
        split
        · -- an array of values
          obtain ⟨r, hrun, hzero⟩ := exists_jsobjFastElements func
            (elementsKind t.cfg bitField2 == t.cfg.elementsFastHoleyElements) (Nat.zero_add elts.len).le
            s jpiNumeric
          exact ⟨r, hrun, fun _ => fastEvents_ok t _ _ _, fun hfunc _ => hzero hfunc⟩
        next hfast =>
        split
        · -- a dictionary
          next hkind =>
          have hfits := h htyped elements elts bitField2 helements hread hlen hbits hfast hkind
          have hrun := checked_readHeapDict func hfits s (jpiNumeric ||| jpiDict)
          have hruns := runs_readHeapDict t func elements s (jpiNumeric ||| jpiDict)
          refine ⟨_, congrArg (Option.map okOf) hrun, fun hok => ?_, fun hfunc hok => ?_⟩
          · have hand := hruns.ok.symm.trans hok
            exact (Bool.and_eq_true_iff.mp hand).2
          · rw [hruns.ok, runEvents_of_zero func hfunc]
            exact hok
        · exact ⟨_, rfl, fun _ => rfl, fun _ _ => rfl⟩

/-- A callback that does nothing goes through the whole of a dictionary of elements. -/
theorem elementsFit_of_noop {addr map type : ℕ}
    (h : Checked.jsobjElements t jsobjNoop addr map type () ≠ none) : ElementsFit t addr map type := by
  intro htyped elements elts bitField2 helements hread hlen hbits hfast hkind
  unfold Checked.jsobjElements at h
  dsimp only at h
  rw [if_neg htyped, helements] at h
  dsimp only at h
  rw [hread] at h
  dsimp only at h
  rw [if_neg hlen, hbits] at h
  dsimp only at h
  rw [if_neg hfast, if_pos hkind] at h
  refine @dictFits_of_noop t elements (jpiNumeric ||| jpiDict) fun hnone => h ?_
  rw [hnone]
  rfl

end Elements

/-! ### Descriptors -/

section Descs

variable {t : Target} {σ : Type*} (func : PropFunc σ)

theorem checked_descsPtr {map : ℕ} (h : TransitionsFit t map) :
    Checked.descsPtr t map = some (descsPtr t map) := by
  unfold Checked.descsPtr descsPtr
  dsimp only
  split
  · next hdescs =>
    split
    · rfl
    next hmeta =>
    cases hptr : t.readPtr (t.cfg.add map t.cfg.offMapTransitions) with
    | none => rfl
    | some ptr =>
      dsimp only
      cases hread : t.readHeapArray ptr with
      | none => rfl
      | some transitions =>
        dsimp only
        rw [Target.HeapArray.sub_of_lt (h hdescs hmeta ptr transitions hptr hread)]
        rfl
  · rfl

theorem transitionsFit_of_checked {map : ℕ} (h : Checked.descsPtr t map ≠ none) :
    TransitionsFit t map := by
  intro hdescs hmeta ptr transitions hptr hread
  unfold Checked.descsPtr at h
  dsimp only at h
  rw [if_pos hdescs, if_neg hmeta, hptr] at h
  dsimp only at h
  rw [hread] at h
  by_contra hno
  dsimp only at h
  rw [Target.HeapArray.sub_of_le (Nat.le_of_not_lt hno)] at h
  exact h rfl

/-- The subscript that is the constant for the array of contents is compared before it is applied. -/
theorem checked_descsContent (hlayout : LayoutOk t.cfg) (descs : Target.HeapArray) :
    Checked.descsContent t descs = some (descsContent t descs) := by
  unfold Checked.descsContent descsContent
  dsimp only
  split
  · rfl
  next hcontent =>
  split
  · next hlt =>
    have hidx := (hlayout.optional t.cfg.propIdxContent (by simp)).resolve_left hcontent
    have hpow : (2 : ℤ) ^ (t.cfg.bits - 1) ≤ 2 ^ t.cfg.bits :=
      pow_le_pow_right₀ one_le_two (Nat.sub_le _ _)
    have hwrap : t.cfg.wrap t.cfg.propIdxContent = t.cfg.propIdxContent.toNat :=
      t.cfg.wrap_of_lt hidx.1 (hidx.2.trans_le hpow)
    rw [Target.HeapArray.sub_of_lt (hwrap ▸ hlt)]
    rfl
  · rfl

theorem checked_jsobjDescs (hlayout : LayoutOk t.cfg) {addr map ptr : ℕ}
    (h : ∀ props, t.readHeapArray ptr = some props → TransitionsFit t map) :
    Checked.jsobjDescs t addr map ptr = some (jsobjDescs t addr map ptr) := by
  unfold Checked.jsobjDescs jsobjDescs
  cases hprops : t.readHeapArray ptr with
  | none => rfl
  | some props =>
    dsimp only
    rw [checked_descsPtr (h props hprops)]
    cases descsPtr t map with
    | none => rfl
    | some r =>
      obtain ⟨descsAddr, transitionsInfo⟩ := r
      dsimp only
      -- both sides read the same arrays
      cases t.readHeapArray descsAddr with
      | none => rfl
      | some descs =>
        dsimp only
        cases t.readByte (t.cfg.add map t.cfg.offMapInobjectProperties) with
        | none => rfl
        | some ninprops =>
          dsimp only
          rw [checked_descsContent hlayout]
          cases descsContent t descs with
          | none => rfl
          | some r => rfl

theorem transitionsFit_of_jsobjDescs {addr map ptr : ℕ}
    (h : Checked.jsobjDescs t addr map ptr ≠ none) (props : Target.HeapArray)
    (hprops : t.readHeapArray ptr = some props) : TransitionsFit t map := by
  refine transitionsFit_of_checked fun hnone => h ?_
  unfold Checked.jsobjDescs
  rw [hprops]
  dsimp only
  rw [hnone]

variable {d : JsobjDescs}

/-- Since V8 3.26, the value of a descriptor says nothing about the place of the property. -/
theorem propPlace_of_fieldindex {c : Config} (h : fieldindexInDetails c = true) (d : JsobjDescs)
    (details value value' : ℕ) : propPlace c d details value = propPlace c d details value' := by
  unfold propPlace
  rw [if_pos h, if_pos h]

/-- A descriptor that fits is processed as without the checks. -/
theorem checked_jsobjDesc {ii : ℕ} (h : DescFits t d ii) :
    Checked.jsobjDesc t d d.content.len ii = some (jsobjDesc t d ii) := by
  unfold Checked.jsobjDesc jsobjDesc
  unfold DescFits at h
  generalize descIdx t.cfg ii = idx at h
  obtain ⟨keyidx, validx, detidx⟩ := idx
  dsimp only at h ⊢
  by_cases hdet : detidx < d.content.len
  · rw [if_neg (not_le.mpr hdet), if_neg (not_le.mpr hdet), Target.HeapArray.sub_of_lt hdet]
    dsimp only
    -- only the descriptor of a field is looked at further
    cases hfield : descIsfield t.cfg (d.content.get detidx) with
    | false => rfl
    | true =>
      simp only [Bool.not_true, Bool.false_eq_true, if_false]
      by_cases hkey : keyidx < d.descs.len
      · rw [if_neg (not_le.mpr hkey), if_neg (not_le.mpr hkey), Target.HeapArray.sub_of_lt hkey]
        dsimp only
        by_cases hrv : (jsstrLocal t (d.descs.get keyidx) jsstrNone 1024).1 = 0
        · rw [if_neg (not_not.mpr hrv), if_neg (not_not.mpr hrv)]
          -- the value, if it is looked at
          obtain ⟨value, hvalue, hplace⟩ : ∃ value,
              (if fieldindexInDetails t.cfg then some 0 else d.content.sub validx) = some value ∧
                propPlace t.cfg d (d.content.get detidx) (d.content.get validx) =
                  propPlace t.cfg d (d.content.get detidx) value := by
            cases hindex : fieldindexInDetails t.cfg with
            | true => exact ⟨0, rfl, propPlace_of_fieldindex hindex d _ _ _⟩
            | false =>
              exact ⟨_, Target.HeapArray.sub_of_lt (h hindex hdet hfield hkey hrv), rfl⟩
          rw [hvalue, hplace]
          dsimp only
          cases propPlace t.cfg d (d.content.get detidx) value with
          | none => rfl
          | some place =>
            dsimp only
            split
            · cases t.readPtr place.propaddr with
              | none => rfl
              | some ptr => rfl
            split
            · next hplace =>
              rw [Target.HeapArray.sub_of_lt (by omega)]
              rfl
            split
            · rfl
            · rfl
        · rw [if_pos hrv, if_pos hrv]
      · rw [if_pos (Nat.le_of_not_lt hkey), if_pos (Nat.le_of_not_lt hkey)]
  · rw [if_pos (Nat.le_of_not_lt hdet), if_pos (Nat.le_of_not_lt hdet)]

/-- The subscripts of a descriptor that has been processed were in their ranges. -/
theorem descFits_of_checked {ii : ℕ} (h : Checked.jsobjDesc t d d.content.len ii ≠ none) :
    DescFits t d ii := by
  unfold Checked.jsobjDesc at h
  unfold DescFits
  generalize descIdx t.cfg ii = idx at h
  obtain ⟨keyidx, validx, detidx⟩ := idx
  dsimp only at h ⊢
  intro hindex hdet hfield hkey hrv
  rw [if_neg (not_le.mpr hdet), Target.HeapArray.sub_of_lt hdet] at h
  dsimp only at h
  rw [hfield, if_neg (by simp), if_neg (not_le.mpr hkey), Target.HeapArray.sub_of_lt hkey] at h
  dsimp only at h
  rw [if_neg (not_not.mpr hrv), hindex] at h
  by_contra hno
  rw [if_neg Bool.false_ne_true, Target.HeapArray.sub_of_le (Nat.le_of_not_lt hno)] at h
  exact h rfl

theorem checked_jsobjDescLoop {n ii : ℕ} (h : DescsFit t d n ii) (s : σ) (propinfo : ℕ) :
    Checked.jsobjDescLoop t func d d.content.len n ii s propinfo =
      some (jsobjDescLoop t d func n ii s propinfo) := by
  induction n generalizing ii s propinfo with
  | zero => rfl
  | succ n ih =>
    -- a descriptor that is bad ends both loops, so nothing is asked of the ones after it
    obtain ⟨hdesc, hrest⟩ := h
    rw [Checked.jsobjDescLoop, jsobjDescLoop, checked_jsobjDesc hdesc]
    cases hout : jsobjDesc t d ii with
    | skip flags => exact ih (hrest (by simp [hout])) _ _
    | bad => rfl
    | prop name value flags =>
      dsimp only
      split
      · rfl
      · exact ih (hrest (by simp [hout])) _ _

/-- A callback that does nothing goes through all the descriptors. -/
theorem descsFit_of_noop {n ii propinfo : ℕ}
    (h : Checked.jsobjDescLoop t jsobjNoop d d.content.len n ii () propinfo ≠ none) :
    DescsFit t d n ii := by
  induction n generalizing ii propinfo with
  | zero => trivial
  | succ n ih =>
    rw [Checked.jsobjDescLoop] at h
    have hdesc : DescFits t d ii := descFits_of_checked fun hnone => h (by rw [hnone])
    refine ⟨hdesc, fun hbad => ?_⟩
    rw [checked_jsobjDesc hdesc] at h
    cases hout : jsobjDesc t d ii with
    | skip flags =>
      rw [hout] at h
      exact ih h
    | bad => exact absurd hout hbad
    | prop name value flags =>
      rw [hout] at h
      exact ih h

/-- The array of contents is the one that belongs to the descriptors. -/
theorem descsContent_of_jsobjDescs {addr map ptr flags : ℕ}
    (h : jsobjDescs t addr map ptr = some (d, flags)) :
    (∃ descsAddr, t.readHeapArray descsAddr = some d.descs) ∧
      ∃ info, descsContent t d.descs = some (d.content, d.rndescs, info) := by
  unfold jsobjDescs at h
  cases hprops : t.readHeapArray ptr with
  | none => simp [hprops] at h
  | some props =>
    rw [hprops] at h
    dsimp only at h
    cases hptr : descsPtr t map with
    | none => simp [hptr] at h
    | some r =>
      obtain ⟨descsAddr, transitionsInfo⟩ := r
      rw [hptr] at h
      dsimp only at h
      -- the arrays are there, since the descriptors have been read
      cases hdescs : t.readHeapArray descsAddr with
      | none => simp [hdescs] at h
      | some descs =>
        rw [hdescs] at h
        dsimp only at h
        cases hninprops : t.readByte (t.cfg.add map t.cfg.offMapInobjectProperties) with
        | none => simp [hninprops] at h
        | some ninprops =>
          rw [hninprops] at h
          dsimp only at h
          cases hcontent : descsContent t descs with
          | none => simp [hcontent] at h
          | some r =>
            obtain ⟨content, rndescs, info⟩ := r
            rw [hcontent] at h
            obtain ⟨layout, -, heq⟩ := Option.map_eq_some_iff.mp h
            obtain ⟨rfl, -⟩ := Prod.ext_iff.mp heq
            exact ⟨⟨descsAddr, hdescs⟩, info, hcontent⟩

/-- The length that the loop has is that of the array of contents, where one has been read. -/
theorem contentLen_of_read {c : Config} (h : ContentRead c d.descs) (ncontent : ℕ) :
    contentLen c ncontent d = d.content.len :=
  if_neg fun hunread => h.elim hunread.1 hunread.2

/-- Where none has been read, it has no elements, and whatever is in the variable is its length. -/
theorem contentLen_of_not_read {addr map ptr flags : ℕ} (hread : ¬ ContentRead t.cfg d.descs)
    (h : jsobjDescs t addr map ptr = some (d, flags)) :
    d.content.len = 0 ∧ ∀ ncontent, contentLen t.cfg ncontent d = ncontent := by
  obtain ⟨hcontent, hidx⟩ := not_or.mp hread
  obtain ⟨-, info, hdescs⟩ := descsContent_of_jsobjDescs h
  unfold descsContent at hdescs
  dsimp only at hdescs
  rw [if_neg hcontent, if_neg hidx] at hdescs
  have hnone : d.content = ⟨0, []⟩ := (congrArg Prod.fst (Option.some.inj hdescs)).symm
  exact ⟨by rw [hnone], fun ncontent => if_pos ⟨hcontent, hidx⟩⟩

/-- A length that has never been assigned may let the first subscript through. -/
theorem checked_jsobjDesc_of_not_read (hlen : d.content.len = 0) (ii : ℕ) :
    ∃ ncontent, Checked.jsobjDesc t d ncontent ii = none := by
  refine ⟨(descIdx t.cfg ii).2.2 + 1, ?_⟩
  unfold Checked.jsobjDesc
  generalize descIdx t.cfg ii = idx
  obtain ⟨keyidx, validx, detidx⟩ := idx
  dsimp only
  rw [if_neg (Nat.not_succ_le_self detidx), Target.HeapArray.sub_of_le (by omega)]

/-- The descriptors of an object, with the checks and without. -/
theorem checked_jsobjDescLoop_of_fits
    (h : 0 < d.rndescs → ContentRead t.cfg d.descs ∧ DescsFit t d d.rndescs.toNat 0)
    (ncontent : ℕ) (s : σ) (propinfo : ℕ) :
    Checked.jsobjDescLoop t func d (contentLen t.cfg ncontent d) d.rndescs.toNat 0 s propinfo =
      some (jsobjDescLoop t d func d.rndescs.toNat 0 s propinfo) := by
  rcases lt_or_ge 0 d.rndescs with hpos | hle
  · obtain ⟨hread, hfits⟩ := h hpos
    rw [contentLen_of_read hread]
    exact checked_jsobjDescLoop func hfits s propinfo
  · rw [Int.toNat_of_nonpos hle]
    rfl

/-- Where a callback that does nothing goes through all of them, whatever is in the variable, they
fit. -/
theorem descsFit_of_forall_noop {addr map ptr flags : ℕ}
    (hdescs : jsobjDescs t addr map ptr = some (d, flags))
    (h : ∀ ncontent, ∃ propinfo, Checked.jsobjDescLoop t jsobjNoop d (contentLen t.cfg ncontent d)
      d.rndescs.toNat 0 () propinfo ≠ none) (hpos : 0 < d.rndescs) :
    ContentRead t.cfg d.descs ∧ DescsFit t d d.rndescs.toNat 0 := by
  by_cases hread : ContentRead t.cfg d.descs
  · refine ⟨hread, ?_⟩
    obtain ⟨propinfo, hrun⟩ := h 0
    rw [contentLen_of_read hread] at hrun
    exact descsFit_of_noop hrun
  · -- a length that lets the details of the first descriptor through
    obtain ⟨hlen, hvar⟩ := contentLen_of_not_read hread hdescs
    obtain ⟨ncontent, hnone⟩ := @checked_jsobjDesc_of_not_read t d hlen 0
    obtain ⟨propinfo, hrun⟩ := h ncontent
    obtain ⟨n, hn⟩ : ∃ n, d.rndescs.toNat = n + 1 :=
      Nat.exists_eq_succ_of_ne_zero (by omega)
    rw [hvar, hn, Checked.jsobjDescLoop, hnone] at hrun
    exact absurd rfl hrun

end Descs

/-! ### Whole runs -/

section Runs

variable {t : Target} {addr : ℕ}

/-- **Arrays that fit** are not left by any subscript, whatever is called for the properties. -/
theorem subscriptsFit_of_arraysFit (hlayout : LayoutOk t.cfg) (h : ArraysFit t addr) :
    SubscriptsFit t addr := by
  intro ncontent σ func s propinfop
  unfold Checked.jsobjProperties
  dsimp only
  cases hptr : t.readPtr (t.cfg.add addr t.cfg.offJsobjectProperties) with
  | none => simp
  | some ptr =>
    dsimp only
    -- the subscripts are reached through these reads, in this order
    cases htype : t.readTypebyte ptr with
    | none => simp
    | some type =>
      dsimp only
      cases hfixed : Target.isType type t.cfg.typeFixedarray with
      | false => simp
      | true =>
        simp only [Bool.not_true, Bool.false_eq_true, if_false]
        cases hmap : t.readPtr (t.cfg.add addr t.cfg.offHeapobjectMap) with
        | none => simp
        | some map =>
          have hreached : PropsReached t addr ptr map type := ⟨hptr, htype, hfixed, hmap⟩
          -- that all the elements have been gone through is up to the memory
          obtain ⟨r, hrun, hok, -⟩ := exists_jsobjElements func (h.elements _ _ _ hreached) s
          dsimp only
          rw [hrun]
          obtain ⟨ok, s', propinfo⟩ := r
          cases ok with
          | false => simp
          | true =>
            have hnamed := h.named _ _ _ hreached (hok rfl)
            dsimp only
            cases hdict : jsobjIsDict t map with
            | none => simp
            | some dict =>
              cases dict with
              | true =>
                dsimp only
                rw [checked_readHeapDict func (hnamed.dict hdict)]
                simp
              | false =>
                dsimp only
                rw [checked_jsobjDescs hlayout (hnamed.transitions hdict)]
                cases hdescs : jsobjDescs t addr map ptr with
                | none => simp
                | some r =>
                  obtain ⟨d, flags⟩ := r
                  dsimp only
                  rw [checked_jsobjDescLoop_of_fits func (hnamed.descs hdict d flags hdescs)]
                  obtain ⟨ok, s'', last⟩ :=
                    jsobjDescLoop t d func d.rndescs.toNat 0 s' (propinfo ||| flags)
                  cases ok with
                  | false => simp
                  | true => simp

/-- Where a callback that does nothing is never followed by a subscript out of its range, the arrays
fit. -/
theorem arraysFit_of_subscriptsFit (hlayout : LayoutOk t.cfg) (h : SubscriptsFit t addr) :
    ArraysFit t addr := by
  have hrun : ∀ ptr map type ncontent, PropsReached t addr ptr map type →
      (Checked.jsobjElements t jsobjNoop addr map type () ≠ none) ∧
      ((elementEvents t addr map type).ok = true → ∃ propinfo,
        (jsobjIsDict t map = some true →
          Checked.readHeapDict t jsobjNoop ptr () (propinfo ||| jpiDict) ≠ none) ∧
        (jsobjIsDict t map = some false → Checked.jsobjDescs t addr map ptr ≠ none ∧
          ∀ d flags, Checked.jsobjDescs t addr map ptr = some (some (d, flags)) →
            Checked.jsobjDescLoop t jsobjNoop d (contentLen t.cfg ncontent d) d.rndescs.toNat 0 ()
              (propinfo ||| flags) ≠ none)) := by
    intro ptr map type ncontent hreached
    -- the run with a callback that does nothing goes as far as the memory lets it
    have hall := h ncontent jsobjNoop () 0
    unfold Checked.jsobjProperties at hall
    dsimp only at hall
    rw [hreached.readProps] at hall
    dsimp only at hall
    rw [hreached.readType] at hall
    dsimp only at hall
    rw [hreached.fixed, if_neg (by simp), hreached.readMap] at hall
    dsimp only at hall
    -- the elements come first, and no check in them stops the run
    have helements : Checked.jsobjElements t jsobjNoop addr map type () ≠ none := fun hnone =>
      hall (by rw [hnone])
    refine ⟨helements, fun hok => ?_⟩
    obtain ⟨r, hr, -, hzero⟩ := exists_jsobjElements jsobjNoop (elementsFit_of_noop helements) ()
    obtain ⟨ok, u, propinfo⟩ := r
    obtain rfl : ok = true := hzero (fun _ _ _ => rfl) hok
    rw [hr] at hall
    dsimp only at hall
    refine ⟨propinfo, fun hdict => ?_, fun hdict => ⟨fun hnone => ?_, fun d flags hdescs hnone => ?_⟩⟩
    · rw [hdict] at hall
      exact hall
    · rw [hdict] at hall
      dsimp only at hall
      rw [hnone] at hall
      exact hall rfl
    · rw [hdict] at hall
      dsimp only at hall
      rw [hdescs] at hall
      dsimp only at hall
      rw [hnone] at hall
      exact hall rfl
  refine ⟨fun ptr map type hreached => elementsFit_of_noop (hrun ptr map type 0 hreached).1,
    fun ptr map type hreached hok => ⟨fun hdict => ?_, fun hdict => ?_, fun hdict => ?_⟩⟩
  · obtain ⟨propinfo, hdictrun, -⟩ := (hrun ptr map type 0 hreached).2 hok
    exact dictFits_of_noop (hdictrun hdict)
  · obtain ⟨propinfo, -, hdescsrun⟩ := (hrun ptr map type 0 hreached).2 hok
    exact transitionsFit_of_jsobjDescs (hdescsrun hdict).1
  · intro d flags hdescs hpos
    refine descsFit_of_forall_noop hdescs (fun ncontent => ?_) hpos
    obtain ⟨propinfo, -, hdescsrun⟩ := (hrun ptr map type ncontent hreached).2 hok
    obtain ⟨hne, hloop⟩ := hdescsrun hdict
    -- what the loop with the checks has read is what there is
    have hsame := @checked_jsobjDescs t hlayout addr map ptr (transitionsFit_of_jsobjDescs hne)
    exact ⟨_, hloop d flags (hsame.trans (congrArg some hdescs))⟩

/-- **When the subscripts fit**, for every memory and every layout. -/
theorem subscriptsFit_iff (hlayout : LayoutOk t.cfg) : SubscriptsFit t addr ↔ ArraysFit t addr :=
  ⟨arraysFit_of_subscriptsFit hlayout, subscriptsFit_of_arraysFit hlayout⟩

end Runs

/-! ### A transitions array of a length -/

/-- A layout where the descriptors are the second element of the transitions array. -/
def transitionsConfig : Config :=
  { Config.sample .lp64 with
    dictShift := -1
    offMapInstanceDescriptors := -1
    offMapTransitions := 39
    transitionsIdxDesc := 1
    elementsKindShift := -1 }

/-- An object without properties at `0x1001`, whose Map has a transitions array of a length. -/
def transitionsTarget (length : ℕ) : Target :=
  .ofWords transitionsConfig
    [(0x1000, 0x2001), (0x1008, 0x6001), (0x2008, 0), (0x2010, 0xab), (0x2028, 0x7001),
      (0x3010, 0xa3), (0x6000, 0x3001), (0x6008, 0),
      (0x7000, 0x3001), (0x7008, length <<< 32), (0x7010, 0x6001), (0x7018, 0x6001)]

theorem layoutOk_transitions : LayoutOk transitionsConfig where
  indexes := by decide
  optional := by decide
  descSize := by decide

/-- With two elements, the second one is in the array, and there are no descriptors. -/
theorem subscriptsFit_transitions : SubscriptsFit (transitionsTarget 2) 0x1001 := by
  refine (subscriptsFit_iff layoutOk_transitions).mpr
    ⟨fun _ _ _ _ hkind => absurd (.inl rfl) hkind, fun ptr map _ hreached _ => ?_⟩
  -- the addresses that are read from this memory
  have hptr : (transitionsTarget 2).readPtr 0x1008 = some 0x6001 := by decide
  have hmap : (transitionsTarget 2).readPtr 0x1000 = some 0x2001 := by decide
  obtain rfl : 0x6001 = ptr := Option.some.inj (hptr.symm.trans hreached.readProps)
  obtain rfl : 0x2001 = map := Option.some.inj (hmap.symm.trans hreached.readMap)
  have hdict : jsobjIsDict (transitionsTarget 2) 0x2001 = some false := by decide
  constructor
  · intro hno
    simp [hdict] at hno
  · intro _ _ _ _ _ ptr transitions hptr hread
    have htrans : (transitionsTarget 2).readPtr 0x2028 = some 0x7001 := by decide
    have htwo : (transitionsTarget 2).readHeapArray 0x7001 = some ⟨2, [0x6001, 0x6001]⟩ := by decide
    obtain rfl : 0x7001 = ptr := Option.some.inj (htrans.symm.trans hptr)
    obtain rfl := Option.some.inj (htwo.symm.trans hread)
    decide
  · intro _ d flags hdescs hpos
    have hnone : (jsobjDescs (transitionsTarget 2) 0x1001 0x2001 0x6001).map (·.1.rndescs) = some 0 := by
      decide
    -- there are no descriptors, so no subscript is made
    have hzero : d.rndescs = 0 := Option.some.inj ((congrArg _ hdescs).symm.trans hnone)
    exact absurd hzero hpos.ne'

/-- With one, it is not. -/
theorem not_subscriptsFit_transitions :
    LayoutOk (transitionsTarget 1).cfg ∧ ¬ SubscriptsFit (transitionsTarget 1) 0x1001 :=
  ⟨layoutOk_transitions, fun h => h 0 jsobjNoop () 0 (by decide)⟩

/-! ### The same runs -/

section Same

variable {t : Target} {σ : Type*} (func : PropFunc σ)

theorem checked_jsobjFastElements {elts : Target.HeapArray} (hwhole : elts.elts.length = elts.len)
    (holey : Bool) {n ii : ℕ} (h : ii + n = elts.len) (s : σ) (propinfo : ℕ) :
    Checked.jsobjFastElements t func holey elts n ii s propinfo =
      some (jsobjFastElements t holey func ii (elts.elts.drop ii) s propinfo) := by
  induction n generalizing ii s propinfo with
  | zero =>
    rw [List.drop_eq_nil_of_le (by omega)]
    rfl
  | succ n ih =>
    have hlt : ii < elts.elts.length := by omega
    rw [Checked.jsobjFastElements, Target.HeapArray.sub_of_lt (by omega), List.drop_eq_getElem_cons hlt,
      jsobjFastElements, Target.HeapArray.get, List.getD_eq_getElem _ _ hlt]
    dsimp only
    split
    · exact ih (by omega) _ _
    split
    · rfl
    · exact ih (by omega) _ _

/-- The elements of arrays that have been read as long as they are. -/
theorem checked_jsobjElements
    (hwhole : ∀ addr arr, t.readHeapArray addr = some arr → arr.elts.length = arr.len)
    {addr map type : ℕ} (h : ElementsFit t addr map type) (s : σ) :
    Checked.jsobjElements t func addr map type s = some (jsobjElements t addr map type func s) := by
  unfold Checked.jsobjElements jsobjElements
  dsimp only
  split
  · rfl
  next htyped =>
  cases helements : t.readHeapPtr addr t.cfg.offJsobjectElements with
  | none => rfl
  | some elements =>
    dsimp only
    cases hread : t.readHeapArray elements with
    | none => rfl
    | some elts =>
      dsimp only
      split
      · rfl
      next hlen =>
      -- both loops have the subscripts that fit
      cases hbits : t.readByte (t.cfg.add map t.cfg.offMapBitField2) with
      | none => rfl
      | some bitField2 =>
        dsimp only
        split
        · exact checked_jsobjFastElements func (hwhole elements elts hread) _ (Nat.zero_add _) s _
        next hfast =>
        split
        · next hkind =>
          rw [checked_readHeapDict func
            (h htyped elements elts bitField2 helements hread hlen hbits hfast hkind)]
          rfl
        · rfl

/-- **The checks make no difference** where the arrays fit and have been read as long as they are. -/
theorem checked_jsobjProperties (hlayout : LayoutOk t.cfg)
    (hwhole : ∀ addr arr, t.readHeapArray addr = some arr → arr.elts.length = arr.len)
    {addr : ℕ} (h : ArraysFit t addr) (ncontent : ℕ) (s : σ) (propinfop : ℕ) :
    Checked.jsobjProperties t func ncontent addr s propinfop =
      some (jsobjProperties t addr func s propinfop) := by
  unfold Checked.jsobjProperties jsobjProperties
  dsimp only
  cases hptr : t.readPtr (t.cfg.add addr t.cfg.offJsobjectProperties) with
  | none => rfl
  | some ptr =>
    dsimp only
    -- the checks are in the elements, in the dictionary and in the descriptors
    cases htype : t.readTypebyte ptr with
    | none => rfl
    | some type =>
      dsimp only
      cases hfixed : Target.isType type t.cfg.typeFixedarray with
      | false => rfl
      | true =>
        simp only [Bool.not_true, Bool.false_eq_true, if_false]
        cases hmap : t.readPtr (t.cfg.add addr t.cfg.offHeapobjectMap) with
        | none => rfl
        | some map =>
          have hreached : PropsReached t addr ptr map type := ⟨hptr, htype, hfixed, hmap⟩
          obtain ⟨r, hrun, hok, -⟩ := exists_jsobjElements func (h.elements _ _ _ hreached) s
          have helements := checked_jsobjElements func hwhole (h.elements _ _ _ hreached) s
          obtain rfl : r = jsobjElements t addr map type func s :=
            Option.some.inj (hrun.symm.trans helements)
          dsimp only
          rw [helements]
          cases hr : jsobjElements t addr map type func s with
          | mk ok rest =>
            obtain ⟨s', propinfo⟩ := rest
            rw [hr] at hok
            cases ok with
            | false => rfl
            | true =>
              have hnamed := h.named _ _ _ hreached (hok rfl)
              dsimp only
              cases hdict : jsobjIsDict t map with
              | none => rfl
              | some dict =>
                cases dict with
                | true => exact checked_readHeapDict func (hnamed.dict hdict) _ _
                | false =>
                  dsimp only
                  rw [checked_jsobjDescs hlayout (hnamed.transitions hdict)]
                  cases hdescs : jsobjDescs t addr map ptr with
                  | none => rfl
                  | some r =>
                    obtain ⟨d, flags⟩ := r
                    dsimp only
                    rw [checked_jsobjDescLoop_of_fits func (hnamed.descs hdict d flags hdescs)]
                    generalize jsobjDescLoop t d func d.rndescs.toNat 0 s' (propinfo ||| flags) = last
                    obtain ⟨ok, s'', last⟩ := last
                    cases ok with
                    | false => rfl
                    | true => rfl

end Same

/-! ### Layouts of which all arrays fit -/

section Layouts

variable {t : Target}

theorem two_pow_bits (c : Config) : 2 ^ c.bits = 2 * 2 ^ (c.bits - 1) := by
  unfold Config.bits
  cases c.model with
  | ilp32 => rfl
  | lp64 => rfl

/-- An SMI that has a tag is less than half of the words. -/
theorem smiValue_lt {c : Config} (hsmi : 0 < c.smiShift) {w : ℕ} (h : w < 2 ^ c.bits) :
    c.smiValue w < 2 ^ (c.bits - 1) := by
  rw [Config.smiValue, Nat.shiftRight_eq_div_pow]
  calc w / 2 ^ c.smiShift
      ≤ w / 2 ^ 1 := Nat.div_le_div_left (Nat.pow_le_pow_right two_pos hsmi) (by positivity)
    _ < 2 ^ (c.bits - 1) := Nat.div_lt_of_lt_mul (by rwa [pow_one, ← two_pow_bits])

/-- The length of an array is an SMI. -/
theorem readHeapArray_len_lt (hsmi : 0 < t.cfg.smiShift) {addr : ℕ} {arr : Target.HeapArray}
    (h : t.readHeapArray addr = some arr) : arr.len < 2 ^ (t.cfg.bits - 1) := by
  obtain ⟨w, hw, hlen⟩ := t.readHeapArray_smi h
  rw [hlen]
  exact smiValue_lt hsmi hw

/-- In an array that is less than half of the words, the index of a dictionary does not come to the last
word. -/
theorem dictLoopFits_of_lt {dict : Target.HeapArray} (hlen : dict.len < 2 ^ (t.cfg.bits - 1))
    (hentry : 0 ≤ t.cfg.dictEntrySize ∧ t.cfg.dictEntrySize < 2 ^ (t.cfg.bits - 1)) {fuel i : ℕ}
    (hi : i + 1 < 2 ^ t.cfg.bits) : DictLoopFits t dict fuel i := by
  have hpow := two_pow_bits t.cfg
  obtain ⟨size, hsize⟩ := Int.eq_ofNat_of_zero_le hentry.1
  have hhalf : size < 2 ^ (t.cfg.bits - 1) := by
    rw [hsize] at hentry
    exact_mod_cast hentry.2
  induction fuel generalizing i with
  | zero => trivial
  | succ fuel ih =>
    intro hlt
    -- neither the next index nor that of the next entry goes around
    have hsucc : t.cfg.add i 1 = i + 1 :=
      (t.cfg.add_natCast i 1).trans (Nat.mod_eq_of_lt hi)
    rw [hsucc] at hlt
    have hnext : t.cfg.add i t.cfg.dictEntrySize + 1 < 2 ^ t.cfg.bits := by
      rw [hsize, Config.add_natCast, Nat.mod_eq_of_lt (by omega)]
      omega
    exact ⟨hi.ne, fun _ => ih hnext⟩

/-- A dictionary fits, where an SMI has a tag. -/
theorem dictFits_of_smi (hlayout : LayoutOk t.cfg) (hsmi : 0 < t.cfg.smiShift)
    (hentry : t.cfg.dictEntrySize < 2 ^ (t.cfg.bits - 1)) (addr : ℕ) : DictFits t addr := by
  intro dict hread hsize
  obtain ⟨hstart, hstartlt⟩ := hlayout.indexes t.cfg.dictStartIndex (by simp)
  obtain ⟨hfirst, hfirstlt⟩ := hlayout.indexes t.cfg.dictPrefixSize (by simp)
  have hpow : (2 : ℤ) ^ t.cfg.bits = 2 * 2 ^ (t.cfg.bits - 1) := by
    exact_mod_cast two_pow_bits t.cfg
  refine dictLoopFits_of_lt (readHeapArray_len_lt hsmi hread) ⟨by omega, hentry⟩ ?_
  rw [t.cfg.wrap_of_lt (by omega) (by omega)]
  zify
  rw [Int.toNat_of_nonneg (by omega)]
  omega

/-- Where the details and the values are among the descriptors, and the value of a descriptor is inside of
it, it is inside of the array. -/
theorem descFits_of_value {d : JsobjDescs} {ii : ℕ} (hlayout : LayoutOk t.cfg)
    (hlen : d.content.len < 2 ^ (t.cfg.bits - 1)) (hcontent : t.cfg.propIdxContent = -1)
    (hvalue : t.cfg.propDescValue < t.cfg.propDescSize)
    (hii : ii < (d.content.len - t.cfg.wrap t.cfg.propIdxFirst) / t.cfg.wrap t.cfg.propDescSize) :
    DescFits t d ii := by
  have hpow := two_pow_bits t.cfg
  have hpow' : (2 : ℤ) ^ t.cfg.bits = 2 * 2 ^ (t.cfg.bits - 1) := by exact_mod_cast hpow
  obtain ⟨hfirst, hfirstlt⟩ := hlayout.indexes t.cfg.propIdxFirst (by simp)
  obtain ⟨hval, -⟩ := hlayout.indexes t.cfg.propDescValue (by simp)
  obtain ⟨hsize, hsizelt⟩ := hlayout.descSize
  unfold DescFits descIdx
  rw [if_neg (not_not.mpr hcontent)]
  dsimp only
  intro _ _ _ _ _
  rw [t.cfg.wrap_of_lt hfirst (by omega), t.cfg.wrap_of_lt hsize.le (by omega)] at hii
  obtain ⟨first, hfirsteq⟩ := Int.eq_ofNat_of_zero_le hfirst
  obtain ⟨size, hsizeeq⟩ := Int.eq_ofNat_of_zero_le hsize.le
  obtain ⟨value, hvalueeq⟩ := Int.eq_ofNat_of_zero_le hval
  rw [hfirsteq, hsizeeq, Int.toNat_natCast, Int.toNat_natCast] at hii
  rw [hsizeeq, hvalueeq] at hvalue
  -- the descriptor after this one starts inside the array, or where it ends
  have hinside : first + ii * size + value < d.content.len := by
    have hend : (ii + 1) * size ≤ d.content.len - first :=
      (Nat.le_div_iff_mul_le (by omega)).mp hii
    rw [Nat.succ_mul] at hend
    omega
  rw [hfirsteq, hsizeeq, hvalueeq]
  have hcast : ((first : ℤ) + ii * size + value) = ((first + ii * size + value : ℕ) : ℤ) := by
    push_cast
    ring
  rw [hcast, Config.wrap_natCast _ (by omega)]
  exact hinside

/-- Descriptors that fit, each by itself, fit. -/
theorem descsFit_of_forall {d : JsobjDescs} {n ii : ℕ} (h : ∀ k < ii + n, DescFits t d k) :
    DescsFit t d n ii := by
  induction n generalizing ii with
  | zero => trivial
  | succ n ih => exact ⟨h ii (by omega), fun _ => ih fun k hk => h k (by omega)⟩

/-- **The layout of V8 since 3.0**: with no separate array of contents, the value of a descriptor inside of
it and the descriptors where a Map says, the subscripts fit in every memory. -/
theorem subscriptsFit_of_layout (hlayout : LayoutOk t.cfg) (hsmi : 0 < t.cfg.smiShift)
    (hentry : t.cfg.dictEntrySize < 2 ^ (t.cfg.bits - 1))
    (hmap : t.cfg.offMapInstanceDescriptors ≠ -1) (hcontent : t.cfg.propIdxContent = -1)
    (hvalue : t.cfg.propDescValue < t.cfg.propDescSize) (addr : ℕ) : SubscriptsFit t addr := by
  have hdict := dictFits_of_smi hlayout hsmi hentry
  refine subscriptsFit_of_arraysFit hlayout ⟨fun _ _ _ _ => ?_, fun ptr map _ _ _ => ⟨?_, ?_, ?_⟩⟩
  · exact fun _ elements _ _ _ _ _ _ _ _ => hdict elements
  · exact fun _ => hdict ptr
  · exact fun _ _ _ habsent => absurd habsent hmap
  · intro _ d flags hdescs _
    obtain ⟨⟨descsAddr, hread⟩, info, hrest⟩ := descsContent_of_jsobjDescs hdescs
    unfold descsContent at hrest
    dsimp only at hrest
    rw [if_pos hcontent] at hrest
    -- the contents are the descriptors, and there are as many as fit
    obtain ⟨hsame, hrn⟩ := Prod.ext_iff.mp (Option.some.inj hrest)
    replace hsame : d.descs = d.content := hsame
    replace hrn := congrArg Prod.fst hrn
    dsimp only at hrn
    rw [hsame] at hread hrn
    refine ⟨.inl hcontent, descsFit_of_forall fun k hk =>
      descFits_of_value hlayout (readHeapArray_len_lt hsmi hread) hcontent hvalue ?_⟩
    rw [← hrn] at hk
    split at hk
    · simpa only [Int.toNat_natCast, Nat.zero_add] using hk
    · simp at hk

end Layouts

end MdbV8
