import MdbV8.Functions.Maybesmi
import MdbV8.Objects.Properties

/-!
# Layout descriptors

On 64-bit targets a property that is stored in an object itself may be an unboxed `double`. Which of
them are is a vector of bits in the Map of the object, the layout descriptor. Zeros at its end are not
stored, and it is a small integer or an array of 32-bit words. `jsobjLayoutLoad` reads it, and
`jsobjLayoutUntagged` looks up the bit of a property.

Here the vector is stated for itself (`bitAt`), with what does not change it (`bitAt_trimWords`), and
the lookup once more, with what it asserts and what it reads (`untaggedRun`). The number of the word is
an `int`, so that the index of a property is reduced modulo `2 ^ 37` on the way
(`jsobjLayoutUntagged_eq_bitAt`). The lookup is right iff that finds no other bit that is set
(`untaggedExact_iff`), and so it is for every index that `jsobj_properties` passes
(`untaggedExact_passed`).
-/

namespace MdbV8

/-! ### Vectors of bits -/

/-- The bit at an index of a vector that is stored as words of 32 bits. There are zeros behind the last
word. -/
def bitAt (words : List ℕ) (k : ℕ) : Bool := (words.getD (k / 32) 0).testBit (k % 32)

/-- The words without the zeros at the end. -/
def trimWords (words : List ℕ) : List ℕ := words.rdropWhile (· == 0)

theorem bitAt_concat_zero (words : List ℕ) (k : ℕ) : bitAt (words ++ [0]) k = bitAt words k := by
  have hword : (words ++ [0]).getD (k / 32) 0 = words.getD (k / 32) 0 := by
    rw [List.getD_eq_getElem?_getD, List.getD_eq_getElem?_getD]
    rcases Nat.lt_trichotomy (k / 32) words.length with hlt | heq | hgt
    · rw [List.getElem?_append_left hlt]
    · -- the word that has been added
      rw [heq, List.getElem?_append_right le_rfl, Nat.sub_self, List.getElem?_eq_none le_rfl]
      rfl
    · rw [List.getElem?_eq_none hgt.le, List.getElem?_eq_none]
      rw [List.length_append, List.length_singleton]
      exact hgt
  rw [bitAt, hword, bitAt]

/-- **Zeros at the end do not change the vector.** -/
theorem bitAt_trimWords (words : List ℕ) (k : ℕ) : bitAt (trimWords words) k = bitAt words k := by
  induction words using List.reverseRecOn with
  | nil => rfl
  | append_singleton words word ih =>
    rw [trimWords, List.rdropWhile_concat]
    split
    · next hzero =>
      rw [eq_of_beq hzero, bitAt_concat_zero]
      exact ih
    · rfl

theorem bitAt_eq_of_trimWords {words words' : List ℕ} (h : trimWords words' = trimWords words)
    (k : ℕ) : bitAt words' k = bitAt words k := by
  rw [← bitAt_trimWords words', h, bitAt_trimWords]

theorem bitAt_of_le {words : List ℕ} {k : ℕ} (h : words.length ≤ k / 32) : bitAt words k = false := by
  rw [bitAt, List.getD_eq_getElem?_getD, List.getElem?_eq_none h]
  exact Nat.zero_testBit _

/-! ### The lookup -/

/-- What a lookup does: the conditions that it asserts, the subscripts that it applies to the array of
words, and what it returns. -/
structure UntaggedRun where
  asserts : List Bool
  reads : List ℤ
  rv : Bool
  deriving DecidableEq, Repr

/-- `jsobj_layout_untagged`, with what it asserts and reads. The mask is an `int`, and is converted to
an unsigned one. -/
def untaggedRun (c : Config) (layout : JsobjLayout) (propidx : ℕ) : UntaggedRun :=
  if !layout.haslayout then ⟨[], [], false⟩
  else if layout.alltagged then ⟨[], [], false⟩
  else
    let normalized := layout.array || layout.length == 1
    let whichword := toInt32 (propidx / 32)
    let whichbit := propidx % 32
    if c.wrap whichword ≥ layout.length then ⟨[normalized], [], false⟩
    else
      let word := layout.bitvecs.getD whichword.toNat 0
      let mask := toInt32 (1 <<< whichbit)
      ⟨[normalized, whichword < jlMaxbitvecs], [whichword],
        (mask % 2 ^ 32).toNat &&& word != 0⟩

/-- A bit of a word, looked up with a mask. -/
theorem mask_and (word : ℕ) {i : ℕ} (hi : i < 32) :
    (((toInt32 (1 <<< i)) % 2 ^ 32).toNat &&& word != 0) = word.testBit i := by
  have hmask : ((toInt32 (1 <<< i)) % 2 ^ 32).toNat = 2 ^ i := by
    have hlt : 2 ^ i < 2 ^ 32 := Nat.pow_lt_pow_right (by decide) hi
    rw [Nat.one_shiftLeft]
    generalize 2 ^ i = mask at hlt ⊢
    -- the mask of the last bit is negative
    unfold toInt32
    rw [Nat.mod_eq_of_lt hlt]
    split <;> omega
  rw [hmask, Nat.and_comm, Nat.and_two_pow]
  cases word.testBit i
  · simp
  · simp

/-- The number of a word of an index, as an `int`. -/
theorem toInt32_word (c : Config) (hmodel : c.model = .lp64) (k : ℕ) :
    (toInt32 (k / 32) = (k % 2 ^ 37 / 32 : ℕ) ∧ c.wrap (toInt32 (k / 32)) = k % 2 ^ 37 / 32) ∨
      2 ^ 31 ≤ k % 2 ^ 37 / 32 ∧ 2 ^ 31 ≤ c.wrap (toInt32 (k / 32)) := by
  have hbits : c.bits = 64 := by
    rw [Config.bits, hmodel]
    rfl
  have hmod : k / 32 % 2 ^ 32 = k % 2 ^ 37 / 32 := by omega
  unfold toInt32 Config.wrap
  rw [hmod, hbits]
  split
  · exact .inl ⟨rfl, by omega⟩
  · exact .inr ⟨by omega, by omega⟩

/-! ### What is stored -/

section Layout

variable (t : Target)

/-- The vector of bits that the layout descriptor of a Map stands for: a small integer of 32 bits, or
an array of at most eight words. -/
inductive StoresLayout (map : ℕ) : List ℕ → Prop
  | smi {descriptor : ℕ} : t.cfg.offMapLayoutDescriptor ≠ -1 →
    t.readHeapPtr map t.cfg.offMapLayoutDescriptor = some descriptor → t.cfg.isSmi descriptor = true →
    StoresLayout map [t.cfg.smiValue descriptor % 2 ^ 32]
  | array {descriptor length : ℕ} {off : ℤ} {bs : List UInt8} :
    t.cfg.offMapLayoutDescriptor ≠ -1 →
    t.readHeapPtr map t.cfg.offMapLayoutDescriptor = some descriptor →
    t.cfg.isSmi descriptor = false →
    t.cfg.heapOffset "FixedTypedArrayBase" "base_pointer" = some off →
    t.readHeapSmi descriptor t.cfg.offFixedarrayLength = some length → length ≤ 8 →
    t.mdbVread (length * 4)
      (t.cfg.wrap (t.cfg.offHeap (descriptor + layoutDataOffset t.cfg off))) = some bs →
    StoresLayout map (Target.wordsOf 4 bs)

/-- A Map stores one vector. -/
theorem StoresLayout.unique {t : Target} {map : ℕ} {words words' : List ℕ}
    (h : StoresLayout t map words) (h' : StoresLayout t map words') : words = words' := by
  cases h with
  | smi _ hdesc hsmi =>
    cases h' with
    | smi _ hdesc' _ => rw [Option.some.inj (hdesc.symm.trans hdesc')]
    | array _ hdesc' hsmi' =>
      obtain rfl := Option.some.inj (hdesc.symm.trans hdesc')
      exact absurd (hsmi'.symm.trans hsmi) Bool.false_ne_true
  | array _ hdesc hsmi hbase hlength _ hread =>
    cases h' with
    | smi _ hdesc' hsmi' =>
      obtain rfl := Option.some.inj (hdesc.symm.trans hdesc')
      exact absurd (hsmi.symm.trans hsmi') Bool.false_ne_true
    | array _ hdesc' _ hbase' hlength' _ hread' =>
      obtain rfl := Option.some.inj (hdesc.symm.trans hdesc')
      obtain rfl := Option.some.inj (hbase.symm.trans hbase')
      obtain rfl := Option.some.inj (hlength.symm.trans hlength')
      rw [Option.some.inj (hread.symm.trans hread')]

/-- What is loaded for a vector of bits. -/
structure LoadedLayout (words : List ℕ) (layout : JsobjLayout) : Prop where
  haslayout : layout.haslayout = true
  alltagged : layout.alltagged = true → words = [0]
  normalized : (layout.array || layout.length == 1) = true
  length : layout.length = words.length
  length_le : words.length ≤ 8
  bitvecs : layout.bitvecs = words

variable {t}

/-- **What `jsobjLayoutLoad` loads**: the words, if they can be read, and nothing otherwise. -/
theorem jsobjLayoutLoad_spec (hmodel : t.cfg.model = .lp64)
    (hoff : t.cfg.offMapLayoutDescriptor ≠ -1) (map : ℕ) :
    (∃ words layout, StoresLayout t map words ∧ LoadedLayout words layout ∧
        jsobjLayoutLoad t map = some layout) ∨
      (∀ words, ¬ StoresLayout t map words) ∧ jsobjLayoutLoad t map = none := by
  unfold jsobjLayoutLoad
  simp only [hmodel, if_neg hoff]
  split
  · next hnone =>
    refine .inr ⟨fun words hstores => ?_, rfl⟩
    cases hstores <;> simp_all
  next descriptor hdesc =>
  split
  · -- a smi is a single word of bits
    next hsmi =>
    refine .inl ⟨_, _, .smi hoff hdesc hsmi, ⟨rfl, fun hzero => ?_, rfl, rfl, ?_, rfl⟩, rfl⟩
    · rw [eq_of_beq hzero]
    · exact Nat.le_of_ble_eq_true rfl
  next hsmi =>
  rw [Bool.not_eq_true] at hsmi
  split
  · next hnone =>
    refine .inr ⟨fun words hstores => ?_, rfl⟩
    cases hstores <;> simp_all
  next off hbase =>
  -- an array has a length, which is limited to eight words
  split
  · next hnone =>
    refine .inr ⟨fun words hstores => ?_, rfl⟩
    cases hstores <;> simp_all
  next length hlength =>
  split
  · next hlong =>
    refine .inr ⟨fun words hstores => ?_, rfl⟩
    cases hstores with
    | smi _ hdesc' hsmi' => simp_all
    | array _ hdesc' _ _ hlength' hle _ =>
      obtain rfl := Option.some.inj (hdesc.symm.trans hdesc')
      obtain rfl := Option.some.inj (hlength.symm.trans hlength')
      exact absurd hle (Nat.not_le.mpr hlong)
  next hshort =>
  -- the words of the array are read at once
  cases hread : t.mdbVread (length * 4)
      (t.cfg.wrap (t.cfg.offHeap (descriptor + layoutDataOffset t.cfg off))) with
  | none =>
    refine .inr ⟨fun words hstores => ?_, rfl⟩
    cases hstores <;> simp_all
  | some bs =>
    have hle : length ≤ 8 := Nat.not_lt.mp hshort
    have hlen : (Target.wordsOf 4 bs).length = length := by
      rw [Target.wordsOf_length, Target.mdbVread_length hread, Nat.mul_div_cancel _ (by decide)]
    refine .inl ⟨_, _, .array hoff hdesc hsmi hbase hlength hle hread, ?_, rfl⟩
    exact ⟨rfl, fun hall => absurd hall Bool.false_ne_true, rfl, hlen.symm, hlen ▸ hle, rfl⟩

/-! ### When the lookup is right -/

/-- A Map whose layout descriptor can be loaded, and the index of a property: the lookup gives the bit
of the vector, for every other Map that stores the same vector too, with or without the shortcut, and it
reads no word but those that have been loaded, and what it asserts is true. -/
structure UntaggedExact (t : Target) (map : ℕ) (words : List ℕ) (k : ℕ) : Prop where
  rv_eq : ∀ layout, jsobjLayoutLoad t map = some layout →
    jsobjLayoutUntagged t.cfg layout k = bitAt words k
  rv_congr : ∀ (map' : ℕ) (words' : List ℕ) (layout layout' : JsobjLayout),
    StoresLayout t map' words' → trimWords words' = trimWords words →
    jsobjLayoutLoad t map = some layout → jsobjLayoutLoad t map' = some layout' →
    jsobjLayoutUntagged t.cfg layout' k = jsobjLayoutUntagged t.cfg layout k
  shortcut : ∀ layout, jsobjLayoutLoad t map = some layout → layout.alltagged = true →
    jsobjLayoutUntagged t.cfg { layout with alltagged := false } k =
      jsobjLayoutUntagged t.cfg layout k
  reads : ∀ layout, jsobjLayoutLoad t map = some layout →
    ∀ i ∈ (untaggedRun t.cfg layout k).reads, 0 ≤ i ∧ i < words.length
  asserts : ∀ layout, jsobjLayoutLoad t map = some layout →
    ∀ b ∈ (untaggedRun t.cfg layout k).asserts, b = true

variable {words : List ℕ} {layout : JsobjLayout}

theorem toNat_of_word_lt (hmodel : t.cfg.model = .lp64) {k n : ℕ} (hn : n ≤ 2 ^ 31)
    (h : t.cfg.wrap (toInt32 (k / 32)) < n) :
    toInt32 (k / 32) = (k % 2 ^ 37 / 32 : ℕ) ∧
      t.cfg.wrap (toInt32 (k / 32)) = k % 2 ^ 37 / 32 := by
  rcases toInt32_word t.cfg hmodel k with heq | ⟨-, hle⟩
  · exact heq
  · omega

/-- The lookup as it is modelled elsewhere returns the same. -/
theorem untaggedRun_rv (hmodel : t.cfg.model = .lp64) (hload : LoadedLayout words layout) (k : ℕ) :
    (untaggedRun t.cfg layout k).rv = jsobjLayoutUntagged t.cfg layout k := by
  unfold untaggedRun jsobjLayoutUntagged
  rw [hload.haslayout]
  cases layout.alltagged with
  | true => rfl
  | false =>
    simp only [Bool.not_true, Bool.or_false, Bool.false_eq_true, if_false]
    split
    · rfl
    · next hlt =>
      have hle : layout.length ≤ 2 ^ 31 := by
        rw [hload.length]
        exact hload.length_le.trans (by decide)
      obtain ⟨hword, hwrap⟩ := toNat_of_word_lt hmodel hle (Nat.not_le.mp hlt)
      dsimp only
      rw [mask_and _ (Nat.mod_lt _ (by decide)), hwrap, hword, Int.toNat_natCast]

/-- **What the lookup returns**: the bit at the index that is left when the number of the word has been
converted to an `int`. -/
theorem jsobjLayoutUntagged_eq_bitAt (hmodel : t.cfg.model = .lp64)
    (hload : LoadedLayout words layout) (k : ℕ) :
    jsobjLayoutUntagged t.cfg layout k = bitAt words (k % 2 ^ 37) := by
  unfold jsobjLayoutUntagged
  rw [hload.haslayout]
  cases hall : layout.alltagged with
  | true =>
    obtain rfl := hload.alltagged hall
    simp only [Bool.or_true, if_true]
    rw [← List.nil_append [0], bitAt_concat_zero]
    exact (bitAt_of_le (Nat.zero_le _)).symm
  | false =>
    simp only [Bool.not_true, Bool.or_false, Bool.false_eq_true, if_false]
    rw [hload.length, hload.bitvecs]
    have hlen := hload.length_le
    split
    · -- the word is behind the last one that has been loaded
      next hge =>
      refine (bitAt_of_le ?_).symm
      rcases toInt32_word t.cfg hmodel k with ⟨-, hwrap⟩ | ⟨hle, -⟩
      · rwa [← hwrap]
      · omega
    · -- the bit is in one of the words
      next hlt =>
      obtain ⟨-, hwrap⟩ := toNat_of_word_lt hmodel (hlen.trans (by decide)) (Nat.not_le.mp hlt)
      have hbit : k % 2 ^ 37 % 32 = k % 32 := Nat.mod_mod_of_dvd k (by decide)
      rw [bitAt, hwrap, hbit]

/-- What the lookup asserts is true, and the words that it reads have been loaded. -/
theorem untaggedRun_safe (hmodel : t.cfg.model = .lp64) (hload : LoadedLayout words layout) (k : ℕ) :
    (∀ i ∈ (untaggedRun t.cfg layout k).reads, 0 ≤ i ∧ i < words.length) ∧
      ∀ b ∈ (untaggedRun t.cfg layout k).asserts, b = true := by
  have hlen := hload.length_le
  unfold untaggedRun
  simp only [hload.haslayout, hload.normalized, Bool.not_true, Bool.false_eq_true, if_false]
  split
  · exact ⟨fun _ h => absurd h List.not_mem_nil, fun _ h => absurd h List.not_mem_nil⟩
  split
  · exact ⟨fun _ h => absurd h List.not_mem_nil, fun b h => List.mem_singleton.mp h⟩
  · next hlt =>
    rw [hload.length] at hlt
    obtain ⟨hword, hwrap⟩ := toNat_of_word_lt hmodel (hlen.trans (by decide)) (Nat.not_le.mp hlt)
    -- the word is one of those that have been loaded
    have hstored : k % 2 ^ 37 / 32 < words.length := by omega
    constructor
    · intro i hi
      obtain rfl := List.mem_singleton.mp hi
      rw [hword]
      exact ⟨Int.natCast_nonneg _, Int.ofNat_lt.mpr hstored⟩
    · intro b hb
      rcases List.mem_cons.mp hb with rfl | hb
      · rfl
      · rw [List.mem_singleton.mp hb, hword]
        exact decide_eq_true (Int.ofNat_lt.mpr (hstored.trans_le hlen))

/-- The words that a Map stores are those that are loaded. -/
theorem StoresLayout.loaded (hmodel : t.cfg.model = .lp64) {map : ℕ} (h : StoresLayout t map words) :
    ∃ layout, jsobjLayoutLoad t map = some layout ∧ LoadedLayout words layout := by
  have hoff : t.cfg.offMapLayoutDescriptor ≠ -1 := by cases h <;> assumption
  rcases jsobjLayoutLoad_spec hmodel hoff map with ⟨words', layout, hstores, hload, heq⟩ | ⟨hnone, -⟩
  · obtain rfl := h.unique hstores
    exact ⟨layout, heq, hload⟩
  · exact absurd h (hnone words)

/-- **When the lookup is right**: if the index of the property has no more than 37 bits, or the bit that
the rest of it leaves is not set. -/
theorem untaggedExact_iff (hmodel : t.cfg.model = .lp64) {map k : ℕ} (h : StoresLayout t map words) :
    UntaggedExact t map words k ↔ k < 2 ^ 37 ∨ bitAt words (k % 2 ^ 37) = false := by
  obtain ⟨layout, heq, hload⟩ := h.loaded hmodel
  have hrv := jsobjLayoutUntagged_eq_bitAt hmodel hload k
  have hlen := hload.length_le
  have hsame : ∀ layout', jsobjLayoutLoad t map = some layout' → layout' = layout := fun layout' h' =>
    Option.some.inj (h'.symm.trans heq)
  constructor
  · intro hexact
    rcases Nat.lt_or_ge k (2 ^ 37) with hlt | hge
    · exact .inl hlt
    · -- there is no word for the index
      rw [← hrv, hexact.rv_eq layout heq]
      exact .inr (bitAt_of_le (by omega))
  · intro hcond
    obtain ⟨hreads, hasserts⟩ := untaggedRun_safe hmodel hload k
    refine ⟨fun layout' h' => ?_, fun map' words' layout' layout'' hstores htrim h' h'' => ?_,
      fun layout' h' hall => ?_, fun layout' h' => ?_, fun layout' h' => ?_⟩
    · rw [hsame layout' h', hrv]
      rcases hcond with hlt | hzero
      · rw [Nat.mod_eq_of_lt hlt]
      · rcases Nat.lt_or_ge k (2 ^ 37) with hlt | hge
        · rw [Nat.mod_eq_of_lt hlt]
        · rw [hzero]
          exact (bitAt_of_le (by omega)).symm
    · obtain ⟨layout₂, heq₂, hload₂⟩ := hstores.loaded hmodel
      obtain rfl := Option.some.inj (h''.symm.trans heq₂)
      rw [hsame layout' h', hrv, jsobjLayoutUntagged_eq_bitAt hmodel hload₂]
      exact bitAt_eq_of_trimWords htrim _
    · obtain rfl := hsame layout' h'
      have hfull : LoadedLayout words { layout' with alltagged := false } :=
        ⟨hload.haslayout, fun hfalse => absurd hfalse Bool.false_ne_true, hload.normalized,
          hload.length, hload.length_le, hload.bitvecs⟩
      rw [hrv, jsobjLayoutUntagged_eq_bitAt hmodel hfull]
    · obtain rfl := hsame layout' h'
      exact hreads
    · obtain rfl := hsame layout' h'
      exact hasserts

/-! ### The indexes that are looked up -/

/-- **The indexes that `jsobj_properties` passes** for the objects of a Map: those that the descriptors
say, from the details or from the value of each, less the properties inside of the object. -/
def PassedIndex (t : Target) (map k : ℕ) : Prop :=
  ∃ (addr ptr ii : ℕ) (d : JsobjDescs) (flags : ℕ) (place : PropPlace),
    jsobjDescs t addr map ptr = some (d, flags) ∧
      propPlace t.cfg d (d.content.get (descIdx t.cfg ii).2.2) (d.content.get (descIdx t.cfg ii).2.1) =
        some place ∧
      k = t.cfg.wrap place.propidx

/-- The words of the descriptors, and the number of the properties inside of an object. -/
theorem jsobjDescs_bounds {addr map ptr flags : ℕ} {d : JsobjDescs}
    (h : jsobjDescs t addr map ptr = some (d, flags)) :
    (∀ i, d.content.get i < 2 ^ t.cfg.bits) ∧ d.ninprops < 256 := by
  unfold jsobjDescs at h
  split at h
  · cases h
  split at h
  · cases h
  split at h
  · cases h
  next descs hdescs =>
  dsimp only at h
  split at h
  · cases h
  next ninprops hninprops =>
  split at h
  · cases h
  next content rndescs contentInfo hcontent =>
  obtain ⟨layout, -, heq⟩ := Option.map_eq_some_iff.mp h
  obtain ⟨rfl, -⟩ := Prod.mk.inj heq
  refine ⟨fun i => ?_, Target.readByte_lt hninprops⟩
  dsimp only
  -- the descriptors themselves, an array of their own, or nothing
  unfold descsContent at hcontent
  dsimp only at hcontent
  split at hcontent
  · obtain ⟨rfl, -⟩ := Prod.mk.inj (Option.some.inj hcontent)
    exact t.readHeapArray_get_lt hdescs i
  · split at hcontent
    · obtain ⟨arr, harr, heq'⟩ := Option.map_eq_some_iff.mp hcontent
      obtain ⟨rfl, -⟩ := Prod.mk.inj heq'
      exact t.readHeapArray_get_lt harr i
    · obtain ⟨rfl, -⟩ := Prod.mk.inj (Option.some.inj hcontent)
      exact Nat.two_pow_pos _

/-- **These indexes come from small integers**, and so they are small themselves, or negative. -/
theorem PassedIndex.bounds (hmodel : t.cfg.model = .lp64) (hsmi : t.cfg.V8Smis) {map k : ℕ}
    (h : PassedIndex t map k) :
    ∃ propidx : ℤ, k = t.cfg.wrap propidx ∧ -2 ^ 36 ≤ propidx ∧ propidx < 2 ^ 37 := by
  obtain ⟨addr, ptr, ii, d, flags, place, hdescs, hplace, rfl⟩ := h
  obtain ⟨hwords, hninprops⟩ := jsobjDescs_bounds hdescs
  have hbits : t.cfg.bits = 64 := by
    rw [Config.bits, hmodel]
    rfl
  have hshift : t.cfg.smiShift = 32 := by
    rw [hsmi.shift, hmodel]
  -- what a word is decoded to
  have hdecoded : ∀ w < 2 ^ t.cfg.bits, t.cfg.smiValue w < 2 ^ 32 := by
    intro w hw
    rw [Config.smiValue, hshift, Nat.shiftRight_eq_div_pow]
    rw [hbits] at hw
    omega
  refine ⟨place.propidx, rfl, ?_⟩
  have hdetails := hdecoded _ (hwords (descIdx t.cfg ii).2.2)
  have hvalue := hwords (descIdx t.cfg ii).2.1
  generalize d.content.get (descIdx t.cfg ii).2.2 = details at hplace hdetails
  generalize d.content.get (descIdx t.cfg ii).2.1 = value at hplace hvalue
  have hfield : propFieldindex t.cfg details < 2 ^ 32 := by
    unfold propFieldindex
    rw [Nat.shiftRight_eq_div_pow]
    exact ((Nat.div_le_self _ _).trans Nat.and_le_left).trans_lt hdetails
  unfold propPlace at hplace
  split at hplace
  · -- since V8 3.26 the index is a part of the details
    have hsigned : t.cfg.toSigned (propFieldindex t.cfg details) = propFieldindex t.cfg details := by
      unfold Config.toSigned
      rw [hbits, if_pos (by omega)]
    dsimp only at hplace
    rw [hsigned] at hplace
    split at hplace
    · obtain rfl := Option.some.inj hplace
      dsimp only
      omega
    · obtain rfl := Option.some.inj hplace
      dsimp only
      omega
  · -- before, the value is the index, counted from the end of the object
    have hsigned : -2 ^ 31 ≤ t.cfg.smiValueSigned value ∧ t.cfg.smiValueSigned value < 2 ^ 31 := by
      unfold Config.smiValueSigned Config.toSigned
      rw [hshift, hbits, Int.shiftRight_eq_div_pow]
      rw [hbits] at hvalue
      split <;> omega
    split at hplace
    · cases hplace
    · dsimp only at hplace
      split at hplace
      · obtain rfl := Option.some.inj hplace
        dsimp only
        omega
      · obtain rfl := Option.some.inj hplace
        dsimp only
        omega

/-- **The lookup is right for every index that `jsobj_properties` passes.** -/
theorem untaggedExact_passed (hmodel : t.cfg.model = .lp64) (hsmi : t.cfg.V8Smis) {map k : ℕ}
    (h : StoresLayout t map words) (hpassed : PassedIndex t map k) : UntaggedExact t map words k := by
  obtain ⟨propidx, rfl, hlow, hhigh⟩ := hpassed.bounds hmodel hsmi
  obtain ⟨_, -, hload⟩ := h.loaded hmodel
  have hlen := hload.length_le
  have hbits : t.cfg.bits = 64 := by
    rw [Config.bits, hmodel]
    rfl
  refine (untaggedExact_iff hmodel h).mpr ?_
  unfold Config.wrap
  rw [hbits]
  rcases Int.lt_or_le propidx 0 with hneg | hpos
  · exact .inr (bitAt_of_le (by omega))
  · exact .inl (by omega)

end Layout

/-- A Map at `0x1001` whose layout descriptor is the small integer one: the first property is a `double`.
Its only descriptor is that of this property. -/
def layoutTarget : Target :=
  Target.ofWords { Config.sample .lp64 with offMapLayoutDescriptor := 47 }
    [(0x1008, 0x0104), (0x1028, 0x3001), (0x1030, 1 <<< 32), (0x4010, 0xa3),
      -- the descriptors, and the properties outside of the object
      (0x3000, 0x4001), (0x3008, 6 <<< 32), (0x3010, 0), (0x3018, 0), (0x3020, 0), (0x3028, 0),
      (0x3030, 1 <<< 32), (0x3038, 1 <<< 32), (0x5000, 0x4001), (0x5008, 1 <<< 32), (0x5010, 0)]

theorem layoutTarget_stores : StoresLayout layoutTarget 0x1001 [1] :=
  @StoresLayout.smi layoutTarget 0x1001 (1 <<< 32) (by decide) (by decide +kernel) (by decide)

theorem layoutTarget_passes : PassedIndex layoutTarget 0x1001 0 := by
  have hplace : ((jsobjDescs layoutTarget 0x6001 0x1001 0x5001).bind fun r =>
      propPlace layoutTarget.cfg r.1 (r.1.content.get (descIdx layoutTarget.cfg 0).2.2)
        (r.1.content.get (descIdx layoutTarget.cfg 0).2.1)) =
      some { propidx := 0, proparrayidx := 0 } := by
    decide +kernel
  obtain ⟨⟨d, flags⟩, hdescs, hplace⟩ := Option.bind_eq_some_iff.mp hplace
  exact ⟨0x6001, 0x5001, 0, d, flags, _, hdescs, hplace, by decide⟩

/-- The lookup is right for the first property. -/
theorem untaggedExact_passed_first : UntaggedExact layoutTarget 0x1001 [1] 0 :=
  untaggedExact_passed rfl ⟨rfl, rfl, rfl⟩ layoutTarget_stores layoutTarget_passes

/-- It is not for one that is `2 ^ 37` further on. -/
theorem not_untaggedExact_far : ¬ UntaggedExact layoutTarget 0x1001 [1] (2 ^ 37) := by
  intro hexact
  have hload : jsobjLayoutLoad layoutTarget 0x1001 =
      some { haslayout := true, length := 1, bitvecs := [1] } := by decide +kernel
  have hrv := hexact.rv_eq _ hload
  exact absurd hrv (by decide)

end MdbV8
