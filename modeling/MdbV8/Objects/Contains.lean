import MdbV8.Objects.Properties
import MdbV8.Strings.V8String
import MdbV8.Arrays.FixedArray

/-!
# The extent of an object

`v8contains` of `mdb_v8_subr.c` decides whether an address lies inside a heap object, by the size of
the object. For an object with properties stored in it, that size is the instance size in its Map,
and `jsobjProperties` finds the properties by counting back from there (`inobjectSlot`). `v8contains`
adds them to the instance size once more, so that it also finds addresses behind the object
(`extentsAgree_iff`).
-/

namespace MdbV8

/-- `v8contains`, with `*containsp` where it returns zero. -/
def v8contains (t : Target) (addr type target : ℕ) : Option Bool :=
  let c := t.cfg
  if c.typeString type && c.strrepSeq type then
    (v8stringLoad t addr).map fun strp =>
      let size := if c.strencAscii type then c.offSeqasciistrChars + strp.len
        else c.offSeqtwobytestrChars + 2 * strp.len
      target < c.add addr size
  else if Target.isType type c.typeFixedarray then
    (v8fixedarrayLoad t addr).map fun arrayp =>
      target < c.add addr (c.offFixedarrayData + (v8fixedarrayLength arrayp * c.ptrSize : ℕ))
  else
    match t.readSize addr with
    | none => none
    | some size =>
      if Target.isType type c.typeJsobject then
        match t.readPtr (c.add addr c.offHeapobjectMap) with
        | none => none
        | some map =>
          match t.readByte (c.add map c.offMapInobjectProperties) with
          | none => none
          | some ninprops => some (target < c.add addr (size + ninprops * c.ptrSize : ℕ))
      else some (target < c.add addr size)

/-! ### Properties stored in the object -/

/-- The address of a property stored in an object: the last one ends where the object does. -/
def inobjectSlot (c : Config) (addr size ninprops i : ℕ) : ℕ :=
  c.wrap (addr + c.offHeap (size - (ninprops - i : ℤ) * c.ptrSize))

/-- `jsobjProperties` reads a property stored in the object at its slot. -/
theorem propPlace_inobject {c : Config} {d : JsobjDescs} {details value i : ℕ} {place : PropPlace}
    (hplace : propPlace c d details value = some place) (hi : i < d.ninprops)
    (hidx : if fieldindexInDetails c then c.toSigned (propFieldindex c details) = i
      else c.smiValueSigned value = i) :
    place.propaddr = inobjectSlot c d.addr d.size d.ninprops i := by
  unfold propPlace at hplace
  by_cases hdetails : fieldindexInDetails c
  · rw [if_pos hdetails] at hplace hidx
    rw [hidx] at hplace
    dsimp only at hplace
    rw [if_pos (by exact_mod_cast hi)] at hplace
    obtain rfl := Option.some.inj hplace
    rfl
  · rw [if_neg hdetails] at hplace hidx
    rw [hidx] at hplace
    dsimp only at hplace
    -- the value is the number of the slot
    split at hplace
    · exact absurd hplace (by simp)
    · rw [if_pos (by omega)] at hplace
      obtain rfl := Option.some.inj hplace
      unfold inobjectSlot
      dsimp only
      congr 3
      ring

/-- What a JSObject's Map says about its extent. -/
structure JsobjExtent (t : Target) (addr type size ninprops : ℕ) : Prop where
  addr_lt : addr < 2 ^ t.cfg.bits
  /-- The type is that of a JSObject, and of nothing else. -/
  jsobject : Target.isType type t.cfg.typeJsobject = true
  not_string : (t.cfg.typeString type && t.cfg.strrepSeq type) = false
  not_fixedarray : Target.isType type t.cfg.typeFixedarray = false
  /-- The Map records its instance sizes in words. -/
  pointerSize : 2 ^ t.cfg.pointerSizeLog2.toNat = t.cfg.ptrSize
  read_size : t.readSize addr = some size
  read_ninprops : ∃ map, t.readPtr (t.cfg.add addr t.cfg.offHeapobjectMap) = some map ∧
    t.readByte (t.cfg.add map t.cfg.offMapInobjectProperties) = some ninprops
  /-- The properties stored in the object end where it does. -/
  slots : ninprops * t.cfg.ptrSize ≤ size

/-- `v8contains` finds an address in a JSObject exactly if it lies before its end: so the properties
stored in the object are found, and the word behind the last of them is not. -/
def ExtentsAgree (t : Target) (addr type size ninprops : ℕ) : Prop :=
  (∀ target, addr ≤ target → target < 2 ^ t.cfg.bits → (target - addr) % t.cfg.ptrSize = 0 →
    v8contains t addr type target = some (decide (target < addr + size))) ∧
  (∀ i < ninprops, v8contains t addr type
    (t.cfg.add (inobjectSlot t.cfg addr size ninprops i) t.cfg.heapObjectTag) = some true) ∧
  (addr + size < 2 ^ t.cfg.bits → v8contains t addr type (addr + size) = some false)

namespace JsobjExtent

variable {t : Target} {addr type size ninprops : ℕ}

/-- The answer of `v8contains` for a JSObject. -/
theorem v8contains_eq (h : JsobjExtent t addr type size ninprops) (target : ℕ) :
    v8contains t addr type target =
      some (decide (target < (addr + (size + ninprops * t.cfg.ptrSize)) % 2 ^ t.cfg.bits)) := by
  obtain ⟨map, hmap, hninprops⟩ := h.read_ninprops
  unfold v8contains
  simp only [h.not_string, h.not_fixedarray, h.read_size, h.jsobject, hmap, hninprops, if_true,
    Bool.false_eq_true, if_false]
  rw [Config.add_natCast]

/-- The instance size is a number of words that fits a byte. -/
theorem exists_size_eq (h : JsobjExtent t addr type size ninprops) :
    ∃ words < 256, size = words * t.cfg.ptrSize := by
  have hsize := h.read_size
  unfold Target.readSize at hsize
  split at hsize
  · cases hsize
  · split at hsize
    · obtain ⟨words, hwords, rfl⟩ := Option.map_eq_some_iff.mp hsize
      refine ⟨words, Target.readByte_lt hwords, ?_⟩
      rw [Nat.shiftLeft_eq, h.pointerSize]
    · cases hsize

theorem ninprops_lt (h : JsobjExtent t addr type size ninprops) : ninprops < 256 := by
  obtain ⟨map, -, hninprops⟩ := h.read_ninprops
  exact Target.readByte_lt hninprops

end JsobjExtent

/-- **When the two agree on the extent of an object**: it has no properties stored in it (and does not
reach up to the end of the address space). -/
theorem extentsAgree_iff {t : Target} {addr type size ninprops : ℕ}
    (h : JsobjExtent t addr type size ninprops) :
    ExtentsAgree t addr type size ninprops ↔
      ninprops = 0 ∧ (size = 0 ∨ addr + size < 2 ^ t.cfg.bits) := by
  obtain ⟨words, hwords, hsize⟩ := h.exists_size_eq
  have hn := h.ninprops_lt
  have haddr := h.addr_lt
  have hslots := h.slots
  have hpos := t.cfg.model.ptrSize_pos
  have hsmall : size + ninprops * t.cfg.ptrSize < 2 ^ t.cfg.bits := by
    rw [hsize, ← Nat.add_mul]
    cases hmodel : t.cfg.model with
    | ilp32 => simp only [Config.bits, Config.ptrSize, hmodel, DataModel.bits, DataModel.ptrSize]; omega
    | lp64 => simp only [Config.bits, Config.ptrSize, hmodel, DataModel.bits, DataModel.ptrSize]; omega
  unfold ExtentsAgree
  simp only [h.v8contains_eq, Option.some.injEq, decide_eq_decide, decide_eq_true_eq,
    decide_eq_false_iff_not]
  constructor
  · rintro ⟨hall, -, hpast⟩
    have hself := hall addr le_rfl haddr (by simp)
    by_cases hwrap : addr + (size + ninprops * t.cfg.ptrSize) < 2 ^ t.cfg.bits
    · -- the word behind the object is found if anything is added to its size
      rw [Nat.mod_eq_of_lt hwrap] at hpast
      have hle := hpast (by omega)
      have h0 : ninprops * t.cfg.ptrSize = 0 := by omega
      exact ⟨(Nat.mul_eq_zero.mp h0).resolve_right hpos.ne', .inr (by omega)⟩
    · -- the end of the object wraps around, so that not even its first word is found
      rw [Nat.mod_eq_sub_mod (by omega), Nat.mod_eq_of_lt (by omega)] at hself
      have hsize0 : size = 0 := by omega
      rw [hsize0] at hslots
      exact ⟨(Nat.mul_eq_zero.mp (Nat.le_zero.mp hslots)).resolve_right hpos.ne', .inl hsize0⟩
  · rintro ⟨rfl, hend⟩
    have hmod : (addr + (size + 0 * t.cfg.ptrSize)) % 2 ^ t.cfg.bits = addr + size := by
      rw [Nat.zero_mul, Nat.add_zero]
      refine Nat.mod_eq_of_lt ?_
      rcases hend with h0 | hlt
      · rwa [h0, Nat.add_zero]
      · exact hlt
    rw [hmod]
    exact ⟨fun _ _ _ _ => Iff.rfl, fun i hi => absurd hi (Nat.not_lt_zero i), fun _ => lt_irrefl _⟩

/-- A target with an object of three words at `0x1001`, and one of four words at `0x1101` with a
property in its last word. -/
def extentTarget : Target :=
  .ofWords (.sample .lp64)
    [(0x1000, 0x2001), (0x2008, 0x0003), (0x2010, 0xab), (0x2000, 0x81),
      (0x1100, 0x3001), (0x3008, 0x0104), (0x3010, 0xab)]

theorem extent_sample : JsobjExtent extentTarget 0x1001 0xab 24 0 where
  addr_lt := by decide
  jsobject := by decide
  not_string := by decide
  not_fixedarray := by decide
  pointerSize := by decide
  read_size := by decide
  read_ninprops := ⟨0x2001, by decide, by decide⟩
  slots := by decide

/-- The two agree on an object without properties stored in it. -/
theorem extentsAgree_sample : ExtentsAgree extentTarget 0x1001 0xab 24 0 :=
  (extentsAgree_iff extent_sample).mpr ⟨rfl, .inr (by decide)⟩

/-- The word behind an object with one property stored in it is taken for a part of it. -/
theorem not_extentsAgree_sample :
    JsobjExtent extentTarget 0x1101 0xab 32 1 ∧
      v8contains extentTarget 0x1101 0xab 0x1121 = some true ∧
      ¬ ExtentsAgree extentTarget 0x1101 0xab 32 1 := by
  refine ⟨⟨by decide, by decide, by decide, by decide, by decide, by decide,
    ⟨0x3001, by decide, by decide⟩, by decide⟩, by decide, fun h => ?_⟩
  exact absurd (h.2.2 (by decide)) (by decide)

end MdbV8
