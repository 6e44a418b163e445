import MdbV8.Find.Range
import MdbV8.Target.Tags

/-!
# The copy of a range

The scan takes the map word of each address from its copy of the range, and the type byte as well if
the Map is inside of the range. Every tagged address is looked at, and these are four bytes apart. On
32-bit targets the word of the last one is the last word of the range. On 64-bit targets it is only
half in the range, and the other half is whatever there is behind the copy (`copyExact_iff`).
-/

namespace MdbV8

variable (t : Target)

/-- **What is taken from the copy is what there is in the target**: the map word of every tagged
address that is visited lies inside of the copy and is the word of the target, and so is the type
byte, if it is taken from the copy. -/
def CopyExact (base size : ℕ) : Prop :=
  ∀ bytes, t.mdbVread size base = some bytes → ∀ outside, ∀ addr ∈ rangeAddrs t.cfg base size,
    t.cfg.isHeapobject addr = true → t.cfg.isSmi addr = false →
    let range : FindRange := { base, size, bytes, outside }
    let i : ℤ := (addr : ℤ) - base + t.cfg.offHeapobjectMap
    (0 ≤ i ∧ i + t.cfg.ptrSize ≤ size ∧
      t.readPtr (t.cfg.add addr t.cfg.offHeapobjectMap) = some (range.word t.cfg i)) ∧
    let mapaddr := t.cfg.add (range.word t.cfg i) t.cfg.offMapInstanceAttributes
    base ≤ mapaddr → mapaddr < t.cfg.add base size →
      mapaddr - base < size ∧
        t.readByte mapaddr = some (range.byte ((mapaddr : ℤ) - base)).toNat

variable {t} {base size : ℕ}

/-- The addresses that are visited, in a range that does not end with memory. -/
theorem mem_rangeAddrs_iff {c : Config} {addr : ℕ} (hend : base + size < 2 ^ c.bits) :
    addr ∈ rangeAddrs c base size ↔ base ≤ addr ∧ addr < base + size := by
  unfold rangeAddrs
  rw [Config.add_natCast, Nat.mod_eq_of_lt hend, Nat.add_sub_cancel_left, List.mem_range'_1]

/-- A range that ends with memory is not visited at all. -/
theorem rangeAddrs_of_end {c : Config} (hend : base + size = 2 ^ c.bits) :
    rangeAddrs c base size = [] := by
  unfold rangeAddrs
  rw [Config.add_natCast, hend, Nat.mod_self, Nat.zero_sub]
  rfl

/-- On 64-bit targets the last tagged address of a range has a word that is not in the copy. -/
theorem not_copyExact (htags : t.cfg.V8Tags) (hmodel : t.cfg.model = .lp64)
    (hbase : 4096 ∣ base) (hsize : 4096 ∣ size) (hpos : 0 < size)
    (hread : ∃ bytes, t.mdbVread size base = some bytes) (hend : base + size < 2 ^ t.cfg.bits) :
    ¬ CopyExact t base size := by
  intro h
  obtain ⟨bytes, hbytes⟩ := hread
  have hptr : t.cfg.ptrSize = 8 := by rw [Config.ptrSize, hmodel]; rfl
  -- the last word of the range is half of the word of that address
  have htag : t.cfg.isHeapobject (base + size - 3) = true := htags.isHeapobject_iff.mpr (by omega)
  have hmem := (mem_rangeAddrs_iff hend).mpr (show base ≤ base + size - 3 ∧ _ by omega)
  obtain ⟨⟨-, hinside, -⟩, -⟩ :=
    h bytes hbytes (fun _ => 0) _ hmem htag (htags.isSmi_eq_false htag)
  rw [htags.map, hptr] at hinside
  omega

/-- **When the copy is exact**: on 32-bit targets, and where no address is visited. -/
theorem copyExact_iff (htags : t.cfg.V8Tags) (hbase : 4096 ∣ base) (hsize : 4096 ∣ size)
    (hread : ∃ bytes, t.mdbVread size base = some bytes) :
    CopyExact t base size ↔ t.cfg.model = .ilp32 ∨ rangeAddrs t.cfg base size = [] := by
  have hle : base + size ≤ 2 ^ t.cfg.bits := by
    obtain ⟨bytes, hbytes⟩ := hread
    exact (Target.mdbVread_eq_some_iff.mp hbytes).1
  constructor
  · intro h
    by_contra hnot
    -- on a 64-bit target the word of the last tagged address is not in the copy
    obtain ⟨hmodel, hvisited⟩ := not_or.mp hnot
    have hmodel' : t.cfg.model = .lp64 := by
      cases hm : t.cfg.model with
      | ilp32 => exact absurd hm hmodel
      | lp64 => rfl
    have hend : base + size < 2 ^ t.cfg.bits :=
      lt_of_le_of_ne hle fun heq => hvisited (rangeAddrs_of_end heq)
    have hpos : 0 < size := by
      refine Nat.pos_of_ne_zero fun h0 => hvisited (List.eq_nil_iff_forall_not_mem.mpr ?_)
      intro addr haddr
      have := (mem_rangeAddrs_iff hend).mp haddr
      omega
    exact not_copyExact htags hmodel' hbase hsize hpos hread hend h
  · rintro (hmodel | hnone)
    · intro bytes hbytes outside addr haddr htag hsmi
      have hptr : t.cfg.ptrSize = 4 := by rw [Config.ptrSize, hmodel]; rfl
      have hend : base + size < 2 ^ t.cfg.bits := by
        refine lt_of_le_of_ne hle fun heq => ?_
        rw [rangeAddrs_of_end heq] at haddr
        cases haddr
      obtain ⟨hlo, hhi⟩ := (mem_rangeAddrs_iff hend).mp haddr
      have hmod := htags.isHeapobject_iff.mp htag
      -- the word of a tagged address is a word of the range
      obtain ⟨k, hk⟩ : ∃ k, addr = base + k + 1 := ⟨addr - base - 1, by omega⟩
      have hword : k + t.cfg.ptrSize ≤ size := by omega
      have hindex : (addr : ℤ) - base + t.cfg.offHeapobjectMap = k := by
        rw [htags.map]
        omega
      have hadd : t.cfg.add addr t.cfg.offHeapobjectMap = base + k := by
        have hof : (t.cfg.add addr t.cfg.offHeapobjectMap : ℤ) = addr + t.cfg.offHeapobjectMap := by
          rw [htags.map]
          have hend' : (base + size : ℤ) < 2 ^ t.cfg.bits := by exact_mod_cast hend
          exact t.cfg.add_of_lt (by omega) (by omega)
        omega
      intro range i
      have hread' : t.mdbVread range.size range.base = some range.bytes := hbytes
      refine ⟨⟨?_, ?_, ?_⟩, ?_⟩
      · -- the word is inside of the range, and it is the one in the memory
        change 0 ≤ (addr : ℤ) - base + t.cfg.offHeapobjectMap
        omega
      · change (addr : ℤ) - base + t.cfg.offHeapobjectMap + t.cfg.ptrSize ≤ size
        omega
      · change _ = some (range.word t.cfg ((addr : ℤ) - base + t.cfg.offHeapobjectMap))
        rw [hadd, hindex]
        exact FindRange.word_eq t hread' hword
      · -- so is every byte that is read from the copy
        intro mapaddr hmaplo hmaphi
        rw [Config.add_natCast, Nat.mod_eq_of_lt hend] at hmaphi
        obtain ⟨j, hj⟩ := Nat.exists_eq_add_of_le hmaplo
        have hbyte := FindRange.byte_eq t hread' (show j < size by omega)
        refine ⟨by omega, ?_⟩
        have hdist : (mapaddr : ℤ) - base = j := by omega
        rw [Target.readByte, hdist, hj]
        change Option.map leNat (t.mdbVread 1 (range.base + j)) = _
        rw [hbyte]
        simp [leNat]
    · intro bytes _ outside addr haddr
      rw [hnone] at haddr
      cases haddr

/-- The copy of a page of a 32-bit target is exact. -/
theorem copyExact_page : CopyExact (.ofWordsAndZeros (.sample .ilp32) []) 0x1000 0x1000 :=
  (copyExact_iff (Config.v8Tags_sample _) (by decide) (by decide)
    (Target.exists_ofWordsAndZeros_mdbVread (by decide))).mpr (.inl rfl)

/-- The copy of a page of a 64-bit target is not. -/
theorem not_copyExact_page :
    (∃ bytes, (Target.ofWordsAndZeros (.sample .lp64) []).mdbVread 0x1000 0x1000 = some bytes) ∧
      ¬ CopyExact (.ofWordsAndZeros (.sample .lp64) []) 0x1000 0x1000 := by
  have hread : ∃ bytes, (Target.ofWordsAndZeros (.sample .lp64) []).mdbVread 0x1000 0x1000 =
      some bytes := Target.exists_ofWordsAndZeros_mdbVread (by decide)
  exact ⟨hread, not_copyExact (Config.v8Tags_sample _) rfl (by decide) (by decide) (by decide) hread
    (by decide)⟩

end MdbV8
