import MdbV8.Target.Heap

/-!
# Tags

In all versions of V8 a heap object is tagged in the two low bits of its address, a small integer in
the lowest one, and the Map is the first word of an object. The tags are part of the metadata
nevertheless. `Config.V8Tags` says that they have these values.
-/

namespace MdbV8

/-- **The tags of V8**, and the place of the Map. -/
structure Config.V8Tags (c : Config) : Prop where
  heapTag : c.heapObjectTag = 1
  heapMask : c.heapObjectTagMask = 3
  smiTag : c.smiTag = 0
  smiMask : c.smiTagMask = 1
  map : c.offHeapobjectMap = -1

theorem DataModel.ptrSize_cases (m : DataModel) :
    (m = .ilp32 ∧ m.ptrSize = 4 ∧ m.bits = 32) ∨ (m = .lp64 ∧ m.ptrSize = 8 ∧ m.bits = 64) := by
  cases m with
  | ilp32 => exact .inl ⟨rfl, rfl, rfl⟩
  | lp64 => exact .inr ⟨rfl, rfl, rfl⟩

theorem Config.wrap_small (c : Config) {n : ℕ} (hn : n < 2 ^ 32) : c.wrap n = n := by
  refine wrap_natCast c (hn.trans_le (Nat.pow_le_pow_right (by decide) ?_))
  change 32 ≤ c.model.bits
  rcases c.model.ptrSize_cases with ⟨-, -, hbits⟩ | ⟨-, -, hbits⟩ <;> omega

namespace Config.V8Tags

variable {c : Config} (h : c.V8Tags)

include h

/-- The two low bits of a heap object. -/
theorem isHeapobject_iff {addr : ℕ} : c.isHeapobject addr = true ↔ addr % 4 = 1 := by
  have hmask : c.wrap c.heapObjectTagMask = 3 := by
    rw [h.heapMask]
    exact c.wrap_small (by decide : 3 < 2 ^ 32)
  have htag : c.wrap c.heapObjectTag = 1 := by
    rw [h.heapTag]
    exact c.wrap_small (by decide : 1 < 2 ^ 32)
  unfold isHeapobject tagged
  rw [hmask, htag, beq_iff_eq, show (3 : ℕ) = 2 ^ 2 - 1 from rfl, Nat.and_two_pow_sub_one_eq_mod]

/-- The lowest bit of a small integer. -/
theorem isSmi_iff {w : ℕ} : c.isSmi w = true ↔ w % 2 = 0 := by
  have hmask : c.wrap c.smiTagMask = 1 := by
    rw [h.smiMask]
    exact c.wrap_small (by decide : 1 < 2 ^ 32)
  have htag : c.wrap c.smiTag = 0 := by
    rw [h.smiTag]
    exact c.wrap_small (by decide : 0 < 2 ^ 32)
  unfold isSmi tagged
  rw [hmask, htag, beq_iff_eq, Nat.and_one_is_mod]

/-- A heap object is no small integer. -/
theorem isSmi_eq_false {addr : ℕ} (hheap : c.isHeapobject addr = true) : c.isSmi addr = false := by
  have hmod := h.isHeapobject_iff.mp hheap
  rw [Bool.eq_false_iff, ne_eq, h.isSmi_iff]
  omega

end Config.V8Tags

/-- The tags of the configurations of the examples. -/
theorem Config.v8Tags_sample (model : DataModel) : (Config.sample model).V8Tags :=
  ⟨rfl, rfl, rfl, rfl, rfl⟩

end MdbV8
