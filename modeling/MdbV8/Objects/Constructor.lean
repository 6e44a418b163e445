import MdbV8.Objects.Values

/-!
# The constructor of a Map

`get_map_constructor` follows the constructor field from Map to Map until it comes to something that is
no Map. It does not remember where it has been, so on a heap in which the Maps lead back to one of them
it does not return (`gettingConstructor_iff`). In a chain that does not come back, each Map is a new one,
and there are only as many as there are addresses.
-/

namespace MdbV8

section Chain

variable (t : Target) (map : ℕ)

/-- The chain of back pointers from a Map comes back to a Map that it has been at. -/
def ComesBack : Prop :=
  ∃ i j m, i < j ∧ backPointers t i map = some m ∧ backPointers t j map = some m

/-- An object is the first one on the chain from a Map that is not a Map: it is in the constructor field
of a Map that is reached over Maps alone. -/
def FirstNonMap (candidate : ℕ) : Prop :=
  ∃ n m type, backPointers t n map = some m ∧
    t.readHeapPtr m t.cfg.offMapConstructor = some candidate ∧
    t.readTypebyte candidate = some type ∧ Target.isType type t.cfg.typeMap = false

/-- **Getting the constructor of a Map** comes to an end, and what it gets is the first object that is
not a Map. -/
structure GettingConstructor : Prop where
  terminates : ∃ fuel, getMapConstructor t fuel map ≠ none
  first : ∀ fuel candidate, getMapConstructor t fuel map = some (some candidate) →
    FirstNonMap t map candidate

variable {t map}

/-- A chain that comes back has no end. -/
theorem ComesBack.backPointers_ne_none (h : ComesBack t map) (n : ℕ) :
    backPointers t n map ≠ none := by
  obtain ⟨i, j, m, hij, hi, hj⟩ := h
  induction n using Nat.strong_induction_on with
  | _ n ih =>
    rcases Nat.lt_or_ge n j with hn | hn
    · -- the chain gets as far as its return
      intro hnone
      have hsplit := backPointers_add t n (j - n) map
      rw [Nat.add_sub_cancel' hn.le, hnone, hj] at hsplit
      cases hsplit
    · -- leave out one round
      obtain ⟨d, rfl⟩ := Nat.exists_eq_add_of_le hn
      have hround := ih (i + d) (Nat.add_lt_add_right hij d)
      rw [backPointers_add, hi] at hround
      rwa [backPointers_add, hj]

/-- A chain without end comes back. -/
theorem comesBack_of_ne_none (h : backPointers t (2 ^ t.cfg.bits + 1) map ≠ none) :
    ComesBack t map := by
  obtain ⟨i, j, hij, hj, heq⟩ := exists_backPointers_eq t h
  have hsplit := backPointers_add t j (2 ^ t.cfg.bits + 1 - j) map
  rw [Nat.add_sub_cancel' hj] at hsplit
  rcases (backPointers t j map).eq_none_or_eq_some with hnone | ⟨m, hm⟩
  · rw [hnone] at hsplit
    exact absurd hsplit h
  · exact ⟨i, j, m, hij, heq.trans hm, hm⟩

/-- **A chain of Maps that is longer than there are addresses never ends.** -/
theorem getMapConstructor_eq_none (h : getMapConstructor t (2 ^ t.cfg.bits + 1) map = none)
    (fuel : ℕ) : getMapConstructor t fuel map = none := by
  rw [getMapConstructor_eq_none_iff] at h ⊢
  exact (comesBack_of_ne_none h).backPointers_ne_none fuel

/-- What the loop returns is the first object that is not a Map. -/
theorem firstNonMap_of_eq_some {fuel candidate : ℕ}
    (h : getMapConstructor t fuel map = some (some candidate)) : FirstNonMap t map candidate := by
  induction fuel generalizing map with
  | zero => cases h
  | succ fuel ih =>
    unfold getMapConstructor at h
    split at h
    · cases h
    · next hoff =>
      split at h
      · cases h
      · next next hread =>
        split at h
        · cases h
        · next type htype =>
          split at h
          · -- one more Map in front of the chain
            next hmap =>
            obtain ⟨n, m, type', hchain, hm⟩ := ih h
            refine ⟨n + 1, m, type', ?_, hm⟩
            have hback : backPointer t map = some next := by
              unfold backPointer
              rw [if_neg hoff, hread]
              simp [Option.filter, htype, hmap]
            rw [backPointers, hback]
            exact hchain
          · next hmap =>
            obtain rfl := Option.some.inj (Option.some.inj h)
            exact ⟨0, map, type, rfl, hread, htype, Bool.eq_false_iff.mpr hmap⟩

/-- **When the constructor of a Map is gotten**: if and only if the chain from it does not come back. -/
theorem gettingConstructor_iff : GettingConstructor t map ↔ ¬ ComesBack t map := by
  constructor
  · rintro ⟨⟨fuel, hfuel⟩, -⟩ hback
    exact hfuel ((getMapConstructor_eq_none_iff t fuel map).mpr (hback.backPointers_ne_none fuel))
  · intro hback
    refine ⟨⟨2 ^ t.cfg.bits + 1, fun hnone => hback ?_⟩, fun _ _ h => firstNonMap_of_eq_some h⟩
    exact comesBack_of_ne_none ((getMapConstructor_eq_none_iff t _ map).mp hnone)

end Chain

/-- A Map at `0x2001` whose constructor field leads to another Map, which leads back to it. -/
def mapCycleTarget : Target :=
  .ofWords (.sample .lp64)
    [(0x2000, 0x3001), (0x2020, 0x4001), (0x3010, 0x81), (0x4000, 0x3001), (0x4020, 0x2001)]

/-- No number of steps is enough for it. -/
theorem not_gettingConstructor_cycle : ¬ GettingConstructor mapCycleTarget 0x2001 := by
  rw [gettingConstructor_iff, not_not]
  exact ⟨0, 2, 0x2001, by decide, by decide, by decide⟩

end MdbV8
