import Mathlib

/-!
# Relations without cycles

A relation that relates only finitely many elements and has no cycle is well-founded. Along the parents
that each element has one of, or none, such a relation lets functions be defined by recursion.
-/

namespace MdbV8.Lib

open Relation

variable {α β : Type*}

/-- **Finitely many elements without a cycle.** -/
theorem wellFounded_of_acyclic {r : α → α → Prop} (hfin : {b | ∃ a, r a b}.Finite)
    (hacyclic : ∀ a, ¬ TransGen r a a) : WellFounded r := by
  have hstrict : IsStrictOrder α (TransGen r) :=
    { irrefl := hacyclic, trans := fun _ _ _ => TransGen.trans }
  have hwf : {b | ∃ a, r a b}.WellFoundedOn (TransGen r) := hfin.wellFoundedOn
  -- an element that nothing is related to is accessible at once
  have hacc : ∀ b ∈ {b | ∃ a, r a b}, Acc r b := by
    intro b hb
    refine hwf.induction hb fun b _ ih => Acc.intro b fun a hab => ?_
    by_cases ha : ∃ a', r a' a
    · exact ih a ha (.single hab)
    · exact Acc.intro a fun a' ha' => absurd ⟨a', ha'⟩ ha
  refine ⟨fun b => ?_⟩
  by_cases hb : ∃ a, r a b
  · exact hacc b hb
  · exact Acc.intro b fun a ha => absurd ⟨a, ha⟩ hb

/-- **Recursion along the parents**: what an element is given by what its parent is given. -/
theorem exists_along_parents (parent : α → Option α) (hwf : WellFounded fun p a => parent a = some p)
    (step : α → Option β → β) : ∃ e : α → β, ∀ a, e a = step a ((parent a).map e) := by
  classical
  refine ⟨hwf.fix fun a rec =>
    step a (match h : parent a with
      | none => none
      | some p => some (rec p h)), fun a => ?_⟩
  rw [hwf.fix_eq]
  congr 1
  split
  · next h => rw [h, Option.map_none]
  · next p h => exact (congrArg (Option.map _) h).symm ▸ rfl

end MdbV8.Lib
