import Mathlib.Data.List.Basic

/-!
# Updates that take each other back

A program changes a state that it shares with others by a list of updates, one after the other. It is
*neutral* if the state is in the end what it has been. A list of neutral lists is neutral, and so is a
neutral list between an update and one that takes it back.

The updates may be what a program returns that has a state of its own. `Yields` is for these.
-/

namespace MdbV8.Lib

section Neutral

variable {σ υ α : Type*} (apply : υ → σ → σ)

/-- The state after some updates. -/
def after (us : List υ) (s : σ) : σ := us.foldl (fun s u => apply u s) s

/-- **The updates are neutral**: no state is changed by them. -/
def Neutral (us : List υ) : Prop := ∀ s, after apply us s = s

/-- An update takes back another one. -/
def TakesBack (leave enter : υ) : Prop := ∀ s, apply leave (apply enter s) = s

variable {apply} {us vs : List υ} {enter leave : υ}

theorem after_cons (u : υ) (us : List υ) (s : σ) :
    after apply (u :: us) s = after apply us (apply u s) := rfl

theorem after_append (us vs : List υ) (s : σ) :
    after apply (us ++ vs) s = after apply vs (after apply us s) :=
  List.foldl_append

namespace Neutral

theorem nil : Neutral apply [] := fun _ => rfl

theorem append (hus : Neutral apply us) (hvs : Neutral apply vs) : Neutral apply (us ++ vs) := by
  intro s
  rw [after_append, hus s, hvs s]

theorem flatMap {f : α → List υ} {as : List α} (h : ∀ a ∈ as, Neutral apply (f a)) :
    Neutral apply (as.flatMap f) := by
  induction as with
  | nil => exact nil
  | cons a as ih =>
    rw [List.flatMap_cons]
    exact (h a List.mem_cons_self).append (ih fun b hb => h b (List.mem_cons_of_mem _ hb))

/-- **Brackets**: what stands between an update and one that takes it back. -/
theorem bracket (h : TakesBack apply leave enter) (hus : Neutral apply us) :
    Neutral apply (enter :: (us ++ [leave])) := by
  intro s
  rw [after_cons, after_append, hus]
  exact h s

end Neutral

end Neutral

/-! ### What a program returns -/

section Yields

variable {σ α β : Type} {P : α → Prop} {Q : β → Prop} {x : StateM σ α} {f : α → StateM σ β}

/-- A program returns something with a property, whatever the state is. -/
def Yields (P : α → Prop) (x : StateM σ α) : Prop := ∀ s, P (x s).1

namespace Yields

theorem pure {a : α} (h : P a) : Yields P (Pure.pure a : StateM σ α) := fun _ => h

theorem bind (hx : Yields P x) (hf : ∀ a, P a → Yields Q (f a)) : Yields Q (x >>= f) :=
  fun s => hf _ (hx s) _

/-- What the first program returns does not matter. -/
theorem andThen (hf : ∀ a, Yields Q (f a)) : Yields Q (x >>= f) := fun _ => hf _ _

end Yields

end Yields

end MdbV8.Lib
