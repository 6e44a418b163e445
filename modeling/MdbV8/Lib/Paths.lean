import Mathlib

/-!
# The paths of a bounded search

A search starts from a place and goes along its links. A link may lead to another place, and the search goes
on from there, one level deeper. At its last level it does not go on.

Such a search visits its paths in the order of their links. `explore_perm` says that what it finds is what
the paths of all lengths lead to, each of them once: first those of one link, then those of two, and so on.
-/

namespace MdbV8.Lib

/-- A path: the links that it goes through, and the one that it ends with. -/
structure Path (β : Type) where
  through : List β
  last : β
  deriving DecidableEq, Repr

section Paths

variable {α β γ : Type} (links : α → List β) (next : β → Option α)
  (visit cut : ℕ → β → List γ)

/-- The paths from a place that go through a number of links. -/
def paths : ℕ → α → List (Path β)
  | 0, a => (links a).map fun l => ⟨[], l⟩
  | n + 1, a => (links a).flatMap fun l =>
    (next l).elim [] fun b => (paths n b).map fun p => ⟨l :: p.through, p.last⟩

/-- A search, with the number of the levels that it may still go deeper, and its depth. A link that leads
nowhere is visited. One that leads somewhere is cut off at the last level. -/
def explore : ℕ → ℕ → α → List γ
  | 0, depth, a => (links a).flatMap fun l => (next l).elim (visit depth l) fun _ => cut depth l
  | room + 1, depth, a => (links a).flatMap fun l =>
    (next l).elim (visit depth l) fun b => explore room (depth + 1) b

/-- What becomes of the end of a path, at the last level or before it. -/
def atEnd (isLast : Bool) (depth : ℕ) (l : β) : List γ :=
  (next l).elim (visit depth l) fun _ => if isLast then cut depth l else []

/-- What the paths lead to, by their lengths. -/
def byLength (room depth : ℕ) (a : α) : List γ :=
  (List.range (room + 1)).flatMap fun n =>
    (paths links next n a).flatMap fun p => atEnd next visit cut (n = room) (depth + n) p.last

/-- What is done for each of two lists may be done in the other order. -/
theorem flatMap_comm_perm (xs : List α) (ys : List β) (f : α → β → List γ) :
    (xs.flatMap fun x => ys.flatMap (f x)).Perm (ys.flatMap fun y => xs.flatMap fun x => f x y) := by
  induction xs with
  | nil => simp
  | cons x xs ih =>
    rw [List.flatMap_cons]
    refine (ih.append_left _).trans ?_
    exact List.flatMap_append_perm ys (f x) fun y => xs.flatMap fun x => f x y

/-- The paths of one link. -/
theorem paths_zero_flatMap (a : α) (f : Path β → List γ) :
    (paths links next 0 a).flatMap f = (links a).flatMap fun l => f ⟨[], l⟩ :=
  List.flatMap_map ..

/-- The longer paths begin with a link that leads somewhere. -/
theorem paths_succ_flatMap (n : ℕ) (a : α) (f : β → List γ) :
    ((paths links next (n + 1) a).flatMap fun p => f p.last) = (links a).flatMap fun l =>
      (next l).elim [] fun b => (paths links next n b).flatMap fun p => f p.last := by
  rw [paths, List.flatMap_assoc]
  refine List.flatMap_congr fun l _ => ?_
  cases next l with
  | none => rfl
  | some b => exact List.flatMap_map ..

/-- **What a search finds** is what its paths lead to: by induction on the levels. -/
theorem explore_perm (room depth : ℕ) (a : α) :
    (explore links next visit cut room depth a).Perm (byLength links next visit cut room depth a) := by
  induction room generalizing depth a with
  | zero =>
    have hone : byLength links next visit cut 0 depth a =
        (links a).flatMap fun l => atEnd next visit cut true depth l := by
      unfold byLength
      rw [List.range_one, List.flatMap_singleton, paths_zero_flatMap]
      rfl
    rw [hone, explore]
    refine List.Perm.flatMap_left _ fun l _ => ?_
    unfold atEnd
    cases next l <;> exact List.Perm.refl _
  | succ room ih =>
    -- the paths of one link, and the others by their first link
    have hlengths : byLength links next visit cut (room + 1) depth a =
        ((links a).flatMap fun l => atEnd next visit cut false depth l) ++
          (List.range (room + 1)).flatMap fun n => (links a).flatMap fun l =>
            (next l).elim [] fun b => (paths links next n b).flatMap fun p =>
              atEnd next visit cut (n = room) (depth + 1 + n) p.last := by
      unfold byLength
      rw [List.range_succ_eq_map, List.flatMap_cons, List.flatMap_map, paths_zero_flatMap]
      refine congrArg₂ _ rfl (List.flatMap_congr fun n _ => ?_)
      rw [paths_succ_flatMap]
      simp only [Nat.succ_eq_add_one, Nat.add_right_cancel_iff, Nat.add_assoc, Nat.add_comm 1]
    rw [hlengths, explore]
    refine List.Perm.trans ?_ ((flatMap_comm_perm (links a) (List.range (room + 1)) _).append_left _)
    refine List.Perm.trans ?_ (List.flatMap_append_perm (links a) _ _).symm
    refine List.Perm.flatMap_left _ fun l _ => ?_
    cases hnext : next l with
    | none =>
      have hnil : ((List.range (room + 1)).flatMap fun _ => ([] : List γ)) = [] :=
        List.flatMap_eq_nil_iff.mpr fun _ _ => rfl
      have hend : atEnd next visit cut false depth l = visit depth l := by rw [atEnd, hnext]; rfl
      simp only [Option.elim_none, hnil, List.append_nil, hend]
      exact List.Perm.refl _
    | some b =>
      have hend : atEnd next visit cut false depth l = [] := by rw [atEnd, hnext]; rfl
      simp only [Option.elim_some, hend, List.nil_append]
      exact ih (depth + 1) b

end Paths

end MdbV8.Lib
