import Mathlib

/-!
# Lists that are linked through their nodes

Each node has a pointer to the next one, and a pointer to the first one is kept elsewhere. `Linked` says
that the nodes of a list are met in their order on the way from a pointer, and that the way ends behind the
last of them.

Two operations keep such a list. A node that is not in it may be put in front of it (`Linked.push`). And
all the nodes may be linked anew, in any order, from an array that has each of them once
(`linked_relink`).
-/

namespace MdbV8.Lib

section Linked

variable {ν : Type}

/-- **The nodes from a pointer on** are those of a list. -/
def Linked (next : ν → Option ν) : Option ν → List ν → Prop
  | head, [] => head = none
  | head, x :: xs => head = some x ∧ Linked next (next x) xs

/-- The nodes from a pointer on, as far as there is room for them. -/
def nodesFrom (next : ν → Option ν) : ℕ → Option ν → List ν
  | 0, _ => []
  | _ + 1, none => []
  | room + 1, some x => x :: nodesFrom next room (next x)

/-- The loop that links the nodes of an array, each to the one behind it and the last one to none. -/
def relink [DecidableEq ν] : List ν → (ν → Option ν) → ν → Option ν
  | [], next => next
  | [x], next => Function.update next x none
  | x :: y :: xs, next => relink (y :: xs) (Function.update next x (some y))

variable {next next' : ν → Option ν} {head : Option ν} {xs : List ν}

/-- Only the pointers of the nodes themselves matter. -/
theorem Linked.congr (h : Linked next head xs) (hsame : ∀ x ∈ xs, next' x = next x) :
    Linked next' head xs := by
  induction xs generalizing head with
  | nil => exact h
  | cons x xs ih =>
    obtain ⟨hhead, hrest⟩ := h
    refine ⟨hhead, ?_⟩
    rw [hsame x List.mem_cons_self]
    exact ih hrest fun y hy => hsame y (List.mem_cons_of_mem _ hy)

/-- **What is met** is the list, if there is room for it. -/
theorem Linked.nodesFrom_eq (h : Linked next head xs) {room : ℕ} (hroom : xs.length ≤ room) :
    nodesFrom next room head = xs := by
  induction xs generalizing head room with
  | nil =>
    obtain rfl : head = none := h
    cases room <;> rfl
  | cons x xs ih =>
    obtain ⟨rfl, hrest⟩ := h
    cases room with
    | zero => exact absurd hroom (Nat.not_succ_le_zero _)
    | succ room =>
      have hxs := ih hrest (Nat.le_of_succ_le_succ hroom)
      rw [nodesFrom, hxs]

variable [DecidableEq ν]

/-- **A node in front of the others.** -/
theorem Linked.push (h : Linked next head xs) {x : ν} (hx : x ∉ xs) :
    Linked (Function.update next x head) (some x) (x :: xs) := by
  refine ⟨rfl, ?_⟩
  rw [Function.update_self]
  refine h.congr fun y hy => ?_
  have hne : y ≠ x := fun heq => hx (heq ▸ hy)
  rw [Function.update_of_ne hne]

/-- The pointers of other nodes are left as they are. -/
theorem relink_of_notMem {x : ν} (hx : x ∉ xs) : relink xs next x = next x := by
  induction xs, next using relink.induct with
  | case1 next => rfl
  | case2 y next => exact Function.update_of_ne (List.ne_of_not_mem_cons hx) _ _
  | case3 y z xs next ih =>
    rw [relink, ih (List.not_mem_of_not_mem_cons hx)]
    exact Function.update_of_ne (List.ne_of_not_mem_cons hx) _ _

/-- **Nodes that are linked anew** are met in their order. -/
theorem linked_relink (hnodup : xs.Nodup) : Linked (relink xs next) xs.head? xs := by
  induction xs, next using relink.induct with
  | case1 next => rfl
  | case2 x next =>
    have hlast : relink [x] next x = none := by rw [relink, Function.update_self]
    exact ⟨rfl, hlast⟩
  | case3 x y xs next ih =>
    obtain ⟨hx, hrest⟩ := List.nodup_cons.mp hnodup
    refine ⟨rfl, ?_⟩
    -- the pointer of the first node is not written again
    rw [relink, relink_of_notMem hx, Function.update_self]
    exact ih hrest

end Linked

end MdbV8.Lib
