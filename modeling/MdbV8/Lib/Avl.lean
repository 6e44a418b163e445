import Mathlib

/-!
# Search trees of nodes

The interface of a library of balanced search trees: a tree is made with a comparison function, nodes
are added to it, and a node is looked for by a key. The library keeps the nodes of its callers and
does not copy them, so that what it finds is a pointer to a node.

`Avl` is that interface with what its documentation promises. Where the comparison is not an order,
it promises nothing about what is found.

A caller usually keeps its nodes in a list as well. `Avl.Indexes` says that a tree whose pointers are
positions in a list finds exactly what a search through the list would find. Adding a key that is not
found keeps it so (`Avl.Indexes.add`).

A comparison that is not an order may yet be one on the keys that are in use (`OrdersOn`). What the
documentation promises then is `Avl.ServesOrders`.
-/

namespace MdbV8.Lib

/-- A library of search trees for keys that are compared with `cmp` and pointers of a type. -/
structure Avl (κ ν : Type) (cmp : κ → κ → Ordering) where
  Tree : Type
  create : Tree
  find : Tree → κ → Option ν
  add : Tree → κ → ν → Tree
  numnodes : Tree → ℕ
  numnodes_create : numnodes create = 0
  numnodes_add : ∀ tree k v, find tree k = none → numnodes (add tree k v) = numnodes tree + 1
  find_create : ∀ k, find create k = none
  find_add : Std.TransCmp cmp → ∀ tree k v, find tree k = none → ∀ k',
    find (add tree k v) k' = if cmp k' k = .eq then some v else find tree k'

namespace Avl

variable {κ ν : Type} {cmp : κ → κ → Ordering}

/-- A tree without nodes. -/
def isEmpty (A : Avl κ ν cmp) (tree : A.Tree) : Bool := A.numnodes tree == 0

theorem isEmpty_add (A : Avl κ ν cmp) {tree : A.Tree} {k : κ} (h : A.find tree k = none) (v : ν) :
    A.isEmpty (A.add tree k v) = false := by
  simp [isEmpty, A.numnodes_add tree k v h]

theorem find?_cons_eq (tree : List (κ × ν)) (k k' : κ) (v : ν) :
    (((k, v) :: tree).find? fun e => cmp k' e.1 == .eq).map Prod.snd =
      if cmp k' k = .eq then some v
      else (tree.find? fun e => cmp k' e.1 == .eq).map Prod.snd := by
  rw [List.find?_cons]
  by_cases h : cmp k' k = .eq
  · simp [h]
  · have hne : (cmp k' k == .eq) = false := by simpa using h
    simp [h, hne]

/-- The library in which a tree is the list of its nodes. -/
def list (cmp : κ → κ → Ordering) : Avl κ ν cmp where
  Tree := List (κ × ν)
  create := []
  find tree k := (tree.find? fun e => cmp k e.1 == .eq).map Prod.snd
  add tree k v := (k, v) :: tree
  numnodes := List.length
  numnodes_create := rfl
  numnodes_add _ _ _ _ := rfl
  find_create _ := rfl
  find_add _ tree k v _ k' := find?_cons_eq tree k k' v

/-! ### Trees beside lists -/

/-- **A tree indexes a list of keys**: it finds the position of the key that compares equal, and no
two keys of the list do. -/
structure Indexes (A : Avl κ ℕ cmp) (tree : A.Tree) (keys : List κ) : Prop where
  find_eq : ∀ k, A.find tree k = keys.findIdx? fun k' => cmp k k' == .eq
  distinct : keys.Pairwise fun k k' => cmp k' k ≠ .eq

namespace Indexes

variable {A : Avl κ ℕ cmp} {tree : A.Tree} {keys : List κ}

theorem create : A.Indexes A.create [] where
  find_eq k := A.find_create k
  distinct := List.Pairwise.nil

/-- A key that is not found compares equal to no key of the list. -/
theorem ne_of_find_none (h : A.Indexes tree keys) {k : κ} (hk : A.find tree k = none) :
    ∀ k' ∈ keys, cmp k k' ≠ .eq := by
  intro k' hk'
  rw [h.find_eq, List.findIdx?_eq_none_iff] at hk
  simpa using hk k' hk'

/-- A pointer that is found is the position of a key that compares equal. -/
theorem exists_of_find_some (h : A.Indexes tree keys) {k : κ} {p : ℕ}
    (hp : A.find tree k = some p) : ∃ hlt : p < keys.length, cmp k keys[p] = .eq := by
  rw [h.find_eq, List.findIdx?_eq_some_iff_getElem] at hp
  obtain ⟨hlt, heq, -⟩ := hp
  exact ⟨hlt, by simpa using heq⟩

/-- **Adding a key** that is not found, at the end of the list. -/
theorem add [hcmp : Std.TransCmp cmp] (h : A.Indexes tree keys) {k : κ}
    (hk : A.find tree k = none) : A.Indexes (A.add tree k keys.length) (keys ++ [k]) where
  find_eq k' := by
    have hne := h.ne_of_find_none hk
    rw [A.find_add hcmp tree k _ hk, List.findIdx?_append]
    by_cases heq : cmp k' k = .eq
    · -- a key equal to the new one is equal to no other
      have hnone : (keys.findIdx? fun x => cmp k' x == .eq) = none := by
        rw [List.findIdx?_eq_none_iff]
        intro x hx
        rw [Std.TransCmp.congr_left heq]
        simpa using hne x hx
      rw [if_pos heq, hnone]
      simp [heq]
    · have hnew : (cmp k' k == .eq) = false := by simpa using heq
      rw [if_neg heq, h.find_eq]
      simp [hnew]
  distinct := by
    refine List.pairwise_append.mpr ⟨h.distinct, List.pairwise_singleton _ _, ?_⟩
    intro x hx y hy
    obtain rfl : y = k := by simpa using hy
    exact h.ne_of_find_none hk x hx

end Indexes

end Avl

/-! ### An order on the keys in use -/

section OrdersOn

variable {κ ν : Type} {cmp : κ → κ → Ordering}

/-- **The comparison orders some keys.** -/
structure OrdersOn (cmp : κ → κ → Ordering) (S : Set κ) : Prop where
  swap : ∀ a ∈ S, ∀ b ∈ S, cmp b a = (cmp a b).swap
  trans : ∀ a ∈ S, ∀ b ∈ S, ∀ c ∈ S, cmp a b ≠ .gt → cmp b c ≠ .gt → cmp a c ≠ .gt

/-- A tree that comes of adding keys of a set, each of which has not been found before. -/
inductive Avl.Built (A : Avl κ ν cmp) (S : Set κ) : A.Tree → Prop
  | create : Built A S A.create
  | add {tree : A.Tree} {k : κ} {v : ν} :
    Built A S tree → k ∈ S → A.find tree k = none → Built A S (A.add tree k v)

/-- **The library serves every order**: if the comparison orders the keys that a tree is used with, a key
of these that is added is found from then on, and the others are found as before. -/
def Avl.ServesOrders (A : Avl κ ν cmp) : Prop :=
  ∀ S : Set κ, OrdersOn cmp S → ∀ tree, A.Built S tree → ∀ k ∈ S, A.find tree k = none →
    ∀ v, ∀ k' ∈ S, A.find (A.add tree k v) k' = if cmp k' k = .eq then some v else A.find tree k'

theorem Avl.servesOrders_list (cmp : κ → κ → Ordering) :
    (Avl.list cmp : Avl κ ν cmp).ServesOrders :=
  fun _ _ tree _ k _ _ v k' _ => Avl.find?_cons_eq tree k k' v

namespace OrdersOn

variable {S : Set κ} (h : OrdersOn cmp S)

include h

theorem refl {a : κ} (ha : a ∈ S) : cmp a a = .eq := by
  have hswap := h.swap a ha a ha
  cases hcmp : cmp a a with
  | lt => rw [hcmp] at hswap; cases hswap
  | eq => rfl
  | gt => rw [hcmp] at hswap; cases hswap

/-- **There is a least one** of finitely many keys. -/
theorem exists_least {keys : List κ} (hkeys : ∀ k ∈ keys, k ∈ S) (hne : keys ≠ []) :
    ∃ r ∈ keys, ∀ k ∈ keys, cmp r k ≠ .gt := by
  induction keys with
  | nil => exact absurd rfl hne
  | cons a keys ih =>
    have ha := hkeys a List.mem_cons_self
    have hrefl : cmp a a ≠ .gt := by
      rw [h.refl ha]
      exact nofun
    by_cases hnil : keys = []
    · subst hnil
      refine ⟨a, List.mem_cons_self, fun k hk => ?_⟩
      obtain rfl := List.mem_singleton.mp hk
      exact hrefl
    · obtain ⟨r, hr, hleast⟩ := ih (fun k hk => hkeys k (List.mem_cons_of_mem _ hk)) hnil
      have hrS := hkeys r (List.mem_cons_of_mem _ hr)
      by_cases har : cmp a r = .gt
      · -- the first key is not less than the least one of the others
        refine ⟨r, List.mem_cons_of_mem _ hr, fun k hk => ?_⟩
        rcases List.mem_cons.mp hk with rfl | hk
        · rw [h.swap k ha r hrS, har]
          exact nofun
        · exact hleast k hk
      · refine ⟨a, List.mem_cons_self, fun k hk => ?_⟩
        rcases List.mem_cons.mp hk with rfl | hk
        · exact hrefl
        · exact h.trans a ha r hrS k (hkeys k (List.mem_cons_of_mem _ hk)) har (hleast k hk)

end OrdersOn

end OrdersOn

end MdbV8.Lib
