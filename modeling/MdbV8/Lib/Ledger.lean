import Mathlib

/-!
# Blocks of memory

The books of an allocator. A block is *owned* by the program, which has to give it back once, or it is
*collected*: somebody else gives it back later, and the program must not. The `Ledger` has the blocks
of both kinds that are live, and counts the wrong calls of the function that gives blocks back: those
for something that is not a live block of the program, or not with its size. Every block has an address
of its own, so an address that has been given back stays wrong.

A program is accounted for by what it adds to the books (`Ledger.Adds`). Additions are multisets of
blocks, which makes the order in which blocks are taken and given back unimportant. `Accounts` is the
triple of a program with what has been added before it and after it.
-/

namespace MdbV8.Lib

/-- A block of memory: its address, which is not zero, and its size. -/
structure Block where
  ptr : ℕ
  size : ℕ
  deriving DecidableEq, Repr

/-- The live blocks. -/
structure Ledger where
  /-- The blocks of the program. -/
  live : Finset Block
  /-- The blocks that somebody else gives back. -/
  collected : Finset Block
  /-- The number of attempts to allocate a block. -/
  count : ℕ
  /-- The number of wrong attempts to give back a block. -/
  misuses : ℕ
  /-- No block has an address that is still to come. -/
  fresh : ∀ b ∈ live ∪ collected, b.ptr ≤ count

namespace Ledger

/-- The books before the first call. -/
def empty : Ledger where
  live := ∅
  collected := ∅
  count := 0
  misuses := 0
  fresh := by simp

variable (l : Ledger)

/-- The block that is allocated next, if it has the given size. -/
def next (size : ℕ) : Block := ⟨l.count + 1, size⟩

/-- An attempt to allocate a block that does not succeed. -/
def fail : Ledger where
  live := l.live
  collected := l.collected
  count := l.count + 1
  misuses := l.misuses
  fresh b hb := (l.fresh b hb).trans (Nat.le_succ _)

/-- Allocating a block for the program. -/
def take (size : ℕ) : Ledger where
  live := insert (l.next size) l.live
  collected := l.collected
  count := l.count + 1
  misuses := l.misuses
  fresh b hb := by
    rw [Finset.insert_union, Finset.mem_insert] at hb
    rcases hb with rfl | hb
    · exact le_rfl
    · exact (l.fresh b hb).trans (Nat.le_succ _)

/-- Allocating a block that somebody else gives back. -/
def lend (size : ℕ) : Ledger where
  live := l.live
  collected := insert (l.next size) l.collected
  count := l.count + 1
  misuses := l.misuses
  fresh b hb := by
    rw [Finset.union_insert, Finset.mem_insert] at hb
    rcases hb with rfl | hb
    · exact le_rfl
    · exact (l.fresh b hb).trans (Nat.le_succ _)

/-- Giving back a block. The null pointer is no block, and giving it back does nothing. -/
def free (ptr size : ℕ) : Ledger :=
  if ptr = 0 then l
  else if ⟨ptr, size⟩ ∈ l.live then
    { live := l.live.erase ⟨ptr, size⟩
      collected := l.collected
      count := l.count
      misuses := l.misuses
      fresh := fun b hb => by
        refine l.fresh b ?_
        rcases Finset.mem_union.mp hb with h | h
        · exact Finset.mem_union_left _ (Finset.mem_of_mem_erase h)
        · exact Finset.mem_union_right _ h }
  else { l with misuses := l.misuses + 1 }

/-- An attempt to allocate a block, of one kind or the other: its address, or the null pointer. -/
def alloc (collected : Bool) (size : ℕ) (ok : Bool) : ℕ × Ledger :=
  if !ok then (0, l.fail)
  else if collected then (l.count + 1, l.lend size)
  else (l.count + 1, l.take size)

/-- Giving back a block, if it is one that the program has to give back. -/
def release (collected : Bool) (ptr size : ℕ) : Ledger := if collected then l else l.free ptr size

/-- The books without some of the live blocks. -/
def without (bs : Multiset Block) : Ledger where
  live := ⟨l.live.val - bs, Multiset.nodup_of_le (Multiset.sub_le_self _ _) l.live.nodup⟩
  collected := l.collected
  count := l.count
  misuses := l.misuses
  fresh b hb := by
    refine l.fresh b ?_
    rcases Finset.mem_union.mp hb with h | h
    · exact Finset.mem_union_left _ (Multiset.mem_of_le (Multiset.sub_le_self _ _) h)
    · exact Finset.mem_union_right _ h

variable {l}

/-- The next block is none of those that are live. -/
theorem next_notMem (size : ℕ) : l.next size ∉ l.live ∪ l.collected := fun h =>
  absurd (l.fresh _ h) (Nat.not_succ_le_self _)

/-- Giving back what is no block of the program is wrong. -/
theorem misuses_free_of_notMem {ptr size : ℕ} (hptr : ptr ≠ 0) (h : ⟨ptr, size⟩ ∉ l.live) :
    (l.free ptr size).misuses = l.misuses + 1 := by
  unfold free
  rw [if_neg hptr, if_neg h]

/-- The block of an allocation that the program has to give back. -/
def held (collected : Bool) (ptr size : ℕ) : Multiset Block :=
  if ptr = 0 ∨ collected = true then 0 else {⟨ptr, size⟩}

@[simp] theorem held_null (collected : Bool) (size : ℕ) : held collected 0 size = 0 :=
  if_pos (.inl rfl)

@[simp] theorem held_collected (ptr size : ℕ) : held true ptr size = 0 := if_pos (.inr rfl)

/-- What a program adds to the books: the blocks `bs`, and no wrong call. -/
structure Adds (l₀ l : Ledger) (bs : Multiset Block) : Prop where
  live : l.live.val = bs + l₀.live.val
  collected : l₀.collected ⊆ l.collected
  misuses : l.misuses = l₀.misuses

namespace Adds

variable {l₀ : Ledger} {bs : Multiset Block}

theorem refl (l : Ledger) : l.Adds l 0 := ⟨(zero_add _).symm, subset_rfl, rfl⟩

theorem fail (h : l₀.Adds l bs) : l₀.Adds l.fail bs := ⟨h.live, h.collected, h.misuses⟩

theorem lend (h : l₀.Adds l bs) (size : ℕ) : l₀.Adds (l.lend size) bs :=
  ⟨h.live, h.collected.trans (Finset.subset_insert _ _), h.misuses⟩

theorem take (h : l₀.Adds l bs) (size : ℕ) : l₀.Adds (l.take size) ({l.next size} + bs) := by
  have hnot : l.next size ∉ l.live := fun hmem =>
    next_notMem size (Finset.mem_union_left _ hmem)
  refine ⟨?_, h.collected, h.misuses⟩
  rw [Ledger.take, Finset.insert_val_of_notMem hnot, h.live, Multiset.singleton_add,
    Multiset.cons_add]

/-- An attempt to allocate a block adds the block, if there is one to be given back. -/
theorem alloc (h : l₀.Adds l bs) (collected : Bool) (size : ℕ) (ok : Bool) :
    l₀.Adds (l.alloc collected size ok).2
      (held collected (l.alloc collected size ok).1 size + bs) := by
  unfold Ledger.alloc
  cases ok with
  | false =>
    change l₀.Adds l.fail (held collected 0 size + bs)
    rw [held_null, zero_add]
    exact h.fail
  | true =>
    cases collected with
    | true =>
      change l₀.Adds (l.lend size) (held true (l.count + 1) size + bs)
      rw [held_collected, zero_add]
      exact h.lend size
    | false => exact h.take size

/-- Giving back a block that has been added. -/
theorem free {ptr size : ℕ} (h : l₀.Adds l (held false ptr size + bs)) :
    l₀.Adds (l.free ptr size) bs := by
  unfold Ledger.free
  by_cases hptr : ptr = 0
  · rw [if_pos hptr]
    rwa [hptr, held_null, zero_add] at h
  · have hheld : held false ptr size = {⟨ptr, size⟩} := if_neg (by simp [hptr])
    have hlive : l.live.val = ⟨ptr, size⟩ ::ₘ (bs + l₀.live.val) := by
      rw [h.live, hheld, add_assoc, Multiset.singleton_add]
    have hmem : ⟨ptr, size⟩ ∈ l.live := by
      rw [← Finset.mem_val, hlive]
      exact Multiset.mem_cons_self _ _
    rw [if_neg hptr, if_pos hmem]
    refine ⟨?_, h.collected, h.misuses⟩
    rw [Finset.erase_val, hlive, Multiset.erase_cons_head]

theorem release {collected : Bool} {ptr size : ℕ}
    (h : l₀.Adds l (held collected ptr size + bs)) :
    l₀.Adds (l.release collected ptr size) bs := by
  cases collected with
  | true =>
    rw [held_collected, zero_add] at h
    exact h
  | false => exact h.free

/-- Every part of the live blocks has been added to the rest. -/
theorem without (h : bs ≤ l.live.val) : (l.without bs).Adds l bs :=
  ⟨(add_tsub_cancel_of_le h).symm, subset_rfl, rfl⟩

/-- Without an addition, the same blocks are live. -/
theorem live_eq (h : l₀.Adds l 0) : l.live = l₀.live :=
  Finset.val_injective (h.live.trans (zero_add _))

end Adds

end Ledger

/-! ### Programs -/

section Programs

variable {σ α β : Type}

/-- What a program returns, and the state that it leaves behind. -/
def exec (x : StateM σ α) (s : σ) : α × σ := x.run s

@[simp] theorem exec_pure (a : α) (s : σ) : exec (pure a) s = (a, s) := rfl

@[simp] theorem exec_bind (x : StateM σ α) (f : α → StateM σ β) (s : σ) :
    exec (x >>= f) s = exec (f (exec x s).1) (exec x s).2 := rfl

variable (ledger : σ → Ledger)

/-- A program accounts for its blocks: if `bs` has been added before it, it ends with an addition and a
result that are as they should be, whatever the books have been. -/
def Accounts (bs : Multiset Block) (x : StateM σ α) (post : α → Multiset Block → Prop) : Prop :=
  ∀ (l₀ : Ledger) (s : σ), l₀.Adds (ledger s) bs →
    ∃ bs', l₀.Adds (ledger (exec x s).2) bs' ∧ post (exec x s).1 bs'

namespace Accounts

variable {ledger} {bs : Multiset Block} {post : α → Multiset Block → Prop}

theorem pure {a : α} (h : post a bs) : Accounts ledger bs (Pure.pure a) post :=
  fun _ _ hadds => ⟨bs, hadds, h⟩

/-- One program after the other. -/
theorem bind {x : StateM σ α} {f : α → StateM σ β} {mid : α → Multiset Block → Prop}
    {post : β → Multiset Block → Prop} (hx : Accounts ledger bs x mid)
    (hf : ∀ a bs', mid a bs' → Accounts ledger bs' (f a) post) :
    Accounts ledger bs (x >>= f) post := by
  intro l₀ s hadds
  obtain ⟨bs', hadds', hmid⟩ := hx l₀ s hadds
  exact hf _ bs' hmid l₀ _ hadds'

end Accounts

end Programs

end MdbV8.Lib
