import MdbV8.Loading.Loaders

/-!
# The discipline of the loads

A load that fails leaves no block of its own behind, and a load that succeeds leaves those of the
handle, which are given back when the handle is freed; and `mdb_free` is never called for a block that
the debugger gives back. All of this is one statement about the books of the allocator
(`Disciplined`), which follows from what the programs add to them: a load adds nothing, or the blocks
of a handle that remembers its flags (`Loads`), and freeing such a handle takes them away again
(`Frees`).

One of the loads can break it. `v8boundfunctionLoadDirect` frees a handle that does not have its flags
yet, as if it had been allocated without `UM_GC` (`disciplined_iff`).
-/

namespace MdbV8.Loading

open Lib Target

/-- The discipline of a load, from a state on. The blocks are those that belong to a handle. -/
structure Disciplined {H : Type} (m : Mdb) (load : StateM Mdb (Option H))
    (free : Option H → StateM Mdb Unit) (blocks : H → Multiset Block) : Prop where
  /-- A load that fails has given back all that it has taken. -/
  failed : (exec load m).1 = none →
    (exec load m).2.ledger.live = m.ledger.live ∧ (exec load m).2.ledger.misuses = m.ledger.misuses
  /-- A load that succeeds has given back all that does not belong to the handle. -/
  loaded : ∀ h, (exec load m).1 = some h →
    (exec load m).2.ledger.live.val = blocks h + m.ledger.live.val ∧
      (exec load m).2.ledger.misuses = m.ledger.misuses
  /-- Freeing the handle, at any time while its blocks are live, gives them back. -/
  freed : ∀ h, (exec load m).1 = some h → ∀ u : Mdb, blocks h ≤ u.ledger.live.val →
    (exec (free (some h)) u).2.ledger.live.val = u.ledger.live.val - blocks h ∧
      (exec (free (some h)) u).2.ledger.misuses = u.ledger.misuses

/-! ### Programs -/

section Programs

variable {d : Debugger} {α β : Type} {bs : Multiset Block} {post : β → Multiset Block → Prop}

theorem accounts_ite {c : Prop} [Decidable c] {x y : StateM Mdb β}
    (hx : c → Accounts Mdb.ledger bs x post) (hy : ¬ c → Accounts Mdb.ledger bs y post) :
    Accounts Mdb.ledger bs (if c then x else y) post := by
  split
  · next h => exact hx h
  · next h => exact hy h

theorem accounts_pure {a : α} {g : α → StateM Mdb β} (h : Accounts Mdb.ledger bs (g a) post) :
    Accounts Mdb.ledger bs (pure a >>= g) post := by rwa [pure_bind]

theorem accounts_read {f : Target → α} {g : α → StateM Mdb β}
    (h : ∀ a, Accounts Mdb.ledger bs (g a) post) : Accounts Mdb.ledger bs (read d f >>= g) post := by
  have hread : Accounts Mdb.ledger bs (read d f) fun _ bs' => bs' = bs :=
    fun _ _ hadds => ⟨bs, hadds, rfl⟩
  exact hread.bind fun a _ hbs => hbs ▸ h a

/-- A read that may fail. -/
theorem accounts_readSome {f : Target → Option α} {g : Option α → StateM Mdb β}
    (hnone : Accounts Mdb.ledger bs (g none) post)
    (hsome : ∀ a, Accounts Mdb.ledger bs (g (some a)) post) :
    Accounts Mdb.ledger bs (read d f >>= g) post := by
  refine accounts_read fun a => ?_
  cases a with
  | none => exact hnone
  | some a => exact hsome a

/-- An allocation adds its block, if there is one to be given back. -/
theorem accounts_mdbZalloc {size : ℕ} {memflags : Memflags} {g : ℕ → StateM Mdb β}
    (h : ∀ ptr, Accounts Mdb.ledger (Ledger.held (isGc memflags) ptr size + bs) (g ptr) post) :
    Accounts Mdb.ledger bs (mdbZalloc d size memflags >>= g) post := by
  have halloc : Accounts Mdb.ledger bs (mdbZalloc d size memflags) fun ptr bs' =>
      bs' = Ledger.held (isGc memflags) ptr size + bs :=
    fun _ _ hadds => ⟨_, hadds.alloc _ _ _, rfl⟩
  exact halloc.bind fun ptr _ hbs => hbs ▸ h ptr

/-- An allocation that may fail. -/
theorem accounts_mdbZallocSome {size : ℕ} {memflags : Memflags} {x : StateM Mdb β}
    {g : ℕ → StateM Mdb β} (hnull : Accounts Mdb.ledger bs x post)
    (h : ∀ ptr, Accounts Mdb.ledger (Ledger.held (isGc memflags) ptr size + bs) (g ptr) post) :
    Accounts Mdb.ledger bs (do
      let ptr ← mdbZalloc d size memflags
      if ptr = 0 then x else g ptr) post := by
  refine accounts_mdbZalloc fun ptr => accounts_ite (fun hptr => ?_) fun _ => h ptr
  rwa [hptr, Ledger.held_null, zero_add]

theorem accounts_maybefree {ptr size : ℕ} {memflags : Memflags} :
    Accounts Mdb.ledger (Ledger.held (isGc memflags) ptr size + bs) (maybefree ptr size memflags)
      fun _ bs' => bs' = bs :=
  fun _ _ hadds => ⟨bs, hadds.release, rfl⟩

/-- Giving back two blocks. -/
theorem accounts_maybefree_two {ptr₁ size₁ ptr₂ size₂ : ℕ} {memflags : Memflags} :
    Accounts Mdb.ledger
      (Ledger.held (isGc memflags) ptr₁ size₁ + Ledger.held (isGc memflags) ptr₂ size₂ + bs) (do
        maybefree ptr₁ size₁ memflags
        maybefree ptr₂ size₂ memflags) fun _ bs' => bs' = bs := by
  rw [add_assoc]
  exact accounts_maybefree.bind fun _ _ hbs => hbs ▸ accounts_maybefree

/-- A program that adds nothing, and then another one. -/
theorem accounts_keeps {x : StateM Mdb α} {g : α → StateM Mdb β}
    (hx : ∀ bs, Accounts Mdb.ledger bs x fun _ bs' => bs' = bs)
    (h : ∀ a, Accounts Mdb.ledger bs (g a) post) : Accounts Mdb.ledger bs (x >>= g) post :=
  (hx bs).bind fun a _ hbs => hbs ▸ h a

end Programs

/-! ### Loading and freeing -/

/-- What a load leaves behind: the blocks of a handle, which remembers the flags, or nothing. -/
def LoadPost {H : Type} (blocks : H → Multiset Block) (remembers : H → Prop) (bs : Multiset Block)
    (r : Option H) (bs' : Multiset Block) : Prop :=
  (r = none ∧ bs' = bs) ∨ ∃ h, r = some h ∧ remembers h ∧ bs' = blocks h + bs

/-- A load adds the blocks of a handle, or nothing. -/
def Loads {H : Type} (load : StateM Mdb (Option H)) (blocks : H → Multiset Block)
    (remembers : H → Prop) : Prop :=
  ∀ bs, Accounts Mdb.ledger bs load (LoadPost blocks remembers bs)

/-- Freeing a handle takes its blocks away. -/
def Frees {H : Type} (free : Option H → StateM Mdb Unit) (blocks : H → Multiset Block)
    (remembers : H → Prop) : Prop :=
  ∀ h, remembers h → ∀ bs, Accounts Mdb.ledger (blocks h + bs) (free (some h)) fun _ bs' => bs' = bs

section Loads

variable {H : Type} {load : StateM Mdb (Option H)} {free : Option H → StateM Mdb Unit}
  {blocks : H → Multiset Block} {remembers : H → Prop} {bs : Multiset Block}

theorem accounts_none : Accounts Mdb.ledger bs (pure none) (LoadPost blocks remembers bs) :=
  Accounts.pure (.inl ⟨rfl, rfl⟩)

theorem accounts_some {h : H} {bs' : Multiset Block} (hbs : bs' = blocks h + bs)
    (hrem : remembers h) :
    Accounts Mdb.ledger bs' (pure (some h)) (LoadPost blocks remembers bs) :=
  Accounts.pure (.inr ⟨h, rfl, hrem, hbs⟩)

/-- Freeing the handle before the load fails. -/
theorem accounts_free_none (hfree : Frees free blocks remembers) (bs : Multiset Block) {h : H}
    (hrem : remembers h) :
    Accounts Mdb.ledger (blocks h + bs) (do
      free (some h)
      return none) (LoadPost blocks remembers bs) :=
  (hfree h hrem bs).bind fun _ _ hbs => Accounts.pure (.inl ⟨rfl, hbs⟩)

section Then

variable {β : Type} {post : β → Multiset Block → Prop}

/-- A load, and then another program. -/
theorem accounts_load {g : Option H → StateM Mdb β} (hload : Loads load blocks remembers)
    (hnone : Accounts Mdb.ledger bs (g none) post)
    (hsome : ∀ h, remembers h → Accounts Mdb.ledger (blocks h + bs) (g (some h)) post) :
    Accounts Mdb.ledger bs (load >>= g) post := by
  refine (hload bs).bind fun r bs' hpost => ?_
  rcases hpost with ⟨rfl, rfl⟩ | ⟨h, rfl, hrem, rfl⟩
  · exact hnone
  · exact hsome h hrem

/-- Freeing a handle, and then another program. -/
theorem accounts_free {g : Unit → StateM Mdb β} (hfree : Frees free blocks remembers) {h : H}
    (hrem : remembers h) (hg : Accounts Mdb.ledger bs (g ()) post) :
    Accounts Mdb.ledger (blocks h + bs) (free (some h) >>= g) post :=
  (hfree h hrem bs).bind fun _ _ hbs => hbs ▸ hg

end Then

/-- The discipline follows from what a run of the load leaves behind. -/
theorem disciplined_of_loadPost {m : Mdb} (hfree : Frees free blocks remembers)
    (hrun : ∃ bs', m.ledger.Adds (exec load m).2.ledger bs' ∧
      LoadPost blocks remembers 0 (exec load m).1 bs') :
    Disciplined m load free blocks := by
  obtain ⟨bs', hadds, hpost⟩ := hrun
  refine ⟨fun hnone => ?_, fun h hsome => ?_, fun h hsome u hle => ?_⟩
  · rcases hpost with ⟨-, rfl⟩ | ⟨h, hsome, -⟩
    · exact ⟨hadds.live_eq, hadds.misuses⟩
    · exact absurd (hnone.symm.trans hsome) (by simp)
  · rcases hpost with ⟨hnone, -⟩ | ⟨h', hsome', -, rfl⟩
    · exact absurd (hnone.symm.trans hsome) (by simp)
    · obtain rfl : h' = h := Option.some.inj (hsome'.symm.trans hsome)
      refine ⟨?_, hadds.misuses⟩
      rw [hadds.live, add_zero]
  · rcases hpost with ⟨hnone, -⟩ | ⟨h', hsome', hrem, -⟩
    · exact absurd (hnone.symm.trans hsome) (by simp)
    · obtain rfl : h' = h := Option.some.inj (hsome'.symm.trans hsome)
      -- the books have been those without the blocks, with the blocks added
      have hu : (u.ledger.without (blocks h')).Adds u.ledger (blocks h' + 0) := by
        rw [add_zero]
        exact Ledger.Adds.without hle
      obtain ⟨_, hadds', rfl⟩ := hfree h' hrem 0 _ u hu
      refine ⟨?_, hadds'.misuses⟩
      rw [hadds'.live, zero_add]
      rfl

/-- **The discipline follows from the books.** -/
theorem disciplined_of_loads (hload : Loads load blocks remembers)
    (hfree : Frees free blocks remembers) (m : Mdb) : Disciplined m load free blocks :=
  disciplined_of_loadPost hfree (hload 0 m.ledger m (Ledger.Adds.refl _))

end Loads

/-! ### Strings -/

section Each

variable (d : Debugger) (memflags : Memflags)

/-- The block of a string. -/
def V8String.blocks (strp : V8String) : Multiset Block :=
  Ledger.held (isGc memflags) strp.ptr (sizeofV8String d)

theorem frees_v8string :
    Frees (v8stringFree d) (V8String.blocks d memflags) (·.memflags = memflags) := by
  rintro strp rfl bs
  exact accounts_maybefree

theorem loads_v8string (addr : ℕ) :
    Loads (v8stringLoad d addr memflags) (V8String.blocks d memflags) (·.memflags = memflags) := by
  intro bs
  unfold v8stringLoad
  refine accounts_readSome accounts_none fun type => ?_
  refine accounts_ite (fun _ => accounts_none) fun _ => ?_
  refine accounts_ite (fun _ => accounts_none) fun _ => ?_
  refine accounts_readSome accounts_none fun len => ?_
  refine accounts_mdbZallocSome accounts_none fun ptr => ?_
  -- from here on there is a handle
  let strp : V8String := { ptr, memflags, str := { addr, len, type } }
  have hfail : Accounts Mdb.ledger (strp.blocks d memflags + bs) _ (LoadPost _ _ bs) :=
    accounts_free_none (frees_v8string d memflags) bs rfl
  refine accounts_ite (fun _ => ?_) fun _ => accounts_ite (fun _ => ?_) fun _ =>
    accounts_ite (fun _ => ?_) fun _ => ?_
  · refine accounts_readSome hfail fun consP1 => accounts_readSome hfail fun consP2 => ?_
    exact accounts_some rfl (by rfl)
  · refine accounts_readSome hfail fun slicedParent => accounts_readSome hfail fun slicedOffset => ?_
    exact accounts_some rfl (by rfl)
  · refine accounts_readSome hfail fun data => accounts_readSome hfail fun nodedata => ?_
    exact accounts_some rfl (by rfl)
  · exact accounts_some rfl (by rfl)

/-- Writing a slice gives back its parent. -/
theorem keeps_v8stringWriteSliced (strp : V8String) (strb : Strbuf) (strflags v8flags : ℕ)
    (bs : Multiset Block) :
    Accounts Mdb.ledger bs (v8stringWriteSliced d strp strb strflags v8flags)
      fun _ bs' => bs' = bs := by
  unfold v8stringWriteSliced
  refine accounts_load (loads_v8string d strp.memflags _) (Accounts.pure rfl) fun pstrp hrem => ?_
  have hend : ∀ r : ℤ × Strbuf, Accounts Mdb.ledger (pstrp.blocks d strp.memflags + bs) (do
      v8stringFree d (some pstrp)
      return r) fun _ bs' => bs' = bs := fun r =>
    accounts_free (frees_v8string d strp.memflags) hrem (Accounts.pure rfl)
  exact accounts_ite (fun _ => accounts_pure (hend _)) fun _ => accounts_read hend

/-- Writing a concatenation gives back its parts, if writing a part adds nothing. -/
theorem keeps_v8stringWriteCons {write : V8String → Strbuf → ℕ → ℕ → StateM Mdb (ℤ × Strbuf)}
    (hwrite : ∀ strp strb strflags v8flags bs,
      Accounts Mdb.ledger bs (write strp strb strflags v8flags) fun _ bs' => bs' = bs)
    (strp : V8String) (strb : Strbuf) (strflags v8flags : ℕ) (bs : Multiset Block) :
    Accounts Mdb.ledger bs (v8stringWriteCons d write strp strb strflags v8flags)
      fun _ bs' => bs' = bs := by
  have hload := loads_v8string d strp.memflags
  have hfree := frees_v8string d strp.memflags
  unfold v8stringWriteCons
  refine accounts_load (hload _) ?_ fun str1p hrem1 => ?_
  · -- the first part could not be loaded
    refine accounts_load (hload _) (Accounts.pure rfl) fun str2p hrem2 => ?_
    exact accounts_pure (accounts_pure (accounts_free hfree hrem2 (Accounts.pure rfl)))
  · refine accounts_load (hload _) ?_ fun str2p hrem2 => ?_
    · exact accounts_pure (accounts_free hfree hrem1 (accounts_pure (Accounts.pure rfl)))
    · -- the first part is given back before the second
      have hend : ∀ r : ℤ × Strbuf, Accounts Mdb.ledger
          (str2p.blocks d strp.memflags + (str1p.blocks d strp.memflags + bs)) (do
        v8stringFree d (some str1p)
        v8stringFree d (some str2p)
        return r) fun _ bs' => bs' = bs := by
        intro r
        rw [add_left_comm]
        exact accounts_free hfree hrem1 (accounts_free hfree hrem2 (Accounts.pure rfl))
      refine accounts_keeps (hwrite _ _ _ _) fun r1 => ?_
      exact accounts_ite (fun _ => accounts_keeps (hwrite _ _ _ _) hend) fun _ =>
        accounts_pure (hend _)

/-- Writing a string adds nothing. -/
theorem keeps_v8stringWriteN (fuel : ℕ) (strp : V8String) (strb : Strbuf) (strflags v8flags : ℕ)
    (bs : Multiset Block) :
    Accounts Mdb.ledger bs (v8stringWriteN d fuel strp strb strflags v8flags)
      fun _ bs' => bs' = bs := by
  induction fuel generalizing strp strb strflags v8flags bs with
  | zero => exact Accounts.pure rfl
  | succ fuel ih =>
    unfold v8stringWriteN
    refine accounts_ite (fun _ => Accounts.pure rfl) fun _ => ?_
    -- whatever is written, the rest of the function reads and allocates nothing
    refine accounts_ite (fun _ => accounts_read fun _ => Accounts.pure rfl) fun _ => ?_
    refine accounts_ite (fun _ => ?_) fun _ => ?_
    · exact accounts_keeps (keeps_v8stringWriteCons d ih _ _ _ _) fun _ => Accounts.pure rfl
    refine accounts_ite (fun _ => accounts_read fun _ => Accounts.pure rfl) fun _ => ?_
    refine accounts_ite (fun _ => accounts_pure (Accounts.pure rfl)) fun _ => ?_
    exact accounts_keeps (keeps_v8stringWriteSliced d _ _ _ _) fun _ => Accounts.pure rfl

theorem keeps_jsstrPrint (addr flags : ℕ) (o : OutBuf) (bs : Multiset Block) :
    Accounts Mdb.ledger bs (jsstrPrint d addr flags o) fun _ bs' => bs' = bs := by
  unfold jsstrPrint
  refine accounts_load (loads_v8string d umSleep _) (Accounts.pure rfl) fun strp hrem => ?_
  refine accounts_keeps (keeps_v8stringWriteN d _ _ _ _ _) fun r => ?_
  exact accounts_free (frees_v8string d umSleep) hrem (Accounts.pure rfl)

/-- Looking at an object adds nothing. -/
theorem keeps_jsobjIsUndefined (addr : ℕ) (bs : Multiset Block) :
    Accounts Mdb.ledger bs (jsobjIsUndefined d addr) fun _ bs' => bs' = bs := by
  unfold jsobjIsUndefined
  refine accounts_readSome (Accounts.pure rfl) fun type => ?_
  refine accounts_ite (fun _ => Accounts.pure rfl) fun _ => ?_
  refine accounts_readSome (Accounts.pure rfl) fun strptr => ?_
  exact accounts_keeps (keeps_jsstrPrint d _ _ _) fun _ => Accounts.pure rfl

/-! ### Arrays -/

/-- The block of a `FixedArray`. -/
def V8FixedArray.blocks (arrayp : V8FixedArray) : Multiset Block :=
  Ledger.held (isGc memflags) arrayp.ptr (d.words 4)

theorem frees_v8fixedarray :
    Frees (v8fixedarrayFree d) (V8FixedArray.blocks d memflags) (·.memflags = memflags) := by
  rintro arrayp rfl bs
  exact accounts_maybefree

theorem loads_v8fixedarray (addr : ℕ) :
    Loads (v8fixedarrayLoad d addr memflags) (V8FixedArray.blocks d memflags)
      (·.memflags = memflags) := by
  intro bs
  unfold v8fixedarrayLoad
  refine accounts_ite (fun _ => accounts_none) fun _ => ?_
  refine accounts_readSome accounts_none fun type => ?_
  refine accounts_ite (fun _ => accounts_none) fun _ => ?_
  refine accounts_readSome accounts_none fun nelts => ?_
  refine accounts_mdbZallocSome accounts_none fun ptr => ?_
  exact accounts_some rfl (by rfl)

/-- The blocks of an array: that of its elements, and its own. -/
def V8Array.blocks (ap : V8Array) : Multiset Block :=
  (ap.elements.map (V8FixedArray.blocks d memflags)).getD 0 +
    Ledger.held (isGc memflags) ap.ptr (d.words 4)

/-- An array, and its elements, remember their flags. -/
def V8Array.Remembers (ap : V8Array) : Prop :=
  ap.memflags = memflags ∧ ∀ arrayp ∈ ap.elements, arrayp.memflags = memflags

theorem frees_v8array :
    Frees (v8arrayFree d) (V8Array.blocks d memflags) (V8Array.Remembers memflags) := by
  rintro ⟨ptr, _, addr, length, elements⟩ ⟨rfl, helements⟩ bs
  unfold v8arrayFree V8Array.blocks
  cases elements with
  | none =>
    rw [Option.map_none, Option.getD_none, zero_add]
    exact accounts_pure accounts_maybefree
  | some arrayp =>
    rw [Option.map_some, Option.getD_some, add_assoc]
    exact accounts_free (frees_v8fixedarray d _) (helements arrayp rfl) accounts_maybefree

theorem loads_v8array (addr : ℕ) :
    Loads (v8arrayLoad d addr memflags) (V8Array.blocks d memflags)
      (V8Array.Remembers memflags) := by
  intro bs
  unfold v8arrayLoad
  refine accounts_ite (fun _ => accounts_none) fun _ => ?_
  refine accounts_readSome accounts_none fun type => ?_
  refine accounts_ite (fun _ => accounts_none) fun _ => ?_
  refine accounts_readSome accounts_none fun length => ?_
  refine accounts_readSome accounts_none fun elements => ?_
  refine accounts_mdbZallocSome accounts_none fun ptr => ?_
  -- an array without elements
  let ap : V8Array := { ptr, memflags, addr, length }
  have hrem : ap.Remembers memflags := ⟨rfl, fun arrayp h => by cases h⟩
  have hblocks : Ledger.held (isGc memflags) ptr (d.words 4) = ap.blocks d memflags :=
    (zero_add _).symm
  rw [hblocks]
  refine accounts_ite (fun _ => ?_) fun _ => accounts_some rfl hrem
  refine accounts_load (loads_v8fixedarray d memflags elements) ?_ fun arrayp harray => ?_
  · exact accounts_free_none (frees_v8array d memflags) bs hrem
  · refine accounts_some ?_ ⟨rfl, fun arrayp' h => ?_⟩
    · rw [← hblocks]
      exact (add_assoc _ _ _).symm
    · obtain rfl := Option.some.inj h
      exact harray

/-- Reading an array of words adds the block of the words, if it succeeds. -/
theorem accounts_readHeapArray {addr : ℕ} {retp : Words} {lenp : ℕ} (hretp : retp.ptr = 0)
    (bs : Multiset Block) :
    Accounts Mdb.ledger bs (readHeapArray d addr retp lenp memflags) fun r bs' =>
      (r.1 ≠ 0 → r.2.1.ptr = 0) ∧
        bs' = Ledger.held (isGc memflags) r.2.1.ptr (d.wordsSize r.2.2) + bs := by
  have hnull : ∀ (rv : ℤ) (words : Words) (len : ℕ), words.ptr = 0 →
      Accounts Mdb.ledger bs (pure (rv, words, len)) fun r bs' =>
        (r.1 ≠ 0 → r.2.1.ptr = 0) ∧
          bs' = Ledger.held (isGc memflags) r.2.1.ptr (d.wordsSize r.2.2) + bs := by
    intro rv words len hptr
    refine Accounts.pure ⟨fun _ => hptr, ?_⟩
    dsimp only
    rw [hptr, Ledger.held_null, zero_add]
  unfold readHeapArray
  refine accounts_ite (fun _ => hnull _ _ _ hretp) fun _ => ?_
  refine accounts_readSome (hnull _ _ _ hretp) fun type => ?_
  refine accounts_ite (fun _ => hnull _ _ _ hretp) fun _ => ?_
  refine accounts_readSome (hnull _ _ _ hretp) fun len => ?_
  refine accounts_ite (fun _ => hnull _ _ _ rfl) fun _ => ?_
  refine accounts_mdbZallocSome (hnull _ _ _ rfl) fun ptr => ?_
  refine accounts_readSome ?_ fun bytes => ?_
  · -- the block is given back
    exact accounts_maybefree.bind fun _ _ hbs => hbs ▸ hnull _ _ _ rfl
  · exact Accounts.pure ⟨fun hne => absurd rfl hne, rfl⟩

/-! ### Functions -/

/-- The block of a function. -/
def V8Function.blocks (funcp : V8Function) : Multiset Block :=
  Ledger.held (isGc memflags) funcp.ptr (d.words 3)

theorem frees_v8function :
    Frees (v8functionFree d) (V8Function.blocks d memflags) (·.memflags = memflags) := by
  rintro funcp rfl bs
  exact accounts_maybefree

theorem loads_v8function (addr : ℕ) :
    Loads (v8functionLoad d addr memflags) (V8Function.blocks d memflags)
      (·.memflags = memflags) := by
  intro bs
  unfold v8functionLoad
  refine accounts_ite (fun _ => accounts_none) fun _ => ?_
  refine accounts_readSome accounts_none fun type => ?_
  refine accounts_ite (fun _ => accounts_none) fun _ => ?_
  refine accounts_readSome accounts_none fun shared => ?_
  refine accounts_mdbZallocSome accounts_none fun ptr => ?_
  exact accounts_some rfl (by rfl)

/-- The block of a SharedFunctionInfo. -/
def V8Funcinfo.blocks (fip : V8Funcinfo) : Multiset Block :=
  Ledger.held (isGc memflags) fip.ptr (d.words 9)

theorem frees_v8funcinfo :
    Frees (v8funcinfoFree d) (V8Funcinfo.blocks d memflags) (·.memflags = memflags) := by
  rintro fip rfl bs
  exact accounts_maybefree

theorem loads_v8funcinfo (funcinfo : ℕ) :
    Loads (v8funcinfoLoad d funcinfo memflags) (V8Funcinfo.blocks d memflags)
      (·.memflags = memflags) := by
  intro bs
  unfold v8funcinfoLoad
  refine accounts_readSome accounts_none fun tokenpos => ?_
  refine accounts_readSome accounts_none fun funcname => ?_
  refine accounts_readSome accounts_none fun script => ?_
  refine accounts_readSome accounts_none fun scriptpath => ?_
  refine accounts_readSome accounts_none fun lineends => ?_
  refine accounts_readSome accounts_none fun code => ?_
  refine accounts_read fun inferred => ?_
  refine accounts_mdbZallocSome accounts_none fun ptr => ?_
  -- the strings that are loaded to look at the line ends are given back
  refine accounts_keeps (keeps_jsobjIsUndefined d _) fun undefined => ?_
  exact accounts_some rfl (by rfl)

/-- The block of a Code object. -/
def V8Code.blocks (codep : V8Code) : Multiset Block :=
  Ledger.held (isGc memflags) codep.ptr (d.words 4)

theorem frees_v8code :
    Frees (v8codeFree d) (V8Code.blocks d memflags) (·.memflags = memflags) := by
  rintro codep rfl bs
  exact accounts_maybefree

theorem loads_v8code (code : ℕ) :
    Loads (v8codeLoad d code memflags) (V8Code.blocks d memflags) (·.memflags = memflags) := by
  intro bs
  unfold v8codeLoad
  refine accounts_readSome accounts_none fun instrSize => ?_
  refine accounts_mdbZallocSome accounts_none fun ptr => ?_
  exact accounts_some rfl (by rfl)

/-! ### Contexts and ScopeInfos -/

/-- The blocks of a context: that of its slots, and its own. -/
def V8Context.blocks (ctxp : V8Context) : Multiset Block :=
  Ledger.held (isGc memflags) ctxp.elts.ptr (d.wordsSize ctxp.nelts) +
    Ledger.held (isGc memflags) ctxp.ptr (d.words 4)

theorem frees_v8context :
    Frees (v8contextFree d) (V8Context.blocks d memflags) (·.memflags = memflags) := by
  rintro ctxp rfl bs
  exact accounts_maybefree_two

theorem loads_v8context (addr : ℕ) :
    Loads (v8contextLoad d addr memflags) (V8Context.blocks d memflags) (·.memflags = memflags) := by
  intro bs
  unfold v8contextLoad
  refine accounts_mdbZallocSome accounts_none fun ptr => ?_
  refine (accounts_readHeapArray d memflags rfl _).bind ?_
  rintro ⟨rv, elts, nelts⟩ _ ⟨-, rfl⟩
  dsimp only
  rw [← add_assoc]
  -- from here on the handle has the block of its slots, if there is one
  have hfail := accounts_free_none (frees_v8context d memflags) bs
    (h := ⟨ptr, memflags, addr, elts, nelts⟩) rfl
  refine accounts_ite (fun _ => hfail) fun _ => ?_
  refine accounts_ite (fun _ => hfail) fun _ => ?_
  exact accounts_some rfl (by rfl)

/-- The blocks of a ScopeInfo: that of its slots, and its own. -/
def V8Scopeinfo.blocks (sip : V8Scopeinfo) : Multiset Block :=
  Ledger.held (isGc memflags) sip.elts.ptr (d.wordsSize sip.nelts) +
    Ledger.held (isGc memflags) sip.ptr (d.words 4)

theorem frees_v8scopeinfo :
    Frees (v8scopeinfoFree d) (V8Scopeinfo.blocks d memflags) (·.memflags = memflags) := by
  rintro sip rfl bs
  exact accounts_maybefree_two

theorem loads_v8scopeinfo (addr : ℕ) :
    Loads (v8scopeinfoLoad d addr memflags) (V8Scopeinfo.blocks d memflags)
      (·.memflags = memflags) := by
  intro bs
  unfold v8scopeinfoLoad
  refine accounts_mdbZallocSome accounts_none fun ptr => ?_
  refine (accounts_readHeapArray d memflags rfl _).bind ?_
  rintro ⟨rv, elts, nelts⟩ _ ⟨-, rfl⟩
  dsimp only
  rw [← add_assoc]
  have hfail := accounts_free_none (frees_v8scopeinfo d memflags) bs
    (h := ⟨ptr, memflags, addr, elts, nelts⟩) rfl
  refine accounts_ite (fun _ => hfail) fun _ => ?_
  refine accounts_ite (fun _ => hfail) fun _ => ?_
  refine accounts_ite (fun _ => hfail) fun _ => ?_
  exact accounts_some rfl (by rfl)

/-! ### String buffers -/

/-- The blocks of a string buffer: that of the characters, and its own. -/
def Mdbv8Strbuf.blocks (strb : Mdbv8Strbuf) : Multiset Block :=
  Ledger.held (isGc memflags) strb.buf strb.bufsz +
    Ledger.held (isGc memflags) strb.ptr (sizeofMdbv8Strbuf d)

theorem frees_mdbv8Strbuf :
    Frees (mdbv8StrbufFree d) (Mdbv8Strbuf.blocks d memflags) (·.memflags = memflags) := by
  rintro strb rfl bs
  exact accounts_maybefree_two

theorem loads_mdbv8Strbuf (nbytes : ℕ) :
    Loads (mdbv8StrbufAlloc d nbytes memflags) (Mdbv8Strbuf.blocks d memflags)
      (·.memflags = memflags) := by
  intro bs
  have hnone : ∀ ptr, Accounts Mdb.ledger
      (Ledger.held (isGc memflags) ptr (sizeofMdbv8Strbuf d) + bs) (do
        maybefree ptr (sizeofMdbv8Strbuf d) memflags
        return none) (LoadPost (Mdbv8Strbuf.blocks d memflags) (·.memflags = memflags) bs) :=
    fun ptr => accounts_maybefree.bind fun _ _ hbs => hbs ▸ accounts_none
  unfold mdbv8StrbufAlloc
  refine accounts_mdbZalloc fun ptr => ?_
  -- the null pointer may be given back
  refine accounts_ite (fun _ => hnone ptr) fun _ => ?_
  refine accounts_mdbZallocSome (hnone ptr) fun buf => ?_
  exact accounts_some (add_assoc _ _ _).symm (by rfl)

/-! ### Bound functions -/

/-- The blocks of a bound function: that of the arguments, and its own. -/
def V8Boundfunction.blocks (bfp : V8Boundfunction) : Multiset Block :=
  Ledger.held (isGc memflags) bfp.array.ptr (d.wordsSize bfp.arraylen) +
    Ledger.held (isGc memflags) bfp.ptr (d.words 7)

/-- A bound function remembers as much of its flags as freeing it depends on. -/
theorem frees_v8boundfunction :
    Frees (v8boundfunctionFree d) (V8Boundfunction.blocks d memflags)
      (isGc ·.memflags = isGc memflags) := by
  rintro bfp hrem bs
  unfold V8Boundfunction.blocks
  rw [← hrem]
  exact accounts_maybefree_two

theorem loads_v8boundfunction_bindings (addr : ℕ) :
    Loads (v8boundfunctionLoadBindings d addr memflags) (V8Boundfunction.blocks d memflags)
      (isGc ·.memflags = isGc memflags) := by
  intro bs
  unfold v8boundfunctionLoadBindings
  refine accounts_load (loads_v8function d memflags addr) accounts_none fun funcp hfunc => ?_
  refine accounts_load (loads_v8funcinfo d memflags _) ?_ fun fip hinfo => ?_
  · exact accounts_free (frees_v8function d memflags) hfunc accounts_none
  rw [add_left_comm]
  refine accounts_free (frees_v8function d memflags) hfunc ?_
  refine accounts_read fun err => accounts_free (frees_v8funcinfo d memflags) hinfo ?_
  -- the function and its SharedFunctionInfo have been given back
  cases err with
  | none => exact accounts_none
  | some hints =>
    refine accounts_ite (fun _ => accounts_none) fun _ => ?_
    refine accounts_readSome accounts_none fun bindingsp => ?_
    refine accounts_mdbZallocSome accounts_none fun ptr => ?_
    refine (accounts_readHeapArray d memflags rfl _).bind ?_
    rintro ⟨rv, array, arraylen⟩ _ ⟨-, rfl⟩
    dsimp only
    rw [← add_assoc]
    have hfail := accounts_free_none (frees_v8boundfunction d memflags) bs
      (h := { ptr, addr, memflags, array, arraylen }) rfl
    refine accounts_ite (fun _ => hfail) fun _ => ?_
    refine accounts_ite (fun _ => hfail) fun _ => ?_
    exact accounts_some rfl (by rfl)

/-! ### When the flags are missing -/

/-- Whether an allocation of so many bytes succeeds. -/
def Debugger.allocates (count size : ℕ) : Bool := (d.allocator count).gives size

/-- Whether `readHeapArray` succeeds, after so many reads and allocations. -/
def heapArrayReadable (reads count addr : ℕ) : Bool :=
  let c := d.cfg
  c.isHeapobject addr &&
    match (d.target reads).readTypebyte addr with
    | none => false
    | some type =>
      isType type c.typeFixedarray &&
        match (d.target (reads + 1)).readHeapSmi addr c.offFixedarrayLength with
        | none => false
        | some len => len == 0 || (d.allocates count (d.wordsSize len) &&
            ((d.target (reads + 2)).mdbVread (d.wordsSize len)
              (c.add addr c.offFixedarrayData)).isSome)

/-- Whether the details of a bound function can be read, after so many reads and allocations. -/
def bindingDetailsReadable (reads count addr : ℕ) : Bool :=
  let c := d.cfg
  ((d.target reads).readHeapPtr addr c.offJsboundfunctionBoundTargetFunction).isSome &&
    ((d.target (reads + 1)).readHeapPtr addr c.offJsboundfunctionBoundThis).isSome &&
      match (d.target (reads + 2)).readHeapPtr addr c.offJsboundfunctionBoundArguments with
      | none => false
      | some boundArgs => heapArrayReadable d (reads + 3) count boundArgs

/-- Whether a handle is allocated for a `JSBoundFunction`. -/
def directAllocates (m : Mdb) (addr : ℕ) : Bool :=
  d.cfg.isHeapobject addr &&
    match (d.target m.reads).readTypebyte addr with
    | none => false
    | some type =>
      isType type d.cfg.typeJsboundfunction && d.allocates m.ledger.count (d.words 7)

theorem exec_ite {α : Type} (c : Prop) [Decidable c] (x y : StateM Mdb α) (m : Mdb) :
    exec (if c then x else y) m = if c then exec x m else exec y m := by
  split <;> rfl

theorem exec_read {α : Type} (f : Target → α) (m : Mdb) :
    exec (read d f) m = (f (d.target m.reads), { m with reads := m.reads + 1 }) := rfl

/-- What an allocation returns. -/
theorem exec_mdbZalloc_fst (size : ℕ) (m : Mdb) :
    (exec (mdbZalloc d size memflags) m).1 =
      if d.allocates m.ledger.count size then m.ledger.count + 1 else 0 := by
  change (m.ledger.alloc (isGc memflags) size (d.allocates m.ledger.count size)).1 = _
  unfold Ledger.alloc
  cases d.allocates m.ledger.count size with
  | false => rfl
  | true => cases isGc memflags <;> rfl

theorem exec_mdbZalloc_reads (size : ℕ) (m : Mdb) :
    (exec (mdbZalloc d size memflags) m).2.reads = m.reads := rfl

/-- An allocation that succeeds. -/
theorem exec_mdbZalloc_of_allocates {size reads : ℕ} {l : Ledger}
    (h : d.allocates l.count size = true) :
    exec (mdbZalloc d size memflags) ⟨l, reads⟩ =
      (l.count + 1, ⟨(l.alloc (isGc memflags) size true).2, reads⟩) := by
  change ((l.alloc _ _ (d.allocates l.count size)).1,
    (⟨(l.alloc _ _ (d.allocates l.count size)).2, _⟩ : Mdb)) = _
  rw [h]
  cases isGc memflags <;> rfl

/-- An allocation that fails. -/
theorem exec_mdbZalloc_of_not_allocates {size reads : ℕ} {l : Ledger}
    (h : d.allocates l.count size = false) :
    exec (mdbZalloc d size memflags) ⟨l, reads⟩ = (0, ⟨l.fail, reads⟩) := by
  change ((l.alloc _ _ (d.allocates l.count size)).1,
    (⟨(l.alloc _ _ (d.allocates l.count size)).2, _⟩ : Mdb)) = _
  rw [h]
  rfl

/-- Reading an array of words succeeds as `heapArrayReadable` says. -/
theorem readHeapArray_fst (addr : ℕ) (retp : Words) (lenp : ℕ) (m : Mdb) :
    (exec (readHeapArray d addr retp lenp memflags) m).1.1 =
      if heapArrayReadable d m.reads m.ledger.count addr then 0 else -1 := by
  unfold readHeapArray heapArrayReadable
  dsimp only
  by_cases hheap : d.cfg.isHeapobject addr = true
  swap
  · simp [hheap]
  rw [exec_ite, if_neg (by simp [hheap]), exec_bind, exec_read]
  cases htype : (d.target m.reads).readTypebyte addr with
  | none => simp
  | some type =>
    by_cases harray : isType type d.cfg.typeFixedarray = true
    swap
    · simp [harray]
    dsimp only
    rw [exec_ite, if_neg (by simp [harray]), exec_bind, exec_read]
    dsimp only
    rcases ((d.target (m.reads + 1)).readHeapSmi addr
      d.cfg.offFixedarrayLength).eq_none_or_eq_some with hsmi | ⟨len, hsmi⟩
    · simp [hsmi]
    simp only [hsmi]
    -- an array without words needs no block
    by_cases hlen : len = 0
    · simp [hlen, hheap, harray]
    rw [exec_ite, if_neg hlen, exec_bind, exec_ite, exec_mdbZalloc_fst]
    dsimp only
    -- the block is allocated before the words are read
    by_cases hok : d.allocates m.ledger.count (d.wordsSize len) = true
    swap
    · simp [hlen, hok]
    rw [if_pos hok, if_neg (Nat.succ_ne_zero _), exec_bind, exec_read, exec_mdbZalloc_reads]
    dsimp only
    rcases ((d.target (m.reads + 2)).mdbVread (d.wordsSize len)
      (d.cfg.add addr d.cfg.offFixedarrayData)).eq_none_or_eq_some with hbytes | ⟨bytes, hbytes⟩
    · simp only [hbytes, exec_bind, exec_pure]
      simp [hlen]
    · simp [hbytes, hheap, harray, hok]

/-- The details of a bound function can be read as `bindingDetailsReadable` says. -/
theorem readBindingDetails_fst (addr : ℕ) (bfp : V8Boundfunction) (m : Mdb) :
    (exec (readBindingDetails d addr memflags bfp) m).1.1 =
      bindingDetailsReadable d m.reads m.ledger.count addr := by
  unfold readBindingDetails bindingDetailsReadable
  dsimp only
  rw [exec_bind, exec_read]
  cases htarget : (d.target m.reads).readHeapPtr addr
      d.cfg.offJsboundfunctionBoundTargetFunction with
  | none => simp
  | some target =>
    dsimp only
    rw [exec_bind, exec_read]
    dsimp only
    -- each read is made if the one before has succeeded
    cases hthis : (d.target (m.reads + 1)).readHeapPtr addr d.cfg.offJsboundfunctionBoundThis with
    | none => simp
    | some this =>
      dsimp only
      rw [exec_bind, exec_read]
      dsimp only
      cases hargs : (d.target (m.reads + 2)).readHeapPtr addr
          d.cfg.offJsboundfunctionBoundArguments with
      | none => simp
      | some boundArgs =>
        dsimp only
        rw [exec_bind, exec_pure, readHeapArray_fst]
        dsimp only
        cases heapArrayReadable d (m.reads + 3) m.ledger.count boundArgs <;> rfl

/-- What reading the details of a bound function leaves in its handle, and adds to the books. -/
theorem accounts_readBindingDetails (addr : ℕ) (bfp : V8Boundfunction) (hnull : bfp.array.ptr = 0)
    (bs : Multiset Block) :
    Accounts Mdb.ledger bs (readBindingDetails d addr memflags bfp) fun r bs' =>
      r.2.ptr = bfp.ptr ∧ r.2.memflags = bfp.memflags ∧ (r.1 = false → r.2.array.ptr = 0) ∧
        bs' = Ledger.held (isGc memflags) r.2.array.ptr (d.wordsSize r.2.arraylen) + bs := by
  have hstop : ∀ bfp' : V8Boundfunction, bfp'.ptr = bfp.ptr → bfp'.memflags = bfp.memflags →
      bfp'.array.ptr = 0 → Accounts Mdb.ledger bs (pure (false, bfp')) fun r bs' =>
        r.2.ptr = bfp.ptr ∧ r.2.memflags = bfp.memflags ∧ (r.1 = false → r.2.array.ptr = 0) ∧
          bs' = Ledger.held (isGc memflags) r.2.array.ptr (d.wordsSize r.2.arraylen) + bs := by
    intro bfp' hptr hflags harray
    refine Accounts.pure ⟨hptr, hflags, fun _ => harray, ?_⟩
    dsimp only
    rw [harray, Ledger.held_null, zero_add]
  unfold readBindingDetails
  refine accounts_readSome (hstop _ rfl rfl hnull) fun target => ?_
  refine accounts_readSome (hstop _ rfl rfl hnull) fun this => ?_
  refine accounts_readSome (hstop _ rfl rfl hnull) fun boundArgs => ?_
  refine (accounts_readHeapArray d memflags (by exact hnull) bs).bind ?_
  rintro ⟨rv, array, arraylen⟩ _ ⟨hptr, rfl⟩
  refine Accounts.pure ⟨rfl, rfl, fun hrv => hptr ?_, rfl⟩
  rintro rfl
  simp at hrv

/-- The end of a load of a bound function, after the handle has been allocated. -/
def finishDirect (addr : ℕ) : Bool × V8Boundfunction → StateM Mdb (Option V8Boundfunction)
  | (ok, bfp) => do
    if !ok then
      v8boundfunctionFree d (some bfp)
      return none
    return some { bfp with addr, memflags }

/-- A load that has allocated its handle goes on with the details. -/
theorem exec_direct_of_allocates {m : Mdb} {addr : ℕ} (h : directAllocates d m addr = true) :
    exec (v8boundfunctionLoadDirect d addr memflags) m =
      exec (do
        let r ← readBindingDetails d addr memflags { ptr := m.ledger.count + 1 }
        finishDirect d memflags addr r)
        ⟨(m.ledger.alloc (isGc memflags) (d.words 7) true).2, m.reads + 1⟩ := by
  unfold directAllocates at h
  rw [Bool.and_eq_true] at h
  obtain ⟨hheap, h⟩ := h
  split at h
  · cases h
  · next type htype =>
    rw [Bool.and_eq_true] at h
    obtain ⟨hdirect, hok⟩ := h
    unfold v8boundfunctionLoadDirect
    dsimp only
    rw [exec_ite, if_neg (by simp [hheap]), exec_bind, exec_read]
    simp only [htype]
    rw [exec_ite, if_neg (by simp [hdirect]), exec_bind, exec_mdbZalloc_of_allocates d memflags hok]
    dsimp only
    rw [exec_ite, if_neg (Nat.succ_ne_zero _)]
    rfl

/-- A load that has allocated no handle has allocated nothing. -/
theorem direct_of_not_allocates {m : Mdb} {addr : ℕ} (h : directAllocates d m addr = false) :
    (exec (v8boundfunctionLoadDirect d addr memflags) m).1 = none ∧
      m.ledger.Adds (exec (v8boundfunctionLoadDirect d addr memflags) m).2.ledger 0 := by
  unfold v8boundfunctionLoadDirect
  dsimp only
  by_cases hheap : d.cfg.isHeapobject addr = true
  swap
  · rw [exec_ite, if_pos (by simp [hheap])]
    exact ⟨rfl, Ledger.Adds.refl _⟩
  rw [exec_ite, if_neg (by simp [hheap]), exec_bind, exec_read]
  dsimp only
  rcases ((d.target m.reads).readTypebyte addr).eq_none_or_eq_some with htype | ⟨type, htype⟩
  · simp only [htype]
    exact ⟨rfl, Ledger.Adds.refl _⟩
  simp only [htype]
  by_cases hdirect : isType type d.cfg.typeJsboundfunction = true
  swap
  · rw [exec_ite, if_pos (by simp [hdirect])]
    exact ⟨rfl, Ledger.Adds.refl _⟩
  -- the type is right, so it is the allocation that has failed
  have hfail : d.allocates m.ledger.count (d.words 7) = false := by
    simpa [directAllocates, hheap, htype, hdirect] using h
  rw [exec_ite, if_neg (by simp [hdirect]), exec_bind,
    exec_mdbZalloc_of_not_allocates d memflags hfail]
  exact ⟨rfl, (Ledger.Adds.refl _).fail⟩

/-- What reading the details leaves behind, in a load that has allocated its handle. -/
theorem direct_details {m : Mdb} (addr : ℕ) :
    let m' : Mdb := ⟨(m.ledger.alloc (isGc memflags) (d.words 7) true).2, m.reads + 1⟩
    let r := exec (readBindingDetails d addr memflags { ptr := m.ledger.count + 1 }) m'
    r.1.1 = bindingDetailsReadable d (m.reads + 1) (m.ledger.count + 1) addr ∧
      r.1.2.ptr = m.ledger.count + 1 ∧ r.1.2.memflags = 0 ∧
      (r.1.1 = false → r.1.2.array.ptr = 0) ∧
      m.ledger.Adds r.2.ledger (r.1.2.blocks d memflags) := by
  intro m' r
  have hcount : m'.ledger.count = m.ledger.count + 1 := by
    unfold m' Ledger.alloc
    cases isGc memflags <;> rfl
  -- the handle is the only block so far
  have halloc : m.ledger.Adds m'.ledger
      (Ledger.held (isGc memflags) (m.ledger.count + 1) (d.words 7)) := by
    have hadds := (Ledger.Adds.refl m.ledger).alloc (isGc memflags) (d.words 7) true
    have hptr : (m.ledger.alloc (isGc memflags) (d.words 7) true).1 = m.ledger.count + 1 := by
      unfold Ledger.alloc
      cases isGc memflags <;> rfl
    rwa [hptr, add_zero] at hadds
  -- what the reads add is the block of the arguments
  obtain ⟨_, hadds, hptr, hflags, hnull, rfl⟩ :=
    accounts_readBindingDetails d memflags addr { ptr := m.ledger.count + 1 } rfl _ _ m' halloc
  refine ⟨?_, hptr, hflags, hnull, ?_⟩
  · rw [← hcount]
    exact readBindingDetails_fst d memflags addr _ m'
  · unfold V8Boundfunction.blocks
    rw [hptr]
    exact hadds

/-- A bound function is freed before it has its flags, although it has been allocated with `UM_GC`. -/
def FreedWithoutFlags (m : Mdb) (addr : ℕ) : Prop :=
  isGc memflags = true ∧ directAllocates d m addr = true ∧
    bindingDetailsReadable d (m.reads + 1) (m.ledger.count + 1) addr = false

/-- Freeing the handle of a block that the debugger gives back, without its flags, is wrong. -/
theorem misuses_v8boundfunctionFree {m : Mdb} {bfp : V8Boundfunction} (hptr : bfp.ptr ≠ 0)
    (hflags : bfp.memflags = 0) (hnull : bfp.array.ptr = 0)
    (hnot : ∀ b ∈ m.ledger.live, b.ptr ≠ bfp.ptr) :
    (exec (v8boundfunctionFree d (some bfp)) m).2.ledger.misuses = m.ledger.misuses + 1 := by
  have hnogc : isGc bfp.memflags = false := by
    rw [hflags]
    decide
  change ((m.ledger.release (isGc bfp.memflags) bfp.array.ptr _).release (isGc bfp.memflags)
    bfp.ptr (d.words 7)).misuses = _
  rw [hnogc, hnull]
  exact Ledger.misuses_free_of_notMem hptr fun hmem => hnot _ hmem rfl

/-- **The discipline of a load of a bound function**, where the object has a type of its own: it is
broken where the handle is freed without its flags, and nowhere else. -/
theorem disciplined_direct_iff (m : Mdb) (addr : ℕ) :
    Disciplined m (v8boundfunctionLoadDirect d addr memflags) (v8boundfunctionFree d)
      (V8Boundfunction.blocks d memflags) ↔ ¬ FreedWithoutFlags d memflags m addr := by
  have hfree := frees_v8boundfunction d memflags
  by_cases halloc : directAllocates d m addr = true
  swap
  · -- no handle has been allocated
    obtain ⟨hnone, hadds⟩ := direct_of_not_allocates d memflags (Bool.eq_false_iff.mpr halloc)
    refine iff_of_true ?_ fun h => halloc h.2.1
    exact disciplined_of_loadPost hfree ⟨0, hadds, .inl ⟨hnone, rfl⟩⟩
  obtain ⟨hok, hptr, hflags, hnull, hadds⟩ := direct_details d memflags (m := m) addr
  have hrun := exec_direct_of_allocates d memflags halloc
  rw [exec_bind] at hrun
  generalize hr : exec (readBindingDetails d addr memflags { ptr := m.ledger.count + 1 })
    ⟨(m.ledger.alloc (isGc memflags) (d.words 7) true).2, m.reads + 1⟩ = r at *
  obtain ⟨⟨ok, bfp⟩, m'⟩ := r
  dsimp only at hok hptr hflags hnull hadds hrun
  cases ok with
  | true =>
    -- the flags are set
    have hfinish : exec (v8boundfunctionLoadDirect d addr memflags) m =
        (some { bfp with addr, memflags }, m') := hrun
    refine iff_of_true (disciplined_of_loadPost hfree ?_) fun h => ?_
    · rw [hfinish]
      exact ⟨_, hadds, .inr ⟨_, rfl, rfl, (add_zero _).symm⟩⟩
    · exact absurd (hok.trans h.2.2) (by simp)
  | false =>
    have hfinish : exec (v8boundfunctionLoadDirect d addr memflags) m =
        (none, (exec (v8boundfunctionFree d (some bfp)) m').2) := hrun
    by_cases hgc : isGc memflags = true
    · -- the block of the handle is not one to be given back
      refine iff_of_false (fun h => ?_) fun h => h ⟨hgc, halloc, hok.symm⟩
      have hnot : ∀ b ∈ m'.ledger.live, b.ptr ≠ bfp.ptr := by
        have hlive : m'.ledger.live = m.ledger.live := by
          unfold V8Boundfunction.blocks at hadds
          rw [hgc, Ledger.held_collected, Ledger.held_collected, add_zero] at hadds
          exact hadds.live_eq
        intro b hb hbptr
        have hfresh := m.ledger.fresh b (Finset.mem_union_left _ (hlive ▸ hb))
        omega
      obtain ⟨-, hmisuses⟩ := h.failed (by rw [hfinish])
      rw [hfinish] at hmisuses
      dsimp only at hmisuses
      rw [misuses_v8boundfunctionFree d (by omega) hflags (hnull rfl) hnot, hadds.misuses] at hmisuses
      omega
    · -- the flags that are missing make no difference
      refine iff_of_true ?_ fun h => hgc h.1
      have hrem : isGc bfp.memflags = isGc memflags := by
        rw [hflags, Bool.eq_false_iff.mpr hgc]
        decide
      obtain ⟨_, hadds', rfl⟩ := hfree bfp hrem 0 m.ledger m' (by rwa [add_zero])
      refine disciplined_of_loadPost hfree ⟨0, ?_, .inl ⟨?_, rfl⟩⟩
      · rw [hfinish]
        exact hadds'
      · rw [hfinish]

end Each

/-! ### All the loads -/

/-- A load, with the address of its object, or with the size of the buffer. -/
inductive Load where
  | v8string (addr : ℕ)
  | v8array (addr : ℕ)
  | v8fixedarray (addr : ℕ)
  | v8function (addr : ℕ)
  | v8funcinfo (funcinfo : ℕ)
  | v8code (code : ℕ)
  | v8context (addr : ℕ)
  | v8scopeinfo (addr : ℕ)
  | v8boundfunction (addr : ℕ)
  | mdbv8Strbuf (nbytes : ℕ)

section Load

variable (d : Debugger) (memflags : Memflags) (m : Mdb)

/-- The discipline of a load, with these flags and from this state on. -/
def Load.Disciplined : Load → Prop
  | v8string addr =>
    Loading.Disciplined m (v8stringLoad d addr memflags) (v8stringFree d) (V8String.blocks d memflags)
  | v8array addr =>
    Loading.Disciplined m (v8arrayLoad d addr memflags) (v8arrayFree d) (V8Array.blocks d memflags)
  | v8fixedarray addr =>
    Loading.Disciplined m (v8fixedarrayLoad d addr memflags) (v8fixedarrayFree d)
      (V8FixedArray.blocks d memflags)
  | v8function addr =>
    Loading.Disciplined m (v8functionLoad d addr memflags) (v8functionFree d)
      (V8Function.blocks d memflags)
  | v8funcinfo funcinfo =>
    Loading.Disciplined m (v8funcinfoLoad d funcinfo memflags) (v8funcinfoFree d)
      (V8Funcinfo.blocks d memflags)
  | v8code code =>
    Loading.Disciplined m (v8codeLoad d code memflags) (v8codeFree d) (V8Code.blocks d memflags)
  | v8context addr =>
    Loading.Disciplined m (v8contextLoad d addr memflags) (v8contextFree d)
      (V8Context.blocks d memflags)
  | v8scopeinfo addr =>
    Loading.Disciplined m (v8scopeinfoLoad d addr memflags) (v8scopeinfoFree d)
      (V8Scopeinfo.blocks d memflags)
  | v8boundfunction addr =>
    Loading.Disciplined m (v8boundfunctionLoad d addr memflags) (v8boundfunctionFree d)
      (V8Boundfunction.blocks d memflags)
  | mdbv8Strbuf nbytes =>
    Loading.Disciplined m (mdbv8StrbufAlloc d nbytes memflags) (mdbv8StrbufFree d)
      (Mdbv8Strbuf.blocks d memflags)

/-- The load is the one that frees a handle without its flags. -/
def Load.LosesFlags : Load → Prop
  | v8boundfunction addr =>
    d.cfg.typeJsboundfunction ≠ -1 ∧ FreedWithoutFlags d memflags m addr
  | _ => False

/-- **The discipline of the loads**: whatever the flags, whatever can be read of the target at any time,
and whichever allocations fail, the loads keep it, but for the one that frees a handle without its
flags. -/
theorem disciplined_iff (load : Load) :
    load.Disciplined d memflags m ↔ ¬ load.LosesFlags d memflags m := by
  cases load with
  | v8string addr =>
    exact iff_of_true (disciplined_of_loads (loads_v8string d memflags addr)
      (frees_v8string d memflags) m) id
  | v8array addr =>
    exact iff_of_true (disciplined_of_loads (loads_v8array d memflags addr)
      (frees_v8array d memflags) m) id
  | v8fixedarray addr =>
    exact iff_of_true (disciplined_of_loads (loads_v8fixedarray d memflags addr)
      (frees_v8fixedarray d memflags) m) id
  | v8function addr =>
    exact iff_of_true (disciplined_of_loads (loads_v8function d memflags addr)
      (frees_v8function d memflags) m) id
  | v8funcinfo funcinfo =>
    exact iff_of_true (disciplined_of_loads (loads_v8funcinfo d memflags funcinfo)
      (frees_v8funcinfo d memflags) m) id
  | v8code code =>
    exact iff_of_true (disciplined_of_loads (loads_v8code d memflags code)
      (frees_v8code d memflags) m) id
  | v8context addr =>
    exact iff_of_true (disciplined_of_loads (loads_v8context d memflags addr)
      (frees_v8context d memflags) m) id
  | v8scopeinfo addr =>
    exact iff_of_true (disciplined_of_loads (loads_v8scopeinfo d memflags addr)
      (frees_v8scopeinfo d memflags) m) id
  | v8boundfunction addr =>
    -- only this one can free a handle without its flags, and only where it reads the object itself
    unfold Load.Disciplined Load.LosesFlags v8boundfunctionLoad
    dsimp only
    split
    · next h =>
      refine iff_of_true ?_ fun hloses => hloses.1 h
      exact disciplined_of_loads (loads_v8boundfunction_bindings d memflags addr)
        (frees_v8boundfunction d memflags) m
    · next h => rw [disciplined_direct_iff d memflags m addr, and_iff_right h]
  | mdbv8Strbuf nbytes =>
    exact iff_of_true (disciplined_of_loads (loads_mdbv8Strbuf d memflags nbytes)
      (frees_mdbv8Strbuf d memflags) m) id

end Load

/-- A debugger with the handle of an object of a type of its own, whose details are missing. -/
def boundDebugger : Debugger where
  cfg := { Config.sample .lp64 with typeJsboundfunction := 0xb6 }
  mem _ := (Target.ofWords (.sample .lp64) [(0x1000, 0x2001), (0x2010, 0xb6)]).mem
  outOfMemory _ := false

/-- The state at the beginning of a command. -/
def startMdb : Mdb where
  ledger := .empty
  reads := 0

/-- A bound function whose details cannot be read is given to `mdb_free`, although it has been allocated
with `UM_GC`. -/
theorem not_disciplined_bound :
    (exec (v8boundfunctionLoad boundDebugger 0x1001 (umSleep ||| umGc)) startMdb).2.ledger.misuses = 1 ∧
      ¬ (Load.v8boundfunction 0x1001).Disciplined boundDebugger (umSleep ||| umGc) startMdb := by
  refine ⟨by decide, fun h => ?_⟩
  obtain ⟨-, hmisuses⟩ := h.failed (by decide)
  exact absurd hmisuses (by decide)

end MdbV8.Loading
