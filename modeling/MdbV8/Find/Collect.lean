import MdbV8.Find.References
import MdbV8.Objects.Events

/-!
# What a search for references collects

A search calls `findjsobjectsReferencesAdd` for one value after the other. A value that is a marked
address is noted down, at the end of the notes for that address. `Collects` says so for a part of a
search: there is a list of values with their notes, and each marked address has got those of its own.

The list does not depend on the marks (`instanceNotes`, `propsNotes`), and the marks stay as they
are, in the tree and in the list (`FindRefs.Marks`).
-/

namespace MdbV8

section Marks

variable {c : Config} {L : FindLib c}

/-- The marked addresses, in the order in which they have been marked. -/
def FindRefs.addrs (refs : FindRefs L) : List ℕ := refs.list.map FindReferent.addr

/-- **The tree and the list hold the same addresses**, none of them twice. -/
def FindRefs.Marks (refs : FindRefs L) : Prop := L.referents.Indexes refs.tree refs.addrs

namespace FindRefs.Marks

variable {refs : FindRefs L}

/-- Without marks. -/
theorem nil (addr : ℕ) : FindRefs.Marks { addr, tree := L.referents.create, list := [] } := .create

theorem nodup (h : refs.Marks) : refs.addrs.Nodup :=
  h.distinct.imp fun hne heq => hne (by rw [heq]; exact Std.ReflCmp.compare_self)

/-- What the tree finds is the position in the list. -/
theorem find_eq (h : refs.Marks) (addr : ℕ) :
    L.referents.find refs.tree addr = refs.list.findIdx? fun r => r.addr == addr := by
  have hcmp : ∀ x, (findjsobjectsCmpReferents addr x == .eq) = (x == addr) := by
    intro x
    unfold findjsobjectsCmpReferents
    rw [Bool.eq_iff_iff, beq_iff_eq, beq_iff_eq, Nat.compare_eq_eq]
    exact eq_comm
  rw [Lib.Avl.Indexes.find_eq h, FindRefs.addrs, List.findIdx?_map]
  congr 1
  funext r
  exact hcmp r.addr

theorem find_isSome_iff (h : refs.Marks) (addr : ℕ) :
    (L.referents.find refs.tree addr).isSome ↔ addr ∈ refs.addrs := by
  rw [h.find_eq, List.findIdx?_isSome, List.any_eq_true]
  simp [FindRefs.addrs]

end FindRefs.Marks

end Marks

/-! ### Notes -/

/-- A value, and what is noted down if it is a marked address. -/
abbrev FindNote := ℕ × FindReference

section Collects

variable {c : Config} {L : FindLib c}

/-- A referent with the notes of a list that are for it. -/
def FindReferent.collect (notes : List FindNote) (r : FindReferent) : FindReferent :=
  { r with references := r.references ++ (notes.filter fun note => note.1 == r.addr).map Prod.snd }

/-- **A part of a search collects notes**, if the marks are in order before it. -/
def Collects (refs refs' : FindRefs L) (notes : List FindNote) : Prop :=
  refs.Marks → refs'.tree = refs.tree ∧ refs'.list = refs.list.map (FindReferent.collect notes)

/-- Changing a referent at the place where it is found. -/
theorem modify_findIdx? {list : List FindReferent} {addr p : ℕ} {f : FindReferent → FindReferent}
    (hnodup : (list.map FindReferent.addr).Nodup)
    (hp : (list.findIdx? fun r => r.addr == addr) = some p) :
    list.modify p f = list.map fun r => if r.addr = addr then f r else r := by
  induction list generalizing p with
  | nil => cases hp
  | cons r list ih =>
    obtain ⟨hnotin, hrest⟩ := List.nodup_cons.mp hnodup
    rw [List.findIdx?_cons] at hp
    by_cases heq : r.addr = addr
    · -- no other referent has this address
      have hothers : ∀ r' ∈ list, r'.addr ≠ addr := by
        rintro r' hr' rfl
        exact hnotin (heq ▸ List.mem_map_of_mem hr')
      have hmap : (list.map fun r => if r.addr = addr then f r else r) = list := by
        conv_rhs => rw [← List.map_id list]
        exact List.map_congr_left fun r' hr' => if_neg (hothers r' hr')
      have h0 : (r.addr == addr) = true := by simpa using heq
      rw [h0] at hp
      obtain rfl : 0 = p := Option.some.inj hp
      rw [List.map_cons, if_pos heq, hmap]
      rfl
    · have h0 : (r.addr == addr) = false := by simpa using heq
      rw [h0] at hp
      obtain ⟨q, hq, rfl⟩ := Option.map_eq_some_iff.mp hp
      rw [List.map_cons, if_neg heq, ← ih hrest hq]
      rfl

namespace Collects

variable {refs refs' refs'' : FindRefs L} {notes notes' : List FindNote}

theorem nil (addr : ℕ) : Collects refs { refs with addr } [] := by
  refine fun _ => ⟨rfl, ?_⟩
  have hid : FindReferent.collect [] = id := by
    funext r
    exact congrArg (FindReferent.mk r.addr) (List.append_nil _)
  rw [hid, List.map_id]

theorem addrs_eq (h : Collects refs refs' notes) (hmarks : refs.Marks) :
    refs'.addrs = refs.addrs := by
  rw [FindRefs.addrs, (h hmarks).2, List.map_map]
  rfl

/-- The marks stay as they are. -/
theorem marks (h : Collects refs refs' notes) (hmarks : refs.Marks) : refs'.Marks := by
  unfold FindRefs.Marks
  rw [h.addrs_eq hmarks, (h hmarks).1]
  exact hmarks

theorem trans (h : Collects refs refs' notes) (h' : Collects refs' refs'' notes') :
    Collects refs refs'' (notes ++ notes') := by
  intro hmarks
  obtain ⟨htree, hlist⟩ := h hmarks
  obtain ⟨htree', hlist'⟩ := h' (h.marks hmarks)
  refine ⟨htree'.trans htree, ?_⟩
  rw [hlist', hlist, List.map_map]
  refine List.map_congr_left fun r _ => ?_
  unfold FindReferent.collect
  simp

/-- One value. -/
theorem add (w : ℕ) (desc : Option (List UInt8)) (index : ℕ) :
    Collects refs (findjsobjectsReferencesAdd refs (.addr w) desc index)
      [(w, { addr := refs.addr, desc, index := if desc.isSome then 0 else index })] := by
  intro hmarks
  unfold findjsobjectsReferencesAdd
  dsimp only
  rw [hmarks.find_eq]
  cases hfind : refs.list.findIdx? fun r => r.addr == w with
  | none =>
    refine ⟨rfl, ?_⟩
    -- none of the referents is concerned
    conv_lhs => rw [← List.map_id refs.list]
    refine List.map_congr_left fun r hr => ?_
    have hne : r.addr ≠ w := by simpa using List.findIdx?_eq_none_iff.mp hfind r hr
    unfold FindReferent.collect
    simp [hne.symm]
  | some p =>
    refine ⟨rfl, ?_⟩
    dsimp only
    rw [modify_findIdx? hmarks.nodup hfind]
    refine List.map_congr_left fun r _ => ?_
    by_cases heq : r.addr = w
    · rw [if_pos heq]
      simp [FindReferent.collect, heq]
    · rw [if_neg heq]
      simp [FindReferent.collect, Ne.symm heq]

/-- Values one after the other, in a loop that may end with a fault. -/
theorem foldlM {α : Type} {f : FindRefs L → α → Except FindFault (FindRefs L)}
    {note : α → List FindNote}
    (hstep : ∀ refs refs' x, f refs x = .ok refs' → Collects refs refs' (note x)) {xs : List α}
    (h : xs.foldlM f refs = .ok refs') : Collects refs refs' (xs.flatMap note) := by
  induction xs generalizing refs with
  | nil =>
    obtain rfl : refs = refs' := Except.ok.inj h
    exact .nil refs.addr
  | cons x xs ih =>
    rw [List.foldlM_cons] at h
    cases hx : f refs x with
    | error fault =>
      rw [hx] at h
      cases h
    | ok refs₁ =>
      rw [hx] at h
      exact (hstep refs refs₁ x hx).trans (ih h)

/-- The same in a loop that comes to its end. -/
theorem foldl {α : Type} {f : FindRefs L → α → FindRefs L} {note : α → List FindNote}
    (hstep : ∀ refs x, Collects refs (f refs x) (note x)) (xs : List α) :
    Collects refs (xs.foldl f refs) (xs.flatMap note) := by
  induction xs generalizing refs with
  | nil => exact .nil refs.addr
  | cons x xs ih => exact (hstep refs x).trans ih

end Collects

/-- A loop comes to its end if its steps do, which does not depend on the state. -/
theorem foldlM_isOk_iff {σ α ε : Type} {f : σ → α → Except ε σ} {P : α → Prop}
    (hstep : ∀ s x, (∃ s', f s x = .ok s') ↔ P x) (xs : List α) (s : σ) :
    (∃ s', xs.foldlM f s = .ok s') ↔ ∀ x ∈ xs, P x := by
  induction xs generalizing s with
  | nil => exact iff_of_true ⟨s, rfl⟩ (by simp)
  | cons x xs ih =>
    rw [List.forall_mem_cons, ← hstep s x]
    cases hx : f s x with
    | error fault => simp [hx, bind, Except.bind]
    | ok s' =>
      rw [← ih s']
      simp [hx, bind, Except.bind]

/-- A loop ends with a fault of one of its steps. -/
theorem eq_of_foldlM_error {σ α ε : Type} {f : σ → α → Except ε σ} {fault : ε}
    (hstep : ∀ s x e, f s x = .error e → e = fault) {xs : List α} {s : σ} {e : ε}
    (h : xs.foldlM f s = .error e) : e = fault := by
  induction xs generalizing s with
  | nil => cases h
  | cons x xs ih =>
    rw [List.foldlM_cons] at h
    cases hx : f s x with
    | error fault' =>
      rw [hx] at h
      obtain rfl : fault' = e := Except.error.inj h
      exact hstep s x fault' hx
    | ok s' =>
      rw [hx] at h
      exact ih h

end Collects

/-! ### What there is to note down -/

section Notes

variable (t : Target) {L : FindLib t.cfg}

/-- The notes for the words of an array, from an index on. -/
def eltNotes (holder i : ℕ) (elts : List ℕ) : List FindNote :=
  (elts.zipIdx i).map fun e => (e.1, { addr := holder, desc := none, index := e.2 })

/-- The notes for the words of the array that an instance has as its elements. -/
def arrayNotes (addr : ℕ) : List FindNote :=
  match (t.readHeapPtr addr t.cfg.offJsobjectElements).bind t.readHeapArray with
  | none => []
  | some arr => eltNotes addr 0 (arr.elts.take arr.len)

/-- The block that the array has been read into is as long as the array. -/
def ArrayFits (addr : ℕ) : Prop :=
  ∀ arr, (t.readHeapPtr addr t.cfg.offJsobjectElements).bind t.readHeapArray = some arr →
    arr.len ≤ arr.elts.length

/-- The note for a property, unless it is an untagged `double` or nothing at all. -/
def propNote (holder : ℕ) (prop : List UInt8 × Option V8Propvalue) : Option FindNote :=
  match prop.2 with
  | some (.addr w) => some (w, { addr := holder, desc := some prop.1, index := 0 })
  | _ => none

/-- The notes for the properties of an instance. -/
def propsNotes (addr : ℕ) : List FindNote := (deliveredProps t addr).filterMap (propNote addr)

/-- The test on a group that says whether its instances are arrays. -/
def FindSignature.isArrays (sig : FindSignature) : Bool := sig.nprops != 0 && sig.props.isEmpty

/-- The notes for an instance of a group. -/
def instanceNotes (sig : FindSignature) (addr : ℕ) : List FindNote :=
  if sig.isArrays then arrayNotes t addr else propsNotes t addr

theorem addr_findjsobjectsReferencesAdd {c : Config} {L : FindLib c} (refs : FindRefs L)
    (val : V8Propvalue) (desc : Option (List UInt8)) (index : ℕ) :
    (findjsobjectsReferencesAdd refs val desc index).addr = refs.addr := by
  unfold findjsobjectsReferencesAdd
  cases val with
  | double w => rfl
  | addr w =>
    dsimp only
    split <;> rfl

theorem collects_elts {c : Config} {L : FindLib c} {elts : List ℕ} {n i : ℕ} {refs refs' : FindRefs L}
    (h : findjsobjectsReferencesElts elts n i refs = .ok refs') :
    Collects refs refs' (eltNotes refs.addr i ((elts.drop i).take n)) := by
  induction n generalizing i refs with
  | zero =>
    obtain rfl : refs = refs' := Except.ok.inj h
    rw [List.take_zero]
    exact .nil refs.addr
  | succ n ih =>
    unfold findjsobjectsReferencesElts at h
    cases hget : elts[i]? with
    | none =>
      rw [hget] at h
      cases h
    | some elt =>
      rw [hget] at h
      obtain ⟨hi, rfl⟩ := List.getElem?_eq_some_iff.mp hget
      have hrest := ih h
      rw [addr_findjsobjectsReferencesAdd] at hrest
      rw [List.drop_eq_getElem_cons hi, List.take_succ_cons]
      exact (Collects.add elts[i] none i).trans hrest

theorem elts_isOk_iff {c : Config} {L : FindLib c} (elts : List ℕ) (n i : ℕ) (refs : FindRefs L) :
    (∃ refs', findjsobjectsReferencesElts elts n i refs = .ok refs') ↔
      n = 0 ∨ i + n ≤ elts.length := by
  induction n generalizing i refs with
  | zero => exact iff_of_true ⟨refs, rfl⟩ (.inl rfl)
  | succ n ih =>
    unfold findjsobjectsReferencesElts
    cases hget : elts[i]? with
    | none =>
      have hi := List.getElem?_eq_none_iff.mp hget
      refine iff_of_false (by rintro ⟨refs', h⟩; cases h) (by omega)
    | some elt =>
      obtain ⟨hi, -⟩ := List.getElem?_eq_some_iff.mp hget
      dsimp only
      rw [ih]
      omega

theorem elts_fault {c : Config} {L : FindLib c} {elts : List ℕ} {n i : ℕ} {refs : FindRefs L}
    {fault : FindFault} (h : findjsobjectsReferencesElts elts n i refs = .error fault) :
    fault = .outOfBounds := by
  induction n generalizing i refs with
  | zero => cases h
  | succ n ih =>
    unfold findjsobjectsReferencesElts at h
    split at h
    · exact (Except.error.inj h).symm
    · exact ih h

theorem collects_instance {addr : ℕ} {refs refs' : FindRefs L}
    (h : findjsobjectsReferencesInstance t refs addr = .ok refs') :
    Collects refs refs' (arrayNotes t addr) := by
  unfold findjsobjectsReferencesInstance at h
  unfold arrayNotes
  cases hptr : t.readHeapPtr addr t.cfg.offJsobjectElements with
  | none =>
    rw [hptr] at h
    obtain rfl : refs = refs' := Except.ok.inj h
    exact .nil refs.addr
  | some ptr =>
    rw [hptr] at h
    dsimp only at h
    rw [Option.bind_some]
    cases harr : t.readHeapArray ptr with
    | none =>
      rw [harr] at h
      obtain rfl : refs = refs' := Except.ok.inj h
      exact .nil refs.addr
    | some arr =>
      rw [harr] at h
      exact (Collects.nil addr).trans (collects_elts h)

theorem instance_isOk_iff (addr : ℕ) (refs : FindRefs L) :
    (∃ refs', findjsobjectsReferencesInstance t refs addr = .ok refs') ↔ ArrayFits t addr := by
  unfold findjsobjectsReferencesInstance ArrayFits
  cases t.readHeapPtr addr t.cfg.offJsobjectElements with
  | none => simp
  | some ptr =>
    dsimp only
    rw [Option.bind_some]
    cases t.readHeapArray ptr with
    | none => simp
    | some arr =>
      dsimp only
      rw [elts_isOk_iff, Nat.zero_add]
      simp only [Option.some.injEq, forall_eq']
      omega

/-- The properties of an instance. -/
theorem collects_object (addr : ℕ) (refs : FindRefs L) :
    Collects refs (findjsobjectsReferencesObject t refs addr) (propsNotes t addr) := by
  unfold findjsobjectsReferencesObject propsNotes
  rw [jsobjProperties_of_zero t _ (fun _ _ _ => rfl), deliveredProps_eq]
  refine (Collects.nil addr).trans ?_
  -- the notes are taken one property after the other
  have hcalls : ∀ (calls : List (List UInt8 × Option V8Propvalue)) (refs : FindRefs L),
      refs.addr = addr → Collects refs
        (calls.foldl (fun s call => (findjsobjectsReferencesProp t call.1 call.2 s).2) refs)
        (calls.filterMap (propNote addr)) := by
    intro calls
    induction calls with
    | nil => exact fun refs _ => .nil refs.addr
    | cons call calls ih =>
      rintro refs rfl
      obtain ⟨name, val⟩ := call
      rw [List.foldl_cons]
      cases val with
      | none => exact ih refs rfl
      | some val =>
        cases val with
        | double w => exact ih refs rfl
        | addr w =>
          exact (Collects.add w (some name) _).trans
            (ih _ (addr_findjsobjectsReferencesAdd refs (.addr w) (some name) _))
  exact hcalls _ { refs with addr } rfl

/-- The test on a group as the source makes it. -/
theorem isArrays_iff (sig : FindSignature) :
    sig.isArrays = true ↔ sig.nprops ≠ 0 ∧ sig.props = [] := by
  simp [FindSignature.isArrays]

theorem collects_group {obj : FindObj} {refs refs' : FindRefs L}
    (h : findjsobjectsReferencesGroup t refs obj = .ok refs') :
    Collects refs refs' (obj.instances.flatMap (instanceNotes t obj.toFindSignature)) := by
  unfold findjsobjectsReferencesGroup at h
  split at h
  · next harrays =>
    have hnotes : instanceNotes t obj.toFindSignature = arrayNotes t := by
      funext addr
      exact if_pos ((isArrays_iff _).mpr harrays)
    rw [hnotes]
    have hloop : obj.instances.foldlM (findjsobjectsReferencesInstance t) refs = .ok refs' := h
    refine Collects.foldlM ?_ hloop
    intro refs refs' addr hinst
    exact collects_instance t hinst
  · next hobject =>
    have hnotes : instanceNotes t obj.toFindSignature = propsNotes t := by
      funext addr
      exact if_neg fun harrays => hobject ((isArrays_iff _).mp harrays)
    rw [hnotes]
    obtain rfl := Except.ok.inj h
    refine Collects.foldl ?_ obj.instances
    intro refs addr
    exact collects_object t addr refs

theorem group_isOk_iff (refs : FindRefs L) (obj : FindObj) :
    (∃ refs', findjsobjectsReferencesGroup t refs obj = .ok refs') ↔
      (obj.isArrays = true → ∀ addr ∈ obj.instances, ArrayFits t addr) := by
  unfold findjsobjectsReferencesGroup
  split
  · next harrays =>
    have hfits : (obj.isArrays = true → ∀ addr ∈ obj.instances, ArrayFits t addr) ↔
        ∀ addr ∈ obj.instances, ArrayFits t addr :=
      ⟨fun h => h ((isArrays_iff _).mpr harrays), fun h _ => h⟩
    rw [hfits]
    unfold findjsobjectsReferencesArray
    refine foldlM_isOk_iff ?_ obj.instances refs
    intro refs addr
    exact instance_isOk_iff t addr refs
  · next hobject =>
    exact iff_of_true ⟨_, rfl⟩ fun harrays => absurd ((isArrays_iff _).mp harrays) hobject

/-- **What a search collects**: the notes of all the instances, group by group. -/
theorem collects_groups {groups : List FindObj} {refs refs' : FindRefs L}
    (h : groups.foldlM (findjsobjectsReferencesGroup t) refs = .ok refs') :
    Collects refs refs' (groups.flatMap fun obj =>
      obj.instances.flatMap (instanceNotes t obj.toFindSignature)) :=
  Collects.foldlM (fun _ _ _ hgroup => collects_group t hgroup) h

/-- A search comes to its end if the arrays fit into their blocks. -/
theorem groups_isOk_iff (groups : List FindObj) (refs : FindRefs L) :
    (∃ refs', groups.foldlM (findjsobjectsReferencesGroup t) refs = .ok refs') ↔
      ∀ obj ∈ groups, obj.isArrays = true → ∀ addr ∈ obj.instances, ArrayFits t addr :=
  foldlM_isOk_iff (group_isOk_iff t) groups refs

/-- The one fault of a search is a subscript outside of its block. -/
theorem groups_fault {groups : List FindObj} {refs : FindRefs L} {fault : FindFault}
    (h : groups.foldlM (findjsobjectsReferencesGroup t) refs = .error fault) :
    fault = .outOfBounds := by
  refine eq_of_foldlM_error ?_ h
  intro refs obj fault hgroup
  unfold findjsobjectsReferencesGroup at hgroup
  split at hgroup
  · refine eq_of_foldlM_error (f := findjsobjectsReferencesInstance t) ?_ hgroup
    intro refs addr fault hinst
    unfold findjsobjectsReferencesInstance at hinst
    split at hinst
    · cases hinst
    · split at hinst
      · cases hinst
      · next arr _ =>
        exact elts_fault hinst
  · cases hgroup

end Notes

end MdbV8
