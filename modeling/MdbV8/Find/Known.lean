import MdbV8.Find.Collect

/-!
# What is in the cache after a scan

A group has no list of what its instances are. What is known of them is the signature of the group,
and an instance is entered into a group only if it has that signature itself: after a scan, the
instances of the groups with the signatures of the groups are, in some order, the objects that the
scan has found with their own signatures (`ScanKnown`).

This is what tells arrays and objects apart later. The properties of an object are counted one by
one, so that a number of properties without any is that of an array, whose length it is
(`isArrays_of_scanItem`). An array of length zero has the signature of an object without properties.
-/

namespace MdbV8

/-- An instance with the signature of its group. -/
abbrev KnownInstance := ℕ × FindSignature

/-- The instances of a group. -/
def FindObj.known (obj : FindObj) : List KnownInstance :=
  obj.instances.map fun addr => (addr, obj.toFindSignature)

section Cache

variable {c : Config} {L : FindLib c}

/-- The instances of some groups. -/
def knownOf (groups : List FindObj) : List KnownInstance := groups.flatMap FindObj.known

/-- **The invariant of a scan**: the tree finds the groups by their signatures, the linked list has
each of them once, and the instances are those that have been entered. -/
structure ScanKnown (cache : FindCache L) (entered : List KnownInstance) : Prop where
  indexes : L.objs.Indexes cache.tree (cache.nodes.map FindObj.toFindSignature)
  objects : cache.objects.Perm (List.range cache.nodes.length)
  known : (knownOf cache.nodes).Perm entered

namespace ScanKnown

variable {cache : FindCache L} {entered : List KnownInstance}

theorem empty : ScanKnown (FindCache.empty (L := L)) [] where
  indexes := .create
  objects := .refl _
  known := .refl _

/-- One group gets one more instance. -/
theorem knownOf_modify {nodes : List FindObj} {p : ℕ} (hp : p < nodes.length) (addr : ℕ) :
    (knownOf (nodes.modify p (·.addInstance addr))).Perm
      ((addr, nodes[p].toFindSignature) :: knownOf nodes) := by
  induction nodes generalizing p with
  | nil => exact absurd hp (Nat.not_lt_zero p)
  | cons obj nodes ih =>
    unfold knownOf
    cases p with
    | zero =>
      rw [List.modify_zero_cons, List.flatMap_cons, List.flatMap_cons, ← List.cons_append]
      refine List.Perm.append_right _ ?_
      exact (addInstance_perm addr obj.instances).map _
    | succ p =>
      rw [List.modify_succ_cons, List.flatMap_cons, List.flatMap_cons]
      exact ((ih (by simpa using hp)).append_left obj.known).trans List.perm_middle

theorem map_signature_modify (nodes : List FindObj) (p addr : ℕ) :
    (nodes.modify p (·.addInstance addr)).map FindObj.toFindSignature =
      nodes.map FindObj.toFindSignature := by
  induction nodes generalizing p with
  | nil => cases p <;> rfl
  | cons obj nodes ih =>
    cases p with
    | zero => rfl
    | succ p =>
      rw [List.modify_succ_cons, List.map_cons, List.map_cons, ih]

/-- **Entering an object.** -/
theorem enterObj (h : ScanKnown cache entered) {current : FindObj} {addr : ℕ}
    (hinst : current.instances = [addr]) :
    ScanKnown (cache.enterObj current addr).2 (entered ++ [(addr, current.toFindSignature)]) := by
  unfold FindCache.enterObj
  cases hfind : L.objs.find cache.tree current.toFindSignature with
  | none =>
    -- a new group
    refine ⟨?_, ?_, ?_⟩
    · have hadd := h.indexes.add hfind
      rw [List.length_map] at hadd
      dsimp only
      rw [List.map_append]
      exact hadd
    · dsimp only
      rw [List.length_append, List.length_singleton, List.range_succ]
      exact (h.objects.cons _).trans (List.perm_append_singleton _ _).symm
    · unfold knownOf
      dsimp only
      rw [List.flatMap_append, List.flatMap_singleton, FindObj.known, hinst]
      exact h.known.append_right _
  | some p =>
    -- the group of this signature
    obtain ⟨hp, heq⟩ := h.indexes.exists_of_find_some hfind
    rw [List.getElem_map, findjsobjectsCmp_eq_iff] at heq
    have hlt : p < cache.nodes.length := by simpa using hp
    refine ⟨?_, ?_, ?_⟩
    · dsimp only
      rw [map_signature_modify]
      exact h.indexes
    · dsimp only
      rw [List.length_modify]
      exact h.objects
    · dsimp only
      rw [heq]
      exact (knownOf_modify hlt addr).trans
        ((h.known.cons _).trans (List.perm_append_singleton _ _).symm)

theorem enterFunc (h : ScanKnown cache entered) (func : FindFunc) (addr : ℕ) :
    ScanKnown (cache.enterFunc func addr).2 entered := by
  unfold FindCache.enterFunc
  split <;> exact ⟨h.indexes, h.objects, h.known⟩

theorem sort (h : ScanKnown cache entered) : ScanKnown cache.sort entered := by
  unfold FindCache.sort
  split
  · exact h
  · exact ⟨h.indexes, (L.qsort_perm _ _).trans h.objects, h.known⟩

/-- The groups of the linked list have the instances that have been entered. -/
theorem groups (h : ScanKnown cache entered) : (knownOf cache.groups).Perm entered := by
  have hnodes : (List.range cache.nodes.length).map cache.node = cache.nodes := by
    refine List.ext_getElem (by simp) fun i hi hi' => ?_
    rw [List.getElem_map, List.getElem_range, FindCache.node]
    simp [hi']
  have hperm : cache.groups.Perm cache.nodes := by
    have hmap := h.objects.map cache.node
    rwa [hnodes] at hmap
  exact (hperm.flatMap_right _).trans h.known

end ScanKnown

end Cache

/-! ### What is found, and what it is -/

section Found

variable (t : Target) {L : FindLib t.cfg}

/-- The properties of an object are counted. -/
theorem findjsobjectsProperties_spec {addr : ℕ} {current : FindObj}
    (h : findjsobjectsProperties t addr = some current) :
    current.instances = [addr] ∧ current.nprops = current.props.length := by
  unfold findjsobjectsProperties at h
  dsimp only at h
  split at h
  · cases h
  · obtain rfl := Option.some.inj h
    rw [jsobjProperties_of_zero t _ (fun _ _ _ => rfl)]
    -- each call adds a property and one to their number
    have hcalls : ∀ (calls : List (List UInt8 × Option V8Propvalue)) (current : FindObj),
        current.instances = [addr] ∧ current.nprops = current.props.length →
        (calls.foldl (fun s call => (findjsobjectsProp call.1 call.2 s).2) current).instances =
            [addr] ∧
          (calls.foldl (fun s call => (findjsobjectsProp call.1 call.2 s).2) current).nprops =
            (calls.foldl (fun s call => (findjsobjectsProp call.1 call.2 s).2) current).props.length := by
      intro calls
      induction calls with
      | nil => exact fun current h => h
      | cons call calls ih =>
        rintro current ⟨hinst, hnprops⟩
        refine ih _ ⟨hinst, ?_⟩
        simp [findjsobjectsProp, hnprops]
    exact hcalls _ (findjsobjectsAlloc addr) ⟨rfl, rfl⟩

/-- What is known of an array that has been found. -/
structure FoundArray (addr : ℕ) (current : FindObj) : Prop where
  instances : current.instances = [addr]
  props : current.props = []
  length : t.readHeapSmi addr t.cfg.offJsarrayLength = some current.nprops
  elements : ∃ ptr nelems, t.readHeapPtr addr t.cfg.offJsobjectElements = some ptr ∧
    t.readHeapSmi ptr t.cfg.offFixedarrayLength = some nelems ∧ current.nprops ≤ nelems

theorem findjsobjectsArray_spec {addr : ℕ} {current : FindObj}
    (h : findjsobjectsArray t addr = some current) : FoundArray t addr current := by
  unfold findjsobjectsArray at h
  dsimp only at h
  split at h
  · next nprops ptr hlength hptr =>
    split at h
    · cases h
    · split at h
      · cases h
      · split at h
        · cases h
        · split at h
          · cases h
          · next nelems hnelems =>
            split at h
            · cases h
            · next hle =>
              obtain rfl := Option.some.inj h
              exact ⟨rfl, rfl, hlength, ptr, nelems, hptr, hnelems, Nat.not_lt.mp hle⟩
  · cases h

/-- **What a visit finds is an object or an array.** -/
theorem scanItem_spec {v : FindRange × ℕ} {obj : FindObj} (h : scanItem t v = some (.object obj)) :
    obj.instances = [v.2] ∧
      ((visitKind t v = some .object ∧ obj.nprops = obj.props.length) ∨
        (visitKind t v = some .array ∧ FoundArray t v.2 obj)) := by
  unfold scanItem kindItem at h
  split at h
  · cases h
  · cases hfunc : findjsobjectsFunc t v.2 <;> rw [hfunc] at h <;> cases h
  · -- the properties of an object have been read
    next hkind =>
    unfold objectItem at h
    cases hprops : findjsobjectsProperties t v.2 with
    | none =>
      rw [hprops] at h
      cases h
    | some current =>
      rw [hprops] at h
      obtain ⟨constructor, -, heq⟩ := Option.map_eq_some_iff.mp h
      obtain ⟨hinst, hnprops⟩ := findjsobjectsProperties_spec t hprops
      obtain rfl := ScanItem.object.inj heq
      exact ⟨hinst, .inl ⟨hkind, hnprops⟩⟩
  · -- the length of an array has been read
    next hkind =>
    cases harray : findjsobjectsArray t v.2 with
    | none =>
      rw [harray] at h
      cases h
    | some current =>
      rw [harray] at h
      obtain rfl := ScanItem.object.inj (Option.some.inj h)
      have hfound := findjsobjectsArray_spec t harray
      exact ⟨hfound.instances, .inr ⟨hkind, hfound⟩⟩

/-- The instance that a visit enters. -/
def enteredAt (v : FindRange × ℕ) : Option KnownInstance :=
  match scanItem t v with
  | some (.object obj) => some (v.2, obj.toFindSignature)
  | _ => none

/-- **After a number of visits** the cache knows what they have found. -/
theorem scanKnown_enterItems {visits : List (FindRange × ℕ)} {cache cache' : FindCache L}
    {entered : List KnownInstance} (hcache : ScanKnown cache entered)
    (h : enterItems t visits cache = some cache') :
    ScanKnown cache' (entered ++ visits.filterMap (enteredAt t)) := by
  induction visits generalizing cache entered with
  | nil =>
    obtain rfl : cache = cache' := Option.some.inj h
    simpa using hcache
  | cons v visits ih =>
    obtain ⟨next, hnext, hrest⟩ := Option.bind_eq_some_iff.mp h
    obtain ⟨item, hitem, rfl⟩ := Option.map_eq_some_iff.mp hnext
    rw [List.filterMap_cons]
    unfold enteredAt
    rw [hitem]
    cases item with
    | nothing => exact ih hcache hrest
    | function func => exact ih (hcache.enterFunc func v.2) hrest
    | object obj =>
      have hstep := ih (hcache.enterObj (scanItem_spec t hitem).1) hrest
      rwa [List.append_assoc] at hstep

/-- **After a complete scan.** -/
theorem scanKnown_of_scan {p : ScanParams} {maps : List Prmap} {scan : FindScan L}
    (hscan : findjsobjectsIter t p maps { cache := .empty, stats := {} } = some scan) :
    ScanKnown scan.cache.sort ((scanVisits t p maps).filterMap (enteredAt t)) := by
  rw [findjsobjectsIter_eq] at hscan
  have hitems := findjsobjectsVisits_cache t (scanVisits t p maps)
    ({ cache := .empty, stats := {} } : FindScan L)
  rw [hscan] at hitems
  have hknown := scanKnown_enterItems t .empty hitems.symm
  rw [List.nil_append] at hknown
  exact hknown.sort

end Found

end MdbV8
