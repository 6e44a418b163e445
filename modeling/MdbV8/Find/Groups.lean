import MdbV8.Find.Exact
import MdbV8.Lib.Linked

/-!
# The groups that a scan makes

A complete scan puts the objects and arrays that it accepts into groups, and the groups into a list with
pointers from each to the next (`ObjLinks`). At its end it sorts them, by way of an array, and links them
anew.

`GroupsPartition` says that the groups are what they should be: each accepted address is in one group and
once in it, the groups are those of the signatures, their instances are counted, and the list has all the
groups in the order of the sort.

An address that is accepted twice is entered twice, and that takes two mappings that overlap. The instances
of a group are counted with an `int`. These are the only ways in which the groups can fail to be so
(`groupsPartition_iff`).
-/

namespace MdbV8

open Lib

/-! ### The pointers of the list -/

/-- `fjs_objects`, and the `fjso_next` of each node. -/
structure ObjLinks where
  head : Option ℕ := none
  next : ℕ → Option ℕ := fun _ => none

section Links

variable {c : Config} {L : FindLib c}

/-- What becomes of the pointers when an object is entered: a new group is put in front of the others. -/
def ObjLinks.enterObj (links : ObjLinks) (cache : FindCache L) (current : FindObj) : ObjLinks :=
  match L.objs.find cache.tree current.toFindSignature with
  | none =>
    { head := some cache.nodes.length
      next := Function.update links.next cache.nodes.length links.head }
  | some _ => links

/-- Only objects have to do with these pointers. -/
def ScanItem.enterLinks (cache : FindCache L) (links : ObjLinks) : ScanItem → ObjLinks
  | .object obj => links.enterObj cache obj
  | _ => links

/-- The end of `findjsobjects_run`: the groups are put into an array, which is sorted, and they are linked
in its order. -/
def ObjLinks.sort (links : ObjLinks) (cache : FindCache L) : ObjLinks :=
  let nobjs := L.objs.numnodes cache.tree
  if nobjs = 0 then links
  else
    let sorted := L.qsort (fun p q => findjsobjectsCmpNinstances c (cache.node p) (cache.node q))
      (nodesFrom links.next nobjs links.head)
    { head := sorted.head?, next := relink sorted links.next }

end Links

section Groups

variable (t : Target)

/-- A visit, with what it does to the pointers. -/
def visitLinks {L : FindLib t.cfg} (s : FindCache L × ObjLinks) (v : FindRange × ℕ) :
    Option (FindCache L × ObjLinks) :=
  (scanItem t v).map fun item => (item.enter v.2 s.1, item.enterLinks s.1 s.2)

/-- The instances that a scan accepts, each with the signature of its object. -/
def acceptedInstances (p : ScanParams) (maps : List Prmap) : List KnownInstance :=
  (scanVisits t p maps).filterMap (enteredAt t)

/-- **No address is accepted twice.** -/
def AcceptedOnce (p : ScanParams) (maps : List Prmap) : Prop :=
  ((acceptedInstances t p maps).map Prod.fst).Nodup

end Groups

/-- Mappings that do not overlap. -/
def Prmap.Apart (pmp pmp' : Prmap) : Prop :=
  pmp.vaddr + pmp.size ≤ pmp'.vaddr ∨ pmp'.vaddr + pmp'.size ≤ pmp.vaddr

/-! ### The sort -/

/-- The comparison of the sort, of whatever has an object. -/
theorem transCmp_cmpNinstances {α : Type} (c : Config) (f : α → FindObj) :
    Std.TransCmp fun x y => findjsobjectsCmpNinstances c (f x) (f y) :=
  inferInstanceAs (Std.TransCmp (compareLex
    (compareOn fun x => c.wrap ((f x).ninstances * (f x).nprops))
    (compareLex (compareOn fun x => (f x).ninstances) (compareOn fun x => (f x).nprops))))

/-! ### The invariant -/

section Invariant

variable {c : Config} {L : FindLib c}

/-- **The invariant of a scan**, apart from what is known of the instances: the tree and the pointers have
the groups, which have instances, and these are counted. -/
structure GroupsLinked (cache : FindCache L) (links : ObjLinks) : Prop where
  numnodes : L.objs.numnodes cache.tree = cache.nodes.length
  linked : Linked links.next links.head cache.objects
  inhabited : ∀ obj ∈ cache.nodes, obj.instances ≠ []
  counted : ∀ obj ∈ cache.nodes, obj.ninstances = toInt32 obj.instances.length

namespace GroupsLinked

variable {cache : FindCache L} {links : ObjLinks} {entered : List KnownInstance}

theorem empty : GroupsLinked (FindCache.empty (L := L)) {} where
  numnodes := L.objs.numnodes_create
  linked := rfl
  inhabited _ h := absurd h List.not_mem_nil
  counted _ h := absurd h List.not_mem_nil

/-- Putting an instance behind the first one makes them one more. -/
theorem length_addInstance (addr : ℕ) (instances : List ℕ) :
    (MdbV8.addInstance addr instances).length = instances.length + 1 :=
  (addInstance_perm addr instances).length_eq

/-- **Entering an object.** -/
theorem enterObj (h : GroupsLinked cache links) (hknown : ScanKnown cache entered) {current : FindObj}
    {addr : ℕ} (hinst : current.instances = [addr]) (hcount : current.ninstances = 1) :
    GroupsLinked (cache.enterObj current addr).2 (links.enterObj cache current) := by
  unfold FindCache.enterObj ObjLinks.enterObj
  cases hfind : L.objs.find cache.tree current.toFindSignature with
  | none =>
    refine ⟨?_, ?_, fun obj hobj => ?_, fun obj hobj => ?_⟩
    · dsimp only
      rw [L.objs.numnodes_add cache.tree _ _ hfind, h.numnodes, List.length_append,
        List.length_singleton]
    · -- the new node is not in the list
      refine h.linked.push fun hmem => ?_
      have hlt := List.mem_range.mp (hknown.objects.mem_iff.mp hmem)
      exact absurd hlt (lt_irrefl _)
    · rcases List.mem_append.mp hobj with hold | hnew
      · exact h.inhabited obj hold
      · obtain rfl := List.mem_singleton.mp hnew
        rw [hinst]
        exact List.cons_ne_nil addr []
    · rcases List.mem_append.mp hobj with hold | hnew
      · exact h.counted obj hold
      · obtain rfl := List.mem_singleton.mp hnew
        rw [hcount, hinst]
        rfl
  | some p =>
    -- the group is there already, and gets one instance more
    refine ⟨?_, h.linked, fun obj hobj => ?_, fun obj hobj => ?_⟩
    · dsimp only
      rw [List.length_modify]
      exact h.numnodes
    · obtain ⟨i, hi, rfl⟩ := List.mem_iff_getElem.mp hobj
      have hi' : i < cache.nodes.length := by simpa using hi
      dsimp only
      rw [List.getElem_modify]
      split
      · exact List.ne_nil_of_length_eq_add_one (length_addInstance addr cache.nodes[i].instances)
      · exact h.inhabited _ (List.getElem_mem hi')
    · obtain ⟨i, hi, rfl⟩ := List.mem_iff_getElem.mp hobj
      have hi' : i < cache.nodes.length := by simpa using hi
      have hcounted := h.counted _ (List.getElem_mem hi')
      dsimp only
      rw [List.getElem_modify]
      split
      · change incrInt cache.nodes[i].ninstances =
          toInt32 (MdbV8.addInstance addr cache.nodes[i].instances).length
        rw [hcounted, length_addInstance, incrInt_toInt32]
      · exact hcounted

theorem enterFunc (h : GroupsLinked cache links) (func : FindFunc) (addr : ℕ) :
    GroupsLinked (cache.enterFunc func addr).2 links := by
  unfold FindCache.enterFunc
  split <;> exact ⟨h.numnodes, h.linked, h.inhabited, h.counted⟩

/-- **The sort** links the groups in the order that it puts them in. -/
theorem sort (h : GroupsLinked cache links) (hknown : ScanKnown cache entered) :
    GroupsLinked cache.sort (links.sort cache) := by
  unfold FindCache.sort ObjLinks.sort Avl.isEmpty
  by_cases hzero : L.objs.numnodes cache.tree = 0
  · rw [if_pos (by simpa using hzero), if_pos hzero]
    exact h
  · rw [if_neg (by simpa using hzero), if_neg hzero]
    refine ⟨h.numnodes, ?_, h.inhabited, h.counted⟩
    have hlength : cache.objects.length ≤ L.objs.numnodes cache.tree := by
      rw [h.numnodes, hknown.objects.length_eq, List.length_range]
    dsimp only
    rw [h.linked.nodesFrom_eq hlength]
    refine linked_relink ?_
    exact (L.qsort_perm _ cache.objects).nodup_iff.mpr
      (hknown.objects.nodup_iff.mpr List.nodup_range)

end GroupsLinked

/-- **The list is in the order of the sort.** -/
theorem ScanKnown.sorted {cache : FindCache L} {entered : List KnownInstance}
    (hknown : ScanKnown cache entered) (hnodes : L.objs.numnodes cache.tree = cache.nodes.length) :
    cache.sort.objects.Pairwise fun i j =>
      findjsobjectsCmpNinstances c (cache.sort.node i) (cache.sort.node j) ≠ .gt := by
  unfold FindCache.sort Avl.isEmpty
  by_cases hzero : L.objs.numnodes cache.tree = 0
  · have hnil : cache.objects = [] := by
      have hperm := hknown.objects
      rw [← hnodes, hzero] at hperm
      exact hperm.eq_nil
    rw [if_pos (by simpa using hzero), hnil]
    exact .nil
  · rw [if_neg (by simpa using hzero)]
    exact L.qsort_sorted _ cache.objects (transCmp_cmpNinstances c cache.node)

end Invariant

/-! ### What an address that is accepted twice does -/

section Partition

variable {c : Config} {L : FindLib c} {cache : FindCache L} {entered : List KnownInstance}

theorem FindCache.node_eq {i : ℕ} (hi : i < cache.nodes.length) : cache.node i = cache.nodes[i] := by
  unfold FindCache.node
  simp [hi]

/-- What has been entered is what is in the groups. -/
theorem ScanKnown.mem_iff (h : ScanKnown cache entered) {e : KnownInstance} :
    e ∈ entered ↔ ∃ obj ∈ cache.nodes, e.1 ∈ obj.instances ∧ e.2 = obj.toFindSignature := by
  rw [← h.known.mem_iff, knownOf, List.mem_flatMap]
  refine exists_congr fun obj => and_congr_right fun _ => ?_
  unfold FindObj.known
  rw [List.mem_map]
  constructor
  · rintro ⟨addr, haddr, rfl⟩
    exact ⟨haddr, rfl⟩
  · rintro ⟨haddr, hsig⟩
    exact ⟨e.1, haddr, Prod.ext rfl hsig.symm⟩

/-- No two groups have one signature. -/
theorem ScanKnown.eq_of_signature_eq (h : ScanKnown cache entered) {obj obj' : FindObj}
    (hobj : obj ∈ cache.nodes) (hobj' : obj' ∈ cache.nodes)
    (heq : obj.toFindSignature = obj'.toFindSignature) : obj = obj' := by
  have hnodup : (cache.nodes.map FindObj.toFindSignature).Nodup :=
    h.indexes.distinct.imp fun hne heq => hne (findjsobjectsCmp_eq_iff.mpr heq.symm)
  exact List.inj_on_of_nodup_map hnodup hobj hobj' heq

/-- **The instances of a group** are as many as have been entered with its signature. -/
theorem ScanKnown.length_instances (h : ScanKnown cache entered) {obj : FindObj}
    (hobj : obj ∈ cache.nodes) :
    obj.instances.length = (entered.filter fun e => e.2 == obj.toFindSignature).length := by
  have hsigs : (cache.nodes.map FindObj.toFindSignature).Nodup :=
    h.indexes.distinct.imp fun hne heq => hne (findjsobjectsCmp_eq_iff.mpr heq.symm)
  have hself : ∀ e ∈ obj.known, (e.2 == obj.toFindSignature) = true := by
    intro e he
    obtain ⟨addr, -, rfl⟩ := List.mem_map.mp he
    exact beq_self_eq_true _
  -- no other group has an instance with the signature
  have hother : ∀ obj' : FindObj, obj' ≠ obj → obj' ∈ cache.nodes →
      (obj'.known.filter fun e => e.2 == obj.toFindSignature).length = 0 := by
    intro obj' hne hobj'
    rw [List.length_eq_zero_iff, List.filter_eq_nil_iff]
    intro e he heq
    obtain ⟨addr, -, rfl⟩ := List.mem_map.mp he
    exact hne (h.eq_of_signature_eq hobj' hobj (eq_of_beq heq))
  have hcount : cache.nodes.count obj = 1 := List.count_eq_one_of_mem hsigs.of_map hobj
  rw [← (h.known.filter _).length_eq, knownOf, List.filter_flatMap, List.length_flatMap,
    List.sum_map_eq_nsmul_single obj _ hother, hcount, one_nsmul, List.filter_eq_self.mpr hself,
    FindObj.known, List.length_map]

end Partition

/-! ### A complete scan -/

section Scan

variable {t : Target} {L : FindLib t.cfg}

/-- A new array has one instance. -/
theorem findjsobjectsArray_ninstances {addr : ℕ} {current : FindObj}
    (h : findjsobjectsArray t addr = some current) : current.ninstances = 1 := by
  unfold findjsobjectsArray at h
  dsimp only at h
  split at h
  · split at h
    · cases h
    · split at h
      · cases h
      · split at h
        · cases h
        · split at h
          · cases h
          · split at h
            · cases h
            · obtain rfl := Option.some.inj h
              rfl
  · cases h

/-- A new object has one instance. -/
theorem scanItem_ninstances {v : FindRange × ℕ} {obj : FindObj} (h : scanItem t v = some (.object obj)) :
    obj.ninstances = 1 := by
  unfold scanItem kindItem at h
  split at h
  · cases h
  · cases hfunc : findjsobjectsFunc t v.2 <;> rw [hfunc] at h <;> cases h
  · unfold objectItem at h
    cases hprops : findjsobjectsProperties t v.2 with
    | none =>
      rw [hprops] at h
      cases h
    | some current =>
      rw [hprops] at h
      obtain ⟨constructor, -, heq⟩ := Option.map_eq_some_iff.mp h
      obtain rfl := ScanItem.object.inj heq
      unfold findjsobjectsProperties at hprops
      dsimp only at hprops
      split at hprops
      · cases hprops
      · obtain rfl := Option.some.inj hprops
        rw [jsobjProperties_of_zero t _ (fun _ _ _ => rfl)]
        -- a property does not change the number of instances
        have hcalls : ∀ (calls : List (List UInt8 × Option V8Propvalue)) (current : FindObj),
            current.ninstances = 1 →
            (calls.foldl (fun s call => (findjsobjectsProp call.1 call.2 s).2) current).ninstances =
              1 := by
          intro calls
          induction calls with
          | nil => exact fun current h => h
          | cons call calls ih => exact fun current h => ih _ h
        exact hcalls _ (findjsobjectsAlloc v.2) rfl
  · cases harray : findjsobjectsArray t v.2 with
    | none =>
      rw [harray] at h
      cases h
    | some current =>
      rw [harray] at h
      obtain rfl := ScanItem.object.inj (Option.some.inj h)
      exact findjsobjectsArray_ninstances harray

/-- **After a number of visits** the invariant holds, by induction on the visits. -/
theorem groupsLinked_visits {visits : List (FindRange × ℕ)} {cache cache' : FindCache L}
    {links : ObjLinks} {entered : List KnownInstance} (h : GroupsLinked cache links)
    (hknown : ScanKnown cache entered) (hitems : enterItems t visits cache = some cache') :
    ∃ links', visits.foldlM (visitLinks t) (cache, links) = some (cache', links') ∧
      GroupsLinked cache' links' := by
  induction visits generalizing cache links entered with
  | nil =>
    obtain rfl : cache = cache' := Option.some.inj hitems
    exact ⟨links, rfl, h⟩
  | cons v visits ih =>
    obtain ⟨next, hnext, hrest⟩ := Option.bind_eq_some_iff.mp hitems
    obtain ⟨item, hitem, rfl⟩ := Option.map_eq_some_iff.mp hnext
    have hvisit : visitLinks t (cache, links) v =
        some (item.enter v.2 cache, item.enterLinks cache links) := by
      unfold visitLinks
      rw [hitem]
      rfl
    rw [List.foldlM_cons, hvisit]
    -- a function does not change the groups of objects
    cases item with
    | nothing => exact ih h hknown hrest
    | function func => exact ih (h.enterFunc func v.2) (hknown.enterFunc func v.2) hrest
    | object obj =>
      have hinst := (scanItem_spec t hitem).1
      exact ih (h.enterObj hknown hinst (scanItem_ninstances hitem)) (hknown.enterObj hinst) hrest

/-- The addresses that are visited in a range are in the range. -/
theorem bounds_of_mem_rangeAddrs {c : Config} {base size addr : ℕ} (h : addr ∈ rangeAddrs c base size) :
    base ≤ addr ∧ addr < base + size := by
  obtain ⟨hlo, hhi⟩ := List.mem_range'_1.mp h
  have hle : c.add base size ≤ base + size := by
    rw [Config.add_natCast]
    exact Nat.mod_le _ _
  omega

/-- The addresses that are visited in a mapping. -/
theorem mappingVisits_addrs (t : Target) (p : ScanParams) (pmp : Prmap) :
    (mappingVisits t p pmp).map Prod.snd = [] ∨
      (mappingVisits t p pmp).map Prod.snd = rangeAddrs t.cfg pmp.vaddr pmp.size := by
  unfold mappingVisits
  split
  · exact .inl rfl
  · split
    · exact .inl rfl
    · refine .inr ?_
      rw [List.map_map]
      exact List.map_id _

/-- The addresses that are accepted are visited, in the same order. -/
theorem acceptedInstances_sublist (t : Target) (visits : List (FindRange × ℕ)) :
    ((visits.filterMap (enteredAt t)).map Prod.fst).Sublist (visits.map Prod.snd) := by
  induction visits with
  | nil => exact .slnil
  | cons v visits ih =>
    rcases enteredAt_cases t v with ⟨hnone, -⟩ | ⟨sig, -, hsome, -⟩
    · rw [List.filterMap_cons_none hnone]
      exact ih.cons v.2
    · rw [List.filterMap_cons_some hsome]
      exact ih.cons_cons v.2

/-- **Mappings that do not overlap** have no address in common. -/
theorem acceptedOnce_of_apart {p : ScanParams} {maps : List Prmap} (h : maps.Pairwise Prmap.Apart) :
    AcceptedOnce t p maps := by
  refine (acceptedInstances_sublist t _).nodup ?_
  unfold scanVisits
  rw [List.map_flatMap, List.nodup_flatMap]
  constructor
  · intro pmp _
    rcases mappingVisits_addrs t p pmp with hnil | haddrs
    · rw [hnil]
      exact .nil
    · rw [haddrs]
      exact List.nodup_range'
  · have hbounds (pmp : Prmap) (addr : ℕ) (haddr : addr ∈ (mappingVisits t p pmp).map Prod.snd) :
        pmp.vaddr ≤ addr ∧ addr < pmp.vaddr + pmp.size := by
      rcases mappingVisits_addrs t p pmp with hnil | haddrs
      · rw [hnil] at haddr
        cases haddr
      · exact bounds_of_mem_rangeAddrs (haddrs ▸ haddr)
    refine h.imp fun {pmp pmp'} hapart addr haddr haddr' => ?_
    have hlo := hbounds pmp addr haddr
    have hhi := hbounds pmp' addr haddr'
    unfold Prmap.Apart at hapart
    omega

/-- **A scan visits no more addresses** than there are bytes in the mappings. -/
theorem length_scanVisits_le (t : Target) (p : ScanParams) (maps : List Prmap) :
    (scanVisits t p maps).length ≤ (maps.map Prmap.size).sum := by
  have hone : ∀ pmp : Prmap, (mappingVisits t p pmp).length ≤ pmp.size := by
    intro pmp
    have haddrs := mappingVisits_addrs t p pmp
    rw [← List.length_map (f := Prod.snd)]
    rcases haddrs with hnil | haddrs
    · rw [hnil]
      exact Nat.zero_le _
    · rw [haddrs, rangeAddrs, List.length_range', Config.add_natCast]
      exact Nat.sub_le_iff_le_add'.mpr (Nat.mod_le _ _)
  rw [scanVisits, List.length_flatMap]
  exact List.sum_le_sum fun pmp _ => hone pmp

end Scan

/-! ### A mapping that is listed twice -/

/-- A scan that comes to its end. -/
def completedEnv : ScanEnv := { outcome := .completed, outside := fun _ _ => 0, elapsed := 0 }

/-- The state before it. -/
def arraysStart : FindState (.lists arraysTarget.cfg) := .init _

/-- A cache with the two arrays entered. -/
def enterArrays (cache : FindCache (.lists arraysTarget.cfg)) : FindCache (.lists arraysTarget.cfg) :=
  ((cache.enterObj (arraysObj 0x2001) 0x2001).2.enterObj (arraysObj 0x2011) 0x2011).2

/-- Each mapping with the arrays adds them to the cache. -/
theorem enterItems_arrays {p : ScanParams} (hp : p.addr = 0)
    (cache : FindCache (.lists arraysTarget.cfg)) :
    enterItems arraysTarget (mappingVisits arraysTarget p arraysMapping) cache =
      some (enterArrays cache) := by
  rw [(arraysTarget_finds hp).enterItems_eq, List.foldlM_cons,
    arraysTarget_kindItem _ List.mem_cons_self]
  have hlast : [0x2011].foldlM (fun (cache : FindCache (.lists arraysTarget.cfg)) addr =>
      (kindItem arraysTarget addr (typebyteKind arraysTarget addr)).map (ScanItem.enter addr cache))
      (cache.enterObj (arraysObj 0x2001) 0x2001).2 = some (enterArrays cache) := by
    rw [List.foldlM_cons, arraysTarget_kindItem _ (by simp)]
    rfl
  exact hlast

/-- **A scan of any number of these mappings**, from the initial state. -/
theorem findjsobjectsRun_arrays (maps : List Prmap) (hmaps : ∀ pmp ∈ maps, pmp = arraysMapping) :
    ∃ fjs', findjsobjectsRun arraysTarget maps completedEnv arraysStart =
        some (.returned 0, [], fjs') ∧
      fjs'.cache = (maps.foldl (fun cache _ => enterArrays cache) .empty).sort := by
  let fjs : FindState (.lists arraysTarget.cfg) := arraysStart.makeTrees
  have hitems (cache : FindCache (.lists arraysTarget.cfg)) :
      enterItems arraysTarget (scanVisits arraysTarget (fjs.params completedEnv) maps) cache =
        some (maps.foldl (fun cache _ => enterArrays cache) cache) := by
    -- a mapping enters the two arrays once more
    induction maps generalizing cache with
    | nil => rfl
    | cons pmp maps ih =>
      obtain rfl := hmaps pmp List.mem_cons_self
      have hcons : scanVisits arraysTarget (fjs.params completedEnv) (arraysMapping :: maps) =
          mappingVisits arraysTarget (fjs.params completedEnv) arraysMapping ++
            scanVisits arraysTarget (fjs.params completedEnv) maps := rfl
      have hone := enterItems_arrays (p := fjs.params completedEnv) rfl cache
      unfold enterItems at hone ih ⊢
      rw [hcons, List.foldlM_append, hone]
      exact ih (fun pmp hpmp => hmaps pmp (List.mem_cons_of_mem _ hpmp)) (enterArrays cache)
  have hcache := findjsobjectsVisits_cache arraysTarget
    (scanVisits arraysTarget (fjs.params completedEnv) maps) fjs.toFindScan
  rw [hitems, ← findjsobjectsIter_eq] at hcache
  obtain ⟨scan, hscan, heq⟩ := Option.map_eq_some_iff.mp hcache
  refine ⟨_, findjsobjectsRun_completed arraysTarget maps (by rfl) rfl hscan, ?_⟩
  exact congrArg FindCache.sort heq

end MdbV8
