import MdbV8.Find.Groups

/-!
# The statistics of the scans

What a scan counts is printed with `-v`. The counts are never set back, and neither is the cache that the
scan adds to: after several scans, of which some have been given up, the counts are those of all of them,
and so is the cache. A command can therefore be asked whether its books are in order. The groups and the
functions that are listed are as many as the counts say, and every object and every array that has been
counted is an instance of a group (`FindScan.Accounts`). What may be garbage is in groups that are left
out of the table, unless all of them are asked for.

All the counts are of the type `int`. They are in order as long as the largest of them is, which is that of
the addresses that are taken for heap objects: a run that visits fewer than `2 ^ 31` of these (`FindRuns`)
does not come to the end of any count.

The state of a scan has an account of what it has entered (`FindScan.Ledger`). A visit keeps the account
(`FindScan.Ledger.visit`), so that a scan keeps it, wherever it ends, and so does a command.
-/

namespace MdbV8

/-! ### What the statistics say -/

/-- The instances of some groups, as they are counted. -/
def countInstances (groups : List FindObj) : ℤ := (groups.map FindObj.ninstances).sum

/-- The group that a line of the table is about. -/
def FindLine.object? : FindLine → Option FindObj
  | .object obj => some obj
  | _ => none

/-- **The counts agree with each other.** Some addresses have a type byte of an object or a closure that has
not been counted yet. -/
structure FindStats.Consistent (stats : FindStats) (pending : ℤ) : Prop where
  garbage : 0 ≤ stats.garbage ∧ stats.garbage ≤ stats.objects
  arrays : 0 ≤ stats.arrays
  processed : stats.objects + stats.arrays ≤ stats.jsobjs
  unique : stats.funcsUnique ≤ stats.funcs
  skipped : 0 ≤ stats.funcsSkipped
  typed : stats.jsobjs + stats.funcs + stats.funcsSkipped + pending ≤ stats.typereads
  cached : 0 ≤ stats.cached ∧ stats.cached ≤ stats.typereads
  tagged : stats.typereads ≤ stats.heapobjs

/-- **The statistics account for the cache.** -/
structure FindScan.Accounts {c : Config} {L : FindLib c} (fjs : FindScan L) : Prop where
  uniques : fjs.stats.uniques = fjs.cache.groups.length
  instances : fjs.stats.objects + fjs.stats.arrays = countInstances fjs.cache.groups
  /-- What may be garbage is in groups that say so. -/
  garbage : fjs.stats.garbage ≤ countInstances (fjs.cache.groups.filter (·.malformed))
  functions : fjs.stats.funcsUnique = fjs.cache.functions.length
  consistent : fjs.stats.Consistent 0

/-- **What a command reports** is in order, with the state that it leaves behind. -/
structure Reports {c : Config} {L : FindLib c} (env : ScanEnv) (lines : List FindLine) (fjs : FindState L) :
    Prop where
  accounts : fjs.Accounts
  /-- No other statistics are printed. -/
  printed : ∀ name value, .stat name value ∈ lines → .stat name value ∈ statLines fjs.stats env.elapsed
  /-- The table of all the groups. -/
  complete : .header ∈ lines → fjs.allobjs = true →
    (lines.filterMap FindLine.object?).length = fjs.stats.uniques ∧
      countInstances (lines.filterMap FindLine.object?) = fjs.stats.objects + fjs.stats.arrays
  /-- The table without what may be garbage. -/
  partly : .header ∈ lines → fjs.allobjs = false →
    (lines.filterMap FindLine.object?).length ≤ fjs.stats.uniques ∧
      countInstances (lines.filterMap FindLine.object?) + fjs.stats.garbage ≤
        fjs.stats.objects + fjs.stats.arrays

/-- The instances of a group are all of some kind, or none of them is. -/
theorem countInstances_filter_of_counted (kind : FindSignature → Bool) {groups : List FindObj}
    (hcounted : ∀ obj ∈ groups, obj.ninstances = obj.instances.length) :
    countInstances (groups.filter fun obj => kind obj.toFindSignature) =
      ((knownOf groups).filter fun e => kind e.2).length := by
  induction groups with
  | nil => rfl
  | cons obj groups ih =>
    have hrest := ih fun o ho => hcounted o (List.mem_cons_of_mem _ ho)
    have hobj : obj.ninstances = obj.known.length := by
      rw [hcounted obj List.mem_cons_self, FindObj.known, List.length_map]
    have hknown : ∀ e ∈ obj.known, kind e.2 = kind obj.toFindSignature := by
      intro e he
      obtain ⟨addr, -, rfl⟩ := List.mem_map.mp he
      rfl
    have hcons : knownOf (obj :: groups) = obj.known ++ knownOf groups := rfl
    rw [hcons, List.filter_append, List.length_append, Nat.cast_add, ← hrest, List.filter_cons]
    -- a group counts for all of its instances, or for none
    cases hkind : kind obj.toFindSignature with
    | true =>
      rw [if_pos rfl, List.filter_eq_self.mpr fun e he => (hknown e he).trans hkind, ← hobj]
      rfl
    | false =>
      have hnone : (obj.known.filter fun e => kind e.2) = [] :=
        List.filter_eq_nil_iff.mpr fun e he => by simp [hknown e he, hkind]
      rw [if_neg Bool.false_ne_true, hnone, List.length_nil, Nat.cast_zero, zero_add]

/-- Some groups and the rest of them. -/
theorem countInstances_filter_add (p : FindObj → Bool) (groups : List FindObj) :
    countInstances (groups.filter fun obj => !p obj) + countInstances (groups.filter p) =
      countInstances groups := by
  have hperm := ((List.filter_append_perm p groups).map FindObj.ninstances).sum_eq
  rw [List.map_append, List.sum_append] at hperm
  rw [add_comm]
  exact hperm

/-! ### The account of a scan -/

section Account

variable {c : Config} {L : FindLib c}

/-- **The account of a scan**: what has been entered is in the groups, and it has been counted, like the
addresses that have been visited and taken for heap objects. -/
structure FindScan.Ledger (fjs : FindScan L) (entered : List KnownInstance) (visited : ℕ) (pending : ℤ) :
    Prop where
  few : visited < 2 ^ 31
  heapobjs : fjs.stats.heapobjs = visited
  known : ScanKnown fjs.cache entered
  linked : ∃ links, GroupsLinked fjs.cache links
  uniques : fjs.stats.uniques = fjs.cache.nodes.length
  instances : fjs.stats.objects + fjs.stats.arrays = entered.length
  garbage : fjs.stats.garbage ≤ (entered.filter (·.2.malformed)).length
  functions : fjs.stats.funcsUnique = fjs.cache.funcs.length
  consistent : fjs.stats.Consistent pending

/-- **An object is counted.** -/
structure FindStats.Counts (stats stats' : FindStats) (malformed : Bool) : Prop where
  processed : stats'.objects + stats'.arrays = stats.objects + stats.arrays + 1
  garbage : stats.garbage ≤ stats'.garbage ∧ stats'.garbage ≤ stats.garbage + if malformed then 1 else 0
  objects : stats'.garbage - stats.garbage ≤ stats'.objects - stats.objects
  arrays : stats.arrays ≤ stats'.arrays
  kept : stats' = { stats with
    jsobjs := stats.jsobjs + 1
    objects := stats'.objects
    arrays := stats'.arrays
    garbage := stats'.garbage }

theorem length_enterObj (cache : FindCache L) (current : FindObj) (addr : ℕ) :
    ((cache.enterObj current addr).2.nodes.length : ℤ) =
      cache.nodes.length + if (cache.enterObj current addr).1 then 1 else 0 := by
  unfold FindCache.enterObj
  split
  · simp
  · simp

theorem funcs_enterObj (cache : FindCache L) (current : FindObj) (addr : ℕ) :
    (cache.enterObj current addr).2.funcs = cache.funcs := by
  unfold FindCache.enterObj
  split <;> rfl

theorem length_enterFunc (cache : FindCache L) (func : FindFunc) (addr : ℕ) :
    ((cache.enterFunc func addr).2.funcs.length : ℤ) =
      cache.funcs.length + if (cache.enterFunc func addr).1 then 1 else 0 := by
  unfold FindCache.enterFunc
  split
  · simp
  · simp

theorem nodes_enterFunc (cache : FindCache L) (func : FindFunc) (addr : ℕ) :
    (cache.enterFunc func addr).2.nodes = cache.nodes := by
  unfold FindCache.enterFunc
  split <;> rfl

namespace FindScan.Ledger

variable {fjs : FindScan L} {entered : List KnownInstance} {visited : ℕ} {pending : ℤ}

theorem empty : FindScan.Ledger { cache := FindCache.empty (L := L), stats := {} } [] 0 0 where
  few := by decide
  heapobjs := rfl
  known := .empty
  linked := ⟨{}, .empty⟩
  uniques := rfl
  instances := rfl
  garbage := le_rfl
  functions := rfl
  consistent := by constructor <;> simp

/-- **What has been entered and what is pending** is not more than what has been visited. -/
theorem entered_le (h : fjs.Ledger entered visited pending) :
    entered.length + fjs.stats.funcs + fjs.stats.funcsSkipped + pending ≤ visited := by
  rw [← h.instances, ← h.heapobjs]
  linarith only [h.consistent.processed, h.consistent.typed, h.consistent.tagged]

theorem funcs_nonneg (h : fjs.Ledger entered visited pending) : 0 ≤ fjs.stats.funcs :=
  (h.functions ▸ Int.natCast_nonneg _ : 0 ≤ fjs.stats.funcsUnique).trans h.consistent.unique

theorem entered_lt (h : fjs.Ledger entered visited pending) (hpending : 0 ≤ pending) :
    entered.length < 2 ^ 31 := by
  have hle := h.entered_le
  have hfuncs := h.funcs_nonneg
  have hskipped := h.consistent.skipped
  have hfew := h.few
  omega

/-- There are not more groups than instances. -/
theorem nodes_le (h : fjs.Ledger entered visited pending) : fjs.cache.nodes.length ≤ entered.length := by
  obtain ⟨links, hlinked⟩ := h.linked
  have hone : ∀ n ∈ fjs.cache.nodes.map fun obj => obj.known.length, 1 ≤ n := by
    intro n hn
    obtain ⟨obj, hobj, rfl⟩ := List.mem_map.mp hn
    rw [FindObj.known, List.length_map]
    exact List.length_pos_iff.mpr (hlinked.inhabited obj hobj)
  have hle := List.length_le_sum_of_one_le _ hone
  rwa [List.length_map, ← List.length_flatMap, ← knownOf, h.known.known.length_eq] at hle

/-- The instances of the groups whose signatures are of some kind. -/
theorem countInstances_filter (h : fjs.Ledger entered visited pending) (hpending : 0 ≤ pending)
    (kind : FindSignature → Bool) :
    countInstances (fjs.cache.groups.filter fun obj => kind obj.toFindSignature) =
      (entered.filter fun e => kind e.2).length := by
  obtain ⟨links, hlinked⟩ := h.linked
  rw [countInstances_filter_of_counted kind]
  · exact congrArg Nat.cast (h.known.groups.filter _).length_eq
  · intro obj hobj
    obtain ⟨p, hp, rfl⟩ := List.mem_map.mp hobj
    have hlt := List.mem_range.mp (h.known.objects.mem_iff.mp hp)
    have hnode : fjs.cache.node p ∈ fjs.cache.nodes := by
      rw [FindCache.node_eq hlt]
      exact List.getElem_mem hlt
    -- the instances of a group are among all that have been entered
    have hle : (fjs.cache.node p).instances.length ≤ entered.length := by
      rw [h.known.length_instances hnode]
      exact List.length_filter_le _ _
    rw [hlinked.counted _ hnode, toInt32_of_lt (hle.trans_lt (h.entered_lt hpending))]

/-- **An account that is in order** is what the statistics say. -/
theorem accounts (h : fjs.Ledger entered visited 0) : fjs.Accounts where
  uniques := by
    rw [h.uniques, FindCache.groups, List.length_map, h.known.objects.length_eq, List.length_range]
  instances := by
    have hall := h.countInstances_filter le_rfl fun _ => true
    rw [List.filter_true, List.filter_true] at hall
    rw [h.instances, hall]
  garbage := by
    rw [h.countInstances_filter le_rfl FindSignature.malformed]
    exact h.garbage
  functions := by rw [h.functions, FindCache.functions, List.length_map]
  consistent := h.consistent

/-- What is found and not counted is left out. -/
theorem pass (h : fjs.Ledger entered visited pending) (hpending : 0 ≤ pending) :
    fjs.Ledger entered visited 0 :=
  { h with consistent := { h.consistent with typed := by linarith only [h.consistent.typed, hpending] } }

/-- **The counts of objects and arrays** have room for what is pending. -/
theorem room (h : fjs.Ledger entered visited 1) :
    incrInt fjs.stats.jsobjs = fjs.stats.jsobjs + 1 ∧ incrInt fjs.stats.objects = fjs.stats.objects + 1 ∧
      incrInt fjs.stats.arrays = fjs.stats.arrays + 1 ∧
      incrInt fjs.stats.garbage = fjs.stats.garbage + 1 ∧
      incrInt fjs.stats.uniques = fjs.stats.uniques + 1 := by
  obtain ⟨hgarbage, harrays, hprocessed, -, hskipped, htyped, -, htagged⟩ := h.consistent
  have hfuncs := h.funcs_nonneg
  have hfew := h.few
  have hheapobjs := h.heapobjs
  have huniques := h.uniques
  have hinstances := h.instances
  have hnodes := h.nodes_le
  refine ⟨incrInt_of_lt ?_ ?_, incrInt_of_lt ?_ ?_, incrInt_of_lt ?_ ?_, incrInt_of_lt ?_ ?_,
    incrInt_of_lt ?_ ?_⟩ <;> omega

/-- So have the counts of functions. -/
theorem funcsRoom (h : fjs.Ledger entered visited 1) :
    incrInt fjs.stats.funcs = fjs.stats.funcs + 1 ∧
      incrInt fjs.stats.funcsUnique = fjs.stats.funcsUnique + 1 ∧
      incrInt fjs.stats.funcsSkipped = fjs.stats.funcsSkipped + 1 := by
  have hfuncs := h.funcs_nonneg
  have hfew := h.few
  have hle := h.entered_le
  have hunique := h.consistent.unique
  have hskipped := h.consistent.skipped
  have hfunctions := h.functions
  refine ⟨incrInt_of_lt ?_ ?_, incrInt_of_lt ?_ ?_, incrInt_of_lt ?_ ?_⟩ <;> omega

/-- An object or an array is counted when it is found, also if it is not entered then. -/
theorem found (h : fjs.Ledger entered visited 1) :
    FindScan.Ledger { fjs with stats := { fjs.stats with jsobjs := incrInt fjs.stats.jsobjs } } entered
      visited 0 := by
  rw [h.room.1]
  refine { h with consistent := { h.consistent with processed := ?_, typed := ?_ } }
  · exact h.consistent.processed.trans (le_add_of_nonneg_right zero_le_one)
  · dsimp only
    linarith only [h.consistent.typed]

/-- Sorting the groups changes nothing. -/
theorem sort (h : fjs.Ledger entered visited pending) :
    FindScan.Ledger { fjs with cache := fjs.cache.sort } entered visited pending := by
  have hnodes : fjs.cache.sort.nodes = fjs.cache.nodes := by
    unfold FindCache.sort
    split <;> rfl
  have hfuncs : fjs.cache.sort.funcs = fjs.cache.funcs := by
    unfold FindCache.sort
    split <;> rfl
  obtain ⟨links, hlinked⟩ := h.linked
  exact {
    few := h.few
    heapobjs := h.heapobjs
    known := h.known.sort
    linked := ⟨links.sort fjs.cache, hlinked.sort h.known⟩
    uniques := by rw [hnodes, h.uniques]
    instances := h.instances
    garbage := h.garbage
    functions := by rw [hfuncs, h.functions]
    consistent := h.consistent }

/-- Neither does finding out where the functions are defined. -/
theorem of_entries (h : fjs.Ledger entered visited pending) {fjs' : FindScan L}
    (hentries : fjs'.cache.entries = fjs.cache.entries) (hstats : fjs'.stats = fjs.stats) :
    fjs'.Ledger entered visited pending := by
  obtain ⟨⟨tree, nodes, objects, funcinfo, funcNodes, funcs⟩, stats⟩ := fjs
  obtain ⟨⟨tree', nodes', objects', funcinfo', funcNodes', funcs'⟩, stats'⟩ := fjs'
  unfold FindCache.entries at hentries
  obtain ⟨rfl, rfl, rfl, rfl, -, rfl⟩ := FindCache.mk.inj hentries
  obtain rfl : stats' = stats := hstats
  obtain ⟨links, hlinked⟩ := h.linked
  exact ⟨h.few, h.heapobjs, ⟨h.known.indexes, h.known.objects, h.known.known⟩,
    ⟨links, hlinked.numnodes, hlinked.linked, hlinked.inhabited, hlinked.counted⟩, h.uniques, h.instances,
    h.garbage, h.functions, h.consistent⟩

end FindScan.Ledger

end Account

/-! ### A visit -/

/-- An object that has been found is counted. -/
theorem FindStats.Consistent.counts {stats stats' : FindStats} {malformed : Bool} (h : stats.Consistent 1)
    (hcounts : stats.Counts stats' malformed) : stats'.Consistent 0 := by
  obtain ⟨hprocessed, hgarbage, hobjects, harrays, hkept⟩ := hcounts
  rw [hkept]
  constructor
  · obtain ⟨hlo, hhi⟩ := h.garbage
    dsimp only
    exact ⟨hlo.trans hgarbage.1, by omega⟩
  · exact h.arrays.trans harrays
  · linarith only [h.processed, hprocessed]
  · exact h.unique
  · exact h.skipped
  · linarith only [h.typed]
  · exact h.cached
  · exact h.tagged

section Visit

variable (t : Target)

/-- An address that is taken for that of a heap object. -/
def takenForObject (c : Config) (addr : ℕ) : Bool := !c.isSmi addr && c.isHeapobject addr

/-- How many of the addresses that are visited are taken for those of heap objects. -/
def taggedVisits (c : Config) (visits : List (FindRange × ℕ)) : ℕ :=
  visits.countP fun v => takenForObject c v.2

/-- **The part of a visit that finds the type byte** counts what it reads. -/
theorem findjsobjectsType_consistent (range : FindRange) (addr : ℕ) {stats : FindStats}
    (h : stats.Consistent 0) (hjsobjs : 0 ≤ stats.jsobjs + stats.funcs)
    (hroom : takenForObject t.cfg addr = true → stats.heapobjs + 1 < 2 ^ 31) :
    (findjsobjectsType t range addr stats).2.Consistent
        (if (findjsobjectsType t range addr stats).1.isSome then 1 else 0) ∧
      ∃ typereads cached, (findjsobjectsType t range addr stats).2 =
        { stats with
          heapobjs := stats.heapobjs + if takenForObject t.cfg addr then 1 else 0, typereads, cached } := by
  obtain ⟨hgarbage, harrays, hprocessed, hunique, hskipped, htyped, hcached, htagged⟩ := h
  unfold takenForObject at hroom ⊢
  unfold findjsobjectsType
  by_cases htaken : (!t.cfg.isSmi addr && t.cfg.isHeapobject addr) = true
  · have hlt := hroom htaken
    obtain ⟨hnot, hheap⟩ := Bool.and_eq_true_iff.mp htaken
    have hsmi : t.cfg.isSmi addr = false := by simpa using hnot
    -- none of the counts that the reads change is at its end
    have hheapobjs : incrInt stats.heapobjs = stats.heapobjs + 1 := incrInt_of_lt (by omega) hlt
    have htypereads : incrInt stats.typereads = stats.typereads + 1 := incrInt_of_lt (by omega) (by omega)
    have hcacheds : incrInt stats.cached = stats.cached + 1 := incrInt_of_lt (by omega) (by omega)
    simp only [hsmi, hheap, hheapobjs, htypereads, hcacheds, Bool.not_true, Bool.not_false, Bool.and_self,
      Bool.false_eq_true, if_false, if_true]
    split
    · refine ⟨⟨hgarbage, harrays, hprocessed, hunique, hskipped, htyped, hcached, ?_⟩, _, _, rfl⟩
      dsimp only
      omega
    · split
      · -- the byte is in the copy
        refine ⟨⟨hgarbage, harrays, hprocessed, hunique, hskipped, ?_, ?_, ?_⟩, _, _, rfl⟩
        · rw [Option.isSome_some, if_pos rfl]
          dsimp only
          omega
        · dsimp only
          omega
        · dsimp only
          omega
      · refine ⟨⟨hgarbage, harrays, hprocessed, hunique, hskipped, ?_, ?_, ?_⟩, _, _, rfl⟩
        · dsimp only
          split <;> omega
        · dsimp only
          omega
        · dsimp only
          omega
  · -- nothing is read, and nothing is counted
    have hnone : ∀ {α : Type} (x y : α),
        (if t.cfg.isSmi addr then x else if !t.cfg.isHeapobject addr then x else y) = x := by
      intro α x y
      cases hsmi : t.cfg.isSmi addr with
      | true => rfl
      | false =>
        cases hheap : t.cfg.isHeapobject addr with
        | true => rw [hsmi, hheap] at htaken; exact absurd rfl htaken
        | false => rfl
    dsimp only
    rw [hnone, if_neg htaken, add_zero]
    exact ⟨⟨hgarbage, harrays, hprocessed, hunique, hskipped, htyped, hcached, htagged⟩, _, _, rfl⟩

variable {L : FindLib t.cfg} {fjs : FindScan L} {entered : List KnownInstance} {visited : ℕ}

namespace FindScan.Ledger

/-- **Entering an object** that is counted. -/
theorem enterObj (h : fjs.Ledger entered visited 1) {current : FindObj} {addr : ℕ} {stats : FindStats}
    (hinst : current.instances = [addr]) (hcount : current.ninstances = 1)
    (hcounts : fjs.stats.Counts stats current.malformed) :
    (findjsobjectsEnter t { fjs with stats } current addr).Ledger
      (entered ++ [(addr, current.toFindSignature)]) visited 0 := by
  obtain ⟨links, hlinked⟩ := h.linked
  have huniques : stats.uniques = fjs.stats.uniques := by rw [hcounts.kept]
  have hfunctions : stats.funcsUnique = fjs.stats.funcsUnique := by rw [hcounts.kept]
  -- the books are written field by field
  have hconsistent := h.consistent.counts hcounts
  exact {
    few := h.few
    heapobjs := by
      change stats.heapobjs = visited
      rw [hcounts.kept]
      exact h.heapobjs
    known := h.known.enterObj hinst
    linked := ⟨_, hlinked.enterObj h.known hinst hcount⟩
    uniques := by
      change (if (fjs.cache.enterObj current addr).1 then incrInt stats.uniques else stats.uniques) =
        (((fjs.cache.enterObj current addr).2.nodes.length : ℕ) : ℤ)
      rw [length_enterObj, huniques, h.room.2.2.2.2, h.uniques]
      split <;> simp
    instances := by
      change stats.objects + stats.arrays = _
      rw [hcounts.processed, h.instances, List.length_append, List.length_singleton]
      push_cast
      rfl
    garbage := by
      refine hcounts.garbage.2.trans ?_
      rw [List.filter_append, List.length_append, List.filter_singleton, Nat.cast_add]
      refine add_le_add h.garbage ?_
      cases current.malformed <;> simp
    functions := by
      change stats.funcsUnique = (((fjs.cache.enterObj current addr).2.funcs.length : ℕ) : ℤ)
      rw [funcs_enterObj, hfunctions, h.functions]
    consistent := ⟨hconsistent.garbage, hconsistent.arrays, hconsistent.processed, hconsistent.unique,
      hconsistent.skipped, hconsistent.typed, hconsistent.cached, hconsistent.tagged⟩ }

/-- **A closure** is counted, or it is skipped. -/
theorem jsfunc (h : fjs.Ledger entered visited 1) (addr : ℕ) :
    (findjsobjectsJsfunc t fjs addr).Ledger entered visited 0 := by
  have hconsistent := h.consistent
  obtain ⟨hfuncs, hfuncsUnique, hfuncsSkipped⟩ := h.funcsRoom
  unfold findjsobjectsJsfunc
  cases findjsobjectsFunc t addr with
  | none =>
    -- what is no closure is skipped
    rw [hfuncsSkipped]
    refine { h with consistent := { hconsistent with skipped := ?_, typed := ?_ } }
    · have hskipped := hconsistent.skipped
      dsimp only
      omega
    · dsimp only
      linarith only [hconsistent.typed]
  | some func =>
    -- a closure is one of a new function, or of one that has a group
    obtain ⟨links, hlinked⟩ := h.linked
    rw [hfuncs, hfuncsUnique]
    exact {
      few := h.few
      heapobjs := h.heapobjs
      known := h.known.enterFunc func addr
      linked := ⟨links, hlinked.enterFunc func addr⟩
      uniques := by
        change fjs.stats.uniques = (((fjs.cache.enterFunc func addr).2.nodes.length : ℕ) : ℤ)
        rw [nodes_enterFunc, h.uniques]
      instances := h.instances
      garbage := h.garbage
      functions := by
        change (if (fjs.cache.enterFunc func addr).1 then fjs.stats.funcsUnique + 1
          else fjs.stats.funcsUnique) = (((fjs.cache.enterFunc func addr).2.funcs.length : ℕ) : ℤ)
        rw [length_enterFunc, h.functions]
        split <;> simp
      consistent := { hconsistent with
        unique := by
          have hunique := hconsistent.unique
          dsimp only
          split <;> omega
        typed := by
          dsimp only
          linarith only [hconsistent.typed] } }

/-- **An object** is entered, unless its properties cannot be read. -/
theorem jsobject (h : fjs.Ledger entered visited 1) {range : FindRange} {addr : ℕ} {fjs' : FindScan L}
    (hkind : visitKind t (range, addr) = some .object)
    (hvisit : findjsobjectsJsobject t
      { fjs with stats := { fjs.stats with jsobjs := incrInt fjs.stats.jsobjs } } addr = some fjs') :
    ∃ entered', fjs'.Ledger entered' visited 0 := by
  have hitem : scanItem t (range, addr) = objectItem t addr := by rw [scanItem, hkind, kindItem]
  unfold findjsobjectsJsobject at hvisit
  unfold objectItem at hitem
  cases hprops : findjsobjectsProperties t addr with
  | none =>
    rw [hprops] at hvisit
    obtain rfl := Option.some.inj hvisit
    exact ⟨entered, h.found⟩
  | some current =>
    rw [hprops] at hvisit hitem
    dsimp only at hvisit hitem
    cases hconstructor : findjsobjectsConstructor t addr with
    | none =>
      rw [hconstructor] at hvisit
      cases hvisit
    | some constructor =>
      rw [hconstructor] at hvisit hitem
      obtain rfl := Option.some.inj hvisit
      obtain ⟨hjsobjs, hobjects, -, hgarbage, -⟩ := h.room
      refine ⟨_, h.enterObj t (scanItem_spec t hitem).1 (scanItem_ninstances hitem) ?_⟩
      rw [hjsobjs, hobjects, hgarbage]
      exact {
        processed := add_right_comm _ _ _
        -- what may be garbage is entered as malformed
        garbage := by
          dsimp only
          cases current.malformed <;> cases (current.propinfo &&& jpiMaybeGarbage != 0) <;> simp
        objects := by
          dsimp only
          split <;> omega
        arrays := le_rfl
        kept := rfl }

/-- **An array** is entered, unless it does not look like one. -/
theorem jsarray (h : fjs.Ledger entered visited 1) {range : FindRange} {addr : ℕ}
    (hkind : visitKind t (range, addr) = some .array) :
    ∃ entered', (findjsobjectsJsarray t
      { fjs with stats := { fjs.stats with jsobjs := incrInt fjs.stats.jsobjs } } addr).Ledger entered'
        visited 0 := by
  have hitem : scanItem t (range, addr) =
      some (((findjsobjectsArray t addr).map .object).getD .nothing) := by
    rw [scanItem, hkind, kindItem]
  unfold findjsobjectsJsarray
  cases harray : findjsobjectsArray t addr with
  | none => exact ⟨entered, h.found⟩
  | some current =>
    rw [harray] at hitem
    obtain ⟨hjsobjs, -, harrays, -, -⟩ := h.room
    refine ⟨_, h.enterObj t (scanItem_spec t hitem).1 (scanItem_ninstances hitem) ?_⟩
    dsimp only
    rw [hjsobjs, harrays]
    exact {
      processed := (add_assoc _ _ _).symm
      garbage := ⟨le_rfl, le_add_of_nonneg_right (by split <;> decide)⟩
      objects := by simp
      arrays := le_add_of_nonneg_right zero_le_one
      kept := rfl }

/-- **A visit keeps the account**, whatever is at the address. -/
theorem visit (h : fjs.Ledger entered visited 0) {range : FindRange} {addr : ℕ} {fjs' : FindScan L}
    (hfew : takenForObject t.cfg addr = true → visited + 1 < 2 ^ 31)
    (hvisit : findjsobjectsVisit t range fjs addr = some fjs') :
    ∃ entered', fjs'.Ledger entered' (visited + if takenForObject t.cfg addr then 1 else 0) 0 := by
  have hjsobjs : 0 ≤ fjs.stats.jsobjs + fjs.stats.funcs := by
    have hprocessed := h.consistent.processed
    have hinstances := h.instances
    have hfuncs := h.funcs_nonneg
    omega
  have hroom : takenForObject t.cfg addr = true → fjs.stats.heapobjs + 1 < 2 ^ 31 := by
    intro htaken
    rw [h.heapobjs]
    exact_mod_cast hfew htaken
  obtain ⟨hconsistent, hstats⟩ := findjsobjectsType_consistent t range addr h.consistent hjsobjs hroom
  have hvisitKind : visitKind t (range, addr) =
      (findjsobjectsType t range addr fjs.stats).1.bind (findKind t.cfg) := by
    rw [visitKind, findjsobjectsType_fst t range addr fjs.stats]
  unfold findjsobjectsVisit at hvisit
  generalize findjsobjectsType t range addr fjs.stats = typed at hvisit hvisitKind hstats hconsistent
  obtain ⟨type, stats⟩ := typed
  obtain ⟨typereads, cached, rfl⟩ := hstats
  dsimp only at hvisit hvisitKind hconsistent
  set visited' := visited + if takenForObject t.cfg addr then 1 else 0 with hvisited
  -- with the address and the reads that have been counted
  have hread : FindScan.Ledger
      { fjs with stats := { fjs.stats with
          heapobjs := fjs.stats.heapobjs + if takenForObject t.cfg addr then 1 else 0, typereads, cached } }
      entered visited' (if type.isSome then 1 else 0) := {
    few := by
      rw [hvisited]
      split
      · next htaken => exact hfew htaken
      · exact h.few
    heapobjs := by
      dsimp only
      rw [h.heapobjs, hvisited]
      push_cast
      rfl
    known := h.known
    linked := h.linked
    uniques := h.uniques
    instances := h.instances
    garbage := h.garbage
    functions := h.functions
    consistent := hconsistent }
  cases hkind : type.bind (findKind t.cfg) with
  | none =>
    -- there is nothing to be entered
    rw [hkind] at hvisit
    obtain rfl := Option.some.inj hvisit
    exact ⟨entered, hread.pass (by split <;> decide)⟩
  | some kind =>
    -- the kind of the address decides in which books it goes
    obtain ⟨byte, rfl, -⟩ := Option.bind_eq_some_iff.mp hkind
    rw [Option.isSome_some, if_pos rfl] at hread
    rw [hkind] at hvisit hvisitKind
    cases kind with
    | function =>
      obtain rfl := Option.some.inj hvisit
      exact ⟨entered, hread.jsfunc t addr⟩
    | object => exact hread.jsobject t hvisitKind hvisit
    | array =>
      obtain rfl := Option.some.inj hvisit
      exact hread.jsarray t hvisitKind

/-- **A scan keeps the account**, also if it is given up. -/
theorem visits (h : fjs.Ledger entered visited 0) {visits : List (FindRange × ℕ)} {scan : FindScan L}
    (hfew : visited + taggedVisits t.cfg visits < 2 ^ 31)
    (hscan : findjsobjectsVisits t visits fjs = some scan) :
    ∃ entered', scan.Ledger entered' (visited + taggedVisits t.cfg visits) 0 := by
  induction visits generalizing fjs entered visited with
  | nil =>
    obtain rfl := Option.some.inj hscan
    exact ⟨entered, h⟩
  | cons v visits ih =>
    obtain ⟨next, hnext, hrest⟩ := Option.bind_eq_some_iff.mp hscan
    have hcons : taggedVisits t.cfg (v :: visits) =
        (if takenForObject t.cfg v.2 then 1 else 0) + taggedVisits t.cfg visits := by
      rw [taggedVisits, List.countP_cons, add_comm]
      rfl
    rw [hcons, ← add_assoc] at hfew ⊢
    have hone : takenForObject t.cfg v.2 = true → visited + 1 < 2 ^ 31 := by
      intro htaken
      rw [if_pos htaken] at hfew
      omega
    obtain ⟨entered', hledger⟩ := h.visit t hone hnext
    exact ih hledger hfew hrest

end FindScan.Ledger

end Visit

/-! ### What is printed after a scan -/

/-- A line that is neither one of the statistics nor the one above the table. -/
def FindLine.isPlain : FindLine → Bool
  | .stat _ _ => false
  | .header => false
  | _ => true

/-- **What a part of a command prints** that does not scan, with the state that it leaves behind: the whole
table, or something else. -/
structure FindState.Prints {c : Config} {L : FindLib c} (fjs : FindState L) (lines : List FindLine)
    (fjs' : FindState L) : Prop where
  stats : fjs'.stats = fjs.stats
  lines : (∀ line ∈ lines, line.isPlain = true) ∨ lines = .header :: fjs'.listed.map .object

/-- Every result that a part of a command returns is such a listing. -/
def FindResult.Prints {c : Config} {L : FindLib c} (fjs : FindState L) : FindResult L → Prop
  | .returned _ lines fjs' => fjs.Prints lines fjs'
  | .interrupted _ => False
  | _ => True

section Listings

variable {t : Target} {L : FindLib t.cfg}

theorem FindState.Prints.nil (fjs : FindState L) : fjs.Prints [] fjs :=
  ⟨rfl, .inl fun _ h => absurd h List.not_mem_nil⟩

theorem FindState.Prints.map {α : Type} (fjs : FindState L) (xs : List α) {f : α → FindLine}
    (hplain : ∀ x, (f x).isPlain = true) : fjs.Prints (xs.map f) fjs := by
  refine ⟨rfl, .inl fun line hline => ?_⟩
  obtain ⟨x, -, rfl⟩ := List.mem_map.mp hline
  exact hplain x

theorem prints_findjsobjectsReferentAll {addrs : List ℕ} {fjs fjs' : FindState L} {lines : List FindLine}
    (h : findjsobjectsReferentAll addrs fjs = .ok (lines, fjs')) :
    fjs'.stats = fjs.stats ∧ ∀ line ∈ lines, line.isPlain = true := by
  induction addrs generalizing fjs lines with
  | nil =>
    obtain ⟨rfl, rfl⟩ := Prod.mk.inj (Except.ok.inj h)
    exact ⟨rfl, fun _ h => absurd h List.not_mem_nil⟩
  | cons addr addrs ih =>
    unfold findjsobjectsReferentAll at h
    cases hone : findjsobjectsReferent fjs addr with
    | error fault => simp [hone] at h
    | ok one =>
      -- one address has been marked, and the induction hypothesis is for the others
      obtain ⟨lines₁, fjs₁⟩ := one
      have hfirst : fjs₁.stats = fjs.stats ∧ ∀ line ∈ lines₁, line.isPlain = true := by
        unfold findjsobjectsReferent at hone
        split at hone
        · split at hone <;> cases hone
          exact ⟨rfl, fun _ h => absurd h List.not_mem_nil⟩
        · cases hone
          refine ⟨rfl, fun line hline => ?_⟩
          split at hline
          · obtain rfl := List.mem_singleton.mp hline
            rfl
          · cases hline
      rw [hone] at h
      cases hrest : findjsobjectsReferentAll addrs fjs₁ with
      | error fault => simp [hrest] at h
      | ok rest =>
        obtain ⟨lines₂, fjs₂⟩ := rest
        simp only [hrest] at h
        obtain ⟨rfl, rfl⟩ := Prod.mk.inj (Except.ok.inj h)
        obtain ⟨hstats, hplain⟩ := ih hrest
        refine ⟨hstats.trans hfirst.1, fun line hline => ?_⟩
        rcases List.mem_append.mp hline with hline | hline
        · exact hfirst.2 line hline
        · exact hplain line hline

theorem isPlain_referentLines (referent : FindReferent) :
    ∀ line ∈ referent.lines, line.isPlain = true := by
  intro line hline
  unfold FindReferent.lines at hline
  split at hline
  · obtain rfl := List.mem_singleton.mp hline
    rfl
  · obtain ⟨reference, -, rfl⟩ := List.mem_map.mp hline
    rfl

theorem prints_findjsobjectsLookup (opts : FindOpts) {lines : List FindLine} (fjs : FindState L)
    (hplain : ∀ line ∈ lines, line.isPlain = true) :
    (findjsobjectsLookup t opts lines fjs).Prints fjs := by
  unfold findjsobjectsLookup findjsobjectsReferences
  split
  · cases fjs.cache.groups.foldlM (findjsobjectsReferencesGroup t) fjs.refs with
    | error fault => trivial
    | ok refs =>
      refine ⟨rfl, .inl fun line hline => ?_⟩
      rcases List.mem_append.mp hline with hline | hline
      · exact hplain line hline
      · obtain ⟨referent, -, hline⟩ := List.mem_flatMap.mp hline
        exact isPlain_referentLines referent line hline
  · exact ⟨rfl, .inl hplain⟩

theorem prints_findjsobjectsMatch (fjs : FindState L) (addr : Option ℕ) (func : FindObj → Bool) :
    (findjsobjectsMatch fjs addr func).Prints fjs := by
  unfold findjsobjectsMatch
  cases addr with
  | none => exact .map fjs _ fun _ => rfl
  | some addr =>
    dsimp only
    split
    · exact .nil fjs
    · refine ⟨rfl, .inl fun line hline => ?_⟩
      split at hline
      · obtain rfl := List.mem_singleton.mp hline
        rfl
      · cases hline

theorem prints_findjsobjectsAddr (addr : ℕ) (opts : FindOpts) (fjs : FindState L) :
    (findjsobjectsAddr t addr opts fjs).Prints fjs := by
  unfold findjsobjectsAddr
  cases findjsobjectsInstance fjs addr with
  | none => exact .nil fjs
  | some obj =>
    dsimp only
    split
    · exact .map fjs _ fun _ => rfl
    · cases hall : findjsobjectsReferentAll (if opts.listlike then obj.instances else [addr]) fjs with
      | error fault => trivial
      | ok marked =>
        obtain ⟨lines, fjs₁⟩ := marked
        obtain ⟨hstats, hplain⟩ := prints_findjsobjectsReferentAll hall
        have hlookup := prints_findjsobjectsLookup opts fjs₁ hplain
        dsimp only
        unfold FindResult.Prints at hlookup ⊢
        split at hlookup
        · exact ⟨hlookup.stats.trans hstats, hlookup.lines⟩
        · exact hlookup
        · trivial

/-- **`::findjsobjects` after the scan** prints the table, or something else. -/
theorem prints_findjsobjectsBody (addr : Option ℕ) (opts : FindOpts) (fjs : FindState L) :
    (findjsobjectsBody t addr opts fjs).Prints fjs := by
  unfold findjsobjectsBody
  -- the table is printed where there is no address and no filter
  split
  · split
    · exact .nil fjs
    · exact prints_findjsobjectsMatch fjs addr _
  · split
    · exact prints_findjsobjectsMatch fjs addr _
    · exact prints_findjsobjectsMatch fjs addr _
    · exact prints_findjsobjectsMatch fjs addr _
    · split
      · exact .nil fjs
      · split
        · exact .nil fjs
        · split
          · exact .nil fjs
          · cases addr with
            | some addr => exact prints_findjsobjectsAddr addr opts fjs
            | none =>
              dsimp only
              split
              · exact prints_findjsobjectsLookup opts fjs fun _ h => absurd h List.not_mem_nil
              · exact ⟨rfl, .inr rfl⟩
    · exact .nil fjs

theorem isPlain_jsfunctionsLoop (opts : JsfunctionsOpts) {ps : List ℕ} {nodes nodes' : List FindFunc}
    {lines : List FindLine} (h : jsfunctionsLoop t opts ps nodes = some (lines, nodes')) :
    ∀ line ∈ lines, line.isPlain = true := by
  induction ps generalizing nodes lines with
  | nil =>
    obtain ⟨rfl, -⟩ := Prod.mk.inj (Option.some.inj h)
    exact fun _ h => absurd h List.not_mem_nil
  | cons p ps ih =>
    unfold jsfunctionsLoop at h
    dsimp only at h
    cases hloc : jsfunctionsLocation t (nodes.getD p default) with
    | none =>
      -- a function without a location ends the listing
      rw [hloc] at h
      cases h
    | some location =>
      rw [hloc] at h
      obtain ⟨⟨lines', nodes₁⟩, hrest, heq⟩ := Option.map_eq_some_iff.mp h
      obtain ⟨rfl, rfl⟩ := Prod.mk.inj heq
      intro line hline
      split at hline
      · exact ih hrest line hline
      · rcases List.mem_cons.mp hline with rfl | hline
        · unfold jsfunctionsLine
          dsimp only
          split <;> rfl
        · exact ih hrest line hline

/-- So does `::jsfunctions`. -/
theorem prints_jsfunctionsBody (addr : Option ℕ) (opts : JsfunctionsOpts) (fjs : FindState L) :
    (jsfunctionsBody t addr opts fjs).Prints fjs := by
  unfold jsfunctionsBody
  cases addr with
  | some addr =>
    refine ⟨rfl, .inl fun line hline => ?_⟩
    obtain ⟨func, -, hline⟩ := List.mem_flatMap.mp hline
    obtain ⟨instance', -, rfl⟩ := List.mem_map.mp hline
    rfl
  | none =>
    dsimp only
    cases hloop : jsfunctionsLoop t opts fjs.cache.funcs fjs.cache.funcNodes with
    | none => trivial
    | some r =>
      have hplain := isPlain_jsfunctionsLoop opts hloop
      refine ⟨rfl, .inl fun line hline => ?_⟩
      split at hline
      · exact hplain line hline
      · rcases List.mem_cons.mp hline with rfl | hline
        · rfl
        · exact hplain line hline

theorem prints_body (fjs : FindState L) (cmd : FindCommand) : (cmd.body t fjs).Prints fjs := by
  cases cmd with
  | findjsobjects addr opts => exact prints_findjsobjectsBody addr opts fjs
  | jsfunctions addr opts => exact prints_jsfunctionsBody addr opts fjs

end Listings

/-! ### Commands and runs -/

section Runs

variable {t : Target} {maps : List Prmap} {L : FindLib t.cfg} {env : ScanEnv} {fjs fjs' : FindState L}
  {cmd : FindCommand}

/-- How many addresses a scan takes for those of heap objects, if there is one. -/
def FindState.tagged (t : Target) (maps : List Prmap) {L : FindLib t.cfg} (env : ScanEnv)
    (fjs : FindState L) : ℕ :=
  if L.objs.isEmpty fjs.makeTrees.cache.tree then
    taggedVisits t.cfg (env.outcome.visits t maps (fjs.makeTrees.params env))
  else 0

/-- How many of them a command comes to. -/
def FindCommand.tagged (t : Target) (maps : List Prmap) {L : FindLib t.cfg} (env : ScanEnv)
    (fjs : FindState L) (cmd : FindCommand) : ℕ :=
  if cmd.valid then (cmd.prepare fjs).tagged t maps env else 0

/-- A command does not come to more addresses than there are bytes in the mappings. -/
theorem FindCommand.tagged_le (t : Target) (maps : List Prmap) {L : FindLib t.cfg} (env : ScanEnv)
    (fjs : FindState L) (cmd : FindCommand) : cmd.tagged t maps env fjs ≤ (maps.map Prmap.size).sum := by
  have hvisits : ∀ p : ScanParams, (env.outcome.visits t maps p).Sublist (scanVisits t p maps) := by
    intro p
    cases env.outcome with
    | noHandle => exact List.nil_sublist _
    | failed nmaps => exact (List.take_sublist nmaps maps).flatMap _
    | completed => exact .refl _
    | abandoned naddrs => exact List.take_sublist naddrs _
  unfold FindCommand.tagged FindState.tagged
  split
  · split
    · exact (List.countP_le_length.trans (hvisits _).length_le).trans (length_scanVisits_le t _ maps)
    · exact Nat.zero_le _
  · exact Nat.zero_le _

/-- **The states that any commands lead to**, with the number of addresses that their scans have taken for
those of heap objects. -/
inductive FindRuns (t : Target) (maps : List Prmap) {L : FindLib t.cfg} : ℕ → FindState L → Prop
  | init : FindRuns t maps 0 (.init L)
  | step {n : ℕ} {fjs fjs' : FindState L} {env : ScanEnv} {cmd : FindCommand}
      (hruns : FindRuns t maps n fjs) (hrun : (cmd.run t maps env fjs).state? = some fjs') :
      FindRuns t maps (n + cmd.tagged t maps env fjs) fjs'

/-- **What holds between two commands**, also if a scan has been given up: there is an account, and trees
that have not been made are those that will be made. -/
structure FindState.Ledgered (fjs : FindState L) (visited : ℕ) : Prop where
  account : ∃ entered, fjs.Ledger entered visited 0
  fresh : fjs.initialized = false →
    fjs.cache.tree = L.objs.create ∧ fjs.cache.funcinfo = L.funcs.create

namespace FindState.Ledgered

variable {visited : ℕ}

theorem init : (FindState.init L).Ledgered 0 := ⟨⟨[], .empty⟩, fun _ => ⟨rfl, rfl⟩⟩

theorem prepare (h : fjs.Ledgered visited) (cmd : FindCommand) : (cmd.prepare fjs).Ledgered visited := by
  cases cmd <;> exact ⟨h.account, h.fresh⟩

theorem makeTrees (h : fjs.Ledgered visited) :
    fjs.makeTrees.Ledgered visited ∧ fjs.makeTrees.initialized = true := by
  unfold FindState.makeTrees
  split
  · next hinit => exact ⟨h, hinit⟩
  · next hinit =>
    obtain ⟨htree, hfuncinfo⟩ := h.fresh (by simpa using hinit)
    refine ⟨⟨?_, fun hfalse => by cases hfalse⟩, rfl⟩
    rw [← htree, ← hfuncinfo]
    exact h.account

/-- **What the scan of a command leaves behind**, and what it prints: nothing, or the statistics. -/
theorem run (h : fjs.Ledgered visited) (hfew : visited + fjs.tagged t maps env < 2 ^ 31) {e : RunEnd}
    {lines : List FindLine} (hrun : findjsobjectsRun t maps env fjs = some (e, lines, fjs')) :
    fjs'.Ledgered (visited + fjs.tagged t maps env) ∧
      (lines = [] ∨ lines = statLines fjs'.stats env.elapsed) := by
  obtain ⟨⟨⟨entered, hledger⟩, -⟩, hinit⟩ := h.makeTrees
  have hfresh : fjs.makeTrees.initialized = false →
      ∀ scan : FindScan L, scan.cache.tree = L.objs.create ∧ scan.cache.funcinfo = L.funcs.create :=
    fun hfalse => absurd (hinit.symm.trans hfalse) (by decide)
  unfold FindState.tagged at hfew ⊢
  unfold findjsobjectsRun at hrun
  dsimp only at hrun
  split at hrun
  · next hempty =>
    rw [if_pos hempty] at hfew ⊢
    unfold findjsobjectsScan at hrun
    dsimp only at hrun
    cases houtcome : env.outcome with
    | noHandle =>
      rw [houtcome] at hrun
      obtain ⟨-, rfl, rfl⟩ := by simpa using hrun
      exact ⟨⟨⟨entered, hledger⟩, fun hfalse => hfresh hfalse _⟩, .inl rfl⟩
    | failed nmaps =>
      rw [houtcome] at hrun hfew
      obtain ⟨scan, hscan, heq⟩ := Option.map_eq_some_iff.mp hrun
      obtain ⟨-, rfl, rfl⟩ := by simpa using heq
      rw [findjsobjectsIter_eq] at hscan
      exact ⟨⟨hledger.visits t hfew hscan, fun hfalse => hfresh hfalse _⟩, .inl rfl⟩
    | completed =>
      -- all the mappings have been visited
      rw [houtcome] at hrun hfew
      obtain ⟨scan, hscan, heq⟩ := Option.map_eq_some_iff.mp hrun
      obtain ⟨-, rfl, rfl⟩ := by simpa using heq
      rw [findjsobjectsIter_eq] at hscan
      obtain ⟨entered', hledger'⟩ := hledger.visits t hfew hscan
      refine ⟨⟨⟨entered', hledger'.sort⟩, fun hfalse => hfresh hfalse _⟩, ?_⟩
      split
      · exact .inr rfl
      · exact .inl rfl
    | abandoned naddrs =>
      -- the scan is given up after some addresses
      rw [houtcome] at hrun hfew
      obtain ⟨scan, hscan, heq⟩ := Option.map_eq_some_iff.mp hrun
      obtain ⟨-, rfl, rfl⟩ := by simpa using heq
      exact ⟨⟨hledger.visits t hfew hscan, fun hfalse => hfresh hfalse _⟩, .inl rfl⟩
  · -- there is an object in the cache, so nothing is visited
    next hnonempty =>
    rw [if_neg hnonempty]
    obtain ⟨-, rfl, rfl⟩ := by simpa using hrun
    exact ⟨h.makeTrees.1, .inl rfl⟩

/-- What is done after the scan keeps what holds. -/
theorem body (h : fjs.Ledgered visited) (cmd : FindCommand)
    (hbody : (cmd.body t fjs).state? = some fjs') : fjs'.Ledgered visited := by
  have hkeeps := keepsCache_body t fjs cmd fjs' hbody
  have hstats : fjs'.stats = fjs.stats := by
    have hprints := prints_body fjs cmd
    unfold FindResult.Prints at hprints
    generalize cmd.body t fjs = result at hbody hprints
    cases result with
    | returned status lines fjs₁ =>
      obtain rfl := Option.some.inj hbody
      exact hprints.stats
    | interrupted fjs₁ => exact hprints.elim
    | fault f => cases hbody
    | hangs => cases hbody
  obtain ⟨entered, hledger⟩ := h.account
  refine ⟨⟨entered, hledger.of_entries hkeeps.entries hstats⟩, fun hfalse => ?_⟩
  have htree : fjs'.cache.tree = fjs.cache.tree :=
    show fjs'.cache.entries.tree = fjs.cache.entries.tree by rw [hkeeps.entries]
  have hfuncinfo : fjs'.cache.funcinfo = fjs.cache.funcinfo :=
    show fjs'.cache.entries.funcinfo = fjs.cache.entries.funcinfo by rw [hkeeps.entries]
  rw [htree, hfuncinfo]
  exact h.fresh (hkeeps.initialized ▸ hfalse)

/-- **A command keeps what holds.** -/
theorem step (h : fjs.Ledgered visited) (hfew : visited + cmd.tagged t maps env fjs < 2 ^ 31)
    (hrun : (cmd.run t maps env fjs).state? = some fjs') :
    fjs'.Ledgered (visited + cmd.tagged t maps env fjs) := by
  unfold FindCommand.tagged at hfew ⊢
  rcases run_cases hrun with ⟨hvalid, rfl⟩ | ⟨e, lines, fjs₁, hvalid, hscan, hbody⟩
  · rw [hvalid]
    exact h.prepare cmd
  · rw [if_pos hvalid] at hfew ⊢
    have hscanned := ((h.prepare cmd).run hfew hscan).1
    rcases hbody with rfl | hbody
    · exact hscanned
    · exact hscanned.body cmd hbody

end FindState.Ledgered

/-- It holds in every state that commands lead to, as long as the largest count is not at its end. -/
theorem FindRuns.ledgered {n : ℕ} (hruns : FindRuns t maps n fjs) (hfew : n < 2 ^ 31) : fjs.Ledgered n := by
  induction hruns with
  | init => exact .init
  | step _ hrun ih => exact (ih (by omega)).step hfew hrun

/-- What a command prints is what its scan has printed, perhaps with what is printed after it. -/
theorem lines_cases {status : DcmdStatus} {lines : List FindLine}
    (hrun : cmd.run t maps env fjs = .returned status lines fjs') :
    lines = [] ∨ ∃ e lines₁ fjs₁, cmd.valid = true ∧
      findjsobjectsRun t maps env (cmd.prepare fjs) = some (e, lines₁, fjs₁) ∧
      ((lines = lines₁ ∧ fjs' = fjs₁) ∨
        ∃ lines₂, cmd.body t fjs₁ = .returned status lines₂ fjs' ∧ lines = lines₁ ++ lines₂) := by
  -- a body may end in several ways, but only one of them returns
  have hafter : ∀ {lines₁ : List FindLine} {result : FindResult L},
      result.after lines₁ = .returned status lines fjs' →
      ∃ lines₂, result = .returned status lines₂ fjs' ∧ lines = lines₁ ++ lines₂ := by
    intro lines₁ result heq
    cases result with
    | returned status' lines₂ fjs₂ =>
      obtain ⟨rfl, rfl, rfl⟩ := FindResult.returned.inj heq
      exact ⟨lines₂, rfl, rfl⟩
    | interrupted fjs₂ => cases heq
    | fault f => cases heq
    | hangs => cases heq
  have hsame : ∀ {status₁ : DcmdStatus} {lines₁ : List FindLine} {fjs₁ : FindState L},
      FindResult.returned status₁ lines₁ fjs₁ = .returned status lines fjs' →
      lines = lines₁ ∧ fjs' = fjs₁ := by
    intro status₁ lines₁ fjs₁ heq
    obtain ⟨-, rfl, rfl⟩ := FindResult.returned.inj heq
    exact ⟨rfl, rfl⟩
  -- both commands print what the scan prints before they do anything else
  cases cmd with
  | findjsobjects addr opts =>
    change dcmdFindjsobjects t maps env addr opts fjs = _ at hrun
    unfold dcmdFindjsobjects at hrun
    dsimp only at hrun
    split at hrun
    · exact .inl (hsame hrun).1
    · next hvalid =>
      have hvalid : opts.valid = true := by simpa using hvalid
      change _ ∨ ∃ e lines₁ fjs₁, opts.valid = true ∧
        findjsobjectsRun t maps env (fjs.setOpts opts) = some (e, lines₁, fjs₁) ∧ _
      cases hscan : findjsobjectsRun t maps env (fjs.setOpts opts) with
      | none =>
        rw [hscan] at hrun
        cases hrun
      | some r =>
        obtain ⟨e, lines₁, fjs₁⟩ := r
        rw [hscan] at hrun
        refine .inr ⟨e, lines₁, fjs₁, hvalid, rfl, ?_⟩
        cases e with
        | interrupted => cases hrun
        | returned rv =>
          dsimp only at hrun
          -- the scan has failed, or it is not followed by anything, or the body prints
          split at hrun
          · exact .inl (hsame hrun)
          · split at hrun
            · exact .inl (hsame hrun)
            · exact .inr (hafter hrun)
  | jsfunctions addr opts =>
    change dcmdJsfunctions t maps env addr opts fjs = _ at hrun
    unfold dcmdJsfunctions at hrun
    split at hrun
    · exact .inl (hsame hrun).1
    · next hvalid =>
      have hvalid : opts.valid = true := by simpa using hvalid
      change _ ∨ ∃ e lines₁ fjs₁, opts.valid = true ∧
        findjsobjectsRun t maps env fjs = some (e, lines₁, fjs₁) ∧ _
      cases hscan : findjsobjectsRun t maps env fjs with
      | none =>
        rw [hscan] at hrun
        cases hrun
      | some r =>
        obtain ⟨e, lines₁, fjs₁⟩ := r
        rw [hscan] at hrun
        refine .inr ⟨e, lines₁, fjs₁, hvalid, rfl, ?_⟩
        cases e with
        | interrupted => cases hrun
        | returned rv =>
          dsimp only at hrun
          split at hrun
          · exact .inl (hsame hrun)
          · split at hrun
            · exact .inl (hsame hrun)
            · split at hrun
              · exact .inl (hsame hrun)
              · exact .inr (hafter hrun)

/-- **The books are in order**: whatever commands there have been, and wherever their scans have ended, a
command prints the statistics that account for the cache it leaves behind, and a table that agrees with
them, as long as fewer than `2 ^ 31` addresses have been taken for those of heap objects. -/
theorem reports_of_reach {n : ℕ} (hruns : FindRuns t maps n fjs)
    (hfew : n + cmd.tagged t maps env fjs < 2 ^ 31) {status : DcmdStatus} {lines : List FindLine}
    (hrun : cmd.run t maps env fjs = .returned status lines fjs') : Reports env lines fjs' := by
  have hbefore : fjs.Ledgered n := hruns.ledgered ((Nat.le_add_right _ _).trans_lt hfew)
  obtain ⟨entered, hledger⟩ := (hbefore.step hfew (by rw [hrun]; rfl)).account
  have haccounts := hledger.accounts
  have hlines : ∃ lines₁ lines₂, lines = lines₁ ++ lines₂ ∧
      (lines₁ = [] ∨ lines₁ = statLines fjs'.stats env.elapsed) ∧
      ((∀ line ∈ lines₂, line.isPlain = true) ∨ lines₂ = .header :: fjs'.listed.map .object) := by
    rcases lines_cases hrun with rfl | ⟨e, lines₁, fjs₁, hvalid, hscan, hends⟩
    · exact ⟨[], [], rfl, .inl rfl, .inl fun _ h => absurd h List.not_mem_nil⟩
    · have hfew' : n + (cmd.prepare fjs).tagged t maps env < 2 ^ 31 := by
        rwa [FindCommand.tagged, if_pos hvalid] at hfew
      have hprinted := ((hbefore.prepare cmd).run hfew' hscan).2
      rcases hends with ⟨rfl, rfl⟩ | ⟨lines₂, hbody, rfl⟩
      · exact ⟨lines, [], (List.append_nil lines).symm, hprinted,
          .inl fun _ h => absurd h List.not_mem_nil⟩
      · have hprints := prints_body fjs₁ cmd
        rw [hbody] at hprints
        rw [← hprints.stats] at hprinted
        exact ⟨lines₁, lines₂, rfl, hprinted, hprints.lines⟩
  obtain ⟨lines₁, lines₂, rfl, hstats, hprints⟩ := hlines
  -- the statistics are not in the table
  have hnone : lines₁.filterMap FindLine.object? = [] ∧ FindLine.header ∉ lines₁ := by
    rcases hstats with rfl | rfl
    · exact ⟨rfl, List.not_mem_nil⟩
    · exact ⟨rfl, by simp [statLines]⟩
  have htable : FindLine.header ∈ lines₁ ++ lines₂ →
      (lines₁ ++ lines₂).filterMap FindLine.object? = fjs'.listed := by
    intro hheader
    have hheader₂ := (List.mem_append.mp hheader).resolve_left hnone.2
    rw [List.filterMap_append, hnone.1, List.nil_append]
    rcases hprints with hplain | rfl
    · cases hplain _ hheader₂
    · rw [List.filterMap_cons_none rfl, List.filterMap_map]
      exact List.filterMap_some
  refine ⟨haccounts, fun name value hmem => ?_, fun hheader hall => ?_, fun hheader hall => ?_⟩
  · rcases List.mem_append.mp hmem with hmem | hmem
    · rcases hstats with rfl | rfl
      · cases hmem
      · exact hmem
    · rcases hprints with hplain | rfl
      · cases hplain _ hmem
      · simp at hmem
  · have hlisted : fjs'.listed = fjs'.cache.groups := by
      unfold FindState.listed
      simp [hall]
    rw [htable hheader, hlisted]
    exact ⟨haccounts.uniques.symm, haccounts.instances.symm⟩
  · have hlisted : fjs'.listed = fjs'.cache.groups.filter fun obj => !obj.malformed := by
      unfold FindState.listed
      simp [hall]
    rw [htable hheader, hlisted]
    constructor
    · rw [haccounts.uniques]
      exact_mod_cast List.length_filter_le _ _
    · -- the groups that are left out have what may be garbage
      have hsum := countInstances_filter_add (fun obj => obj.malformed) fjs'.cache.groups
      rw [haccounts.instances, ← hsum]
      exact add_le_add le_rfl haccounts.garbage

end Runs

/-- `::findjsobjects -v`, where there are two arrays, counts two instances of one group. -/
theorem reports_of_reach_arrays :
    ∃ (env : ScanEnv) (lines : List FindLine) (fjs : FindState (.lists arraysTarget.cfg)),
      (FindCommand.findjsobjects none { verbose := true }).run arraysTarget [arraysMapping] env
        (.init _) = .returned .ok lines fjs ∧
      Reports env lines fjs ∧ fjs.stats.uniques = 1 ∧ fjs.stats.objects + fjs.stats.arrays = 2 := by
  let env : ScanEnv := { outcome := .completed, outside := fun _ _ => 0, elapsed := 0 }
  let start : FindState (.lists arraysTarget.cfg) := (FindState.init _).setOpts { verbose := true }
  obtain ⟨scan, hscan, hcache⟩ := arraysTarget_scan (p := start.makeTrees.params env) rfl
    start.makeTrees.toFindScan rfl
  let fjs := start.makeTrees.finish scan
  have hgroups : fjs.cache.groups =
      [{ arraysObj 0x2001 with instances := [0x2001, 0x2011], ninstances := 2 }] := by
    have hsorted : fjs.cache = arraysCache.sort := congrArg FindCache.sort hcache
    rw [hsorted, arraysCache_groups]
  have hscanned : findjsobjectsRun arraysTarget [arraysMapping] env start =
      some (.returned 0, statLines scan.stats env.elapsed, fjs) :=
    findjsobjectsRun_completed _ _ rfl (by rfl) hscan
  have hrun : (FindCommand.findjsobjects none { verbose := true }).run arraysTarget [arraysMapping] env
      (.init _) = .returned .ok
        (statLines scan.stats env.elapsed ++ .header :: fjs.listed.map .object) fjs := by
    unfold FindCommand.run
    dsimp only
    rw [dcmdFindjsobjects_of_run rfl hscanned rfl]
    rfl
  -- there are far fewer addresses than an `int` can count
  have hfew : 0 + (FindCommand.findjsobjects none { verbose := true }).tagged arraysTarget [arraysMapping] env
      (.init (.lists arraysTarget.cfg)) < 2 ^ 31 := by
    rw [zero_add]
    exact (FindCommand.tagged_le _ _ _ _ _).trans_lt (by decide)
  -- the account is that of the general theorem
  have hreports := reports_of_reach .init hfew hrun
  have huniques := hreports.accounts.uniques
  have hinstances := hreports.accounts.instances
  rw [hgroups] at huniques hinstances
  exact ⟨env, _, fjs, hrun, hreports, huniques, hinstances⟩

end MdbV8
