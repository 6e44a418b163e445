import MdbV8.Find.Range
import MdbV8.Target.Tags

/-!
# Closures by their functions

A scan puts the closures that it finds into groups, one for each `SharedFunctionInfo`, and looks for the
group of a closure in a search tree. The tree compares addresses by their difference, which becomes an
`int` on the way: of the addresses only the low 32 bits count, and these are ordered like the hours of a
clock.

This is an order of some addresses if and only if they differ in these bits and are all in one half of the
clock (`strictlyOrders_iff`). Then the groups are as they should be, if an `int` is enough to count the
closures (`closuresIndexed_iff`).
-/

namespace MdbV8

open Lib

/-! ### The comparison -/

/-- **The comparison is a strict total order** of some keys. -/
structure StrictlyOrders (cmp : ℕ → ℕ → Ordering) (S : Set ℕ) : Prop extends OrdersOn cmp S where
  eq_iff : ∀ a ∈ S, ∀ b ∈ S, cmp a b = .eq ↔ a = b

/-- **Addresses that are near each other**, in their low 32 bits: these bits are different ones, and from
one of the addresses on, it is less than half of the way round to any of them. -/
structure NearAddrs (S : Set ℕ) : Prop where
  apart : ∀ a ∈ S, ∀ b ∈ S, a % 2 ^ 32 = b % 2 ^ 32 → a = b
  half : S.Nonempty → ∃ r ∈ S, ∀ s ∈ S, ((s : ℤ) - r) % 2 ^ 32 < 2 ^ 31

section Order

variable (c : Config) {S : Set ℕ}

/-- The way from an address to another one, in the low 32 bits. -/
def clockwise (r s : ℕ) : ℤ := ((s : ℤ) - r) % 2 ^ 32

/-- **What the comparison looks at**: the way from the second address to the first. -/
theorem cmpFuncinfo_eq (lhs rhs : ℕ) :
    findjsobjectsCmpFuncinfo c lhs rhs =
      if clockwise rhs lhs = 0 then .eq else if clockwise rhs lhs < 2 ^ 31 then .gt else .lt := by
  have hint : toInt32 (c.wrap ((lhs : ℤ) - rhs)) =
      if clockwise rhs lhs < 2 ^ 31 then clockwise rhs lhs else clockwise rhs lhs - 2 ^ 32 := by
    unfold toInt32 Config.wrap clockwise
    rcases c.model.ptrSize_cases with ⟨-, -, hbits⟩ | ⟨-, -, hbits⟩
    · rw [Config.bits, hbits]
      split <;> split <;> omega
    · rw [Config.bits, hbits]
      split <;> split <;> omega
  have h0 : 0 ≤ clockwise rhs lhs := Int.emod_nonneg _ (by decide)
  have hlt : clockwise rhs lhs < 2 ^ 32 := Int.emod_lt_of_pos _ (by decide)
  unfold findjsobjectsCmpFuncinfo
  rw [hint]
  -- the difference is none, or it is less or more than half of the way around
  by_cases hzero : clockwise rhs lhs = 0
  · rw [hzero]
    rfl
  rw [if_neg hzero]
  by_cases hhalf : clockwise rhs lhs < 2 ^ 31
  · rw [if_pos hhalf, if_pos hhalf]
    exact compare_gt_iff_gt.mpr (by omega)
  · rw [if_neg hhalf, if_neg hhalf]
    exact compare_lt_iff_lt.mpr (by omega)

/-- **Near addresses are compared** by how far they are from the first one. -/
theorem cmpFuncinfo_eq_compare {r a b : ℕ} (ha : clockwise r a < 2 ^ 31) (hb : clockwise r b < 2 ^ 31) :
    findjsobjectsCmpFuncinfo c a b = compare (clockwise r a) (clockwise r b) := by
  have hway : clockwise b a = (clockwise r a - clockwise r b) % 2 ^ 32 := by
    unfold clockwise
    omega
  have ha0 : 0 ≤ clockwise r a := Int.emod_nonneg _ (by decide)
  have hb0 : 0 ≤ clockwise r b := Int.emod_nonneg _ (by decide)
  rw [cmpFuncinfo_eq]
  rcases lt_trichotomy (clockwise r a) (clockwise r b) with hlt | heq | hgt
  · rw [compare_lt_iff_lt.mpr hlt, if_neg (by omega), if_neg (by omega)]
  · rw [compare_eq_iff_eq.mpr heq, if_pos (by omega)]
  · rw [compare_gt_iff_gt.mpr hgt, if_neg (by omega), if_pos (by omega)]

/-- **When the comparison is an order**, for finitely many addresses. -/
theorem strictlyOrders_iff {addrs : List ℕ} :
    StrictlyOrders (findjsobjectsCmpFuncinfo c) {s | s ∈ addrs} ↔ NearAddrs {s | s ∈ addrs} := by
  constructor
  · intro h
    refine ⟨fun a ha b hb heq => ?_, fun hne => ?_⟩
    · -- the comparison cannot tell addresses with the same low bits
      refine (h.eq_iff a ha b hb).mp ?_
      rw [cmpFuncinfo_eq, if_pos (by unfold clockwise; omega)]
    · obtain ⟨x, hx⟩ := hne
      have hall : ∀ k ∈ addrs, k ∈ ({s | s ∈ addrs} : Set ℕ) := fun k hk => hk
      obtain ⟨r, hr, hleast⟩ := h.exists_least hall (List.ne_nil_of_mem hx)
      refine ⟨r, hr, fun s hs => ?_⟩
      have hle := hleast s hs
      rw [h.swap s hs r hr, cmpFuncinfo_eq] at hle
      change clockwise r s < 2 ^ 31
      by_contra hge
      rw [if_neg (by omega), if_neg hge] at hle
      exact hle rfl
  · intro h
    by_cases hne : ({s | s ∈ addrs} : Set ℕ).Nonempty
    · obtain ⟨r, -, hhalf⟩ := h.half hne
      have hcmp (a : ℕ) (ha : a ∈ addrs) (b : ℕ) (hb : b ∈ addrs) :=
        cmpFuncinfo_eq_compare c (hhalf a ha) (hhalf b hb)
      refine ⟨⟨fun a ha b hb => ?_, fun a ha b hb d hd hab hbd => ?_⟩, fun a ha b hb => ?_⟩
      · rw [hcmp b hb a ha, hcmp a ha b hb]
        exact Std.OrientedCmp.eq_swap
      · rw [hcmp a ha b hb, compare_le_iff_le] at hab
        rw [hcmp b hb d hd, compare_le_iff_le] at hbd
        rw [hcmp a ha d hd, compare_le_iff_le]
        exact hab.trans hbd
      · rw [hcmp a ha b hb, compare_eq_iff_eq]
        refine ⟨fun heq => h.apart a ha b hb ?_, fun heq => heq ▸ rfl⟩
        unfold clockwise at heq
        omega
    · have hnone (a : ℕ) (ha : a ∈ addrs) : False := hne ⟨a, ha⟩
      exact ⟨⟨fun a ha => (hnone a ha).elim, fun a ha => (hnone a ha).elim⟩,
        fun a ha => (hnone a ha).elim⟩

end Order

/-! ### The groups -/

section Groups

/-- The closures of a function, among all with the addresses of their functions. -/
def closuresOf (closures : List (ℕ × ℕ)) (shared : ℕ) : List ℕ :=
  (closures.filter fun e => e.2 == shared).map Prod.fst

variable {c : Config} {L : FindLib c}

/-- **The invariant of a scan**: the tree finds the groups by the addresses of their functions, and their
instances are the closures that have been entered. -/
structure ClosuresKnown (S : Set ℕ) (cache : FindCache L) (closures : List (ℕ × ℕ)) : Prop where
  built : L.funcs.Built S cache.funcinfo
  find_eq : ∀ k ∈ S, L.funcs.find cache.funcinfo k =
    (cache.funcNodes.map FindFunc.shared).findIdx? (k == ·)
  distinct : (cache.funcNodes.map FindFunc.shared).Nodup
  shared : ∀ s, s ∈ cache.funcNodes.map FindFunc.shared ↔ s ∈ closures.map Prod.snd
  instances : ∀ func ∈ cache.funcNodes, func.instances.Perm (closuresOf closures func.shared)
  counted : ∀ func ∈ cache.funcNodes, func.ninstances = toInt32 func.instances.length
  funcs : cache.funcs.Perm (List.range cache.funcNodes.length)

variable {S : Set ℕ} {cache : FindCache L} {closures : List (ℕ × ℕ)}

theorem closuresOf_append_self (closures : List (ℕ × ℕ)) (addr shared : ℕ) :
    closuresOf (closures ++ [(addr, shared)]) shared = closuresOf closures shared ++ [addr] := by
  simp [closuresOf, List.filter_append]

theorem closuresOf_append_ne {shared shared' : ℕ} (hne : shared ≠ shared') (closures : List (ℕ × ℕ))
    (addr : ℕ) : closuresOf (closures ++ [(addr, shared)]) shared' = closuresOf closures shared' := by
  simp [closuresOf, List.filter_append, hne]

theorem closuresOf_eq_nil {shared : ℕ} (h : shared ∉ closures.map Prod.snd) :
    closuresOf closures shared = [] := by
  unfold closuresOf
  rw [List.map_eq_nil_iff, List.filter_eq_nil_iff]
  intro e he heq
  exact h (List.mem_map.mpr ⟨e, he, of_decide_eq_true heq⟩)

namespace ClosuresKnown

theorem empty : ClosuresKnown S (FindCache.empty (L := L)) [] where
  built := .create
  find_eq k _ := L.funcs.find_create k
  distinct := .nil
  shared _ := Iff.rfl
  instances _ h := absurd h List.not_mem_nil
  counted _ h := absurd h List.not_mem_nil
  funcs := .refl _

theorem map_shared_modify (nodes : List FindFunc) (p addr : ℕ) :
    (nodes.modify p (·.addInstance addr)).map FindFunc.shared = nodes.map FindFunc.shared := by
  induction nodes generalizing p with
  | nil => cases p <;> rfl
  | cons func nodes ih =>
    cases p with
    | zero => rfl
    | succ p => rw [List.modify_succ_cons, List.map_cons, List.map_cons, ih]

/-- **A closure of a new function.** -/
theorem addFunc (h : ClosuresKnown S cache closures) (hserves : L.funcs.ServesOrders)
    (horder : StrictlyOrders (findjsobjectsCmpFuncinfo c) S) {func : FindFunc} {addr : ℕ}
    (hS : func.shared ∈ S) (hinst : func.instances = [addr]) (hcount : func.ninstances = 1)
    (hfind : L.funcs.find cache.funcinfo func.shared = none) :
    ClosuresKnown S
      { cache with
        funcinfo := L.funcs.add cache.funcinfo func.shared cache.funcNodes.length
        funcNodes := cache.funcNodes ++ [func]
        funcs := cache.funcNodes.length :: cache.funcs }
      (closures ++ [(addr, func.shared)]) := by
  -- no function of the cache has this address
  have hnew : func.shared ∉ cache.funcNodes.map FindFunc.shared := by
    intro hmem
    have hnone := h.find_eq func.shared hS
    rw [hfind, eq_comm, List.findIdx?_eq_none_iff] at hnone
    simpa using hnone func.shared hmem
  have hnot : func.shared ∉ closures.map Prod.snd := fun hmem => hnew ((h.shared _).mpr hmem)
  refine ⟨h.built.add hS hfind, fun k hk => ?_, ?_, fun s => ?_, fun func' hfunc => ?_,
    fun func' hfunc => ?_, ?_⟩
  · rw [hserves S horder.toOrdersOn _ h.built func.shared hS hfind _ k hk, h.find_eq k hk,
      List.map_append, List.map_singleton, List.findIdx?_append]
    -- the search finds the new group, or what it has found before
    by_cases heq : k = func.shared
    · subst heq
      have hnone : (cache.funcNodes.map FindFunc.shared).findIdx? (func.shared == ·) = none := by
        rw [← h.find_eq _ hk, hfind]
      rw [if_pos ((horder.eq_iff _ hk _ hS).mpr rfl), hnone]
      simp
    · rw [if_neg fun hcmp => heq ((horder.eq_iff _ hk _ hS).mp hcmp)]
      simp [heq]
  · rw [List.map_append, List.map_singleton]
    exact List.nodup_append.mpr ⟨h.distinct, List.nodup_singleton _, fun a ha b hb heq =>
      hnew (by rwa [heq, List.mem_singleton.mp hb] at ha)⟩
  · simp only [List.map_append, List.map_singleton, List.mem_append, h.shared s]
  · rcases List.mem_append.mp hfunc with hold | hnew'
    · have hne : func.shared ≠ func'.shared := fun heq =>
        hnew (heq ▸ List.mem_map_of_mem hold)
      rw [closuresOf_append_ne hne]
      exact h.instances func' hold
    · obtain rfl := List.mem_singleton.mp hnew'
      rw [closuresOf_append_self, closuresOf_eq_nil hnot, hinst]
      exact .refl _
  · rcases List.mem_append.mp hfunc with hold | hnew'
    · exact h.counted func' hold
    · obtain rfl := List.mem_singleton.mp hnew'
      rw [hcount, hinst]
      rfl
  · dsimp only
    rw [List.length_append, List.length_singleton, List.range_succ]
    exact (h.funcs.cons _).trans (List.perm_append_singleton _ _).symm

/-- **One more closure** of a function that has a group. -/
theorem addInstance (h : ClosuresKnown S cache closures) {shared p addr : ℕ} (hS : shared ∈ S)
    (hfind : L.funcs.find cache.funcinfo shared = some p) :
    ClosuresKnown S { cache with funcNodes := cache.funcNodes.modify p (·.addInstance addr) }
      (closures ++ [(addr, shared)]) := by
  rw [h.find_eq shared hS, List.findIdx?_eq_some_iff_getElem] at hfind
  obtain ⟨hp, heq, -⟩ := hfind
  have hlt : p < cache.funcNodes.length := by simpa using hp
  have hgroup : cache.funcNodes[p].shared = shared := by
    rw [List.getElem_map] at heq
    exact (eq_of_beq heq).symm
  -- every other group is of another function
  have hother (i : ℕ) (hi : i < cache.funcNodes.length) (hne : p ≠ i) :
      shared ≠ cache.funcNodes[i].shared := by
    intro hshared
    rw [← hgroup] at hshared
    have hi' : i < (cache.funcNodes.map FindFunc.shared).length := by simpa using hi
    have hmap : (cache.funcNodes.map FindFunc.shared)[p] =
        (cache.funcNodes.map FindFunc.shared)[i] := by
      rw [List.getElem_map, List.getElem_map]
      exact hshared
    exact hne (h.distinct.getElem_inj_iff.mp hmap)
  refine ⟨h.built, fun k hk => ?_, ?_, fun s => ?_, fun func hfunc => ?_, fun func hfunc => ?_, ?_⟩
  · dsimp only
    rw [map_shared_modify]
    exact h.find_eq k hk
  · dsimp only
    rw [map_shared_modify]
    exact h.distinct
  · -- no group is of another function than before
    dsimp only
    rw [map_shared_modify, h.shared, List.map_append, List.map_singleton, List.mem_append,
      List.mem_singleton]
    have hknown : shared ∈ closures.map Prod.snd :=
      (h.shared shared).mp (hgroup ▸ List.mem_map_of_mem (List.getElem_mem hlt))
    constructor
    · exact .inl
    · rintro (hs | rfl)
      · exact hs
      · exact hknown
  · -- the group has one closure more, and the others are as they have been
    obtain ⟨i, hi, rfl⟩ := List.mem_iff_getElem.mp hfunc
    have hi' : i < cache.funcNodes.length := by simpa using hi
    dsimp only
    rw [List.getElem_modify]
    split
    · next hpi =>
      subst hpi
      have hperm := h.instances _ (List.getElem_mem hlt)
      change (MdbV8.addInstance addr _).Perm (closuresOf _ cache.funcNodes[p].shared)
      rw [hgroup] at hperm ⊢
      rw [closuresOf_append_self]
      exact (addInstance_perm addr _).trans
        ((hperm.cons addr).trans (List.perm_append_singleton _ _).symm)
    · next hpi =>
      rw [closuresOf_append_ne (hother i hi' hpi)]
      exact h.instances _ (List.getElem_mem hi')
  · obtain ⟨i, hi, rfl⟩ := List.mem_iff_getElem.mp hfunc
    have hi' : i < cache.funcNodes.length := by simpa using hi
    dsimp only
    rw [List.getElem_modify]
    split
    · have hlen := (addInstance_perm addr cache.funcNodes[i].instances).length_eq
      have hcount := h.counted _ (List.getElem_mem hi')
      rw [List.length_cons] at hlen
      change incrInt cache.funcNodes[i].ninstances =
        toInt32 (MdbV8.addInstance addr cache.funcNodes[i].instances).length
      rw [hlen, hcount, incrInt_toInt32]
    · exact h.counted _ (List.getElem_mem hi')
  · dsimp only
    rw [List.length_modify]
    exact h.funcs

/-- **Entering a closure.** -/
theorem enterFunc (h : ClosuresKnown S cache closures) (hserves : L.funcs.ServesOrders)
    (horder : StrictlyOrders (findjsobjectsCmpFuncinfo c) S) {func : FindFunc} {addr : ℕ}
    (hS : func.shared ∈ S) (hinst : func.instances = [addr]) (hcount : func.ninstances = 1) :
    ClosuresKnown S (cache.enterFunc func addr).2 (closures ++ [(addr, func.shared)]) := by
  unfold FindCache.enterFunc
  cases hfind : L.funcs.find cache.funcinfo func.shared with
  | none => exact h.addFunc hserves horder hS hinst hcount hfind
  | some p => exact h.addInstance hS hfind

/-- The functions in the linked list are those of the groups. -/
theorem functions_perm (h : ClosuresKnown S cache closures) :
    cache.functions.Perm cache.funcNodes := by
  have hnodes : (List.range cache.funcNodes.length).map (cache.funcNodes.getD · default) =
      cache.funcNodes := by
    refine List.ext_getElem (by simp) fun i hi hi' => ?_
    rw [List.getElem_map, List.getElem_range]
    simp [hi']
  have hperm := h.funcs.map (cache.funcNodes.getD · default)
  rw [hnodes] at hperm
  exact hperm

end ClosuresKnown

end Groups

/-! ### A scan -/

section Scan

variable (t : Target)

/-- The closures that are accepted, each with the address of its function. -/
def acceptedClosures (addrs : List ℕ) : List (ℕ × ℕ) :=
  addrs.filterMap fun addr => (findjsobjectsFunc t addr).map fun func => (addr, func.shared)

/-- The addresses of their functions. -/
def acceptedShared (addrs : List ℕ) : List ℕ := (acceptedClosures t addrs).map Prod.snd

/-- What `findjsobjects_jsfunc` makes of some addresses, from the beginning. -/
def closureScan (L : FindLib t.cfg) (addrs : List ℕ) : FindScan L :=
  addrs.foldl (findjsobjectsJsfunc t) { cache := .empty, stats := {} }

/-- **The functions are as they should be**: their addresses are ordered, each of them has one group, the
closures of a group are those of its function, and all are counted. -/
structure ClosuresIndexed (L : FindLib t.cfg) (addrs : List ℕ) : Prop where
  order : StrictlyOrders (findjsobjectsCmpFuncinfo t.cfg) {s | s ∈ acceptedShared t addrs}
  entries : ((closureScan t L addrs).cache.functions.map FindFunc.shared).Perm
    (acceptedShared t addrs).dedup
  instances : ∀ func ∈ (closureScan t L addrs).cache.functions,
    func.instances.Perm (closuresOf (acceptedClosures t addrs) func.shared)
  counted : ∀ func ∈ (closureScan t L addrs).cache.functions,
    func.ninstances = func.instances.length
  total : (closureScan t L addrs).stats.funcs = (acceptedClosures t addrs).length

variable {t} {L : FindLib t.cfg}

/-- A new function has one closure. -/
theorem findjsobjectsFunc_spec {addr : ℕ} {func : FindFunc} (h : findjsobjectsFunc t addr = some func) :
    func.instances = [addr] ∧ func.ninstances = 1 := by
  unfold findjsobjectsFunc at h
  dsimp only at h
  split at h
  · cases h
  split at h
  · cases h
  split at h
  · cases h
  split at h
  · cases h
  · cases h
    exact ⟨rfl, rfl⟩

/-- One address more. -/
theorem acceptedClosures_concat (addrs : List ℕ) (addr : ℕ) :
    acceptedClosures t (addrs ++ [addr]) = acceptedClosures t addrs ++
      ((findjsobjectsFunc t addr).map fun func => (addr, func.shared)).toList := by
  unfold acceptedClosures
  rw [List.filterMap_append]
  cases hfunc : findjsobjectsFunc t addr with
  | none => simp [hfunc]
  | some func => simp [hfunc]

/-- **The invariant holds after every address**, by induction on the addresses from the end. -/
theorem closuresKnown_closureScan {S : Set ℕ} (hserves : L.funcs.ServesOrders)
    (horder : StrictlyOrders (findjsobjectsCmpFuncinfo t.cfg) S) {addrs : List ℕ}
    (hS : ∀ s ∈ acceptedShared t addrs, s ∈ S) :
    ClosuresKnown S (closureScan t L addrs).cache (acceptedClosures t addrs) := by
  induction addrs using List.reverseRecOn with
  | nil => exact .empty
  | append_singleton addrs addr ih =>
    unfold acceptedShared at ih hS
    rw [acceptedClosures_concat] at hS ⊢
    have hscan : closureScan t L (addrs ++ [addr]) =
        findjsobjectsJsfunc t (closureScan t L addrs) addr := by
      unfold closureScan
      rw [List.foldl_append]
      rfl
    have hknown := ih fun s hs => hS s (by
      rw [List.map_append]
      exact List.mem_append_left _ hs)
    rw [hscan, findjsobjectsJsfunc_cache]
    cases hfunc : findjsobjectsFunc t addr with
    | none =>
      -- the address is no closure
      simpa [ScanItem.enter] using hknown
    | some func =>
      -- it is one, of a function that has a group or that has none
      obtain ⟨hinst, hcount⟩ := findjsobjectsFunc_spec hfunc
      refine hknown.enterFunc hserves horder (hS func.shared ?_) hinst hcount
      simp [hfunc]

/-- Every closure that is accepted is counted, with an `int`. -/
theorem closureScan_total (L : FindLib t.cfg) (addrs : List ℕ) :
    (closureScan t L addrs).stats.funcs = toInt32 (acceptedClosures t addrs).length := by
  induction addrs using List.reverseRecOn with
  | nil => rfl
  | append_singleton addrs addr ih =>
    have hscan : closureScan t L (addrs ++ [addr]) =
        findjsobjectsJsfunc t (closureScan t L addrs) addr := by
      unfold closureScan
      rw [List.foldl_append]
      rfl
    rw [hscan, acceptedClosures_concat, List.length_append]
    unfold findjsobjectsJsfunc
    cases findjsobjectsFunc t addr with
    | none => simpa using ih
    | some func =>
      dsimp only
      rw [ih, incrInt_toInt32]
      rfl

/-- **When the functions are as they should be**: if their addresses are near each other, and there are
fewer than `2 ^ 31` closures. -/
theorem closuresIndexed_iff {L : FindLib t.cfg} (hserves : L.funcs.ServesOrders) {addrs : List ℕ} :
    ClosuresIndexed t L addrs ↔
      NearAddrs {s | s ∈ acceptedShared t addrs} ∧ (acceptedClosures t addrs).length < 2 ^ 31 := by
  rw [← strictlyOrders_iff t.cfg, ← toInt32_eq_iff, ← closureScan_total L addrs]
  constructor
  · exact fun h => ⟨h.order, h.total⟩
  · rintro ⟨horder, htotal⟩
    have hfew : (acceptedClosures t addrs).length < 2 ^ 31 := by
      rwa [closureScan_total, toInt32_eq_iff] at htotal
    have hknown : ClosuresKnown _ _ (acceptedClosures t addrs) :=
      closuresKnown_closureScan hserves horder fun s hs => hs
    have hperm := hknown.functions_perm
    refine ⟨horder, ?_, fun func hfunc => hknown.instances func (hperm.mem_iff.mp hfunc),
      fun func hfunc => ?_, htotal⟩
    · refine (hperm.map FindFunc.shared).trans ?_
      refine (List.perm_ext_iff_of_nodup hknown.distinct (List.nodup_dedup _)).mpr fun s => ?_
      rw [hknown.shared s, List.mem_dedup]
      exact Iff.rfl
    · -- the closures of a function are no more than all of them
      have hlength : func.instances.length ≤ (acceptedClosures t addrs).length := by
        rw [(hknown.instances func (hperm.mem_iff.mp hfunc)).length_eq, closuresOf, List.length_map]
        exact List.length_filter_le _ _
      rw [hknown.counted func (hperm.mem_iff.mp hfunc), toInt32_of_lt (hlength.trans_lt hfew)]

end Scan

/-! ### Addresses that are far from each other -/

/-- A target with two closures whose functions are `2 ^ 32` bytes from each other. -/
def farTarget : Target :=
  .ofWordsAndZeros
    { Config.sample .lp64 with
      offScriptName := 7
      offScriptLineEnds := 15
      offSharedfunctioninfoCode := 15 }
    [(0x1028, 0x10101), (0x2028, 0x100010101), (0x10108, 0x10301), (0x10140, 0x10201),
      (0x100010108, 0x10301), (0x100010140, 0x10201), (0x10208, 0x10301), (0x10300, 0x10401),
      (0x10308, 1 <<< 32), (0x10318, 0x66), (0x10410, 4)]

theorem closuresIndexed_iff_one :
    ClosuresIndexed farTarget (.lists _) [0x1001, 0x1001] ↔
      NearAddrs {s | s ∈ acceptedShared farTarget [0x1001, 0x1001]} ∧
        (acceptedClosures farTarget [0x1001, 0x1001]).length < 2 ^ 31 :=
  closuresIndexed_iff (Avl.servesOrders_list _)

/-- The comparison takes the two functions for one. -/
theorem not_closuresIndexed_far :
    ¬ ClosuresIndexed farTarget (.lists _) [0x1001, 0x2001] := by
  intro h
  have hshared : acceptedShared farTarget [0x1001, 0x2001] = [0x10101, 0x100010101] := by
    decide +kernel
  have heq := (h.order.eq_iff 0x10101 (by simp [hshared]) 0x100010101 (by simp [hshared])).mp
    (by decide +kernel)
  exact absurd heq (by decide)

end MdbV8
