import MdbV8.Find.Cache

/-!
# The scan of memory

A scan goes through the mappings of the target, and through the addresses of each of them. An address
that is tagged as a heap object is taken for one if the word at it is tagged as well and leads to a
type byte. What is found in this way is a closure, an object or an array, or something that the scan
does not look for; it may also be nothing at all, since most of memory is no heap.

The range of a mapping is read at once, and the words and the bytes inside of it are taken from that
copy. A word at the end of the range may extend past the copy: what is there is a parameter
(`FindRange.outside`).

The scan may be given up after any address. It is therefore also described as a list of addresses
(`scanVisits`), of which any number at the front may have been visited (`findjsobjectsIter_eq`).

Some objects cannot be visited at all, because the chain of Maps that leads to their constructor does
not end (`getMapConstructor_eq_none`). The visit is `none` for these.
-/

namespace MdbV8

/-- `findjsobjects_stats_t`. Each count is an `int`. -/
structure FindStats where
  heapobjs : ℤ := 0
  cached : ℤ := 0
  typereads : ℤ := 0
  jsobjs : ℤ := 0
  objects : ℤ := 0
  garbage : ℤ := 0
  arrays : ℤ := 0
  uniques : ℤ := 0
  funcs : ℤ := 0
  funcsSkipped : ℤ := 0
  funcsUnique : ℤ := 0
  deriving DecidableEq, Repr

/-- What a scan changes. -/
structure FindScan {c : Config} (L : FindLib c) where
  cache : FindCache L
  stats : FindStats

/-- `prmap_t`, with what the iteration says about it. -/
structure Prmap where
  vaddr : ℕ
  size : ℕ
  /-- `pr_mflags & MA_BREAK`. -/
  isBreak : Bool := false
  /-- There is a name. -/
  named : Bool := false
  deriving DecidableEq, Repr

/-- The local copy of a range. -/
structure FindRange where
  base : ℕ
  size : ℕ
  bytes : List UInt8
  /-- What is around the copy, by the distance from its first byte. -/
  outside : ℤ → UInt8

namespace FindRange

/-- A byte at a distance from the first byte of the copy. -/
def byte (range : FindRange) (i : ℤ) : UInt8 :=
  if 0 ≤ i ∧ i < range.bytes.length then range.bytes.getD i.toNat 0 else range.outside i

/-- A word at a distance from the first byte of the copy. -/
def word (c : Config) (range : FindRange) (i : ℤ) : ℕ :=
  leNat ((List.range c.ptrSize).map fun (k : ℕ) => range.byte (i + k))

end FindRange

section Scan

variable (t : Target)

/-! ### Objects and functions -/

/-- `findjsobjects_prop`. -/
def findjsobjectsProp : PropFunc FindObj := fun desc val current =>
  (0, { current with
    props := current.props ++ [desc]
    nprops := current.nprops + 1
    malformed := val.isNone && current.nprops + 1 == 1 && desc.head? == some 60 })

/-- `findjsobjects_constructor`: what it leaves in `fjso_constructor`. -/
def findjsobjectsConstructor (addr : ℕ) : Option (List UInt8) :=
  match t.readHeapPtr addr t.cfg.offHeapobjectMap with
  | none => some []
  | some map =>
    match getMapConstructor t (2 ^ t.cfg.bits + 1) map with
    | none => none
    | some none => some []
    | some (some addr) =>
      match t.readTypebyte addr with
      | none => some []
      | some type =>
        if !Target.isType type t.cfg.typeJsfunction then some []
        else
          match t.readHeapPtr addr t.cfg.offJsfunctionShared with
          | none => some []
          | some funcinfop => some ((jsfuncName t funcinfop (OutBuf.fresh (fun _ => 0) 80)).2.str 80)

/-- The new object of an address, unless its properties cannot be read, and its flags. -/
def findjsobjectsProperties (addr : ℕ) : Option FindObj :=
  let (rv, current, propinfo) := jsobjProperties t addr findjsobjectsProp (findjsobjectsAlloc addr) 0
  if rv ≠ 0 then none else some { current with propinfo }

/-- The new object of the address of an array. The array has to look like one. -/
def findjsobjectsArray (addr : ℕ) : Option FindObj :=
  let c := t.cfg
  match t.readHeapSmi addr c.offJsarrayLength, t.readHeapPtr addr c.offJsobjectElements with
  | some nprops, some ptr =>
    if !c.isHeapobject ptr then none
    else
      match t.readTypebyte ptr with
      | none => none
      | some type =>
        if !Target.isType type c.typeFixedarray then none
        else
          match t.readHeapSmi ptr c.offFixedarrayLength with
          | none => none
          | some nelems =>
            if nelems < nprops then none
            else some { findjsobjectsAlloc addr with nprops, constructor := bytesOf "Array" }
  | _, _ => none

/-- The first half of `findjsobjects_jsfunc`: the new function of the address of a closure. -/
def findjsobjectsFunc (addr : ℕ) : Option FindFunc :=
  let c := t.cfg
  match t.readHeapPtr addr c.offJsfunctionShared with
  | none => none
  | some funcinfo =>
    match t.readHeapPtr funcinfo c.offSharedfunctioninfoScript with
    | none => none
    | some script =>
      match t.readHeapPtr script c.offScriptName with
      | none => none
      | some name =>
        let (rv, funcname) := jsfuncName t funcinfo (OutBuf.fresh (fun _ => 0) 40)
        let (rv', scriptname) := jsstrLocal t name jsstrNone 80
        if rv ≠ 0 ∨ rv' ≠ 0 then none
        else
          some { shared := funcinfo, funcname := funcname.str 40, scriptname, instances := [addr] }

variable {L : FindLib t.cfg}

/-- `findjsobjects_jsfunc`. -/
def findjsobjectsJsfunc (fjs : FindScan L) (addr : ℕ) : FindScan L :=
  match findjsobjectsFunc t addr with
  | none => { fjs with stats.funcsSkipped := incrInt fjs.stats.funcsSkipped }
  | some func =>
    let (isNew, cache) := fjs.cache.enterFunc func addr
    { cache
      stats := { fjs.stats with
        funcs := incrInt fjs.stats.funcs
        funcsUnique := if isNew then incrInt fjs.stats.funcsUnique else fjs.stats.funcsUnique } }

/-- The end of the body of the loop of `findjsobjects_range`, for an object of its own. -/
def findjsobjectsEnter (fjs : FindScan L) (current : FindObj) (addr : ℕ) : FindScan L :=
  let (isNew, cache) := fjs.cache.enterObj current addr
  { cache
    stats := { fjs.stats with
      uniques := if isNew then incrInt fjs.stats.uniques else fjs.stats.uniques } }

/-- A `JSObject` or a typed array. -/
def findjsobjectsJsobject (fjs : FindScan L) (addr : ℕ) : Option (FindScan L) :=
  match findjsobjectsProperties t addr with
  | none => some fjs
  | some current =>
    let garbage := current.propinfo &&& jpiMaybeGarbage != 0
    match findjsobjectsConstructor t addr with
    | none => none
    | some constructor =>
      let fjs := { fjs with stats := { fjs.stats with
        garbage := if garbage then incrInt fjs.stats.garbage else fjs.stats.garbage
        objects := incrInt fjs.stats.objects } }
      let current := { current with malformed := current.malformed || garbage, constructor }
      some (findjsobjectsEnter t fjs current addr)

/-- A `JSArray`. -/
def findjsobjectsJsarray (fjs : FindScan L) (addr : ℕ) : FindScan L :=
  match findjsobjectsArray t addr with
  | none => fjs
  | some current =>
    findjsobjectsEnter t { fjs with stats.arrays := incrInt fjs.stats.arrays } current addr

/-! ### The loop over a range -/

/-- The part of the body of the loop of `findjsobjects_range` that finds the type byte. -/
def findjsobjectsType (range : FindRange) (addr : ℕ) (stats : FindStats) :
    Option ℕ × FindStats :=
  let c := t.cfg
  if c.isSmi addr then (none, stats)
  else if !c.isHeapobject addr then (none, stats)
  else
    let stats := { stats with heapobjs := incrInt stats.heapobjs }
    let mapaddr := range.word c ((addr : ℤ) - range.base + c.offHeapobjectMap)
    if !c.isHeapobject mapaddr then (none, stats)
    else
      let mapaddr := c.add mapaddr c.offMapInstanceAttributes
      let stats := { stats with typereads := incrInt stats.typereads }
      if range.base ≤ mapaddr ∧ mapaddr < c.add range.base range.size then
        (some (range.byte ((mapaddr : ℤ) - range.base)).toNat,
          { stats with cached := incrInt stats.cached })
      else (t.readByte mapaddr, stats)

/-- What an object of a type is taken for. -/
inductive FindKind where
  | function
  | object
  | array
  deriving DecidableEq, Repr

/-- The comparisons of the type byte. -/
def findKind (c : Config) (type : ℕ) : Option FindKind :=
  if Target.isType type c.typeJsfunction then some .function
  else if Target.isType type c.typeJsobject || Target.isType type c.typeJstypedarray then some .object
  else if Target.isType type c.typeJsarray then some .array
  else none

/-- The body of the loop of `findjsobjects_range`. -/
def findjsobjectsVisit (range : FindRange) (fjs : FindScan L) (addr : ℕ) : Option (FindScan L) :=
  let (type, stats) := findjsobjectsType t range addr fjs.stats
  let fjs := { fjs with stats }
  let jsobjs := { fjs with stats.jsobjs := incrInt fjs.stats.jsobjs }
  match type.bind (findKind t.cfg) with
  | none => some fjs
  | some .function => some (findjsobjectsJsfunc t fjs addr)
  | some .object => findjsobjectsJsobject t jsobjs addr
  | some .array => some (findjsobjectsJsarray t jsobjs addr)

/-- The addresses of the loop of `findjsobjects_range`. -/
def rangeAddrs (c : Config) (addr size : ℕ) : List ℕ := List.range' addr (c.add addr size - addr)

/-- `findjsobjects_range`. A range that cannot be read is left out. -/
def findjsobjectsRange (outside : ℤ → UInt8) (fjs : FindScan L) (addr size : ℕ) :
    Option (FindScan L) :=
  match t.mdbVread size addr with
  | none => some fjs
  | some bytes =>
    (rangeAddrs t.cfg addr size).foldlM (findjsobjectsVisit t { base := addr, size, bytes, outside })
      fjs

/-! ### The mappings -/

/-- What the scan of a mapping depends on: `fjs_brk`, `fjs_addr`, and what is around the copies of
the ranges. -/
structure ScanParams where
  brk : Bool
  addr : ℕ
  outside : Prmap → ℤ → UInt8

/-- The mapping is left out by `findjsobjects_mapping`. -/
def ScanParams.skips (p : ScanParams) (c : Config) (pmp : Prmap) : Bool :=
  (pmp.named && !(p.brk && pmp.isBreak)) ||
    (p.addr ≠ 0 && (p.addr < pmp.vaddr || p.addr ≥ c.add pmp.vaddr pmp.size))

/-- `findjsobjects_mapping`. -/
def findjsobjectsMapping (p : ScanParams) (fjs : FindScan L) (pmp : Prmap) : Option (FindScan L) :=
  if p.skips t.cfg pmp then some fjs
  else findjsobjectsRange t (p.outside pmp) fjs pmp.vaddr pmp.size

/-- The `Pmapping_iter` of a scan, over the mappings that it comes to. -/
def findjsobjectsIter (p : ScanParams) (maps : List Prmap) (fjs : FindScan L) :
    Option (FindScan L) :=
  maps.foldlM (findjsobjectsMapping t p) fjs

/-! ### The scan as a list of addresses -/

/-- The addresses that the scan of a mapping visits, each with the copy of the range. -/
def mappingVisits (p : ScanParams) (pmp : Prmap) : List (FindRange × ℕ) :=
  if p.skips t.cfg pmp then []
  else
    match t.mdbVread pmp.size pmp.vaddr with
    | none => []
    | some bytes =>
      (rangeAddrs t.cfg pmp.vaddr pmp.size).map fun addr =>
        ({ base := pmp.vaddr, size := pmp.size, bytes, outside := p.outside pmp }, addr)

/-- The addresses that a scan visits. -/
def scanVisits (p : ScanParams) (maps : List Prmap) : List (FindRange × ℕ) :=
  maps.flatMap (mappingVisits t p)

/-- Visiting addresses one after the other. -/
def findjsobjectsVisits (visits : List (FindRange × ℕ)) (fjs : FindScan L) : Option (FindScan L) :=
  visits.foldlM (fun fjs v => findjsobjectsVisit t v.1 fjs v.2) fjs

theorem findjsobjectsVisits_append (vs ws : List (FindRange × ℕ)) (fjs : FindScan L) :
    findjsobjectsVisits t (vs ++ ws) fjs =
      (findjsobjectsVisits t vs fjs).bind (findjsobjectsVisits t ws) :=
  List.foldlM_append

theorem findjsobjectsMapping_eq (p : ScanParams) (fjs : FindScan L) (pmp : Prmap) :
    findjsobjectsMapping t p fjs pmp = findjsobjectsVisits t (mappingVisits t p pmp) fjs := by
  unfold findjsobjectsMapping mappingVisits findjsobjectsRange
  split
  · rfl
  · cases t.mdbVread pmp.size pmp.vaddr with
    | none => rfl
    | some bytes =>
      dsimp only [findjsobjectsVisits]
      rw [List.foldlM_map]

/-- **A scan visits the addresses of its list**, mapping by mapping. -/
theorem findjsobjectsIter_eq (p : ScanParams) (maps : List Prmap) (fjs : FindScan L) :
    findjsobjectsIter t p maps fjs = findjsobjectsVisits t (scanVisits t p maps) fjs := by
  induction maps generalizing fjs with
  | nil => rfl
  | cons pmp maps ih =>
    have hcons : scanVisits t p (pmp :: maps) = mappingVisits t p pmp ++ scanVisits t p maps := rfl
    rw [hcons, findjsobjectsVisits_append, ← findjsobjectsMapping_eq]
    change (findjsobjectsMapping t p fjs pmp).bind (findjsobjectsIter t p maps) = _
    congr 1
    funext fjs'
    exact ih fjs'

/-! ### What a visit finds -/

/-- What there is at an address, as far as the cache goes. -/
inductive ScanItem where
  | nothing
  | function (func : FindFunc)
  | object (obj : FindObj)
  deriving DecidableEq, Repr

/-- Adding it to the cache. -/
def ScanItem.enter {c : Config} {L : FindLib c} (addr : ℕ) (cache : FindCache L) :
    ScanItem → FindCache L
  | .nothing => cache
  | .function func => (cache.enterFunc func addr).2
  | .object obj => (cache.enterObj obj addr).2

/-- The object that a `JSObject` or a typed array is entered as. -/
def objectItem (addr : ℕ) : Option ScanItem :=
  match findjsobjectsProperties t addr with
  | none => some .nothing
  | some current =>
    (findjsobjectsConstructor t addr).map fun constructor =>
      .object { current with
        malformed := current.malformed || current.propinfo &&& jpiMaybeGarbage != 0
        constructor }

/-- What there is at an address, by its type byte. -/
def kindItem (addr : ℕ) : Option FindKind → Option ScanItem
  | none => some .nothing
  | some .function => some (((findjsobjectsFunc t addr).map .function).getD .nothing)
  | some .object => objectItem t addr
  | some .array => some (((findjsobjectsArray t addr).map .object).getD .nothing)

/-- What a visit is taken for. -/
def visitKind (v : FindRange × ℕ) : Option FindKind :=
  (findjsobjectsType t v.1 v.2 {}).1.bind (findKind t.cfg)

/-- What a visit finds. -/
def scanItem (v : FindRange × ℕ) : Option ScanItem := kindItem t v.2 (visitKind t v)

/-- The statistics do not matter for the type byte. -/
theorem findjsobjectsType_fst (range : FindRange) (addr : ℕ) (stats : FindStats) :
    (findjsobjectsType t range addr stats).1 = (findjsobjectsType t range addr {}).1 := by
  unfold findjsobjectsType
  dsimp only
  split
  · rfl
  · split
    · rfl
    · split
      · rfl
      · split <;> rfl

theorem findjsobjectsJsfunc_cache (fjs : FindScan L) (addr : ℕ) :
    (findjsobjectsJsfunc t fjs addr).cache =
      (((findjsobjectsFunc t addr).map .function).getD .nothing : ScanItem).enter addr fjs.cache := by
  unfold findjsobjectsJsfunc
  cases findjsobjectsFunc t addr <;> rfl

theorem findjsobjectsJsobject_cache (fjs : FindScan L) (addr : ℕ) :
    (findjsobjectsJsobject t fjs addr).map FindScan.cache =
      (objectItem t addr).map (ScanItem.enter addr fjs.cache) := by
  unfold findjsobjectsJsobject objectItem
  cases findjsobjectsProperties t addr with
  | none => rfl
  | some current => cases findjsobjectsConstructor t addr <;> rfl

theorem findjsobjectsJsarray_cache (fjs : FindScan L) (addr : ℕ) :
    (findjsobjectsJsarray t fjs addr).cache =
      (((findjsobjectsArray t addr).map .object).getD .nothing : ScanItem).enter addr fjs.cache := by
  unfold findjsobjectsJsarray
  cases findjsobjectsArray t addr <;> rfl

/-- **What a visit does to the cache** is to enter what it finds. -/
theorem findjsobjectsVisit_cache (v : FindRange × ℕ) (fjs : FindScan L) :
    (findjsobjectsVisit t v.1 fjs v.2).map FindScan.cache =
      (scanItem t v).map (ScanItem.enter v.2 fjs.cache) := by
  unfold findjsobjectsVisit scanItem visitKind
  rw [← findjsobjectsType_fst t v.1 v.2 fjs.stats]
  dsimp only
  cases (findjsobjectsType t v.1 v.2 fjs.stats).1.bind (findKind t.cfg) with
  | none => rfl
  | some kind =>
    cases kind with
    | function => exact congrArg some (findjsobjectsJsfunc_cache t _ v.2)
    | object => exact findjsobjectsJsobject_cache t _ v.2
    | array => exact congrArg some (findjsobjectsJsarray_cache t _ v.2)

/-- Entering what is found at one address after the other. -/
def enterItems (visits : List (FindRange × ℕ)) (cache : FindCache L) : Option (FindCache L) :=
  visits.foldlM (fun cache v => (scanItem t v).map (ScanItem.enter v.2 cache)) cache

theorem findjsobjectsVisits_cache (visits : List (FindRange × ℕ)) (fjs : FindScan L) :
    (findjsobjectsVisits t visits fjs).map FindScan.cache = enterItems t visits fjs.cache := by
  induction visits generalizing fjs with
  | nil => rfl
  | cons v visits ih =>
    have hvisit := findjsobjectsVisit_cache t v fjs
    change ((findjsobjectsVisit t v.1 fjs v.2).bind (findjsobjectsVisits t visits)).map _ =
      ((scanItem t v).map (ScanItem.enter v.2 fjs.cache)).bind (enterItems t visits)
    rw [← hvisit]
    cases findjsobjectsVisit t v.1 fjs v.2 with
    | none => rfl
    | some fjs' => exact ih fjs'

/-- An invariant of the cache holds after any number of visits if it holds after each. -/
theorem enterItems_induction {P : FindCache L → Prop} {visits : List (FindRange × ℕ)}
    (hstep : ∀ v ∈ visits, ∀ item, scanItem t v = some item → ∀ cache, P cache →
      P (item.enter v.2 cache))
    {cache cache' : FindCache L} (hcache : P cache) (h : enterItems t visits cache = some cache') :
    P cache' := by
  induction visits generalizing cache with
  | nil =>
    obtain rfl : cache = cache' := Option.some.inj h
    exact hcache
  | cons v visits ih =>
    obtain ⟨next, hnext, hrest⟩ := Option.bind_eq_some_iff.mp h
    obtain ⟨item, hitem, rfl⟩ := Option.map_eq_some_iff.mp hnext
    exact ih (fun w hw => hstep w (List.mem_cons_of_mem _ hw))
      (hstep v List.mem_cons_self item hitem cache hcache) hrest

/-- Visits that find nothing make no difference. -/
theorem enterItems_filter {visits : List (FindRange × ℕ)} {p : FindRange × ℕ → Bool}
    (hnothing : ∀ v ∈ visits, p v = false → scanItem t v = some .nothing) (cache : FindCache L) :
    enterItems t visits cache = enterItems t (visits.filter p) cache := by
  induction visits generalizing cache with
  | nil => rfl
  | cons v visits ih =>
    have hrest := fun cache => ih (fun w hw => hnothing w (List.mem_cons_of_mem _ hw)) cache
    cases hp : p v with
    | true =>
      rw [List.filter_cons_of_pos hp]
      change ((scanItem t v).map (ScanItem.enter v.2 cache)).bind (enterItems t visits) =
        ((scanItem t v).map (ScanItem.enter v.2 cache)).bind (enterItems t (visits.filter p))
      congr 1
      funext cache'
      exact hrest cache'
    | false =>
      rw [List.filter_cons_of_neg (by simp [hp])]
      change ((scanItem t v).map (ScanItem.enter v.2 cache)).bind (enterItems t visits) = _
      rw [hnothing v List.mem_cons_self hp]
      exact hrest cache

/-! ### Inside of the copy -/

/-- A byte of the copy is the byte of the target. -/
theorem FindRange.byte_eq {range : FindRange}
    (hread : t.mdbVread range.size range.base = some range.bytes) {i : ℕ} (hi : i < range.size) :
    t.mdbVread 1 (range.base + i) = some [range.byte i] := by
  have hlen := Target.mdbVread_length hread
  have hsub := Target.mdbVread_sub hread (show i + 1 ≤ range.size by omega)
  have hbyte : range.byte i = range.bytes.getD i 0 := by
    unfold FindRange.byte
    rw [if_pos ⟨by positivity, by exact_mod_cast hlen ▸ hi⟩, Int.toNat_natCast]
  rw [hsub, hbyte, List.take_one_drop_eq_of_lt_length (by omega)]
  simp [show i < range.bytes.length by omega]

/-- So is a word. -/
theorem FindRange.word_eq {range : FindRange}
    (hread : t.mdbVread range.size range.base = some range.bytes) {i : ℕ}
    (hi : i + t.cfg.ptrSize ≤ range.size) :
    t.readPtr (range.base + i) = some (range.word t.cfg i) := by
  have hlen := Target.mdbVread_length hread
  unfold Target.readPtr FindRange.word
  rw [Target.mdbVread_sub hread hi, Option.map_some]
  congr 2
  refine List.ext_getElem (by simp; omega) fun k hk hk' => ?_
  have hlt : i + k < range.bytes.length := by
    simp only [List.length_take, List.length_drop] at hk
    omega
  rw [List.getElem_take, List.getElem_drop, List.getElem_map, List.getElem_range, FindRange.byte,
    if_pos ⟨by positivity, by exact_mod_cast hlt⟩]
  have htoNat : ((i : ℤ) + (k : ℤ)).toNat = i + k := by omega
  rw [htoNat, List.getD_eq_getElem _ _ hlt]

/-- **Inside of the copy the type byte is the one of the target**: where the map word of an address
lies inside of the copy, the scan finds what `read_typebyte` finds. -/
theorem findjsobjectsType_eq_readTypebyte {range : FindRange}
    (hread : t.mdbVread range.size range.base = some range.bytes)
    (hend : range.base + range.size < 2 ^ t.cfg.bits) {addr i : ℕ}
    (hi : (range.base + i : ℤ) = addr + t.cfg.offHeapobjectMap)
    (hword : i + t.cfg.ptrSize ≤ range.size)
    (hheap : t.cfg.isSmi addr = false) (htag : t.cfg.isHeapobject addr = true) (stats : FindStats) :
    (findjsobjectsType t range addr stats).1 = t.readTypebyte addr := by
  have hadd : t.cfg.add addr t.cfg.offHeapobjectMap = range.base + i := by
    have hof : (t.cfg.add addr t.cfg.offHeapobjectMap : ℤ) = addr + t.cfg.offHeapobjectMap :=
      t.cfg.add_of_lt (by omega)
        (by rw [← hi]; exact_mod_cast (by omega : range.base + i < 2 ^ t.cfg.bits))
    omega
  have hindex : (addr : ℤ) - range.base + t.cfg.offHeapobjectMap = i := by omega
  unfold findjsobjectsType Target.readTypebyte
  rw [hadd, FindRange.word_eq t hread hword, if_neg (by simp [hheap]), if_neg (by simp [htag])]
  dsimp only
  rw [hindex]
  cases hmap : t.cfg.isHeapobject (range.word t.cfg i) with
  | false => rfl
  | true =>
    rw [if_neg (by simp), if_pos rfl]
    unfold Target.readHeapByte
    split
    · next hinside =>
      -- the type byte lies inside of the copy as well
      rw [Config.add_natCast, Nat.mod_eq_of_lt hend] at hinside
      obtain ⟨j, hj⟩ := Nat.exists_eq_add_of_le hinside.1
      rw [hj] at hinside ⊢
      have hbyte := FindRange.byte_eq t hread (show j < range.size by omega)
      have hdist : ((range.base + j : ℕ) : ℤ) - range.base = j := by omega
      dsimp only
      rw [hdist, Target.readByte, hbyte]
      simp [leNat]
    · rfl

/-- What the type byte of an address says that it is. -/
def typebyteKind (addr : ℕ) : Option FindKind := (t.readTypebyte addr).bind (findKind t.cfg)

/-- An address without the tag of an object is passed over. -/
theorem visitKind_of_not_heapobject (range : FindRange) {addr : ℕ}
    (htag : t.cfg.isHeapobject addr = false) : visitKind t (range, addr) = none := by
  unfold visitKind findjsobjectsType
  dsimp only
  split
  · rfl
  · rw [if_pos (by simp [htag])]
    rfl

/-- Some addresses of a range, in order, are what is left of the range if nothing else is. -/
theorem filter_range'_mem {base size : ℕ} {found : List ℕ} (hsorted : found.Pairwise (· < ·))
    (hmem : ∀ addr ∈ found, base ≤ addr ∧ addr < base + size) :
    (List.range' base size).filter (fun addr => decide (addr ∈ found)) = found := by
  have hsorted' : ((List.range' base size).filter fun addr => decide (addr ∈ found)).Pairwise
      (· < ·) := List.Pairwise.filter _ List.pairwise_lt_range'
  refine List.Perm.eq_of_pairwise (fun a b _ _ hab hba => absurd hab (Nat.lt_asymm hba)) hsorted'
    hsorted ((List.perm_ext_iff_of_nodup (hsorted'.imp Nat.ne_of_lt)
      (hsorted.imp Nat.ne_of_lt)).mpr fun addr => ?_)
  rw [List.mem_filter, List.mem_range'_1]
  simp only [decide_eq_true_eq, and_iff_right_iff_imp]
  exact hmem addr

theorem foldlM_congr_of_mem {σ : Type} {f g : σ → ℕ → Option σ} {xs : List ℕ} (s : σ)
    (h : ∀ s, ∀ x ∈ xs, f s x = g s x) : xs.foldlM f s = xs.foldlM g s := by
  induction xs generalizing s with
  | nil => rfl
  | cons x xs ih =>
    rw [List.foldlM_cons, List.foldlM_cons, h s x List.mem_cons_self]
    congr 1
    funext s'
    exact ih s' fun s x hx => h s x (List.mem_cons_of_mem _ hx)

/-- **The scan of a mapping finds something at some addresses only**, and there what the type bytes
say. -/
def MappingFinds (p : ScanParams) (pmp : Prmap) (found : List ℕ) : Prop :=
  ∃ range : FindRange,
    (mappingVisits t p pmp).filter (fun v => decide (v.2 ∈ found)) =
      found.map (fun addr => (range, addr)) ∧
    (∀ v ∈ mappingVisits t p pmp, v.2 ∉ found → visitKind t v = none) ∧
    ∀ addr ∈ found, visitKind t (range, addr) = typebyteKind t addr

/-- That is so if the map word of every address with the tag lies inside of the mapping, and the type
bytes of the other addresses say nothing. -/
theorem mappingFinds_of_typebytes {p : ScanParams} {pmp : Prmap} {bytes : List UInt8}
    {found : List ℕ} (hskips : p.skips t.cfg pmp = false)
    (hread : t.mdbVread pmp.size pmp.vaddr = some bytes)
    (hend : pmp.vaddr + pmp.size < 2 ^ t.cfg.bits)
    (hmap : ∀ addr, pmp.vaddr ≤ addr → addr < pmp.vaddr + pmp.size →
      t.cfg.isHeapobject addr = true → t.cfg.isSmi addr = false ∧
        ∃ i : ℕ, (pmp.vaddr + i : ℤ) = addr + t.cfg.offHeapobjectMap ∧
          i + t.cfg.ptrSize ≤ pmp.size)
    (hsorted : found.Pairwise (· < ·))
    (hmem : ∀ addr ∈ found, pmp.vaddr ≤ addr ∧ addr < pmp.vaddr + pmp.size ∧
      t.cfg.isHeapobject addr = true)
    (hnothing : ∀ addr, pmp.vaddr ≤ addr → addr < pmp.vaddr + pmp.size →
      t.cfg.isHeapobject addr = true → addr ∉ found → typebyteKind t addr = none) :
    MappingFinds t p pmp found := by
  let range : FindRange :=
    { base := pmp.vaddr, size := pmp.size, bytes, outside := p.outside pmp }
  have hvisits : mappingVisits t p pmp =
      (List.range' pmp.vaddr pmp.size).map fun addr => (range, addr) := by
    unfold mappingVisits rangeAddrs
    rw [if_neg (by simp [hskips]), hread, Config.add_natCast, Nat.mod_eq_of_lt hend,
      Nat.add_sub_cancel_left]
  have hread' : t.mdbVread range.size range.base = some range.bytes := hread
  -- the type byte of a tagged address is that in the memory
  have hkind : ∀ addr, pmp.vaddr ≤ addr → addr < pmp.vaddr + pmp.size →
      t.cfg.isHeapobject addr = true → visitKind t (range, addr) = typebyteKind t addr := by
    intro addr hlo hhi htag
    obtain ⟨hheap, i, hi, hword⟩ := hmap addr hlo hhi htag
    exact congrArg (·.bind (findKind t.cfg))
      (findjsobjectsType_eq_readTypebyte t hread' hend hi hword hheap htag {})
  refine ⟨range, ?_, ?_, ?_⟩
  · rw [hvisits, List.filter_map]
    exact congrArg _ (filter_range'_mem hsorted fun addr haddr =>
      ⟨(hmem addr haddr).1, (hmem addr haddr).2.1⟩)
  · rw [hvisits]
    intro v hv hnot
    obtain ⟨addr, haddr, rfl⟩ := List.mem_map.mp hv
    obtain ⟨hlo, hhi⟩ := List.mem_range'_1.mp haddr
    cases htag : t.cfg.isHeapobject addr with
    | false => exact visitKind_of_not_heapobject t range htag
    | true => rw [hkind addr hlo hhi htag, hnothing addr hlo hhi htag hnot]
  · intro addr haddr
    obtain ⟨hlo, hhi, htag⟩ := hmem addr haddr
    exact hkind addr hlo hhi htag

/-- **What the scan of such a mapping does to the cache.** -/
theorem MappingFinds.enterItems_eq {t : Target} {L : FindLib t.cfg} {p : ScanParams} {pmp : Prmap}
    {found : List ℕ} (h : MappingFinds t p pmp found) (cache : FindCache L) :
    enterItems t (mappingVisits t p pmp) cache =
      found.foldlM (fun cache addr =>
        (kindItem t addr (typebyteKind t addr)).map (ScanItem.enter addr cache)) cache := by
  obtain ⟨range, hfilter, hnone, hkind⟩ := h
  have hskip : ∀ v ∈ mappingVisits t p pmp, decide (v.2 ∈ found) = false →
      scanItem t v = some .nothing := by
    intro v hv hnot
    unfold scanItem
    rw [hnone v hv (by simpa using hnot)]
    rfl
  rw [enterItems_filter t hskip, hfilter, enterItems, List.foldlM_map]
  refine foldlM_congr_of_mem cache fun cache addr haddr => ?_
  unfold scanItem
  rw [hkind addr haddr]

end Scan

/-! ### Mappings with little in them -/

/-- In the configurations of the examples an object is one more than a multiple of four. -/
theorem isHeapobject_sample {c : Config} (hmask : c.heapObjectTagMask = 3) (htag : c.heapObjectTag = 1)
    (hsmimask : c.smiTagMask = 1) (hsmi : c.smiTag = 0) (hmodel : c.model = .ilp32) {addr : ℕ}
    (h : c.isHeapobject addr = true) : addr % 4 = 1 ∧ c.isSmi addr = false := by
  have hbits : c.bits = 32 := by rw [Config.bits, hmodel]; rfl
  unfold Config.isHeapobject Config.tagged Config.wrap at h
  rw [hmask, htag, hbits] at h
  have hand : addr &&& 3 = 1 := by simpa using h
  have hmod : addr % 4 = 1 := by rwa [← Nat.and_two_pow_sub_one_eq_mod addr 2]
  refine ⟨hmod, ?_⟩
  unfold Config.isSmi Config.tagged Config.wrap
  rw [hsmimask, hsmi, hbits]
  have hodd : addr &&& 1 = 1 := by
    rw [Nat.and_one_is_mod]
    omega
  simp [hodd]

section Zeros

variable {cfg : Config} {words : List (ℕ × ℕ)}

/-- **The scan of a mapping with a few words** finds something at the addresses of these words
only. -/
theorem mappingFinds_ofWordsAndZeros {p : ScanParams} {pmp : Prmap} {found : List ℕ}
    (hmodel : cfg.model = .ilp32) (hoff : cfg.offHeapobjectMap = -1)
    (htag : ∀ addr, cfg.isHeapobject addr = true → addr % 4 = 1 ∧ cfg.isSmi addr = false)
    (hzero : cfg.isHeapobject 0 = false) (hskips : p.skips cfg pmp = false)
    (haligned : pmp.vaddr % 4 = 0 ∧ pmp.size % 4 = 0) (hend : pmp.vaddr + pmp.size < 2 ^ 32)
    (hsorted : found.Pairwise (· < ·))
    (hmem : ∀ addr ∈ found, pmp.vaddr ≤ addr ∧ addr < pmp.vaddr + pmp.size ∧
      cfg.isHeapobject addr = true)
    (hwords : ∀ e ∈ words, e.1 % 4 = 0 ∧ (pmp.vaddr ≤ e.1 → e.1 < pmp.vaddr + pmp.size →
      e.1 + 1 ∈ found ∨ typebyteKind (.ofWordsAndZeros cfg words) (e.1 + 1) = none)) :
    MappingFinds (.ofWordsAndZeros cfg words) p pmp found := by
  have hptr : cfg.ptrSize = 4 := by rw [Config.ptrSize, hmodel]; rfl
  have hbits : cfg.bits = 32 := by rw [Config.bits, hmodel]; rfl
  obtain ⟨bytes, hread⟩ : ∃ bytes, (Target.ofWordsAndZeros cfg words).mdbVread pmp.size pmp.vaddr =
      some bytes := Target.exists_ofWordsAndZeros_mdbVread (by rw [hbits]; omega)
  refine mappingFinds_of_typebytes (.ofWordsAndZeros cfg words) hskips hread
    (show _ < 2 ^ cfg.bits by rw [hbits]; exact hend) ?_ hsorted hmem ?_
  · -- the addresses that are asked for are those of the words
    intro addr hlo hhi haddr
    obtain ⟨hmod, hsmi⟩ := htag addr haddr
    refine ⟨hsmi, addr - 1 - pmp.vaddr, ?_, ?_⟩
    · have hof : (Target.ofWordsAndZeros cfg words).cfg.offHeapobjectMap = -1 := hoff
      rw [hof]
      omega
    · have hp : (Target.ofWordsAndZeros cfg words).cfg.ptrSize = 4 := hptr
      rw [hp]
      omega
  · intro addr hlo hhi haddr hnot
    obtain ⟨hmod, -⟩ := htag addr haddr
    by_cases hword : ∃ e ∈ words, e.1 = addr - 1
    · obtain ⟨e, he, heq⟩ := hword
      have hsucc : e.1 + 1 = addr := by omega
      rcases (hwords e he).2 (by omega) (by omega) with hin | hnone
      · exact absurd (hsucc ▸ hin) hnot
      · rwa [hsucc] at hnone
    · -- the map word is zero
      have hadd : cfg.add addr cfg.offHeapobjectMap = addr - 1 := by
        have hof : (cfg.add addr (-1) : ℤ) = addr + -1 :=
          cfg.add_of_lt (by omega) (by rw [hbits]; omega)
        rw [hoff]
        omega
      have hread0 : (Target.ofWordsAndZeros cfg words).readPtr
          (cfg.add addr cfg.offHeapobjectMap) = some 0 := by
        rw [hadd]
        refine Target.ofWordsAndZeros_readPtr (fun e he => ?_) (by rw [hptr, hbits]; omega)
        have hmod' := (hwords e he).1
        have hne : e.1 ≠ addr - 1 := fun heq => hword ⟨e, he, heq⟩
        omega
      have hmap : (Target.ofWordsAndZeros cfg words).readTypebyte addr = none := by
        unfold Target.readTypebyte
        change (match (Target.ofWordsAndZeros cfg words).readPtr
          (cfg.add addr cfg.offHeapobjectMap) with | none => none | some mapaddr => _) = none
        rw [hread0]
        exact if_neg (by rw [show (Target.ofWordsAndZeros cfg words).cfg = cfg from rfl, hzero]; simp)
      unfold typebyteKind
      rw [hmap]
      rfl

end Zeros

end MdbV8
