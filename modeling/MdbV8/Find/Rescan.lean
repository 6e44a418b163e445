import MdbV8.Find.Jsfunctions

/-!
# Rescans

Whether a command scans memory depends on one thing, that there is no object in the cache. What a
scan adds to is the whole cache, and a scan that is not finished leaves behind what it has found. The
cache is therefore not always that of one complete scan:

* functions without objects do not keep the next command from scanning, and a scan that comes to its
  end then counts the closures of the cached functions a second time;
* a scan that comes to its end without any object says that it is finished, and this is not taken
  back when a later scan, perhaps one of more mappings, finds objects and is given up.

`Meets` excludes just these two. In a run in which every command meets it, a command that sees a
finished scan sees the cache of one complete scan (`cachesOneScan`).
-/

namespace MdbV8

/-! ### Commands and runs -/

/-- A command that uses the cache. -/
inductive FindCommand where
  | findjsobjects (addr : Option ℕ) (opts : FindOpts)
  | jsfunctions (addr : Option ℕ) (opts : JsfunctionsOpts)

namespace FindCommand

/-- The options of the command are its own. -/
def valid : FindCommand → Bool
  | findjsobjects _ opts => opts.valid
  | jsfunctions _ opts => opts.valid

/-- The state as the options set it. -/
def prepare {c : Config} {L : FindLib c} (fjs : FindState L) : FindCommand → FindState L
  | findjsobjects _ opts => fjs.setOpts opts
  | jsfunctions _ _ => fjs

/-- The command. -/
def run (t : Target) (maps : List Prmap) {L : FindLib t.cfg} (env : ScanEnv) (fjs : FindState L) :
    FindCommand → FindResult L
  | findjsobjects addr opts => dcmdFindjsobjects t maps env addr opts fjs
  | jsfunctions addr opts => dcmdJsfunctions t maps env addr opts fjs

/-- What the command does after the scan. -/
def body (t : Target) {L : FindLib t.cfg} (fjs : FindState L) : FindCommand → FindResult L
  | findjsobjects addr opts => findjsobjectsBody t addr opts fjs
  | jsfunctions addr opts => jsfunctionsBody t addr opts fjs

end FindCommand

/-- The state that a command leaves behind. -/
def FindResult.state? {c : Config} {L : FindLib c} : FindResult L → Option (FindState L)
  | .returned _ _ fjs => some fjs
  | .interrupted fjs => some fjs
  | .fault _ => none
  | .hangs => none

theorem FindResult.state?_after {c : Config} {L : FindLib c} (lines : List FindLine)
    (result : FindResult L) : (result.after lines).state? = result.state? := by
  cases result <;> rfl

/-- A function without the location that is kept with it. -/
def FindFunc.entry (func : FindFunc) : FindFunc := { func with location := [] }

/-- A cache without the locations. -/
def FindCache.entries {c : Config} {L : FindLib c} (cache : FindCache L) : FindCache L :=
  { cache with funcNodes := cache.funcNodes.map FindFunc.entry }

section Runs

variable (t : Target) (maps : List Prmap) {L : FindLib t.cfg}

/-- The addresses that a scan visits before it ends. -/
def ScanOutcome.visits (p : ScanParams) : ScanOutcome → List (FindRange × ℕ)
  | noHandle => []
  | failed nmaps => scanVisits t p (maps.take nmaps)
  | completed => scanVisits t p maps
  | abandoned naddrs => (scanVisits t p maps).take naddrs

/-- **The condition on a command.** Where there is no object in the cache, a scan that comes to its
end finds no function there either, and one that does not finds no object, if an earlier one was
finished. -/
structure FindCommand.Meets (env : ScanEnv) (fjs : FindState L) (cmd : FindCommand) : Prop where
  complete : cmd.valid → L.objs.isEmpty fjs.cache.tree → env.outcome = .completed →
    fjs.cache.funcs = []
  given_up : cmd.valid → L.objs.isEmpty fjs.cache.tree → env.outcome ≠ .completed → fjs.finished →
    ∀ v ∈ env.outcome.visits t maps ((cmd.prepare fjs).params env),
      ∀ obj, scanItem t v ≠ some (.object obj)

/-- The states that commands lead to if each of them is as a condition says. -/
inductive FindReach (ok : ScanEnv → FindState L → FindCommand → Prop) : FindState L → Prop
  | init : FindReach ok (.init L)
  | step {fjs fjs' : FindState L} {env : ScanEnv} {cmd : FindCommand} (hreach : FindReach ok fjs)
      (hok : ok env fjs cmd) (hrun : (cmd.run t maps env fjs).state? = some fjs') :
      FindReach ok fjs'

/-- **The cache is that of one complete scan**, from an empty cache. -/
def FindState.OneScan (fjs : FindState L) : Prop :=
  ∃ (p : ScanParams) (scan : FindScan L), p.addr = 0 ∧
    findjsobjectsIter t p maps { cache := .empty, stats := {} } = some scan ∧
    fjs.cache.entries = scan.cache.sort.entries

/-- **Caches of one scan**: in a run of commands that are as a condition says, a command that sees a
finished scan sees the cache of one complete scan, and if there has been anything in the cache before,
it has not changed. -/
def CachesOneScan (ok : ScanEnv → FindState L → FindCommand → Prop) : Prop :=
  ∀ (fjs fjs' : FindState L) (env : ScanEnv) (cmd : FindCommand) (lines : List FindLine),
    FindReach t maps ok fjs → ok env fjs cmd → cmd.valid →
    findjsobjectsRun t maps env (cmd.prepare fjs) = some (.returned 0, lines, fjs') →
    fjs'.finished → fjs'.OneScan t maps ∧
      (fjs.cache.nodes ≠ [] ∨ fjs.cache.funcs ≠ [] → fjs'.cache.entries = fjs.cache.entries)

/-! ### What commands do to the cache -/

/-- A part of a command that does not scan. -/
structure FindState.KeepsCache (fjs fjs' : FindState L) : Prop where
  entries : fjs'.cache.entries = fjs.cache.entries
  finished : fjs'.finished = fjs.finished
  initialized : fjs'.initialized = fjs.initialized
  addr : fjs.refs.addr = 0 → fjs'.refs.addr = 0

namespace FindState.KeepsCache

variable {t} {fjs fjs' fjs'' : FindState L}

theorem refl : fjs.KeepsCache t fjs := ⟨rfl, rfl, rfl, id⟩

theorem trans (h : fjs.KeepsCache t fjs') (h' : fjs'.KeepsCache t fjs'') :
    fjs.KeepsCache t fjs'' where
  entries := h'.entries.trans h.entries
  finished := h'.finished.trans h.finished
  initialized := h'.initialized.trans h.initialized
  addr := h'.addr ∘ h.addr

end FindState.KeepsCache

/-- Every state that a result leaves behind keeps the cache. -/
def FindResult.KeepsCache (fjs : FindState L) (result : FindResult L) : Prop :=
  ∀ fjs', result.state? = some fjs' → fjs.KeepsCache t fjs'

namespace FindResult.KeepsCache

variable {t} {fjs fjs' : FindState L}

theorem returned (h : fjs.KeepsCache t fjs') {status : DcmdStatus} {lines : List FindLine} :
    FindResult.KeepsCache t fjs (.returned status lines fjs') := by
  rintro _ ⟨⟩
  exact h

theorem fault {f : FindFault} : FindResult.KeepsCache t fjs (.fault f) := by
  rintro _ ⟨⟩

end FindResult.KeepsCache

theorem keepsCache_findjsobjectsReferentAll {addrs : List ℕ} {fjs fjs' : FindState L}
    {lines : List FindLine} (h : findjsobjectsReferentAll addrs fjs = .ok (lines, fjs')) :
    fjs.KeepsCache t fjs' := by
  induction addrs generalizing fjs lines with
  | nil =>
    obtain ⟨-, rfl⟩ := Prod.mk.inj (Except.ok.inj h)
    exact .refl
  | cons addr addrs ih =>
    -- an address is marked or reported, and neither is in the cache
    unfold findjsobjectsReferentAll at h
    cases hone : findjsobjectsReferent fjs addr with
    | error fault => simp [hone] at h
    | ok one =>
      obtain ⟨lines₁, fjs₁⟩ := one
      have hkeeps : fjs.KeepsCache t fjs₁ := by
        unfold findjsobjectsReferent at hone
        split at hone
        · split at hone <;> cases hone
          exact .refl
        · cases hone
          exact ⟨rfl, rfl, rfl, id⟩
      rw [hone] at h
      cases hrest : findjsobjectsReferentAll addrs fjs₁ with
      | error fault => simp [hrest] at h
      | ok rest =>
        obtain ⟨lines₂, fjs₂⟩ := rest
        simp only [hrest] at h
        obtain ⟨-, rfl⟩ := Prod.mk.inj (Except.ok.inj h)
        exact hkeeps.trans (ih hrest)

theorem keepsCache_findjsobjectsLookup (opts : FindOpts) (lines : List FindLine)
    (fjs : FindState L) : (findjsobjectsLookup t opts lines fjs).KeepsCache t fjs := by
  unfold findjsobjectsLookup findjsobjectsReferences
  split
  · cases fjs.cache.groups.foldlM (findjsobjectsReferencesGroup t) fjs.refs with
    | error fault => exact .fault
    | ok refs =>
      dsimp only
      refine .returned ?_
      exact ⟨rfl, rfl, rfl, fun _ => rfl⟩
  · exact .returned .refl

theorem keepsCache_findjsobjectsMatch (fjs : FindState L) (addr : Option ℕ) (func : FindObj → Bool) :
    (findjsobjectsMatch fjs addr func).KeepsCache t fjs := by
  unfold findjsobjectsMatch
  cases addr with
  | none => exact .returned .refl
  | some addr =>
    dsimp only
    split <;> exact .returned .refl

theorem keepsCache_findjsobjectsAddr (addr : ℕ) (opts : FindOpts) (fjs : FindState L) :
    (findjsobjectsAddr t addr opts fjs).KeepsCache t fjs := by
  unfold findjsobjectsAddr
  cases findjsobjectsInstance fjs addr with
  | none => exact .returned .refl
  | some obj =>
    dsimp only
    split
    · exact .returned .refl
    · cases hall : findjsobjectsReferentAll (if opts.listlike then obj.instances else [addr]) fjs with
      | error fault => exact .fault
      | ok marked =>
        obtain ⟨lines, fjs₁⟩ := marked
        intro fjs' hstate
        exact (keepsCache_findjsobjectsReferentAll t hall).trans
          (keepsCache_findjsobjectsLookup t opts lines fjs₁ fjs' hstate)

/-- `::findjsobjects` does nothing to the cache after the scan. -/
theorem keepsCache_findjsobjectsBody (addr : Option ℕ) (opts : FindOpts) (fjs : FindState L) :
    (findjsobjectsBody t addr opts fjs).KeepsCache t fjs := by
  unfold findjsobjectsBody
  -- by what the command is asked for
  split
  · split
    · exact .returned .refl
    · exact keepsCache_findjsobjectsMatch t fjs addr _
  · split
    · exact keepsCache_findjsobjectsMatch t fjs addr _
    · exact keepsCache_findjsobjectsMatch t fjs addr _
    · exact keepsCache_findjsobjectsMatch t fjs addr _
    · split
      · exact .returned .refl
      · split
        · exact .returned .refl
        · split
          · exact .returned .refl
          · cases addr with
            | some addr => exact keepsCache_findjsobjectsAddr t addr opts fjs
            | none =>
              dsimp only
              split
              · exact keepsCache_findjsobjectsLookup t opts [] fjs
              · exact .returned .refl
    · exact .returned .refl

/-- Listing the functions keeps them, apart from their locations. -/
theorem map_entry_jsfunctionsLoop (opts : JsfunctionsOpts) {ps : List ℕ} {nodes nodes' : List FindFunc}
    {lines : List FindLine} (h : jsfunctionsLoop t opts ps nodes = some (lines, nodes')) :
    nodes'.map FindFunc.entry = nodes.map FindFunc.entry := by
  induction ps generalizing nodes lines with
  | nil =>
    obtain ⟨-, rfl⟩ := Prod.mk.inj (Option.some.inj h)
    rfl
  | cons p ps ih =>
    unfold jsfunctionsLoop at h
    dsimp only at h
    cases hloc : jsfunctionsLocation t (nodes.getD p default) with
    | none =>
      rw [hloc] at h
      cases h
    | some location =>
      rw [hloc] at h
      obtain ⟨⟨lines', nodes₁⟩, hrest, heq⟩ := Option.map_eq_some_iff.mp h
      obtain ⟨-, rfl⟩ := Prod.mk.inj heq
      rw [ih hrest, List.map_set]
      by_cases hp : p < nodes.length
      · -- the node is replaced by one with the same entry
        have hnode : nodes.getD p default = nodes[p] := by simp [hp]
        have hp' : p < (nodes.map FindFunc.entry).length := by simpa using hp
        have hentry : ({ nodes.getD p default with location } : FindFunc).entry =
            (nodes.map FindFunc.entry)[p] := by
          rw [List.getElem_map, hnode]
          rfl
        rw [hentry, List.set_getElem_self]
      · exact List.set_eq_of_length_le (by simpa using hp)

theorem keepsCache_jsfunctionsBody (addr : Option ℕ) (opts : JsfunctionsOpts) (fjs : FindState L) :
    (jsfunctionsBody t addr opts fjs).KeepsCache t fjs := by
  unfold jsfunctionsBody
  cases addr with
  | some addr => exact .returned .refl
  | none =>
    dsimp only
    cases hloop : jsfunctionsLoop t opts fjs.cache.funcs fjs.cache.funcNodes with
    | none => rintro _ ⟨⟩
    | some r =>
      obtain ⟨lines, nodes⟩ := r
      dsimp only
      refine .returned ?_
      refine ⟨?_, rfl, rfl, id⟩
      unfold FindCache.entries
      rw [map_entry_jsfunctionsLoop t opts hloop]

theorem keepsCache_body (fjs : FindState L) (cmd : FindCommand) :
    (cmd.body t fjs).KeepsCache t fjs := by
  cases cmd with
  | findjsobjects addr opts => exact keepsCache_findjsobjectsBody t addr opts fjs
  | jsfunctions addr opts => exact keepsCache_jsfunctionsBody t addr opts fjs

/-! ### The cache of a scan that starts without objects -/

/-- **What the trees have to do with the lists**: there is nothing in a list whose tree has no
nodes. -/
structure FindCache.Plain {c : Config} {L : FindLib c} (cache : FindCache L) : Prop where
  objects : L.objs.isEmpty cache.tree →
    cache.tree = L.objs.create ∧ cache.nodes = [] ∧ cache.objects = []
  functions : cache.funcs = [] → cache.funcinfo = L.funcs.create ∧ cache.funcNodes = []

namespace FindCache.Plain

variable {c : Config} {L : FindLib c} {cache cache' : FindCache L}

theorem empty : (FindCache.empty (L := L)).Plain := ⟨fun _ => ⟨rfl, rfl, rfl⟩, fun _ => ⟨rfl, rfl⟩⟩

theorem enterObj (h : cache.Plain) (current : FindObj) (addr : ℕ) :
    (cache.enterObj current addr).2.Plain := by
  unfold FindCache.enterObj
  cases hfind : L.objs.find cache.tree current.toFindSignature with
  | none =>
    refine ⟨fun hempty => ?_, h.functions⟩
    rw [L.objs.isEmpty_add hfind] at hempty
    cases hempty
  | some obj =>
    -- nothing is found in a tree without nodes
    refine ⟨fun hempty => ?_, h.functions⟩
    rw [(h.objects hempty).1, L.objs.find_create] at hfind
    cases hfind

theorem enterFunc (h : cache.Plain) (func : FindFunc) (addr : ℕ) :
    (cache.enterFunc func addr).2.Plain := by
  unfold FindCache.enterFunc
  cases hfind : L.funcs.find cache.funcinfo func.shared with
  | none => exact ⟨h.objects, fun hnil => nomatch hnil⟩
  | some ofunc =>
    refine ⟨h.objects, fun hnil => ?_⟩
    rw [(h.functions hnil).1, L.funcs.find_create] at hfind
    cases hfind

theorem enter (h : cache.Plain) (addr : ℕ) (item : ScanItem) : (item.enter addr cache).Plain := by
  cases item with
  | nothing => exact h
  | function func => exact h.enterFunc func addr
  | object obj => exact h.enterObj obj addr

theorem sort (h : cache.Plain) : cache.sort.Plain := by
  unfold FindCache.sort
  split
  · exact h
  · next hempty => exact ⟨fun hempty' => absurd hempty' hempty, h.functions⟩

theorem of_entries (h : cache.Plain) (heq : cache'.entries = cache.entries) : cache'.Plain := by
  obtain ⟨tree, nodes, objects, funcinfo, funcNodes, funcs⟩ := cache
  obtain ⟨tree', nodes', objects', funcinfo', funcNodes', funcs'⟩ := cache'
  unfold FindCache.entries at heq
  obtain ⟨rfl, rfl, rfl, rfl, hnodes, rfl⟩ := FindCache.mk.inj heq
  refine ⟨h.objects, fun hnil => ⟨(h.functions hnil).1, ?_⟩⟩
  obtain rfl : funcNodes = [] := (h.functions hnil).2
  simpa using hnodes

/-- A cache without objects and functions is the empty one. -/
theorem eq_empty (h : cache.Plain) (hempty : L.objs.isEmpty cache.tree) (hfuncs : cache.funcs = []) :
    cache = .empty := by
  obtain ⟨tree, nodes, objects, funcinfo, funcNodes, funcs⟩ := cache
  obtain ⟨rfl, rfl, rfl⟩ := h.objects hempty
  obtain ⟨rfl, rfl⟩ := h.functions hfuncs
  obtain rfl : funcs = [] := hfuncs
  rfl

end FindCache.Plain

/-- Visits that find no object leave the tree as it is. -/
theorem tree_enterItems {visits : List (FindRange × ℕ)} {cache cache' : FindCache L}
    (hnone : ∀ v ∈ visits, ∀ obj, scanItem t v ≠ some (.object obj))
    (h : enterItems t visits cache = some cache') : cache'.tree = cache.tree := by
  refine enterItems_induction (P := fun cache' => cache'.tree = cache.tree) t ?_ rfl h
  intro v hv item hitem cache₁ htree
  cases item with
  | nothing => exact htree
  | function func => exact (cache₁.enterFunc_tree func v.2).trans htree
  | object obj => exact absurd hitem (hnone v hv obj)

/-! ### The scan -/

/-- What a scan leaves behind. -/
structure ScanLeaves (env : ScanEnv) (fjs : FindState L) (e : RunEnd) (fjs' : FindState L) :
    Prop where
  refs : fjs'.refs = fjs.refs
  initialized : fjs'.initialized = fjs.initialized
  marking : fjs'.marking = fjs.marking
  ends : ∃ scan, findjsobjectsVisits t (env.outcome.visits t maps (fjs.params env)) fjs.toFindScan =
      some scan ∧
    if env.outcome = .completed then
      e = .returned 0 ∧ fjs'.cache = scan.cache.sort ∧ fjs'.finished = true
    else e ≠ .returned 0 ∧ fjs'.cache = scan.cache ∧ fjs'.finished = fjs.finished

theorem scanLeaves_findjsobjectsScan {env : ScanEnv} {fjs fjs' : FindState L} {e : RunEnd}
    {lines : List FindLine} (h : findjsobjectsScan t maps env fjs = some (e, lines, fjs')) :
    ScanLeaves t maps env fjs e fjs' := by
  unfold findjsobjectsScan at h
  dsimp only at h
  cases houtcome : env.outcome with
  | noHandle =>
    rw [houtcome] at h
    obtain ⟨rfl, -, rfl⟩ := by simpa using h
    exact ⟨rfl, rfl, rfl, fjs.toFindScan, by rw [houtcome]; rfl, by simp [houtcome]⟩
  | failed nmaps =>
    rw [houtcome] at h
    obtain ⟨scan, hscan, heq⟩ := Option.map_eq_some_iff.mp h
    obtain ⟨rfl, -, rfl⟩ := by simpa using heq
    rw [findjsobjectsIter_eq] at hscan
    exact ⟨rfl, rfl, rfl, scan, by rw [houtcome]; exact hscan, by simp [houtcome]⟩
  | completed =>
    -- only a completed scan sorts the groups
    rw [houtcome] at h
    obtain ⟨scan, hscan, heq⟩ := Option.map_eq_some_iff.mp h
    obtain ⟨rfl, -, rfl⟩ := by simpa using heq
    rw [findjsobjectsIter_eq] at hscan
    refine ⟨rfl, rfl, rfl, scan, by rw [houtcome]; exact hscan, ?_⟩
    rw [if_pos houtcome]
    exact ⟨rfl, rfl, rfl⟩
  | abandoned naddrs =>
    rw [houtcome] at h
    obtain ⟨scan, hscan, heq⟩ := Option.map_eq_some_iff.mp h
    obtain ⟨rfl, -, rfl⟩ := by simpa using heq
    exact ⟨rfl, rfl, rfl, scan, by rw [houtcome]; exact hscan, by simp [houtcome]⟩

/-- The statistics do not matter for what a scan finds. -/
theorem cache_findjsobjectsVisits {visits : List (FindRange × ℕ)} {fjs fjs' scan : FindScan L}
    (hcache : fjs.cache = fjs'.cache) (h : findjsobjectsVisits t visits fjs = some scan) :
    ∃ scan', findjsobjectsVisits t visits fjs' = some scan' ∧ scan'.cache = scan.cache := by
  have hitems := findjsobjectsVisits_cache t visits fjs
  rw [h, hcache, ← findjsobjectsVisits_cache t visits fjs'] at hitems
  exact Option.map_eq_some_iff.mp hitems.symm

/-! ### The invariant of a run -/

/-- **What holds between two commands.** -/
structure FindState.ScanInv (fjs : FindState L) : Prop where
  plain : fjs.cache.Plain
  addr : fjs.refs.addr = 0
  fresh : fjs.initialized = false → fjs.cache.entries = FindCache.empty.entries
  oneScan : fjs.finished → L.objs.isEmpty fjs.cache.tree = false → fjs.OneScan t maps

namespace FindState.ScanInv

variable {t maps} {fjs fjs' : FindState L}

theorem init : (FindState.init L).ScanInv t maps where
  plain := .empty
  addr := rfl
  fresh _ := rfl
  oneScan hfinished := by cases hfinished

theorem keeps (h : fjs.ScanInv t maps) (hkeeps : fjs.KeepsCache t fjs') : fjs'.ScanInv t maps where
  plain := h.plain.of_entries hkeeps.entries
  addr := hkeeps.addr h.addr
  fresh hfalse := hkeeps.entries.trans (h.fresh (hkeeps.initialized ▸ hfalse))
  oneScan hfinished hempty := by
    have htree : fjs'.cache.tree = fjs.cache.tree :=
      show fjs'.cache.entries.tree = fjs.cache.entries.tree by rw [hkeeps.entries]
    rw [hkeeps.finished] at hfinished
    rw [htree] at hempty
    obtain ⟨p, scan, hp, hscan, hentries⟩ := h.oneScan hfinished hempty
    exact ⟨p, scan, hp, hscan, hkeeps.entries.trans hentries⟩

/-- Making the trees changes nothing. -/
theorem makeTrees_cache (h : fjs.ScanInv t maps) : fjs.makeTrees.cache = fjs.cache := by
  unfold FindState.makeTrees
  split
  · rfl
  · next hfalse =>
    have hfresh := h.fresh (by simpa using hfalse)
    have htree : fjs.cache.tree = L.objs.create :=
      show fjs.cache.entries.tree = _ by rw [hfresh]; rfl
    have hfuncinfo : fjs.cache.funcinfo = L.funcs.create :=
      show fjs.cache.entries.funcinfo = _ by rw [hfresh]; rfl
    dsimp only
    rw [← htree, ← hfuncinfo]

theorem keeps_makeTrees (h : fjs.ScanInv t maps) : fjs.makeTrees.ScanInv t maps where
  plain := by
    rw [h.makeTrees_cache]
    exact h.plain
  addr := by
    unfold FindState.makeTrees
    split <;> exact h.addr
  fresh hfalse := by
    unfold FindState.makeTrees at hfalse
    split at hfalse
    · next htrue => exact absurd hfalse (by simp [htrue])
    · cases hfalse
  oneScan hfinished hempty := by
    have hfin : fjs.makeTrees.finished = fjs.finished := by
      unfold FindState.makeTrees
      split <;> rfl
    rw [h.makeTrees_cache] at hempty
    obtain ⟨p, scan, hp, hscan, hentries⟩ := h.oneScan (hfin ▸ hfinished) hempty
    exact ⟨p, scan, hp, hscan, by rw [h.makeTrees_cache, hentries]⟩

end FindState.ScanInv

theorem makeTrees_params (fjs : FindState L) (env : ScanEnv) :
    fjs.makeTrees.params env = fjs.params env := by
  unfold FindState.makeTrees
  split <;> rfl

theorem makeTrees_finished (fjs : FindState L) : fjs.makeTrees.finished = fjs.finished := by
  unfold FindState.makeTrees
  split <;> rfl

theorem prepare_cache (fjs : FindState L) (cmd : FindCommand) : (cmd.prepare fjs).cache = fjs.cache := by
  cases cmd <;> rfl

theorem prepare_finished (fjs : FindState L) (cmd : FindCommand) :
    (cmd.prepare fjs).finished = fjs.finished := by
  cases cmd <;> rfl

/-- Setting the options keeps the cache. -/
theorem keepsCache_prepare (fjs : FindState L) (cmd : FindCommand) :
    fjs.KeepsCache t (cmd.prepare fjs) := by
  cases cmd <;> exact ⟨rfl, rfl, rfl, id⟩

/-- A call of `findjsobjectsRun` scans, or it finds an object in the cache. -/
theorem findjsobjectsRun_cases {env : ScanEnv} {fjs fjs' : FindState L} {e : RunEnd}
    {lines : List FindLine} (h : findjsobjectsRun t maps env fjs = some (e, lines, fjs')) :
    (L.objs.isEmpty fjs.makeTrees.cache.tree = true ∧ ScanLeaves t maps env fjs.makeTrees e fjs') ∨
      (L.objs.isEmpty fjs.makeTrees.cache.tree = false ∧ fjs' = fjs.makeTrees) := by
  unfold findjsobjectsRun at h
  dsimp only at h
  cases hempty : L.objs.isEmpty fjs.makeTrees.cache.tree with
  | true =>
    rw [if_pos hempty] at h
    exact .inl ⟨rfl, scanLeaves_findjsobjectsScan t maps h⟩
  | false =>
    rw [if_neg (by simp [hempty])] at h
    obtain ⟨-, -, rfl⟩ := by simpa using h
    exact .inr ⟨rfl, rfl⟩

section Step

variable {t maps} {env : ScanEnv} {fjs fjs' : FindState L} {e : RunEnd} {cmd : FindCommand}

/-- **A scan under the condition** keeps the invariant, and what it returns zero with is the cache of
one complete scan. -/
theorem ScanLeaves.scanInv (h : ScanLeaves t maps env fjs e fjs') (hinv : fjs.ScanInv t maps)
    (hinit : fjs.initialized = true) (hempty : L.objs.isEmpty fjs.cache.tree = true)
    (hcomplete : env.outcome = .completed → fjs.cache.funcs = [])
    (hgiven_up : env.outcome ≠ .completed → fjs.finished → ∀ v ∈ env.outcome.visits t maps
      (fjs.params env), ∀ obj, scanItem t v ≠ some (.object obj)) :
    fjs'.ScanInv t maps ∧ (e = .returned 0 → fjs'.OneScan t maps) := by
  obtain ⟨scan, hscan, hends⟩ := h.ends
  have hitems : enterItems t (env.outcome.visits t maps (fjs.params env)) fjs.cache =
      some scan.cache := by
    rw [← findjsobjectsVisits_cache, hscan]
    rfl
  have hplain : scan.cache.Plain :=
    enterItems_induction t (fun v _ item _ cache hcache => hcache.enter v.2 item) hinv.plain hitems
  have haddr : fjs'.refs.addr = 0 := by rw [h.refs, hinv.addr]
  have hfresh : fjs'.initialized = false → fjs'.cache.entries = FindCache.empty.entries := by
    rw [h.initialized, hinit]
    exact nofun
  by_cases hcompleted : env.outcome = .completed
  · rw [if_pos hcompleted] at hends
    obtain ⟨-, hcache, -⟩ := hends
    -- the scan starts from the empty cache
    have hstart : fjs.cache = .empty := hinv.plain.eq_empty hempty (hcomplete hcompleted)
    have hone : fjs'.OneScan t maps := by
      rw [hcompleted] at hscan
      let start : FindScan L := { cache := .empty, stats := {} }
      obtain ⟨scan', hscan', hsame⟩ :=
        cache_findjsobjectsVisits t (show fjs.cache = start.cache from hstart) hscan
      refine ⟨fjs.params env, scan', hinv.addr, ?_, by rw [hcache, hsame]⟩
      rw [findjsobjectsIter_eq]
      exact hscan'
    exact ⟨⟨hcache ▸ hplain.sort, haddr, hfresh, fun _ _ => hone⟩, fun _ => hone⟩
  · rw [if_neg hcompleted] at hends
    obtain ⟨he, hcache, hfinished⟩ := hends
    refine ⟨⟨hcache ▸ hplain, haddr, hfresh, fun hfin hnonempty => ?_⟩, fun h0 => absurd h0 he⟩
    -- a scan that is given up after a finished one has found no object
    have htree := tree_enterItems t (hgiven_up hcompleted (hfinished ▸ hfin)) hitems
    rw [hcache, htree, hempty] at hnonempty
    cases hnonempty

/-- **One call of `findjsobjectsRun`.** -/
theorem scanInv_findjsobjectsRun (hinv : fjs.ScanInv t maps) (hmeets : cmd.Meets t maps env fjs)
    (hvalid : cmd.valid = true) {lines : List FindLine}
    (h : findjsobjectsRun t maps env (cmd.prepare fjs) = some (e, lines, fjs')) :
    fjs'.ScanInv t maps ∧ (e = .returned 0 → fjs'.finished → fjs'.OneScan t maps ∧
      (fjs.cache.nodes ≠ [] ∨ fjs.cache.funcs ≠ [] → fjs'.cache.entries = fjs.cache.entries)) := by
  have hprep : (cmd.prepare fjs).ScanInv t maps := hinv.keeps (keepsCache_prepare t fjs cmd)
  have hinv₁ := hprep.keeps_makeTrees
  have hcache : (cmd.prepare fjs).makeTrees.cache = fjs.cache := by
    rw [hprep.makeTrees_cache, prepare_cache]
  have hinit : (cmd.prepare fjs).makeTrees.initialized = true := by
    unfold FindState.makeTrees
    split
    · assumption
    · rfl
  rcases findjsobjectsRun_cases t maps h with ⟨hempty, hleaves⟩ | ⟨hnonempty, rfl⟩
  · have hempty' : L.objs.isEmpty fjs.cache.tree = true := hcache ▸ hempty
    have hcomplete : env.outcome = .completed → (cmd.prepare fjs).makeTrees.cache.funcs = [] := by
      rw [hcache]
      exact hmeets.complete hvalid hempty'
    have hscan := hleaves.scanInv hinv₁ hinit hempty hcomplete (by
      rw [makeTrees_params, makeTrees_finished, prepare_finished]
      exact hmeets.given_up hvalid hempty')
    refine ⟨hscan.1, fun h0 _ => ⟨hscan.2 h0, fun hsome => ?_⟩⟩
    -- a scan that has come to its end has started with nothing
    obtain ⟨scan, -, hends⟩ := hleaves.ends
    by_cases hcompleted : env.outcome = .completed
    · rcases hsome with hnodes | hfuncs
      · exact absurd (hinv.plain.objects hempty').2.1 hnodes
      · exact absurd (hmeets.complete hvalid hempty' hcompleted) hfuncs
    · rw [if_neg hcompleted] at hends
      exact absurd h0 hends.1
  · refine ⟨hinv₁, fun _ hfinished => ⟨hinv₁.oneScan hfinished hnonempty, fun _ => ?_⟩⟩
    rw [hcache]

/-- What a command leaves behind is what `findjsobjectsRun` has left behind, or what its body makes
of that. -/
theorem run_cases (hrun : (cmd.run t maps env fjs).state? = some fjs') :
    (cmd.valid = false ∧ fjs' = cmd.prepare fjs) ∨
      ∃ e lines fjs₁, cmd.valid = true ∧
        findjsobjectsRun t maps env (cmd.prepare fjs) = some (e, lines, fjs₁) ∧
        (fjs' = fjs₁ ∨ (cmd.body t fjs₁).state? = some fjs') := by
  have hsame : ∀ {fjs₁ : FindState L}, some fjs₁ = some fjs' → fjs' = fjs₁ :=
    fun h => (Option.some.inj h).symm
  -- both commands scan first, and go on if the scan has returned
  cases cmd with
  | findjsobjects addr opts =>
    simp only [FindCommand.run, dcmdFindjsobjects] at hrun
    cases hvalid : opts.valid with
    | false =>
      rw [hvalid] at hrun
      exact .inl ⟨hvalid, hsame hrun⟩
    | true =>
      rw [hvalid] at hrun
      cases hscan : findjsobjectsRun t maps env (fjs.setOpts opts) with
      | none => simp [hscan, FindResult.state?] at hrun
      | some r =>
        obtain ⟨e, lines, fjs₁⟩ := r
        refine .inr ⟨e, lines, fjs₁, hvalid, hscan, ?_⟩
        rw [hscan] at hrun
        cases e with
        -- an interrupted scan ends the command
        | interrupted => exact .inl (hsame hrun)
        | returned rv =>
          simp only [Bool.not_true, Bool.false_eq_true, if_false] at hrun
          split at hrun
          · exact .inl (hsame hrun)
          · split at hrun
            · exact .inl (hsame hrun)
            · rw [FindResult.state?_after] at hrun
              exact .inr hrun
  | jsfunctions addr opts =>
    simp only [FindCommand.run, dcmdJsfunctions] at hrun
    cases hvalid : opts.valid with
    | false =>
      rw [hvalid] at hrun
      exact .inl ⟨hvalid, hsame hrun⟩
    | true =>
      rw [hvalid] at hrun
      cases hscan : findjsobjectsRun t maps env fjs with
      | none => simp [hscan, FindResult.state?] at hrun
      | some r =>
        obtain ⟨e, lines, fjs₁⟩ := r
        refine .inr ⟨e, lines, fjs₁, hvalid, hscan, ?_⟩
        rw [hscan] at hrun
        cases e with
        -- and so for the functions
        | interrupted => exact .inl (hsame hrun)
        | returned rv =>
          simp only [Bool.not_true, Bool.false_eq_true, if_false] at hrun
          split at hrun
          · exact .inl (hsame hrun)
          · split at hrun
            · exact .inl (hsame hrun)
            · split at hrun
              · exact .inl (hsame hrun)
              · rw [FindResult.state?_after] at hrun
                exact .inr hrun

/-- The invariant holds in every state of a run. -/
theorem FindReach.scanInv (hreach : FindReach t maps (fun env fjs cmd => cmd.Meets t maps env fjs) fjs) :
    fjs.ScanInv t maps := by
  induction hreach with
  | init => exact .init
  | @step fjs fjs' env cmd _ hmeets hrun ih =>
    rcases run_cases hrun with ⟨-, rfl⟩ | ⟨e, lines, fjs₁, hvalid, hscan, hbody⟩
    · exact ih.keeps (keepsCache_prepare t fjs cmd)
    · have hinv := (scanInv_findjsobjectsRun ih hmeets hvalid hscan).1
      rcases hbody with rfl | hbody
      · exact hinv
      · exact hinv.keeps (keepsCache_body t fjs₁ cmd fjs' hbody)

end Step

/-- **The cache is that of one complete scan**, in every run in which every command meets the
condition. -/
theorem cachesOneScan (L : FindLib t.cfg) :
    CachesOneScan t maps (L := L) fun env fjs cmd => cmd.Meets t maps env fjs := by
  intro fjs fjs' env cmd lines hreach hmeets hvalid hrun hfinished
  exact (scanInv_findjsobjectsRun hreach.scanInv hmeets hvalid hrun).2 rfl hfinished

end Runs

/-! ### A function that is scanned twice -/

/-- A target with a closure at `0x1001` and no object. Its function and its script are called `f`. -/
def closureTarget : Target :=
  .ofWordsAndZeros
    { Config.sample .ilp32 with
      offScriptName := 3
      offScriptLineEnds := 7
      offSharedfunctioninfoCode := 7 }
    [(0x1000, 0x10001), (0x1014, 0x10101), (0x10008, 0xb5), (0x10104, 0x10301), (0x10120, 0x10201),
      (0x10204, 0x10301), (0x10300, 0x10401), (0x10304, 2), (0x1030c, 0x66), (0x10408, 4)]

/-- The mapping with the closure. -/
def closureMapping : Prmap := { vaddr := 0x1000, size := 0x1000 }

/-- The function of the closure. -/
def closureFunc : FindFunc :=
  { shared := 0x10101, funcname := [0x66], scriptname := [0x66], instances := [0x1001] }

/-- **A scan of that target** adds the closure to its function, whatever there is in the cache. -/
theorem closureTarget_scan {L : FindLib closureTarget.cfg} {p : ScanParams} (hp : p.addr = 0)
    (fjs : FindScan L) : ∃ scan, findjsobjectsIter closureTarget p [closureMapping] fjs = some scan ∧
      scan.cache = (fjs.cache.enterFunc closureFunc 0x1001).2 := by
  have hskips : p.skips closureTarget.cfg closureMapping = false := by
    simp [ScanParams.skips, hp, closureMapping]
  have hkind : kindItem closureTarget 0x1001 (typebyteKind closureTarget 0x1001) =
      some (.function closureFunc) := by decide +kernel
  have hvisits : scanVisits closureTarget p [closureMapping] =
      mappingVisits closureTarget p closureMapping := by simp [scanVisits]
  have hitems : enterItems closureTarget (mappingVisits closureTarget p closureMapping) fjs.cache =
      [0x1001].foldlM (fun cache addr =>
        (kindItem closureTarget addr (typebyteKind closureTarget addr)).map
          (ScanItem.enter addr cache)) fjs.cache :=
    (mappingFinds_ofWordsAndZeros rfl rfl (fun addr => isHeapobject_sample rfl rfl rfl rfl rfl)
      (by decide) hskips (by decide) (by decide) (by simp) (by decide)
      (by decide +kernel)).enterItems_eq fjs.cache
  have hcache := findjsobjectsVisits_cache closureTarget
    (mappingVisits closureTarget p closureMapping) fjs
  rw [hitems, List.foldlM_cons, hkind, ← hvisits, ← findjsobjectsIter_eq] at hcache
  change _ = some (fjs.cache.enterFunc closureFunc 0x1001).2 at hcache
  obtain ⟨scan, hscan, heq⟩ := Option.map_eq_some_iff.mp hcache
  exact ⟨scan, hscan, heq⟩

/-- **Each command scans that target again**, and enters the closure. -/
theorem closureTarget_run {L : FindLib closureTarget.cfg} (env : ScanEnv) (fjs : FindState L)
    (houtcome : env.outcome = .completed) (haddr : fjs.refs.addr = 0)
    (hempty : L.objs.isEmpty fjs.makeTrees.cache.tree = true) :
    ∃ fjs', findjsobjectsRun closureTarget [closureMapping] env (fjs.setOpts {}) =
        some (.returned 0, [], fjs') ∧ fjs'.finished = true ∧ fjs'.initialized = true ∧
      fjs'.marking = false ∧ fjs'.refs.addr = 0 ∧
      fjs'.cache = (fjs.makeTrees.cache.enterFunc closureFunc 0x1001).2 := by
  have hinit : (fjs.setOpts {}).makeTrees = fjs.makeTrees.setOpts {} := by
    unfold FindState.makeTrees FindState.setOpts
    split <;> rfl
  have haddr' : fjs.makeTrees.refs.addr = 0 ∧ fjs.makeTrees.initialized = true := by
    unfold FindState.makeTrees
    split
    · exact ⟨haddr, by assumption⟩
    · exact ⟨haddr, rfl⟩
  obtain ⟨scan, hscan, hcache⟩ := closureTarget_scan (p := (fjs.setOpts {}).makeTrees.params env)
    (by rw [hinit]; exact haddr'.1) (fjs.setOpts {}).makeTrees.toFindScan
  have hrun := findjsobjectsRun_completed closureTarget [closureMapping]
    (by rw [hinit]; exact hempty) houtcome hscan
  rw [hinit] at hrun hcache
  refine ⟨_, hrun, rfl, haddr'.2, rfl, haddr'.1, ?_⟩
  -- without objects there is nothing to sort
  have hsort : scan.cache.sort = scan.cache := by
    unfold FindCache.sort
    rw [if_pos (by rw [hcache, FindCache.enterFunc_tree]; exact hempty)]
  exact hsort.trans hcache

/-- Two commands whose scans come to their end enter the closure twice. -/
theorem not_cachesOneScan :
    ¬ CachesOneScan closureTarget [closureMapping] (L := .lists closureTarget.cfg)
      fun _ _ _ => True := by
  intro h
  let env : ScanEnv := { outcome := .completed, outside := fun _ _ => 0, elapsed := 0 }
  -- the first command
  obtain ⟨fjs₁, hrun₁, hfinished₁, hinit₁, hmarking₁, haddr₁, hcache₁⟩ :=
    closureTarget_run env (.init (.lists closureTarget.cfg)) rfl rfl rfl
  have hbody : findjsobjectsBody closureTarget none {} fjs₁ =
      .returned .ok (.header :: fjs₁.listed.map .object) fjs₁ := by
    simp [findjsobjectsBody, hmarking₁]
  have hstate : ((FindCommand.findjsobjects none {}).run closureTarget [closureMapping] env
      (.init _)).state? = some fjs₁ := by
    unfold FindCommand.run
    dsimp only
    rw [dcmdFindjsobjects_of_run rfl hrun₁ hfinished₁, hbody]
    rfl
  -- the second command
  have hmakeTrees : fjs₁.makeTrees = fjs₁ := by
    unfold FindState.makeTrees
    rw [if_pos hinit₁]
  have hempty : (FindLib.lists closureTarget.cfg).objs.isEmpty fjs₁.makeTrees.cache.tree = true := by
    rw [hmakeTrees, hcache₁]
    rfl
  obtain ⟨fjs₂, hrun₂, hfinished₂, -, -, -, hcache₂⟩ :=
    closureTarget_run env fjs₁ rfl haddr₁ hempty
  obtain ⟨⟨p, scan, hp, hscan, hentries⟩, -⟩ :=
    h fjs₁ fjs₂ env (.findjsobjects none {}) [] (.step .init trivial hstate) trivial rfl hrun₂
      hfinished₂
  -- two closures are not one
  obtain ⟨scan', hscan', hcache'⟩ := closureTarget_scan hp { cache := .empty, stats := {} }
  obtain rfl : scan' = scan := Option.some.inj (hscan'.symm.trans hscan)
  rw [hcache₂, hmakeTrees, hcache₁, hcache'] at hentries
  have hcounts := congrArg (fun cache => cache.funcNodes.map FindFunc.ninstances) hentries
  revert hcounts
  decide

end MdbV8
