import MdbV8.Find.Range

/-!
# The state of `::findjsobjects`, and when it scans

There is one state for all the commands that use the cache, and it lives as long as the module is
loaded. `findjsobjectsRun` is called first by each of them. It scans memory if there is no object in
the cache, and only a scan that has come to its end says that it is finished.

A scan may not come to its end: the list of the mappings may fail to be read, before or after some of
them have been scanned, and the user may interrupt the command, which leaves the state as it is at
that moment (`ScanOutcome`). Otherwise what it finds is determined by the memory of the target, and
by the bytes around the copies of the ranges.

In the same state are the objects that have been marked for a search of their references, in a tree
and in a list (`FindRefs`).
-/

namespace MdbV8

/-- `findjsobjects_reference_t`. -/
structure FindReference where
  addr : ℕ
  desc : Option (List UInt8)
  index : ℕ
  deriving DecidableEq, Repr

/-- `findjsobjects_referent_t`, with its references from `fjsr_head` to `fjsr_tail`. -/
structure FindReferent where
  addr : ℕ
  references : List FindReference := []
  deriving DecidableEq, Repr

/-- The referents. Their nodes are freed all at once, and up to then the list is also the list of the
nodes in the order in which they were made. -/
structure FindRefs {c : Config} (L : FindLib c) where
  /-- `fjs_addr`: the object whose references are looked at, if not zero. -/
  addr : ℕ
  /-- `fjs_referents`. -/
  tree : L.referents.Tree
  /-- From `fjs_head` to `fjs_tail`. -/
  list : List FindReferent

/-- `findjsobjects_state_t`. -/
structure FindState {c : Config} (L : FindLib c) extends FindScan L where
  refs : FindRefs L
  verbose : Bool := false
  brk : Bool := false
  allobjs : Bool := false
  initialized : Bool := false
  marking : Bool := false
  finished : Bool := false

/-- The state when the module is loaded. -/
def FindState.init {c : Config} (L : FindLib c) : FindState L where
  cache := .empty
  stats := {}
  refs := { addr := 0, tree := L.referents.create, list := [] }

/-- How an object refers to another. An index is printed with `%d`. -/
inductive FindHow where
  | index (i : ℤ)
  | name (desc : List UInt8)
  deriving DecidableEq, Repr

/-- What is printed on a line. -/
inductive FindLine where
  /-- `findjsobjects: %30s => %d`. -/
  | stat (name : String) (value : ℤ)
  /-- `findjsobjects: marked %p`. -/
  | marked (addr : ℕ)
  /-- `%p is not referred to by a known object.` -/
  | notReferred (addr : ℕ)
  /-- `%p referred to by %p[%d]` or `%p referred to by %p.%s`. -/
  | referred (addr holder : ℕ) (how : FindHow)
  /-- An address. -/
  | address (addr : ℕ)
  /-- The line above a table. -/
  | header
  /-- The line of `findjsobjects_print`. -/
  | object (obj : FindObj)
  /-- The line above a table of functions, perhaps with their instructions. -/
  | funcHeader (showrange : Bool)
  /-- A function. The instructions may be asked for, and then they may not be known. -/
  | function (addr : ℕ) (ninstances : ℤ) (range : Option (Option (ℕ × ℕ)))
      (funcname scriptname location : List UInt8)
  deriving DecidableEq, Repr

/-- How a scan goes. -/
inductive ScanOutcome where
  /-- There is no handle of the process. -/
  | noHandle
  /-- The iteration over the mappings fails after some of them. -/
  | failed (nmaps : ℕ)
  /-- The scan comes to its end. -/
  | completed
  /-- The command is interrupted after some addresses. -/
  | abandoned (naddrs : ℕ)
  deriving DecidableEq, Repr

/-- What a scan, if there is one, gets from outside of the module. -/
structure ScanEnv where
  outcome : ScanOutcome
  outside : Prmap → ℤ → UInt8
  /-- In seconds. -/
  elapsed : ℤ

/-- How a function of the module ends that may scan. -/
inductive RunEnd where
  | returned (rv : ℤ)
  | interrupted
  deriving DecidableEq, Repr

section Run

variable (t : Target) (maps : List Prmap) {L : FindLib t.cfg}

/-- The trees made, unless they have been made already. -/
def FindState.makeTrees {c : Config} {L : FindLib c} (fjs : FindState L) : FindState L :=
  if fjs.initialized then fjs
  else { fjs with
    cache := { fjs.cache with tree := L.objs.create, funcinfo := L.funcs.create }
    refs := { fjs.refs with tree := L.referents.create }
    initialized := true }

/-- What a scan depends on. -/
def FindState.params {c : Config} {L : FindLib c} (fjs : FindState L) (env : ScanEnv) :
    ScanParams where
  brk := fjs.brk
  addr := fjs.refs.addr
  outside := env.outside

/-- The statistics that are printed after a scan. -/
def statLines (stats : FindStats) (elapsed : ℤ) : List FindLine :=
  [.stat "elapsed time (seconds)" elapsed,
    .stat "heap objects" stats.heapobjs,
    .stat "type reads" stats.typereads,
    .stat "cached reads" stats.cached,
    .stat "JavaScript objects" stats.jsobjs,
    .stat "processed objects" stats.objects,
    .stat "possible garbage" stats.garbage,
    .stat "processed arrays" stats.arrays,
    .stat "unique objects" stats.uniques,
    .stat "functions found" stats.funcs,
    .stat "unique functions" stats.funcsUnique,
    .stat "functions skipped" stats.funcsSkipped]

/-- The state after a scan that has come to its end. -/
def FindState.finish {c : Config} {L : FindLib c} (fjs : FindState L) (scan : FindScan L) :
    FindState L :=
  { fjs with cache := scan.cache.sort, stats := scan.stats, finished := true }

/-- The scan of `findjsobjects_run`. -/
def findjsobjectsScan (env : ScanEnv) (fjs : FindState L) :
    Option (RunEnd × List FindLine × FindState L) :=
  let p := fjs.params env
  match env.outcome with
  | .noHandle => some (.returned (-1), [], fjs)
  | .failed nmaps =>
    (findjsobjectsIter t p (maps.take nmaps) fjs.toFindScan).map fun scan =>
      (.returned (-1), [], { fjs with toFindScan := scan })
  | .completed =>
    (findjsobjectsIter t p maps fjs.toFindScan).map fun scan =>
      (.returned 0, if fjs.verbose then statLines scan.stats env.elapsed else [], fjs.finish scan)
  | .abandoned naddrs =>
    (findjsobjectsVisits t ((scanVisits t p maps).take naddrs) fjs.toFindScan).map fun scan =>
      (.interrupted, [], { fjs with toFindScan := scan })

/-- `findjsobjects_run`. -/
def findjsobjectsRun (env : ScanEnv) (fjs : FindState L) :
    Option (RunEnd × List FindLine × FindState L) :=
  let fjs := fjs.makeTrees
  if L.objs.isEmpty fjs.cache.tree then findjsobjectsScan t maps env fjs
  else some (.returned 0, [], fjs)

variable {env : ScanEnv} {fjs : FindState L}

/-- A scan that comes to its end. -/
theorem findjsobjectsRun_completed (hempty : L.objs.isEmpty fjs.makeTrees.cache.tree = true)
    (houtcome : env.outcome = .completed) {scan : FindScan L}
    (hscan : findjsobjectsIter t (fjs.makeTrees.params env) maps fjs.makeTrees.toFindScan =
      some scan) :
    findjsobjectsRun t maps env fjs =
      some (.returned 0, if fjs.makeTrees.verbose then statLines scan.stats env.elapsed else [],
        fjs.makeTrees.finish scan) := by
  unfold findjsobjectsRun findjsobjectsScan
  dsimp only
  rw [if_pos hempty, houtcome]
  dsimp only
  rw [hscan, Option.map_some]

/-- With an object in the cache there is no scan. -/
theorem findjsobjectsRun_cached (hobject : L.objs.isEmpty fjs.makeTrees.cache.tree = false) :
    findjsobjectsRun t maps env fjs = some (.returned 0, [], fjs.makeTrees) := by
  unfold findjsobjectsRun
  dsimp only
  rw [if_neg (by simp [hobject])]

end Run

end MdbV8
