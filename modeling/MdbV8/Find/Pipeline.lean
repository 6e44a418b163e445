import MdbV8.Find.Groups

/-!
# Queries

The cache is there to be asked. `::findjsobjects -p` and `-c` print the representatives of the groups with a
property or a constructor, `-l` those of all groups; at an address, `-p` and `-c` print the representative
again if the group of the address has the property or the constructor, and `-l` prints all the instances of
the group. The options do not go together in one command: the instances with a property and a constructor
are those that a pipeline of several commands prints, the last one with `-l`.

`pipeline_selects` says that this is so from every state that commands lead to. What is printed are, each of
them once, the instances that the scan has accepted and whose own signatures have what is asked for; they are
not malformed, unless the first command has `-a`. Here the scan, the order of the groups, the searches for a
group by its representative and by its instances, and the state that each command leaves behind come together.

An address is looked for in all the groups, so that it takes mappings that do not overlap. `-k` is not among
these queries: the flags it asks for are not in the signature, and a group has those of its first instance.
-/

namespace MdbV8

/-! ### Queries and pipelines -/

/-- What `-p` and `-c` ask about a group. -/
inductive FindFilter where
  | ofProp (name : List UInt8)
  | ofConstructor (name : List UInt8)
  deriving DecidableEq, Repr

namespace FindFilter

/-- The group has the property or the constructor. -/
def selects : FindFilter → FindSignature → Bool
  | ofProp name, sig => sig.props.contains name
  | ofConstructor name, sig => name == sig.constructor

/-- The options ask this, and nothing else. -/
def AskedBy (opts : FindOpts) : FindFilter → Prop
  | ofProp name => opts.propname = some name ∧ opts.constructor = none ∧ opts.propkind = none
  | ofConstructor name => opts.propname = none ∧ opts.constructor = some name ∧ opts.propkind = none

end FindFilter

/-- The options ask for all the groups, or for those that a filter selects. -/
structure FindOpts.Asks (opts : FindOpts) (filter : Option FindFilter) : Prop where
  valid : opts.valid = true
  verbose : opts.verbose = false
  listlike : opts.listlike = filter.isNone
  /-- Without a filter, nothing is to be found by a name. -/
  names : match filter with
    | some filter => filter.AskedBy opts
    | none => opts.propname = none ∧ opts.constructor = none ∧ opts.propkind = none

/-- The options list the instances like an object: with `-l`, or without anything else. -/
structure FindOpts.Lists (opts : FindOpts) : Prop where
  valid : opts.valid = true
  plain : opts.propname = none ∧ opts.constructor = none ∧ opts.propkind = none
  references : opts.references = false
  marking : opts.marking = false

/-- The address on a line, which is what the next command of a pipeline reads. -/
def FindLine.read? : FindLine → Option ℕ
  | .address addr => some addr
  | _ => none

section Pipeline

variable (t : Target) (maps : List Prmap) {L : FindLib t.cfg}

/-- A command at each of some addresses, one after the other, and the addresses that it prints. -/
def eachAddr (env : ScanEnv) (opts : FindOpts) : List ℕ → FindState L → Option (List ℕ × FindState L)
  | [], fjs => some ([], fjs)
  | addr :: addrs, fjs =>
    match dcmdFindjsobjects t maps env (some addr) opts fjs with
    | .returned .ok lines fjs =>
      (lines.mapM FindLine.read?).bind fun printed =>
        (eachAddr env opts addrs fjs).map fun rest => (printed ++ rest.1, rest.2)
    | _ => none

/-- Commands that each read what the one before has printed. -/
def stages (env : ScanEnv) : List FindOpts → List ℕ → FindState L → Option (List ℕ × FindState L)
  | [], addrs, fjs => some (addrs, fjs)
  | opts :: rest, addrs, fjs =>
    (eachAddr t maps env opts addrs fjs).bind fun printed => stages env rest printed.1 printed.2

/-- A pipeline of commands, the first one without an address. -/
def pipeline (env env' : ScanEnv) (first : FindOpts) (rest : List FindOpts) (fjs : FindState L) :
    Option (List ℕ × FindState L) :=
  match dcmdFindjsobjects t maps env none first fjs with
  | .returned .ok lines fjs =>
    (lines.mapM FindLine.read?).bind fun addrs => stages t maps env' rest addrs fjs
  | _ => none

/-- The cache is that of a complete scan, from an empty cache. -/
def FindState.HoldsScan (p : ScanParams) (fjs : FindState L) : Prop :=
  p.addr = 0 ∧ ∃ scan, findjsobjectsIter t p maps { cache := .empty, stats := {} } = some scan ∧
    fjs.cache.entries = scan.cache.sort.entries

end Pipeline

/-- **What a pipeline is to print**: the instances that are accepted and whose signatures are selected. -/
def selectedInstances (t : Target) (p : ScanParams) (maps : List Prmap) (allobjs : Bool)
    (filters : List FindFilter) : List ℕ :=
  ((acceptedInstances t p maps).filter fun e =>
    !(e.2.malformed && !allobjs) && filters.all (·.selects e.2)).map Prod.fst

/-! ### The search for a group -/

section Groups

/-- **Groups apart**: each of them has an instance, and no instance is in two of them or in one twice. -/
structure GroupsApart (groups : List FindObj) : Prop where
  inhabited : ∀ obj ∈ groups, obj.instances ≠ []
  nodup : (groups.flatMap FindObj.instances).Nodup

/-- What has a property that only one member of a list has. -/
theorem find?_eq_some_of_unique {α : Type} {l : List α} {p : α → Bool} {x : α} (hx : x ∈ l)
    (hp : p x = true) (hunique : ∀ y ∈ l, p y = true → y = x) : l.find? p = some x := by
  have hsome : (l.find? p).isSome = true := List.find?_isSome.mpr ⟨x, hx, hp⟩
  obtain ⟨y, hy⟩ := Option.isSome_iff_exists.mp hsome
  rw [hy, hunique y (List.mem_of_find?_eq_some hy) (List.find?_some hy)]

theorem FindObj.representative_mem {obj : FindObj} (h : obj.instances ≠ []) :
    obj.representative ∈ obj.instances := by
  obtain ⟨addr, rest, hinst⟩ := List.exists_cons_of_ne_nil h
  unfold FindObj.representative
  rw [hinst]
  exact List.mem_cons_self

namespace GroupsApart

variable {groups : List FindObj} {obj obj' : FindObj} {addr : ℕ}

/-- An instance is in one group. -/
theorem unique (h : GroupsApart groups) (hobj : obj ∈ groups) (hobj' : obj' ∈ groups)
    (haddr : addr ∈ obj.instances) (haddr' : addr ∈ obj'.instances) : obj' = obj := by
  obtain ⟨-, hdisjoint⟩ := List.nodup_flatMap.mp h.nodup
  by_contra hne
  have hsymm : Std.Symm (Function.onFun List.Disjoint FindObj.instances) :=
    ⟨fun _ _ hd => List.Disjoint.symm hd⟩
  exact hdisjoint.forall hobj hobj' (Ne.symm hne) haddr haddr'

/-- The search for an instance. -/
theorem find_instance (h : GroupsApart groups) (hobj : obj ∈ groups) (haddr : addr ∈ obj.instances) :
    groups.find? (fun obj => obj.instances.contains addr) = some obj := by
  refine find?_eq_some_of_unique hobj (List.contains_iff_mem.mpr haddr) fun obj' hobj' hmem => ?_
  exact h.unique hobj hobj' haddr (List.contains_iff_mem.mp hmem)

/-- The search for a representative. -/
theorem find_representative (h : GroupsApart groups) (hobj : obj ∈ groups) :
    groups.find? (fun obj' => obj'.representative == obj.representative) = some obj := by
  refine find?_eq_some_of_unique hobj (beq_self_eq_true _) fun obj' hobj' heq => ?_
  have hmem := FindObj.representative_mem (h.inhabited obj hobj)
  have hmem' := FindObj.representative_mem (h.inhabited obj' hobj')
  rw [beq_iff_eq.mp heq] at hmem'
  exact h.unique hobj hobj' hmem hmem'

end GroupsApart

end Groups

/-! ### One command -/

section Commands

variable {t : Target} {maps : List Prmap} {L : FindLib t.cfg} {cache : FindCache L}
  {fjs fjs' : FindState L} {opts : FindOpts} {env : ScanEnv}

/-- **What holds between the commands of a pipeline**: the cache of a finished scan is the same. -/
structure FindState.Serves (t : Target) (maps : List Prmap) {L : FindLib t.cfg} (cache : FindCache L)
    (fjs : FindState L) : Prop where
  inv : fjs.ScanInv t maps
  finished : fjs.finished = true
  entries : fjs.cache.entries = cache.entries

namespace FindState.Serves

theorem groups_eq (h : fjs.Serves t maps cache) : fjs.cache.groups = cache.groups :=
  groups_of_entries h.entries

/-- Nothing is done to the cache. -/
theorem keeps (h : fjs.Serves t maps cache) (hkeeps : fjs.KeepsCache t fjs') :
    fjs'.Serves t maps cache where
  inv := h.inv.keeps hkeeps
  finished := hkeeps.finished.trans h.finished
  entries := hkeeps.entries.trans h.entries

/-- With a group there is an object in the cache. -/
theorem isEmpty (h : fjs.Serves t maps cache) (hgroups : cache.groups ≠ []) :
    L.objs.isEmpty fjs.cache.tree = false := by
  by_contra hempty
  obtain ⟨-, -, hobjects⟩ := h.inv.plain.objects (by simpa using hempty)
  have hnil : fjs.cache.groups = [] := by
    unfold FindCache.groups
    rw [hobjects]
    rfl
  exact hgroups (h.groups_eq.symm.trans hnil)

/-- **The next command** does not scan. -/
theorem command (h : fjs.Serves t maps cache) (hgroups : cache.groups ≠ []) (hvalid : opts.valid = true)
    (env : ScanEnv) (addr : Option ℕ) :
    ∃ fjs' : FindState L, fjs'.Serves t maps cache ∧ fjs'.allobjs = opts.allobjs ∧
      fjs'.marking = opts.marking ∧
      dcmdFindjsobjects t maps env addr opts fjs = (findjsobjectsBody t addr opts fjs').after [] := by
  have hset : (fjs.setOpts opts).Serves t maps cache :=
    h.keeps (keepsCache_prepare t fjs (.findjsobjects addr opts))
  have hmade : (fjs.setOpts opts).makeTrees.Serves t maps cache := by
    refine ⟨hset.inv.keeps_makeTrees, (makeTrees_finished t _).trans hset.finished, ?_⟩
    rw [hset.inv.makeTrees_cache]
    exact hset.entries
  have hflags : (fjs.setOpts opts).makeTrees.allobjs = opts.allobjs ∧
      (fjs.setOpts opts).makeTrees.marking = opts.marking := by
    unfold FindState.makeTrees
    split <;> exact ⟨rfl, rfl⟩
  refine ⟨(fjs.setOpts opts).makeTrees, hmade, hflags.1, hflags.2, ?_⟩
  exact dcmdFindjsobjects_of_run hvalid (findjsobjectsRun_cached t maps (hmade.isEmpty hgroups))
    hmade.finished

end FindState.Serves

/-- The body of a command with a filter. -/
theorem findjsobjectsBody_filter {filter : FindFilter} (hasked : filter.AskedBy opts)
    (hlistlike : opts.listlike = false) (addr : Option ℕ) (fjs : FindState L) :
    findjsobjectsBody t addr opts fjs =
      findjsobjectsMatch fjs addr fun obj => filter.selects obj.toFindSignature := by
  unfold findjsobjectsBody
  cases filter with
  | ofProp name =>
    obtain ⟨hprop, hcons, hkind⟩ := hasked
    rw [hlistlike, hprop, hcons, hkind]
    rfl
  | ofConstructor name =>
    obtain ⟨hprop, hcons, hkind⟩ := hasked
    rw [hlistlike, hprop, hcons, hkind]
    rfl

/-- The body of the first command. -/
theorem findjsobjectsBody_first {filter : Option FindFilter} (hasks : opts.Asks filter)
    (fjs : FindState L) :
    findjsobjectsBody t none opts fjs =
      .returned .ok ((fjs.listed.filter fun obj => filter.all (·.selects obj.toFindSignature)).map
        fun obj => .address obj.representative) fjs := by
  have hlistlike := hasks.listlike
  have hnames := hasks.names
  cases filter with
  | none =>
    obtain ⟨hprop, hcons, hkind⟩ := hnames
    unfold findjsobjectsBody
    rw [hlistlike, hprop, hcons, hkind]
    rfl
  | some filter =>
    rw [findjsobjectsBody_filter hnames hlistlike]
    rfl

/-- **A filter at a representative** prints it again, if its group is selected. -/
theorem findjsobjectsBody_representative (hserves : fjs.Serves t maps cache)
    (hapart : GroupsApart cache.groups)
    {filter : FindFilter} (hasks : opts.Asks (some filter)) {obj : FindObj} (hobj : obj ∈ cache.groups) :
    findjsobjectsBody t (some obj.representative) opts fjs =
      .returned .ok (if filter.selects obj.toFindSignature then [.address obj.representative] else [])
        fjs := by
  have hfind := hapart.find_representative hobj
  rw [← hserves.groups_eq] at hfind
  rw [findjsobjectsBody_filter hasks.names hasks.listlike]
  unfold findjsobjectsMatch
  dsimp only
  rw [hfind]
  rfl

/-- **The instances of a group**, at one of them. -/
theorem findjsobjectsBody_instances (hserves : fjs.Serves t maps cache) (hapart : GroupsApart cache.groups)
    (hlists : opts.Lists) (hmarking : fjs.marking = false) {obj : FindObj} {addr : ℕ}
    (hobj : obj ∈ cache.groups) (haddr : addr ∈ obj.instances) :
    findjsobjectsBody t (some addr) opts fjs = .returned .ok (obj.instances.map .address) fjs := by
  obtain ⟨hprop, hcons, hkind⟩ := hlists.plain
  have hfind : findjsobjectsInstance fjs addr = some obj := by
    unfold findjsobjectsInstance
    rw [hserves.groups_eq]
    exact hapart.find_instance hobj haddr
  unfold findjsobjectsBody
  rw [hprop, hcons, hkind, hlists.references, hmarking]
  simp only [Option.isNone_some, Bool.and_false, Bool.false_eq_true, if_false]
  unfold findjsobjectsAddr
  rw [hfind, hlists.references, hmarking]
  rfl

/-! ### A stage after the other -/

/-- The lines with addresses are read. -/
theorem mapM_read_address (addrs : List ℕ) :
    (addrs.map FindLine.address).mapM FindLine.read? = some addrs := by
  induction addrs with
  | nil => rfl
  | cons addr addrs ih =>
    rw [List.map_cons, List.mapM_cons, ih]
    rfl

/-- **A stage**, when it is known what the command prints at the representative of a group: by induction on
the groups whose representatives it reads. -/
theorem eachAddr_eq {f : FindObj → List ℕ}
    (hone : ∀ obj ∈ cache.groups, ∀ fjs : FindState L, fjs.Serves t maps cache →
      ∃ fjs' : FindState L, fjs'.Serves t maps cache ∧
        dcmdFindjsobjects t maps env (some obj.representative) opts fjs =
          .returned .ok ((f obj).map .address) fjs')
    {objs : List FindObj} (hsub : objs ⊆ cache.groups) {fjs : FindState L}
    (hserves : fjs.Serves t maps cache) :
    ∃ fjs' : FindState L, fjs'.Serves t maps cache ∧
      eachAddr t maps env opts (objs.map FindObj.representative) fjs = some (objs.flatMap f, fjs') := by
  induction objs generalizing fjs with
  | nil => exact ⟨fjs, hserves, rfl⟩
  | cons obj objs ih =>
    obtain ⟨hobj, hrest⟩ := List.cons_subset.mp hsub
    obtain ⟨fjs₁, hserves₁, hcmd⟩ := hone obj hobj fjs hserves
    obtain ⟨fjs', hserves', heach⟩ := ih hrest hserves₁
    refine ⟨fjs', hserves', ?_⟩
    rw [List.map_cons, eachAddr, hcmd]
    dsimp only
    rw [mapM_read_address, Option.bind_some, heach]
    rfl

/-- What the members of a list that are selected print. -/
theorem flatMap_selected (objs : List FindObj) (p : FindObj → Bool) :
    (objs.flatMap fun obj => if p obj then [obj.representative] else []) =
      (objs.filter p).map FindObj.representative := by
  induction objs with
  | nil => rfl
  | cons obj objs ih =>
    rw [List.flatMap_cons, ih, List.filter_cons]
    split <;> rfl

/-- A stage with a filter leaves the representatives of the groups that it selects. -/
theorem eachAddr_filter (hapart : GroupsApart cache.groups) {filter : FindFilter}
    (hasks : opts.Asks (some filter)) {objs : List FindObj} (hsub : objs ⊆ cache.groups)
    (hserves : fjs.Serves t maps cache) :
    ∃ fjs' : FindState L, fjs'.Serves t maps cache ∧
      eachAddr t maps env opts (objs.map FindObj.representative) fjs =
        some ((objs.filter fun obj => filter.selects obj.toFindSignature).map FindObj.representative,
          fjs') := by
  rw [← flatMap_selected]
  refine eachAddr_eq (fun obj hobj fjs hserves => ?_) hsub hserves
  obtain ⟨fjs', hserves', -, -, hcmd⟩ :=
    hserves.command (List.ne_nil_of_mem hobj) hasks.valid env (some obj.representative)
  refine ⟨fjs', hserves', ?_⟩
  rw [hcmd, findjsobjectsBody_representative hserves' hapart hasks hobj]
  cases filter.selects obj.toFindSignature <;> rfl

/-- The last stage lists the instances of the groups. -/
theorem eachAddr_instances (hapart : GroupsApart cache.groups) (hlists : opts.Lists)
    {objs : List FindObj} (hsub : objs ⊆ cache.groups) (hserves : fjs.Serves t maps cache) :
    ∃ fjs' : FindState L, fjs'.Serves t maps cache ∧
      eachAddr t maps env opts (objs.map FindObj.representative) fjs =
        some (objs.flatMap FindObj.instances, fjs') := by
  refine eachAddr_eq (fun obj hobj fjs hserves => ?_) hsub hserves
  obtain ⟨fjs', hserves', -, hmarking, hcmd⟩ :=
    hserves.command (List.ne_nil_of_mem hobj) hlists.valid env (some obj.representative)
  have hmem := FindObj.representative_mem (hapart.inhabited obj hobj)
  refine ⟨fjs', hserves', ?_⟩
  rw [hcmd, findjsobjectsBody_instances hserves' hapart hlists (hmarking.trans hlists.marking) hobj hmem]
  rfl

/-- **All the stages**, by induction on the filters: what is left at the end are the instances of the groups
that all of them select. -/
theorem stages_eq (hapart : GroupsApart cache.groups) {rest : List FindOpts} {filters : List FindFilter}
    (hrest : List.Forall₂ (fun opts filter => FindOpts.Asks opts (some filter)) rest filters)
    {last : FindOpts} (hlast : last.Lists) {objs : List FindObj} (hsub : objs ⊆ cache.groups)
    (hserves : fjs.Serves t maps cache) :
    ∃ fjs' : FindState L, fjs'.Serves t maps cache ∧
      stages t maps env (rest ++ [last]) (objs.map FindObj.representative) fjs =
        some ((objs.filter fun obj => filters.all (·.selects obj.toFindSignature)).flatMap
          FindObj.instances, fjs') := by
  induction hrest generalizing objs fjs with
  | nil =>
    obtain ⟨fjs', hserves', heach⟩ := eachAddr_instances hapart hlast hsub hserves
    refine ⟨fjs', hserves', ?_⟩
    rw [List.nil_append, stages, heach, Option.bind_some, stages]
    simp
  | @cons opts filter rest filters hasks _ ih =>
    obtain ⟨fjs₁, hserves₁, heach⟩ := eachAddr_filter hapart hasks hsub hserves
    obtain ⟨fjs', hserves', hstages⟩ := 
      ih (fun obj hobj => hsub (List.mem_of_mem_filter hobj)) hserves₁
    refine ⟨fjs', hserves', ?_⟩
    rw [List.cons_append, stages, heach, Option.bind_some]
    dsimp only
    rw [hstages, List.filter_filter]
    simp only [List.all_cons, Bool.and_comm]

/-! ### The groups and the scan -/

/-- The instances that are known of the groups with some signatures. -/
theorem filter_knownOf (groups : List FindObj) (p : FindSignature → Bool) :
    ((knownOf groups).filter fun e => p e.2).map Prod.fst =
      (groups.filter fun obj => p obj.toFindSignature).flatMap FindObj.instances := by
  induction groups with
  | nil => rfl
  | cons obj groups ih =>
    have hcons : knownOf (obj :: groups) = obj.known ++ knownOf groups := List.flatMap_cons
    have hknown : (obj.known.filter fun e => p e.2).map Prod.fst =
        if p obj.toFindSignature then obj.instances else [] := by
      unfold FindObj.known
      rw [List.filter_map, List.map_map]
      cases hp : p obj.toFindSignature with
      | true => simp [Function.comp_def, hp]
      | false => simp [Function.comp_def, hp]
    rw [hcons, List.filter_append, List.map_append, ih, hknown, List.filter_cons]
    split <;> rfl

/-- **The groups of a complete scan** are apart, and they have what it has accepted. -/
theorem FindState.HoldsScan.groups (hapart : maps.Pairwise Prmap.Apart) {p : ScanParams}
    (h : fjs.HoldsScan t maps p) :
    GroupsApart fjs.cache.groups ∧ (knownOf fjs.cache.groups).Perm (acceptedInstances t p maps) := by
  obtain ⟨-, scan, hscan, hentries⟩ := h
  have hknown := scanKnown_of_scan t hscan
  have hsame : fjs.cache.groups = scan.cache.sort.groups := groups_of_entries hentries
  have hperm : (knownOf fjs.cache.groups).Perm (acceptedInstances t p maps) := by
    rw [hsame]
    exact hknown.groups
  -- every group has an instance, and no instance has two groups
  refine ⟨⟨fun obj hobj => ?_, ?_⟩, hperm⟩
  · have hitems : enterItems t (scanVisits t p maps) .empty = some scan.cache := by
      have hvisits := findjsobjectsVisits_cache t (scanVisits t p maps)
        ({ cache := .empty, stats := {} } : FindScan L)
      rw [← findjsobjectsIter_eq, hscan] at hvisits
      exact hvisits.symm
    obtain ⟨links, -, hlinked⟩ := groupsLinked_visits .empty .empty hitems
    have hlinked' := hlinked.sort ((List.nil_append _).symm ▸ scanKnown_enterItems t .empty hitems)
    rw [hsame] at hobj
    obtain ⟨i, hi, rfl⟩ := List.mem_map.mp hobj
    have hlt : i < scan.cache.sort.nodes.length := List.mem_range.mp (hknown.objects.mem_iff.mp hi)
    rw [FindCache.node_eq hlt]
    exact hlinked'.inhabited _ (List.getElem_mem hlt)
  · have hall := filter_knownOf fjs.cache.groups fun _ => true
    rw [List.filter_true, List.filter_true] at hall
    rw [← hall]
    exact (hperm.map Prod.fst).nodup_iff.mpr (acceptedOnce_of_apart hapart)

/-- What the scan has to do with the flags: it leaves `-a` alone, and prints nothing without `-v`. -/
theorem flags_findjsobjectsRun {e : RunEnd} {lines : List FindLine}
    (h : findjsobjectsRun t maps env fjs = some (e, lines, fjs')) :
    fjs'.allobjs = fjs.allobjs ∧ (fjs.verbose = false → lines = []) := by
  have hmade : fjs.makeTrees.allobjs = fjs.allobjs ∧ fjs.makeTrees.verbose = fjs.verbose := by
    unfold FindState.makeTrees
    split <;> exact ⟨rfl, rfl⟩
  rw [← hmade.1, ← hmade.2]
  unfold findjsobjectsRun at h
  dsimp only at h
  generalize fjs.makeTrees = fjs at h
  split at h
  · unfold findjsobjectsScan at h
    dsimp only at h
    -- the four ways in which a scan can end
    split at h
    · obtain ⟨-, rfl, rfl⟩ := by simpa using h
      exact ⟨rfl, fun _ => rfl⟩
    · obtain ⟨scan, -, heq⟩ := Option.map_eq_some_iff.mp h
      obtain ⟨-, rfl, rfl⟩ := by simpa using heq
      exact ⟨rfl, fun _ => rfl⟩
    · obtain ⟨scan, -, heq⟩ := Option.map_eq_some_iff.mp h
      obtain ⟨-, heq⟩ := Prod.mk.inj heq
      obtain ⟨rfl, rfl⟩ := Prod.mk.inj heq
      exact ⟨rfl, fun hverbose => if_neg (by simp [hverbose])⟩
    · obtain ⟨scan, -, heq⟩ := Option.map_eq_some_iff.mp h
      obtain ⟨-, rfl, rfl⟩ := by simpa using heq
      exact ⟨rfl, fun _ => rfl⟩
  · obtain ⟨-, rfl, rfl⟩ := by simpa using h
    exact ⟨rfl, fun _ => rfl⟩

/-- **A pipeline selects** exactly the instances that the scan has accepted with signatures that all its
filters select, each of them once, and it does nothing to the cache. -/
theorem pipeline_selects (hapart : maps.Pairwise Prmap.Apart)
    (hreach : FindReach t maps (fun env fjs cmd => cmd.Meets t maps env fjs) fjs)
    {first last : FindOpts} {rest : List FindOpts} {filter : Option FindFilter}
    {filters : List FindFilter} {lines : List FindLine}
    (hmeets : (FindCommand.findjsobjects none first).Meets t maps env fjs)
    (hrun : findjsobjectsRun t maps env (fjs.setOpts first) = some (.returned 0, lines, fjs'))
    (hfinished : fjs'.finished = true) (hfirst : first.Asks filter)
    (hrest : List.Forall₂ (fun opts filter => FindOpts.Asks opts (some filter)) rest filters)
    (hlast : last.Lists) (env' : ScanEnv) :
    ∃ p addrs, ∃ fjs'' : FindState L, fjs'.HoldsScan t maps p ∧
      pipeline t maps env env' first (rest ++ [last]) fjs = some (addrs, fjs'') ∧
      addrs.Perm (selectedInstances t p maps first.allobjs (filter.toList ++ filters)) ∧ addrs.Nodup ∧
      fjs''.cache.entries = fjs'.cache.entries := by
  obtain ⟨hinv, hone⟩ := scanInv_findjsobjectsRun hreach.scanInv hmeets hfirst.valid hrun
  obtain ⟨⟨p, scan, haddr, hscan, hentries⟩, -⟩ := hone rfl hfinished
  obtain ⟨hallobjs, hlines⟩ := flags_findjsobjectsRun hrun
  obtain rfl := hlines hfirst.verbose
  have hholds : fjs'.HoldsScan t maps p := ⟨haddr, scan, hscan, hentries⟩
  obtain ⟨hgroups, hknown⟩ := hholds.groups hapart
  have hserves : fjs'.Serves t maps fjs'.cache := ⟨hinv, hfinished, rfl⟩
  -- the groups that the first command prints
  let objs := fjs'.listed.filter fun obj => filter.all (·.selects obj.toFindSignature)
  have hsub : objs ⊆ fjs'.cache.groups := fun obj hobj =>
    List.mem_of_mem_filter (List.mem_of_mem_filter hobj)
  obtain ⟨fjs'', hserves'', hstages⟩ : ∃ fjs'' : FindState L, fjs''.Serves t maps fjs'.cache ∧
      stages t maps env' (rest ++ [last]) (objs.map FindObj.representative) fjs' = some (_, fjs'') :=
    stages_eq hgroups hrest hlast hsub hserves
  have hpipeline : pipeline t maps env env' first (rest ++ [last]) fjs =
      stages t maps env' (rest ++ [last]) (objs.map FindObj.representative) fjs' := by
    unfold pipeline
    rw [dcmdFindjsobjects_of_run hfirst.valid hrun hfinished, findjsobjectsBody_first hfirst]
    have hread := mapM_read_address (objs.map FindObj.representative)
    rw [List.map_map] at hread
    dsimp only [FindResult.after]
    rw [List.nil_append]
    exact (congrArg (Option.bind · _) hread).trans (Option.bind_some ..)
  -- their instances are those that the filters select
  have hselected : ((objs.filter fun obj => filters.all (·.selects obj.toFindSignature)).flatMap
      FindObj.instances).Perm
      (selectedInstances t p maps first.allobjs (filter.toList ++ filters)) := by
    have hsame : (objs.filter fun obj => filters.all (·.selects obj.toFindSignature)) =
        fjs'.cache.groups.filter fun obj => !(obj.malformed && !first.allobjs) &&
          (filter.toList ++ filters).all (·.selects obj.toFindSignature) := by
      have hflag : fjs'.allobjs = first.allobjs := hallobjs
      simp only [objs, FindState.listed, List.filter_filter, hflag]
      refine List.filter_congr fun obj _ => ?_
      cases filter with
      | none => simp [Bool.and_comm]
      | some filter => simp [Bool.and_comm, Bool.and_assoc]
    rw [hsame, ← filter_knownOf fjs'.cache.groups fun sig => !(sig.malformed && !first.allobjs) &&
      (filter.toList ++ filters).all (·.selects sig)]
    exact (hknown.filter _).map _
  have hnodup : (selectedInstances t p maps first.allobjs (filter.toList ++ filters)).Nodup :=
    (List.filter_sublist.map Prod.fst).nodup (acceptedOnce_of_apart hapart)
  exact ⟨p, _, fjs'', hholds, hpipeline.trans hstages, hselected, hselected.nodup_iff.mpr hnodup,
    hserves''.entries⟩

end Commands

/-- The instances that a scan of the two arrays accepts, by their constructor. -/
theorem selectedInstances_arrays {p : ScanParams} {fjs : FindState (.lists arraysTarget.cfg)}
    (h : fjs.HoldsScan arraysTarget [arraysMapping] p) :
    (selectedInstances arraysTarget p [arraysMapping] false [.ofConstructor (bytesOf "Array")]).Perm
      [0x2001, 0x2011] := by
  obtain ⟨hp, scan, hscan, hentries⟩ := id h
  obtain ⟨-, hknown⟩ := h.groups (List.pairwise_singleton _ _)
  obtain ⟨scan', hscan', hcache⟩ := arraysTarget_scan hp { cache := .empty, stats := {} } rfl
  obtain rfl := Option.some.inj (hscan.symm.trans hscan')
  rw [groups_of_entries hentries, hcache, arraysCache_groups] at hknown
  exact ((hknown.filter _).map Prod.fst).symm

/-- All groups, then those of the arrays, then their instances. -/
theorem pipeline_selects_arrays :
    ∃ addrs fjs, pipeline arraysTarget [arraysMapping] completedEnv completedEnv { listlike := true }
        [{ constructor := some (bytesOf "Array") }, { listlike := true }] arraysStart =
          some (addrs, fjs) ∧
      addrs.Perm [0x2001, 0x2011] := by
  obtain ⟨fjs', hrun, -⟩ := findjsobjectsRun_arrays [arraysMapping] fun pmp hpmp =>
    List.mem_singleton.mp hpmp
  have hmeets : (FindCommand.findjsobjects none { listlike := true }).Meets arraysTarget
      [arraysMapping] completedEnv arraysStart := ⟨fun _ _ _ => rfl, nofun⟩
  have hfinished : fjs'.finished = true := by
    rcases findjsobjectsRun_cases arraysTarget [arraysMapping] hrun with ⟨-, hleaves⟩ | ⟨hnonempty, -⟩
    · obtain ⟨scan, -, hends⟩ := hleaves.ends
      exact hends.2.2
    · exact absurd hnonempty (by decide)
  have hfirst : FindOpts.Asks { listlike := true } none := ⟨rfl, rfl, rfl, rfl, rfl, rfl⟩
  have hfilter : FindOpts.Asks { constructor := some (bytesOf "Array") }
      (some (.ofConstructor (bytesOf "Array"))) := ⟨rfl, rfl, rfl, rfl, rfl, rfl⟩
  have hlast : FindOpts.Lists { listlike := true } := ⟨rfl, ⟨rfl, rfl, rfl⟩, rfl, rfl⟩
  obtain ⟨p, addrs, fjs'', hholds, hpipeline, hperm, -, -⟩ := pipeline_selects
    (List.pairwise_singleton _ _) .init hmeets hrun hfinished hfirst (.cons hfilter .nil) hlast completedEnv
  exact ⟨addrs, fjs'', hpipeline, hperm.trans (selectedInstances_arrays hholds)⟩

end MdbV8
