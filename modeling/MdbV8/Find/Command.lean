import MdbV8.Find.References

/-!
# The command `::findjsobjects`

Without an address the command prints a table of the groups, or the representatives of the groups of
some kind. With an address it prints the instances of a group, or marks some of them, or looks for
references to them. Whether it marks is a flag of the state, which every command sets anew.
-/

namespace MdbV8

/-- The options of `::findjsobjects`. -/
structure FindOpts where
  allobjs : Bool := false
  brk : Bool := false
  constructor : Option (List UInt8) := none
  propkind : Option (List UInt8) := none
  listlike : Bool := false
  marking : Bool := false
  propname : Option (List UInt8) := none
  references : Bool := false
  verbose : Bool := false
  /-- All the arguments are options. -/
  valid : Bool := true
  deriving DecidableEq, Repr

/-- How a command ends. -/
inductive FindResult {c : Config} (L : FindLib c) where
  | returned (status : DcmdStatus) (lines : List FindLine) (fjs : FindState L)
  | interrupted (fjs : FindState L)
  | fault (fault : FindFault)
  | hangs

/-- `strstr`. -/
def strstr (s needle : List UInt8) : Bool := s.tails.any needle.isPrefixOf

namespace FindObj

/-- The first instance. -/
def representative (obj : FindObj) : ℕ := obj.instances.headD 0

/-- `findjsobjects_match_propname`. -/
def matchPropname (propname : List UInt8) (obj : FindObj) : Bool := obj.props.contains propname

/-- `findjsobjects_match_constructor`. -/
def matchConstructor (constructor : List UInt8) (obj : FindObj) : Bool :=
  constructor == obj.constructor

/-- The words for the flags in `findjsobjects_match_kind`. -/
def kindWords : List (ℕ × String) :=
  [(jpiNumeric, "numeric"), (jpiDict, "dict"), (jpiInobject, "inobject"), (jpiProps, "props"),
    (jpiHastransitions, "transitions"), (jpiHascontent, "content"), (jpiSkipped, "skipped"),
    (jpiUndefpropname, "undefpropname"), (jpiBadprops, "badprop"), (jpiBadlayout, "badlayout")]

/-- `findjsobjects_match_kind`. -/
def matchKind (propkind : List UInt8) (obj : FindObj) : Bool :=
  kindWords.any fun w => obj.propinfo &&& w.1 != 0 && strstr propkind (bytesOf w.2)

end FindObj

section Command

variable {c : Config} {L : FindLib c}

/-- The groups that are listed. -/
def FindState.listed (fjs : FindState L) : List FindObj :=
  fjs.cache.groups.filter fun obj => !(obj.malformed && !fjs.allobjs)

/-- `findjsobjects_instance`: the group of an instance. -/
def findjsobjectsInstance (fjs : FindState L) (addr : ℕ) : Option FindObj :=
  fjs.cache.groups.find? fun obj => obj.instances.contains addr

/-- `findjsobjects_match`, with a function that prints the representative or nothing. -/
def findjsobjectsMatch (fjs : FindState L) (addr : Option ℕ) (func : FindObj → Bool) :
    FindResult L :=
  match addr with
  | none => .returned .ok ((fjs.listed.filter func).map fun obj => .address obj.representative) fjs
  | some addr =>
    let found := (fjs.cache.groups.find? fun obj => obj.representative == addr).orElse fun _ =>
      findjsobjectsInstance fjs addr
    match found with
    | none => .returned .err [] fjs
    | some obj =>
      .returned .ok (if func obj then [.address obj.representative] else []) fjs

/-- The flags of the state as the options set them. -/
def FindState.setOpts (fjs : FindState L) (opts : FindOpts) : FindState L :=
  { fjs with
    verbose := opts.verbose
    brk := opts.brk
    marking := opts.marking
    allobjs := opts.allobjs }

end Command

section Command

variable (t : Target) (maps : List Prmap) {L : FindLib t.cfg}

/-- The end of `dcmd_findjsobjects` where something is marked or looked for. -/
def findjsobjectsLookup (opts : FindOpts) (lines : List FindLine) (fjs : FindState L) :
    FindResult L :=
  if opts.references then
    match findjsobjectsReferences t fjs with
    | .error fault => .fault fault
    | .ok (lines', fjs) => .returned .ok (lines ++ lines') fjs
  else .returned .ok lines fjs

/-- `dcmd_findjsobjects` with an address. -/
def findjsobjectsAddr (addr : ℕ) (opts : FindOpts) (fjs : FindState L) : FindResult L :=
  match findjsobjectsInstance fjs addr with
  | none => .returned .err [] fjs
  | some obj =>
    if !opts.references && !fjs.marking then .returned .ok (obj.instances.map .address) fjs
    else
      match findjsobjectsReferentAll (if opts.listlike then obj.instances else [addr]) fjs with
      | .error fault => .fault fault
      | .ok (lines, fjs) => findjsobjectsLookup t opts lines fjs

/-- `dcmd_findjsobjects` after the scan. -/
def findjsobjectsBody (addr : Option ℕ) (opts : FindOpts) (fjs : FindState L) : FindResult L :=
  if opts.listlike && addr.isNone then
    if opts.propname.isSome || opts.constructor.isSome || opts.propkind.isSome then
      .returned .err [] fjs
    else findjsobjectsMatch fjs addr fun _ => true
  else
    match opts.propname, opts.constructor, opts.propkind with
    | some propname, none, none => findjsobjectsMatch fjs addr (FindObj.matchPropname propname)
    | none, some constructor, none =>
      findjsobjectsMatch fjs addr (FindObj.matchConstructor constructor)
    | none, none, some propkind => findjsobjectsMatch fjs addr (FindObj.matchKind propkind)
    | none, none, none =>
      if opts.references && addr.isNone && L.referents.isEmpty fjs.refs.tree then
        .returned .err [] fjs
      else if fjs.marking && addr.isNone then .returned .err [] fjs
      else if opts.references && fjs.marking then .returned .err [] fjs
      else
        match addr with
        | some addr => findjsobjectsAddr t addr opts fjs
        | none =>
          if opts.references then findjsobjectsLookup t opts [] fjs
          else .returned .ok (.header :: fjs.listed.map .object) fjs
    -- more than one of them
    | _, _, _ => .returned .err [] fjs

/-- What a command prints before the rest. -/
def FindResult.after {c : Config} {L : FindLib c} (lines : List FindLine) :
    FindResult L → FindResult L
  | .returned status lines' fjs => .returned status (lines ++ lines') fjs
  | result => result

/-- `dcmd_findjsobjects`. -/
def dcmdFindjsobjects (env : ScanEnv) (addr : Option ℕ) (opts : FindOpts) (fjs : FindState L) :
    FindResult L :=
  let fjs := fjs.setOpts opts
  if !opts.valid then .returned .usage [] fjs
  else
    match findjsobjectsRun t maps env fjs with
    | none => .hangs
    | some (.interrupted, _, fjs) => .interrupted fjs
    | some (.returned rv, lines, fjs) =>
      if rv ≠ 0 then .returned .err lines fjs
      else if !fjs.finished then .returned .err lines fjs
      else (findjsobjectsBody t addr opts fjs).after lines

variable {t maps} {env : ScanEnv} {addr : Option ℕ} {opts : FindOpts} {fjs fjs' : FindState L}
  {lines : List FindLine}

/-- The command after a scan that is finished. -/
theorem dcmdFindjsobjects_of_run (hvalid : opts.valid = true)
    (hrun : findjsobjectsRun t maps env (fjs.setOpts opts) = some (.returned 0, lines, fjs'))
    (hfinished : fjs'.finished = true) :
    dcmdFindjsobjects t maps env addr opts fjs = (findjsobjectsBody t addr opts fjs').after lines := by
  unfold dcmdFindjsobjects
  dsimp only
  rw [if_neg (by simp [hvalid]), hrun]
  dsimp only
  rw [if_neg (by simp), if_neg (by simp [hfinished])]

end Command

end MdbV8
