import MdbV8.Find.Command
import MdbV8.Functions.Location

/-!
# The command `::jsfunctions`

The command lists the functions that a scan has found, or some of them. Where a function is defined
is found out when the function is listed for the first time, and kept.
-/

namespace MdbV8

/-- The options of `::jsfunctions`. -/
structure JsfunctionsOpts where
  listlike : Bool := false
  instr : ℕ := 0
  showrange : Bool := false
  name : Option (List UInt8) := none
  filename : Option (List UInt8) := none
  /-- All the arguments are options. -/
  valid : Bool := true
  deriving DecidableEq, Repr

section Jsfunctions

variable (t : Target) (maps : List Prmap) {L : FindLib t.cfg}

/-- Where a function is defined, in the 20 bytes of `fjsf_location`. -/
def jsfunctionsLocation (func : FindFunc) : Option (List UInt8) :=
  let c := t.cfg
  if func.location ≠ [] then some func.location
  else
    match t.readHeapMaybesmi func.shared c.offSharedfunctioninfoFunctionTokenPosition,
      t.readHeapPtr func.shared c.offSharedfunctioninfoScript with
    | some tokpos, some script =>
      match t.readHeapPtr script c.offScriptLineEnds with
      | none => some []
      | some lends =>
        (jsfuncLineno t lends (c.valueSmi tokpos)).map fun (rv, text, _) =>
          if rv ≠ 0 then [] else text.take 19
    | _, _ => some []

/-- The address and the length of the instructions of a function. -/
def jsfunctionsCode (func : FindFunc) : Option (ℕ × ℕ) :=
  match t.readHeapPtr func.shared t.cfg.offSharedfunctioninfoCode with
  | none => none
  | some code =>
    (t.readHeapPtr code t.cfg.offCodeInstructionSize).map fun ilen => (code, ilen)

/-- The start and the end of the instructions. -/
def instructionRange (c : Config) (code ilen : ℕ) : ℕ × ℕ :=
  (c.add code c.offCodeInstructionStart, c.wrap (code + c.offCodeInstructionStart + ilen))

/-- A function is left out by the options. -/
def jsfunctionsSkips (opts : JsfunctionsOpts) (func : FindFunc) : Bool :=
  opts.name.any (fun name => !strstr func.funcname name) ||
    opts.filename.any (fun filename => !strstr func.scriptname filename) ||
    opts.instr ≠ 0 && (jsfunctionsCode t func).any fun (code, ilen) =>
      let range := instructionRange t.cfg code ilen
      ilen ≠ 0 && (opts.instr < range.1 || opts.instr ≥ range.2)

/-- The line of a function. -/
def jsfunctionsLine (opts : JsfunctionsOpts) (func : FindFunc) : FindLine :=
  let addr := func.instances.headD 0
  if opts.listlike then .address addr
  else
    .function addr func.ninstances
      (if opts.showrange then
        some ((jsfunctionsCode t func).map fun (code, ilen) => instructionRange t.cfg code ilen)
      else none)
      func.funcname func.scriptname func.location

/-- The loop of `dcmd_jsfunctions` over the functions, without an address. -/
def jsfunctionsLoop (opts : JsfunctionsOpts) :
    List ℕ → List FindFunc → Option (List FindLine × List FindFunc)
  | [], nodes => some ([], nodes)
  | p :: ps, nodes =>
    let func := nodes.getD p default
    match jsfunctionsLocation t func with
    | none => none
    | some location =>
      let func := { func with location }
      (jsfunctionsLoop opts ps (nodes.set p func)).map fun (lines, nodes) =>
        (if jsfunctionsSkips t opts func then lines else jsfunctionsLine t opts func :: lines, nodes)

/-- The body of `dcmd_jsfunctions` after the scan. -/
def jsfunctionsBody (addr : Option ℕ) (opts : JsfunctionsOpts) (fjs : FindState L) :
    FindResult L :=
  match addr with
  | some addr =>
    let funcs := fjs.cache.functions.filter fun func => func.instances.head? == some addr
    .returned .ok (funcs.flatMap fun func => func.instances.map .address) fjs
  | none =>
    match jsfunctionsLoop t opts fjs.cache.funcs fjs.cache.funcNodes with
    | none => .hangs
    | some (lines, funcNodes) =>
      .returned .ok (if opts.listlike then lines else .funcHeader opts.showrange :: lines)
        { fjs with cache := { fjs.cache with funcNodes } }

/-- `dcmd_jsfunctions`. -/
def dcmdJsfunctions (env : ScanEnv) (addr : Option ℕ) (opts : JsfunctionsOpts) (fjs : FindState L) :
    FindResult L :=
  if !opts.valid then .returned .usage [] fjs
  else
    match findjsobjectsRun t maps env fjs with
    | none => .hangs
    | some (.interrupted, _, fjs) => .interrupted fjs
    | some (.returned rv, lines, fjs) =>
      if rv ≠ 0 then .returned .err lines fjs
      else if opts.listlike && addr.isNone &&
          (opts.name.isSome || opts.filename.isSome || opts.instr ≠ 0) then .returned .err lines fjs
      else if !fjs.finished then .returned .err lines fjs
      else (jsfunctionsBody t addr opts fjs).after lines

end Jsfunctions

end MdbV8
