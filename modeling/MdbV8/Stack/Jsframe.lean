import MdbV8.Find.Command
import MdbV8.Functions.SourceLines
import MdbV8.Functions.Location
import MdbV8.Stack.Globals

/-!
# Stack frames

`do_jsframe` prints a stack frame, which it takes to be native if the debugger has a symbol for the return
address, internal if there is a small integer where V8 stores the type of such a frame, and else by the
object in the place of the function: only a `JSFunction` makes the frame one of JavaScript. Internal
frames are not printed unless they are asked for. They are counted, in a record that the caller owns, and
whoever prints something next says how many there have been.

The name of a function is all that is printed of a JavaScript frame, if it has the one that is asked for;
with `-v`, what follows is indented: the script, the position, the arguments and the source. With `-p`
only one of these is printed.

What is read of the frame, of the function and of the script is read once, in this order, and `doJsframe`
is given a debugger that may find the memory different for every one of these reads. For the arguments and
the source, and for each text that is printed, the memory is taken to be the same.
-/

namespace MdbV8

open Loading (Debugger)

/-! ### Output -/

/-- What is printed of a frame behind its address and the return address, with `-a`. -/
inductive FrameNote where
  | nothing
  | frametype (name : List UInt8)
  | code (funcp : ℕ)
  | unknown (typename : String) (funcp : ℕ)
  | function (name : List UInt8) (funcp : ℕ)
  deriving DecidableEq, Repr

/-- A line. The texts of the addresses of code come from the debugger. -/
inductive FrameLine where
  /-- `(1 internal frame elided)`. -/
  | elidedOne
  /-- `(%d internal frames elided)`. -/
  | elided (n : ℕ)
  /-- `native: %a`. -/
  | native (raddr : List UInt8)
  /-- `native: %s...`, of an address that is too long. -/
  | nativeCut (raddr : List UInt8)
  /-- `%p %a`, with a note. -/
  | pointers (fptr : ℕ) (raddr : List UInt8) (note : FrameNote)
  /-- `js:     %s`. -/
  | js (name : List UInt8)
  | file (text : List UInt8)
  | posn (text : List UInt8)
  | this (argptr : ℕ) (jstype : List UInt8)
  | arg (i : ℤ) (argptr : ℕ) (jstype : List UInt8)
  | source (outs : List LineOut)
  /-- A text, or an address, that is asked for by its name. -/
  | text (text : List UInt8)
  | pointer (argptr : ℕ)
  deriving DecidableEq, Repr

/-- A line about internal frames. -/
def FrameLine.isElided : FrameLine → Bool
  | elidedOne => true
  | elided _ => true
  | _ => false

/-- What happens when a frame is printed. -/
abbrev FrameEvent : Type := CmdEvent FrameLine

/-! ### The environment -/

/-- The part of the metadata that is about frames and functions on the stack. -/
structure StackLayout where
  /-- `v8_frametypes`, up to its first entry with an empty name. -/
  frametypes : List (List UInt8 × ℕ) := []
  offFpContext : ℤ := -1
  offFpFunction : ℤ := -1
  offFpArgs : ℤ := -1
  offFpContextOrFrameType : ℤ := -1
  offSharedfunctioninfoLength : ℤ := -1
  offSharedfunctioninfoEndPosition : ℤ := -1

/-- `enum_lookup_str` on `v8_frametypes`. The value is converted to an `int`, and compared as an unsigned
one. -/
def StackLayout.frametype (lay : StackLayout) (val : ℕ) : Option (List UInt8) :=
  (lay.frametypes.find? fun e => e.2 == val % 2 ^ 32).map Prod.fst

/-- What a frame is looked at with. -/
structure StackEnv where
  layout : StackLayout
  /-- `%A`: the symbol of an address, if there is one. -/
  symbol : ℕ → List UInt8
  /-- `%a`. -/
  address : ℕ → List UInt8
  asks : Asks
  /-- Which blocks can be allocated. -/
  zalloc : Allocator

/-- The options of `::jsframe` and `::jsstack`. -/
structure JsframeOpts where
  showall : Bool := false
  verbose : Bool := false
  func : Option (List UInt8) := none
  prop : Option (List UInt8) := none
  nlines : ℕ := 5
  /-- All the arguments are options. -/
  valid : Bool := true
  deriving DecidableEq, Repr

/-- What `do_jsframe` does, and how many frames there are then in `jsf_nskipped`. -/
structure FrameRun where
  rv : DcmdStatus
  events : List FrameEvent
  nskipped : ℕ
  deriving DecidableEq, Repr

section Jstype

variable (t : Target)

/-- The buffer of a function once more, from its start. -/
def OutBuf.reuse (o : OutBuf) (n : ℕ) : OutBuf := { mem := o.mem, bufp := 0, len := n }

/-- The name of a type in `obj_jstype`. -/
def jstypeName (typebyte : ℕ) : String :=
  match t.cfg.enumLookupStr typebyte with
  | some typename => typename
  | none => if t.cfg.typeString typebyte then "<unknown subclass>: String" else "<unknown>"

/-- The part of `obj_jstype` about the constructor of a `JSObject`. -/
def jstypeConstructor (addr : ℕ) (o : OutBuf) : Option OutBuf :=
  let c := t.cfg
  match t.readPtr (c.add addr c.offHeapobjectMap) with
  | none => some o
  | some map =>
    match getMapConstructor t (2 ^ c.bits + 1) map with
    | none => none
    | some none => some o
    | some (some consfunc) =>
      if (t.readTypebyte consfunc).bind c.enumLookupStr != some "JSFunction" then some o
      else
        match t.readPtr (c.add consfunc c.offJsfunctionShared) with
        | none => some o
        | some funcinfop => some (jsfuncName t funcinfop (bsnprintf o (bytesOf ": "))).2

/-- `obj_jstype`. There is no result if it does not come to an end. -/
def objJstype (addr : ℕ) (o : OutBuf) : Option (ℤ × OutBuf) :=
  let c := t.cfg
  if c.isFailure addr then some (0, bsnprintf o (bytesOf "'Failure' object"))
  else if c.isSmi addr then
    some (0, bsnprintf o (bytesOf "SMI: value = " ++ fmtD (c.smiValue addr)))
  else
    match t.readTypebyte addr with
    | none => some (-1, o)
    | some typebyte =>
      let typename := jstypeName t typebyte
      let o := bsnprintf o (bytesOf typename)
      let o :=
        if typename != "Oddball" then o
        else
          match t.readHeapPtr addr c.offOddballToString with
          | none => o
          | some strptr =>
            bsnprintf (jsstrPrint t strptr jsstrNone (bsnprintf o (bytesOf ": \""))).2 (bytesOf "\"")
      if typename != "JSObject" then some (0, o)
      else (jstypeConstructor t addr o).map fun o => (0, o)

end Jstype

section Jsframe

variable (t : Target) (env : StackEnv) (opts : JsframeOpts)

/-- `jsframe_print_skipped`. There are none left to be printed after it. -/
def jsframePrintSkipped (nskipped : ℕ) : List FrameEvent :=
  if nskipped = 1 then [.line .elidedOne]
  else if nskipped > 1 then [.line (.elided nskipped)]
  else []

theorem jsframePrintSkipped_zero : jsframePrintSkipped 0 = [] := rfl

/-- What is done about an internal frame: it is printed, with `-a`, or counted (`jsframe_skip`). -/
def jsframeInternal (nskipped : ℕ) (line : FrameLine) : FrameRun :=
  if opts.showall then
    { rv := .ok, events := jsframePrintSkipped nskipped ++ [.line line], nskipped := 0 }
  else { rv := .ok, events := [], nskipped := nskipped + 1 }

/-- Nothing is done about a frame. -/
def jsframeLeave (rv : DcmdStatus) (nskipped : ℕ) : FrameRun := { rv, events := [], nskipped }

/-- The type of an `ArgumentsAdaptor` frame, in the versions in which it is stored in a place of its
own. -/
def adaptorFrametype (fptr : ℕ) : Option (List UInt8) :=
  let c := t.cfg
  if !c.v8VersionCurrentOlder 5 1 0 0 then none
  else
    match t.readPtr (c.add fptr env.layout.offFpContext) with
    | none => none
    | some ftype =>
      if !c.isSmi ftype then none
      else
        (env.layout.frametype (c.smiValue ftype)).filter (strstr · (bytesOf "ArgumentsAdaptor"))

/-- The small integer in the place where V8 stores the type of an internal frame. -/
def internalFrametype (fptr : ℕ) : Option ℕ :=
  (t.readPtr (t.cfg.add fptr env.layout.offFpContextOrFrameType)).filter t.cfg.isSmi

/-- The line of a native frame. -/
def nativeLine (raddr : ℕ) : FrameLine :=
  -- what `%A` prints decides whether what `%a` prints is cut
  if (env.symbol raddr).length ≤ 65 then .native (env.address raddr)
  else .nativeCut ((env.address raddr).take 64)

/-- `do_jsframe_special`. -/
def doJsframeSpecial (fptr raddr nskipped : ℕ) : Option FrameRun :=
  if (env.symbol raddr).length > 1 then
    if opts.prop.isSome then some (jsframeLeave .ok nskipped)
    else
      let line :=
        if opts.showall then .pointers fptr (env.address raddr) .nothing else nativeLine env raddr
      some
        { rv := .ok, events := jsframePrintSkipped nskipped ++ [.line line], nskipped := 0 }
  else
    match adaptorFrametype t env fptr with
    | some ftypename =>
      if opts.prop.isSome then some (jsframeLeave .ok nskipped)
      else
        some (jsframeInternal opts nskipped
          (.pointers fptr (env.address raddr) (.frametype ftypename)))
    | none =>
      match internalFrametype t env fptr with
      | none => none
      | some ftype =>
        if opts.prop.isSome then some (jsframeLeave .ok nskipped)
        else
          match env.layout.frametype (t.cfg.smiValue ftype) with
          | some ftypename =>
            some (jsframeInternal opts nskipped
              (.pointers fptr (env.address raddr) (.frametype ftypename)))
          | none => some { rv := .ok, events := [], nskipped := nskipped + 1 }

/-! ### What is printed with `-v` or `-p` -/

/-- What comes of a value on the stack: the value, if it is the one that is asked for, or what is printed
for it. The text is printed into the buffer, which may keep what it had. -/
def jsframeValue (name : List UInt8) (line : List UInt8 → FrameLine) (argptr : ℕ) (buf : OutBuf) :
    Option (Option ℕ × List FrameEvent × OutBuf) :=
  match opts.prop with
  | some prop => some (if prop = name then some argptr else none, [], buf)
  | none =>
    (objJstype t argptr (buf.reuse 256)).map fun r =>
      (none, (callUpdates t env.asks (.objJstype argptr)).map .update ++ [.line (line (r.2.str 256))],
        r.2)

/-- The word at a distance in words from the place of the arguments. -/
def readArg (fptr i : ℕ) : Option ℕ :=
  t.readPtr (t.cfg.wrap (fptr + env.layout.offFpArgs + i * t.cfg.ptrSize))

/-- `this` in `do_jsframe`. -/
def jsframeThis (fptr nargs : ℕ) (buf : OutBuf) : Option (Option ℕ × List FrameEvent × OutBuf) :=
  match readArg t env fptr nargs with
  | none => some (none, [], buf)
  | some argptr =>
    if argptr = 0 then some (none, [], buf)
    else jsframeValue t env opts (bytesOf "this") (.this argptr) argptr buf

/-- The loop of `do_jsframe` over the arguments. The name of an argument is printed into ten bytes. -/
def jsframeArgsLoop (fptr nargs : ℕ) :
    List ℕ → OutBuf → Option (Option ℕ × List FrameEvent × OutBuf)
  | [], buf => some (none, [], buf)
  | ii :: iis, buf =>
    match readArg t env fptr (nargs - ii - 1) with
    | none => jsframeArgsLoop fptr nargs iis buf
    | some argptr =>
      match jsframeValue t env opts ((bytesOf "arg" ++ fmtNat 10 (ii + 1)).take 9)
        (.arg (toInt32 (ii + 1)) argptr) argptr buf with
      | none => none
      | some (some argptr, events, buf) => some (some argptr, events, buf)
      | some (none, events, buf) =>
        (jsframeArgsLoop fptr nargs iis buf).map fun r => (r.1, events ++ r.2.1, r.2.2)

/-- `this` and the arguments in `do_jsframe`. -/
def jsframeArgs (fptr funcinfop : ℕ) (buf : OutBuf) : Option (Option ℕ × List FrameEvent) :=
  match t.readHeapMaybesmi funcinfop env.layout.offSharedfunctioninfoLength with
  | none => some (none, [])
  | some nargs =>
    match jsframeThis t env opts fptr nargs buf with
    | none => none
    | some (some argptr, events, _) => some (some argptr, events)
    | some (none, events, buf) =>
      (jsframeArgsLoop t env opts fptr nargs (List.range nargs) buf).map fun r =>
        (r.1, events ++ r.2.1)

/-- The lines of the source in `do_jsframe`. -/
def jsframeSource (funcinfop scriptp tokpos : ℕ) : Option (List FrameEvent) :=
  if opts.nlines = 0 then some []
  else
    match t.readHeapMaybesmi funcinfop env.layout.offSharedfunctioninfoEndPosition with
    | none => some []
    | some endpos =>
      (jsfuncLines t env.zalloc scriptp (t.cfg.smiValue tokpos) endpos (toInt32 opts.nlines)
        (some linePrefix)).map fun outs => [.line (.source outs)]

/-- A line that is not printed with `-p`. -/
def jsframeLine (line : FrameLine) : List FrameEvent :=
  if opts.prop.isNone then [.line line] else []

/-- `do_jsframe` from where the table of the line endings has been found. -/
def jsframePosn (fptr funcinfop scriptp lendsp tokpos : ℕ) (buf : OutBuf) :
    Option (DcmdStatus × List FrameEvent) :=
  match jsfuncLineno t lendsp tokpos with
  | none => none
  | some (rv, text, _) =>
    let asked : List FrameEvent := (jsobjIsOddballRun t.still lendsp "undefined").2.map .update
    -- if there is no position, the buffer keeps the name of the script
    let buf := if rv = 0 then bsnprintf (buf.reuse 256) text else buf
    if opts.prop = some (bytesOf "posn") then some (.ok, asked ++ [.line (.text (buf.str 256))])
    else
      let events := asked ++ jsframeLine opts (.posn (buf.str 256))
      match jsframeArgs t env opts fptr funcinfop buf with
      | none => none
      | some (some argptr, args) => some (.ok, events ++ args ++ [.line (.pointer argptr)])
      | some (none, args) =>
        -- nothing has the name that is asked for
        if opts.prop.isSome then some (.err, events ++ args)
        else
          (jsframeSource t env opts funcinfop scriptp tokpos).map fun source =>
            (.ok, events ++ args ++ source ++ [.update (.decIndent 10)])

end Jsframe

/-! ### The frame -/

section Frame

variable (d : Debugger) (env : StackEnv) (opts : JsframeOpts)

/-- `do_jsframe` from where more than the name of the function is asked for. -/
def jsframeDetails (fptr funcinfop : ℕ) (buf : OutBuf) : Option (DcmdStatus × List FrameEvent) :=
  let c := d.cfg
  match (d.target 5).readHeapMaybesmi funcinfop c.offSharedfunctioninfoFunctionTokenPosition with
  | none => some (.err, [])
  | some tokpos =>
    match (d.target 6).readHeapPtr funcinfop c.offSharedfunctioninfoScript with
    | none => some (.err, [])
    | some scriptp =>
      match (d.target 7).readHeapPtr scriptp c.offScriptName with
      | none => some (.err, [])
      | some ptrp =>
        let buf := (jsstrPrint (d.target 8) ptrp jsstrNone (buf.reuse 256)).2
        if opts.prop = some (bytesOf "file") then some (.ok, [.line (.text (buf.str 256))])
        else
          let file : List FrameEvent :=
            if opts.prop.isNone then [.update (.incIndent 10), .line (.file (buf.str 256))] else []
          match (d.target 9).readHeapPtr scriptp c.offScriptLineEnds with
          | none => some (.err, file)
          | some lendsp =>
            (jsframePosn (d.target 10) env opts fptr funcinfop scriptp lendsp (c.valueSmi tokpos)
              buf).map fun r => (r.1, file ++ r.2)

/-- The line of a JavaScript frame. -/
def jsLine (fptr raddr funcp : ℕ) (name : List UInt8) : FrameLine :=
  if opts.showall then .pointers fptr (env.address raddr) (.function name funcp) else .js name

/-- `do_jsframe` of a JavaScript function. -/
def jsframeFunction (fptr raddr funcp nskipped : ℕ) : Option FrameRun :=
  match (d.target 3).readHeapPtr funcp d.cfg.offJsfunctionShared with
  | none => some (jsframeLeave .err nskipped)
  | some funcinfop =>
    let (rv, buf) := jsfuncName (d.target 4) funcinfop (OutBuf.fresh (fun _ => 0) 256)
    let asked : List FrameEvent := (callUpdates (d.target 4) env.asks (.jsfuncName funcinfop)).map .update
    if rv ≠ 0 then some { rv := .err, events := asked, nskipped }
    else if opts.func.any (buf.str 256 ≠ ·) then some { rv := .ok, events := asked, nskipped }
    else
      let name : List FrameEvent × ℕ :=
        if opts.prop.isNone then
          (jsframePrintSkipped nskipped ++ [.line (jsLine env opts fptr raddr funcp (buf.str 256))], 0)
        else ([], nskipped)
      if !opts.verbose && opts.prop.isNone then
        some { rv := .ok, events := asked ++ name.1, nskipped := name.2 }
      else
        let skipped : List FrameEvent × ℕ :=
          if opts.verbose then (jsframePrintSkipped name.2, 0) else ([], name.2)
        (jsframeDetails d env opts fptr funcinfop buf).map fun r =>
          { rv := r.1, events := asked ++ name.1 ++ skipped.1 ++ r.2, nskipped := skipped.2 }

/-- `do_jsframe` of a frame that is not special. -/
def jsframeOther (fptr raddr nskipped : ℕ) : Option FrameRun :=
  match (d.target 1).readPtr (d.cfg.add fptr env.layout.offFpFunction) with
  | none => some (jsframeLeave .err nskipped)
  | some funcp =>
    let internal (note : FrameNote) : FrameRun :=
      if opts.func.isSome || opts.prop.isSome then jsframeLeave .ok nskipped
      else jsframeInternal opts nskipped (.pointers fptr (env.address raddr) note)
    match ((d.target 2).readTypebyte funcp).bind d.cfg.enumLookupStr with
    | none => some (internal .nothing)
    | some typename =>
      if typename = "Code" then some (internal (.code funcp))
      else if typename ≠ "JSFunction" then some (internal (.unknown typename funcp))
      else jsframeFunction d env opts fptr raddr funcp nskipped

/-- **`do_jsframe`**. There is no result if it does not come to an end, or reads outside of a table. -/
def doJsframe (fptr raddr nskipped : ℕ) : Option FrameRun :=
  match if opts.func.isSome then none
    else doJsframeSpecial (d.target 0) env opts fptr raddr nskipped with
  | some run => some run
  | none => jsframeOther d env opts fptr raddr nskipped

/-- What `dcmd_jsframe` makes of `do_jsframe`. -/
def FrameRun.finish (run : FrameRun) : DcmdStatus × List FrameEvent :=
  (run.rv, run.events ++ if run.rv = .ok then jsframePrintSkipped run.nskipped else [])

/-- `dcmd_jsframe`, with `-i` or without. -/
def dcmdJsframe (t : Target) (immediate : Bool) (addr : ℕ) : Option (DcmdStatus × List FrameEvent) :=
  if !opts.valid then some (.usage, [])
  else if immediate then (doJsframe t.still env opts addr 0 0).map FrameRun.finish
  else
    match t.readPtr (t.cfg.add addr t.cfg.ptrSize) with
    | none => some (.err, [])
    | some raddr =>
      match t.readPtr addr with
      | none => some (.err, [])
      | some fptr =>
        if fptr = 0 then some (.ok, [])
        else (doJsframe t.still env opts fptr raddr 0).map FrameRun.finish

end Frame

/-! ### What is printed of the values -/

/-- The line of a value on the stack. -/
def FrameLine.isValue : FrameLine → Bool
  | this .. => true
  | arg .. => true
  | _ => false

section Values

variable {t : Target} {env : StackEnv} {opts : JsframeOpts}

variable (t env) in
/-- What happens for some values, each of which is printed on a line. -/
def valueEvents (vs : List (ℕ × FrameLine)) : List FrameEvent :=
  vs.flatMap fun v => (callUpdates t env.asks (.objJstype v.1)).map .update ++ [.line v.2]

theorem eventLines_valueEvents (vs : List (ℕ × FrameLine)) :
    eventLines (valueEvents t env vs) = vs.map Prod.snd := by
  induction vs with
  | nil => rfl
  | cons v vs ih =>
    rw [valueEvents, List.flatMap_cons, eventLines_append, eventLines_append, eventLines_updates]
    exact congrArg (v.2 :: ·) ih

variable (t env) in
/-- Printing values leaves behind what it has found. -/
theorem restores_valueEvents [DecIndent] (vs : List (ℕ × FrameLine)) :
    Restores (eventUpdates (valueEvents t env vs)) := by
  induction vs with
  | nil => exact .nil
  | cons v vs ih =>
    rw [valueEvents, List.flatMap_cons, eventUpdates_append, eventUpdates_append,
      eventUpdates_updates]
    exact ((restores_callUpdates t env.asks _).append .nil).append ih

variable (t env) in
/-- The events are those of some values. -/
def OfValues (events : List FrameEvent) : Prop :=
  ∃ vs, events = valueEvents t env vs ∧ ∀ v ∈ vs, FrameLine.isValue v.2 = true

theorem OfValues.nil : OfValues t env [] := ⟨[], rfl, nofun⟩

theorem OfValues.append {events events' : List FrameEvent} (h : OfValues t env events)
    (h' : OfValues t env events') : OfValues t env (events ++ events') := by
  obtain ⟨vs, rfl, hvs⟩ := h
  obtain ⟨vs', rfl, hvs'⟩ := h'
  refine ⟨vs ++ vs', List.flatMap_append.symm, fun v hv => ?_⟩
  rcases List.mem_append.mp hv with hv | hv
  · exact hvs v hv
  · exact hvs' v hv

variable (t env opts) in
/-- What comes of looking at values: events of theirs, and none of the values, if none is asked for. -/
structure ValuesRun (found : Option ℕ) (events : List FrameEvent) : Prop where
  events : OfValues t env events
  found : opts.prop = none → found = none

theorem ValuesRun.nil : ValuesRun t env opts none [] := ⟨.nil, fun _ => rfl⟩

variable {found : Option ℕ} {events : List FrameEvent} {buf buf' : OutBuf}

theorem valuesRun_jsframeValue {name : List UInt8} {line : List UInt8 → FrameLine} {argptr : ℕ}
    (hline : ∀ text, (line text).isValue = true)
    (h : jsframeValue t env opts name line argptr buf = some (found, events, buf')) :
    ValuesRun t env opts found events := by
  unfold jsframeValue at h
  cases hprop : opts.prop with
  | some prop =>
    simp only [hprop, Option.some.injEq, Prod.mk.injEq] at h
    obtain ⟨-, rfl, -⟩ := h
    refine ⟨.nil, fun hnone => ?_⟩
    rw [hprop] at hnone
    cases hnone
  | none =>
    rw [hprop] at h
    obtain ⟨r, -, heq⟩ := Option.map_eq_some_iff.mp h
    cases heq
    refine ⟨⟨[(argptr, line (r.2.str 256))], (List.append_nil _).symm, fun v hv => ?_⟩, fun _ => rfl⟩
    obtain rfl := List.mem_singleton.mp hv
    exact hline _

theorem valuesRun_jsframeThis {fptr nargs : ℕ}
    (h : jsframeThis t env opts fptr nargs buf = some (found, events, buf')) :
    ValuesRun t env opts found events := by
  unfold jsframeThis at h
  split at h
  · cases h
    exact .nil
  · split at h
    · cases h
      exact .nil
    · exact valuesRun_jsframeValue (fun _ => rfl) h

theorem valuesRun_jsframeArgsLoop {fptr nargs : ℕ} {iis : List ℕ}
    (h : jsframeArgsLoop t env opts fptr nargs iis buf = some (found, events, buf')) :
    ValuesRun t env opts found events := by
  induction iis generalizing buf found events with
  | nil =>
    cases h
    exact .nil
  | cons ii iis ih =>
    unfold jsframeArgsLoop at h
    split at h
    · exact ih h
    · split at h
      · cases h
      · next hvalue =>
        cases h
        exact valuesRun_jsframeValue (fun _ => rfl) hvalue
      · next hvalue =>
        obtain ⟨⟨found', events', buf''⟩, hrest, heq⟩ := Option.map_eq_some_iff.mp h
        cases heq
        have hvalue' := valuesRun_jsframeValue (fun _ => rfl) hvalue
        exact ⟨hvalue'.events.append (ih hrest).events, (ih hrest).found⟩

/-- **The arguments are printed as values.** -/
theorem valuesRun_jsframeArgs {fptr funcinfop : ℕ}
    (h : jsframeArgs t env opts fptr funcinfop buf = some (found, events)) :
    ValuesRun t env opts found events := by
  unfold jsframeArgs at h
  split at h
  · cases h
    exact .nil
  · split at h
    · cases h
    · next hthis =>
      cases h
      exact valuesRun_jsframeThis hthis
    · next hthis =>
      obtain ⟨⟨found', events', buf''⟩, hrest, heq⟩ := Option.map_eq_some_iff.mp h
      cases heq
      have hloop := valuesRun_jsframeArgsLoop hrest
      exact ⟨(valuesRun_jsframeThis hthis).events.append hloop.events, hloop.found⟩

end Values

/-! ### What is printed with `-v` -/

section Details

variable {d : Debugger} {t : Target}

variable (d) in
/-- The script of a function, with its name, if they can be read, and the position of the function. -/
def detailsScript (funcinfop : ℕ) : Option (ℕ × ℕ × ℕ) :=
  match (d.target 5).readHeapMaybesmi funcinfop
      d.cfg.offSharedfunctioninfoFunctionTokenPosition with
  | none => none
  | some tokpos =>
    match (d.target 6).readHeapPtr funcinfop d.cfg.offSharedfunctioninfoScript with
    | none => none
    | some scriptp =>
      ((d.target 7).readHeapPtr scriptp d.cfg.offScriptName).map fun ptrp => (tokpos, scriptp, ptrp)

variable (d) in
/-- The line endings of a script can be read. -/
def LineEndsRead (scriptp : ℕ) : Prop :=
  ((d.target 9).readHeapPtr scriptp d.cfg.offScriptLineEnds).isSome

/-- **The script has been read already** if the name of the function has, and the line endings with it. So
if the memory stays as it is, they can be read again. -/
theorem detailsScript_of_jsfuncName {funcinfop : ℕ} {o : OutBuf}
    (h : (jsfuncName t funcinfop o).1 = 0) : ∃ tokpos scriptp ptrp,
      detailsScript t.still funcinfop = some (tokpos, scriptp, ptrp) ∧
        LineEndsRead t.still scriptp := by
  unfold jsfuncName v8funcinfoLoad at h
  unfold detailsScript LineEndsRead
  simp only [Target.target_still, Target.cfg_still]
  dsimp only at h
  -- the name has been read, and so has everything that comes before it
  split at h
  · cases h
  · next fip hload =>
    split at hload
    · next tokpos name script htokpos _ hscript =>
      rw [htokpos, hscript]
      split at hload
      · next scriptpath lineends _ hpath hends _ =>
        refine ⟨tokpos, script, scriptpath, ?_, ?_⟩
        · dsimp only
          rw [hpath]
          rfl
        · rw [hends]
          rfl
      · cases hload
    · cases hload

/-- The line of a source, if there is one. -/
def IsSource (events : List FrameEvent) : Prop :=
  events = [] ∨ ∃ outs, events = [.line (.source outs)]

variable {env : StackEnv} {opts : JsframeOpts} {fptr funcinfop : ℕ} {buf : OutBuf}
  {rv : DcmdStatus} {events : List FrameEvent}

theorem isSource_jsframeSource {scriptp tokpos : ℕ}
    (h : jsframeSource t env opts funcinfop scriptp tokpos = some events) : IsSource events := by
  unfold jsframeSource at h
  split at h
  · cases h
    exact .inl rfl
  · split at h
    · cases h
      exact .inl rfl
    · obtain ⟨outs, -, rfl⟩ := Option.map_eq_some_iff.mp h
      exact .inr ⟨outs, rfl⟩

/-- **From the position on**, if nothing is asked for by its name, everything is printed, and the
indentation is taken back. -/
theorem jsframePosn_plain {scriptp lendsp tokpos : ℕ} (hprop : opts.prop = none)
    (h : jsframePosn t env opts fptr funcinfop scriptp lendsp tokpos buf = some (rv, events)) :
    rv = .ok ∧ ∃ text values source, OfValues t env values ∧ IsSource source ∧
      events = (jsobjIsOddballRun t.still lendsp "undefined").2.map .update ++ [.line (.posn text)] ++
        values ++ source ++ [.update (.decIndent 10)] := by
  have hline (line : FrameLine) : jsframeLine opts line = [.line line] := by
    rw [jsframeLine, hprop, Option.isNone_none, if_pos rfl]
  unfold jsframePosn at h
  split at h
  · cases h
  · dsimp only at h
    rw [if_neg (by simp [hprop]), hline] at h
    split at h
    · cases h
    · next hargs =>
      -- a value is found only if one is asked for
      have hfound := (valuesRun_jsframeArgs hargs).found hprop
      cases hfound
    · next hargs =>
      rw [if_neg (by simp [hprop])] at h
      obtain ⟨source, hsource, heq⟩ := Option.map_eq_some_iff.mp h
      obtain ⟨rfl, rfl⟩ := Prod.mk.inj heq
      exact ⟨rfl, _, _, source, (valuesRun_jsframeArgs hargs).events,
        isSource_jsframeSource hsource, rfl⟩

/-- With a name, the indentation is not touched. -/
theorem restores_jsframePosn_prop [DecIndent] {scriptp lendsp tokpos : ℕ} (hprop : opts.prop ≠ none)
    (h : jsframePosn t env opts fptr funcinfop scriptp lendsp tokpos buf = some (rv, events)) :
    Restores (eventUpdates events) := by
  have hasked := restores_jsobjIsOddballRun t.still lendsp "undefined"
  have hline (line : FrameLine) : eventUpdates (jsframeLine opts line) = [] := by
    rw [jsframeLine, if_neg (by simp [hprop])]
    rfl
  unfold jsframePosn at h
  -- only the question about the line endings changes anything, and it takes that back
  split at h
  · cases h
  · dsimp only at h
    split at h
    · cases h
      rw [eventUpdates_append, eventUpdates_updates]
      exact hasked.append .nil
    · split at h
      · cases h
      · next hargs =>
        cases h
        obtain ⟨vs, rfl, -⟩ := (valuesRun_jsframeArgs hargs).events
        simp only [eventUpdates_append, eventUpdates_updates, hline, List.append_nil]
        exact (hasked.append (restores_valueEvents t env vs)).append .nil
      · next hargs =>
        rw [if_pos (Option.isSome_iff_ne_none.mpr hprop)] at h
        cases h
        obtain ⟨vs, rfl, -⟩ := (valuesRun_jsframeArgs hargs).events
        simp only [eventUpdates_append, eventUpdates_updates, hline, List.append_nil]
        exact hasked.append (restores_valueEvents t env vs)

/-- The details as they are looked for. -/
theorem jsframeDetails_eq :
    jsframeDetails d env opts fptr funcinfop buf =
      match detailsScript d funcinfop with
      | none => some (.err, [])
      | some (tokpos, scriptp, ptrp) =>
        let buf := (jsstrPrint (d.target 8) ptrp jsstrNone (buf.reuse 256)).2
        if opts.prop = some (bytesOf "file") then some (.ok, [.line (.text (buf.str 256))])
        else
          let file : List FrameEvent :=
            if opts.prop.isNone then [.update (.incIndent 10), .line (.file (buf.str 256))] else []
          match (d.target 9).readHeapPtr scriptp d.cfg.offScriptLineEnds with
          | none => some (.err, file)
          | some lendsp =>
            (jsframePosn (d.target 10) env opts fptr funcinfop scriptp lendsp (d.cfg.valueSmi tokpos)
              buf).map fun r => (r.1, file ++ r.2) := by
  unfold jsframeDetails detailsScript
  dsimp only
  -- both sides read the same three words
  cases (d.target 5).readHeapMaybesmi funcinfop d.cfg.offSharedfunctioninfoFunctionTokenPosition with
  | none => rfl
  | some tokpos =>
    dsimp only
    cases (d.target 6).readHeapPtr funcinfop d.cfg.offSharedfunctioninfoScript with
    | none => rfl
    | some scriptp =>
      dsimp only
      cases (d.target 7).readHeapPtr scriptp d.cfg.offScriptName with
      | none => rfl
      | some ptrp => rfl

variable (d env funcinfop) in
/-- **The details that are printed** of a function, if nothing is asked for by its name. -/
inductive DetailsRun : DcmdStatus → List FrameEvent → Prop
  | noScript (hscript : detailsScript d funcinfop = none) : DetailsRun .err []
  | noLineEnds {tokpos scriptp ptrp : ℕ} {text : List UInt8}
      (hscript : detailsScript d funcinfop = some (tokpos, scriptp, ptrp))
      (hends : ¬ LineEndsRead d scriptp) :
      DetailsRun .err [.update (.incIndent 10), .line (.file text)]
  | complete {tokpos scriptp ptrp lendsp : ℕ} {text posn : List UInt8}
      {values source : List FrameEvent}
      (hscript : detailsScript d funcinfop = some (tokpos, scriptp, ptrp))
      (hends : LineEndsRead d scriptp) (hvalues : OfValues (d.target 10) env values)
      (hsource : IsSource source) :
      DetailsRun .ok ([.update (.incIndent 10), .line (.file text)] ++
        ((jsobjIsOddballRun (d.target 10).still lendsp "undefined").2.map .update ++ [.line (.posn posn)] ++
          values ++ source ++ [.update (.decIndent 10)]))

theorem detailsRun_jsframeDetails (hprop : opts.prop = none)
    (h : jsframeDetails d env opts fptr funcinfop buf = some (rv, events)) :
    DetailsRun d env funcinfop rv events := by
  rw [jsframeDetails_eq] at h
  cases hscript : detailsScript d funcinfop with
  | none =>
    rw [hscript] at h
    cases h
    exact .noScript hscript
  | some r =>
    obtain ⟨tokpos, scriptp, ptrp⟩ := r
    rw [hscript] at h
    dsimp only at h
    rw [if_neg (by simp [hprop]), hprop, Option.isNone_none, if_pos rfl] at h
    -- the line endings are read after the script
    cases hends : (d.target 9).readHeapPtr scriptp d.cfg.offScriptLineEnds with
    | none =>
      rw [hends] at h
      cases h
      exact .noLineEnds hscript (by simp [LineEndsRead, hends])
    | some lendsp =>
      rw [hends] at h
      obtain ⟨⟨rv', events'⟩, hposn, heq⟩ := Option.map_eq_some_iff.mp h
      obtain ⟨rfl, posn, values, source, hvalues, hsource, rfl⟩ := jsframePosn_plain hprop hposn
      cases heq
      exact .complete hscript (by simp [LineEndsRead, hends]) hvalues hsource

/-- With a name, the details do not touch the indentation. -/
theorem restores_jsframeDetails_prop [DecIndent] (hprop : opts.prop ≠ none)
    (h : jsframeDetails d env opts fptr funcinfop buf = some (rv, events)) :
    Restores (eventUpdates events) := by
  rw [jsframeDetails_eq] at h
  cases hscript : detailsScript d funcinfop with
  | none =>
    rw [hscript] at h
    cases h
    exact .nil
  | some r =>
    obtain ⟨tokpos, scriptp, ptrp⟩ := r
    rw [hscript] at h
    dsimp only at h
    split at h
    · cases h
      exact .nil
    · rw [if_neg (by simp [hprop])] at h
      -- without the line endings, the details end before anything is indented
      cases hends : (d.target 9).readHeapPtr scriptp d.cfg.offScriptLineEnds with
      | none =>
        rw [hends] at h
        cases h
        exact .nil
      | some lendsp =>
        rw [hends] at h
        obtain ⟨⟨rv', events'⟩, hposn, heq⟩ := Option.map_eq_some_iff.mp h
        cases heq
        rw [List.nil_append]
        exact restores_jsframePosn_prop hprop hposn

namespace DetailsRun

/-- No line of the details is one about internal frames. -/
theorem not_isElided (h : DetailsRun d env funcinfop rv events) {l : FrameLine}
    (hl : l ∈ eventLines events) : l.isElided = false := by
  cases h with
  | noScript => cases hl
  | noLineEnds =>
    obtain rfl := List.mem_singleton.mp hl
    rfl
  | complete _ _ hvalues hsource =>
    obtain ⟨vs, rfl, hvs⟩ := hvalues
    -- a value has a line of its own
    have hvalue (l : FrameLine) (hmem : l ∈ vs.map Prod.snd) : l.isElided = false := by
      obtain ⟨v, hv, rfl⟩ := List.mem_map.mp hmem
      have hisvalue := hvs v hv
      cases hline : v.2 <;> simp_all [FrameLine.isValue, FrameLine.isElided]
    simp only [eventLines_append, eventLines_updates, eventLines_valueEvents, List.mem_append] at hl
    rcases hl with hl | (((hl | hl) | hl) | hl) | hl
    · obtain rfl := List.mem_singleton.mp hl
      rfl
    · cases hl
    · obtain rfl := List.mem_singleton.mp hl
      rfl
    · exact hvalue l hl
    · rcases hsource with rfl | ⟨outs, rfl⟩
      · cases hl
      · obtain rfl := List.mem_singleton.mp hl
        rfl
    · cases hl

/-- **The indentation is left as it was found**, unless the line endings of the script cannot be read. -/
theorem updates [DecIndent] (h : DetailsRun d env funcinfop rv events) :
    (Restores (eventUpdates events) ∧ ∀ tokpos scriptp ptrp,
      detailsScript d funcinfop = some (tokpos, scriptp, ptrp) → LineEndsRead d scriptp) ∨
    eventUpdates events = [.incIndent 10] ∧ ∃ tokpos scriptp ptrp,
      detailsScript d funcinfop = some (tokpos, scriptp, ptrp) ∧ ¬ LineEndsRead d scriptp := by
  cases h with
  | noScript hscript =>
    refine .inl ⟨.nil, fun tokpos scriptp ptrp hsome => ?_⟩
    rw [hscript] at hsome
    cases hsome
  | noLineEnds hscript hends => exact .inr ⟨rfl, _, _, _, hscript, hends⟩
  | @complete tokpos scriptp ptrp lendsp text posn values source hscript hends hvalues hsource =>
    obtain ⟨vs, rfl, -⟩ := hvalues
    refine .inl ⟨?_, fun tokpos scriptp ptrp hsome => ?_⟩
    · have hnone : eventUpdates source = [] := by
        rcases hsource with rfl | ⟨outs, rfl⟩ <;> rfl
      have hasked := restores_jsobjIsOddballRun (d.target 10).still lendsp "undefined"
      -- what is between the two changes of the indentation takes itself back
      have hinner := ((hasked.append .nil).append (restores_valueEvents (d.target 10) env vs)).bracket
        (takesBack_indent 10)
      simp only [eventUpdates_append, eventUpdates_updates, hnone, List.append_nil]
      exact hinner
    · rw [hscript] at hsome
      cases hsome
      exact hends

/-- The details are complete if and only if nothing that has to be there cannot be read. -/
theorem rv_eq_ok_iff (h : DetailsRun d env funcinfop rv events) :
    rv = .ok ↔ ∃ tokpos scriptp ptrp,
      detailsScript d funcinfop = some (tokpos, scriptp, ptrp) ∧ LineEndsRead d scriptp := by
  cases h with
  | noScript hscript => simp [hscript]
  | noLineEnds hscript hends => simp [hscript, hends]
  | complete hscript hends => simp [hscript, hends]

end DetailsRun

end Details

end MdbV8
