import MdbV8.Commands.PrintClass

/-!
# The commands about functions

`::v8function` and `::jsfunction` turn the warnings on while they load what they print, and off again where
they leave, to which all the paths lead. `::v8function` also prints the code, and with `-d` the
instructions (`do_v8code`), for which it has to have the debugger evaluate a command for every one of them.
The debugger resets the indentation then, so that `do_v8code` indents every line anew.

The commands are programs like the loads that they are made of: any read, and any allocation, may fail.
-/

namespace MdbV8

open Lib

/-! ### Code -/

/-- What comes of `mdb_eval` when code is disassembled, round by round. -/
structure EvalEnv where
  /-- An instruction is printed. -/
  prints : ℕ → Bool
  /-- The address is moved on. -/
  advances : ℕ → Bool
  /-- `mdb_get_dot`, after some rounds. -/
  dot : ℕ → ℕ
  /-- What the indentation is reset to. -/
  level : ℕ

section V8code

variable (c : Config) (eval : EvalEnv)

/-- The loop of `do_v8code`, for at most `fuel` rounds, up to the end of the instructions. -/
def v8codeLoop (limit : ℕ) : ℕ → ℕ → Option (DcmdStatus × List (CmdEvent Printf))
  | 0, _ => none
  | fuel + 1, k =>
    let printed : List (CmdEvent Printf) := [.update (.incIndent 8), .update (.eval eval.level)]
    if !eval.prints k then some (.err, printed ++ [.update (.decIndent 8)])
    else
      let advanced := printed ++ [.update (.eval eval.level)]
      if !eval.advances k then some (.err, advanced ++ [.update (.decIndent 8)])
      else if eval.dot (k + 1) < limit then
        (v8codeLoop limit fuel (k + 1)).map fun r => (r.1, advanced ++ r.2)
      else some (.ok, advanced ++ [.update (.decIndent 8)])

/-- **`do_v8code`**. -/
def doV8code (fuel : ℕ) (codep : Loading.V8Code) (optD : Bool) :
    Option (DcmdStatus × List (CmdEvent Printf)) :=
  let instrstart := codep.instrStart
  let instrend := c.wrap (instrstart + codep.instrSize)
  let events := [printf "code: %p\n" [.word codep.addr],
    printf "instructions: [%p, %p)\n" [.word instrstart, .word instrend]]
  if !optD then some (.ok, events)
  else (v8codeLoop eval instrend fuel 0).map fun r => (r.1, events ++ r.2)

/-- The updates set the indentation, and nothing else. -/
def SetsIndent [DecIndent] (us : List Update) (n : ℕ) : Prop :=
  ∀ g : Globals, g.after us = { g with indent := n }

variable {c eval} {us vs : List Update} {n : ℕ}

theorem SetsIndent.neutral_append [DecIndent] (hus : Restores us) (hvs : SetsIndent vs n) :
    SetsIndent (us ++ vs) n := by
  intro g
  rw [Globals.after, after_append, hus]
  exact hvs g

theorem SetsIndent.between_warnings [DecIndent] (h : SetsIndent us n) :
    SetsIndent (.warn :: (us ++ [.unwarn])) n := by
  intro g
  rw [Globals.after, after_cons, after_append]
  have hus := h (Update.warn.apply g)
  rw [Globals.after] at hus
  rw [hus]
  simp [Lib.after, Update.apply]

/-- The indentation is set to what it is anyway. -/
theorem SetsIndent.after_eq_iff [DecIndent] (h : SetsIndent us n) (g : Globals) :
    g.after us = g ↔ n = g.indent := by
  rw [h g]
  constructor
  · intro heq
    exact congrArg Globals.indent heq
  · rintro rfl
    rfl

variable {limit fuel k : ℕ} {rv : DcmdStatus} {events : List (CmdEvent Printf)}

/-- **Whatever comes of the rounds**, the indentation is in the end less than what it has been reset
to. -/
theorem setsIndent_v8codeLoop [DecIndent] (h : v8codeLoop eval limit fuel k = some (rv, events)) :
    SetsIndent (eventUpdates events) (eval.level - 8) := by
  induction fuel generalizing k rv events with
  | zero => cases h
  | succ fuel ih =>
    unfold v8codeLoop at h
    dsimp only at h
    split at h
    · cases h
      exact fun g => by simp [Globals.after, Lib.after, Update.apply]
    split at h
    · cases h
      exact fun g => by simp [Globals.after, Lib.after, Update.apply]
    split at h
    · obtain ⟨r, hrest, heq⟩ := Option.map_eq_some_iff.mp h
      obtain ⟨-, rfl⟩ := Prod.mk.inj heq
      intro g
      -- the next round begins with another level, which does not matter
      rw [eventUpdates_append, Globals.after, after_append]
      exact ih hrest _
    · cases h
      exact fun g => by simp [Globals.after, Lib.after, Update.apply]

/-- Without `-d`, nothing is done to the indentation. -/
theorem restores_doV8code [DecIndent] {codep : Loading.V8Code}
    (h : doV8code c eval fuel codep false = some (rv, events)) : Restores (eventUpdates events) := by
  cases h
  exact .nil

theorem setsIndent_doV8code [DecIndent] {codep : Loading.V8Code}
    (h : doV8code c eval fuel codep true = some (rv, events)) :
    SetsIndent (eventUpdates events) (eval.level - 8) := by
  obtain ⟨⟨rv', rounds⟩, hloop, heq⟩ := Option.map_eq_some_iff.mp h
  obtain ⟨-, rfl⟩ := Prod.mk.inj heq
  rw [eventUpdates_append, eventUpdates_printf, eventUpdates_printf, eventUpdates_nil,
    List.nil_append]
  exact setsIndent_v8codeLoop hloop

end V8code

/-! ### What a function is printed by -/

/-- `v8funcinfo_scriptpath`. -/
def v8funcinfoScriptpath (t : Target) (fip : V8Funcinfo) (strb : Strbuf) (flags : ℕ) : ℤ × Strbuf :=
  match v8stringLoad t fip.scriptpath with
  | none => (-1, strb)
  | some strp => v8stringWrite t strp strb flags jsstrNone

/-- A new buffer of 512 bytes, all of them zero. -/
def newStrbuf : Strbuf := mdbv8StrbufInit { bytes := fun _ => 0 } 0 512

/-- The text in a buffer of 512 bytes, with the script and the position of a function behind it. There is
none if the search for the line leaves its table. -/
def definedAt (t : Target) (fip : V8Funcinfo) (strb : Strbuf) : Option (List UInt8) :=
  let strb := (v8funcinfoScriptpath t fip strb msfAsciionly).2
  let strb := mdbv8StrbufSprintf strb (bytesOf " ")
  (v8funcinfoDefinitionLocation t fip strb msfAsciionly).map fun r => r.2.mem.cstring 0 512

/-- What `::v8function` prints about the definition of a function. -/
def v8functionText (t : Target) (addr : ℕ) (fip : V8Funcinfo) : Option (List UInt8) :=
  let strb := mdbv8StrbufSprintf newStrbuf (fmtP addr ++ bytesOf ": JSFunction: ")
  let strb := (v8funcinfoFuncname t fip strb msfAsciionly).2
  let strb := mdbv8StrbufSprintf strb (bytesOf "\n")
  definedAt t fip (mdbv8StrbufSprintf strb (bytesOf "defined at "))

/-- What `::jsfunction` prints about the definition of a function, unless the name cannot be written. -/
def jsfunctionText (t : Target) (fip : V8Funcinfo) : Option (Option (List UInt8)) :=
  let strb := mdbv8StrbufSprintf newStrbuf (bytesOf "function: ")
  let (rv, strb) := v8funcinfoFuncname t fip strb msfAsciionly
  if rv ≠ 0 then some none
  else (definedAt t fip (mdbv8StrbufSprintf strb (bytesOf "\ndefined at "))).map some

end MdbV8

namespace MdbV8.Loading

open Lib

/-- `UM_NOSLEEP`. -/
def umNosleep : Memflags := 0x0

/-- The part of the metadata that is about the parts of a function that are loaded from it. -/
structure FunctionLayout where
  offJsfunctionContext : ℤ := -1
  offSharedfunctioninfoScopeInfo : ℤ := -1

/-- What a command about functions is run with. -/
structure FunctionEnv where
  d : Debugger
  layout : FunctionLayout
  asks : Asks
  eval : EvalEnv

section V8function

variable (env : FunctionEnv)

/-- `v8function_context`. -/
def v8functionContext (funcp : V8Function) (memflags : Memflags) : StateM Mdb (Option V8Context) := do
  let some context ← read env.d (·.readHeapPtr funcp.addr env.layout.offJsfunctionContext)
    | return none
  v8contextLoad env.d context memflags

/-- `v8function_scopeinfo`. -/
def v8functionScopeinfo (funcp : V8Function) (memflags : Memflags) :
    StateM Mdb (Option V8Scopeinfo) := do
  if env.layout.offSharedfunctioninfoScopeInfo = -1 then return none
  let some shared ← read env.d (·.readHeapPtr funcp.addr env.d.cfg.offJsfunctionShared)
    | return none
  let some scopeinfo ←
    read env.d (·.readHeapPtr shared env.layout.offSharedfunctioninfoScopeInfo) | return none
  v8scopeinfoLoad env.d scopeinfo memflags

/-- `v8function_funcinfo`. -/
def v8functionFuncinfo (funcp : V8Function) (memflags : Memflags) : StateM Mdb (Option V8Funcinfo) :=
  v8funcinfoLoad env.d funcp.shared memflags

/-- `v8funcinfo_code`. -/
def v8funcinfoCode (fip : V8Funcinfo) (memflags : Memflags) : StateM Mdb (Option V8Code) :=
  v8codeLoad env.d fip.code memflags

/-! ### `::v8function` -/

/-- The handles of `dcmd_v8function` but the last one, which may be missing. -/
structure FunctionHandles where
  fp : Option V8Function := none
  ctxp : Option V8Context := none
  fip : Option V8Funcinfo := none
  codep : Option V8Code := none
  strb : Option Mdbv8Strbuf := none

/-- The handles are complete. -/
def FunctionHandles.ready (h : FunctionHandles) :
    Option (V8Function × V8Context × V8Funcinfo × V8Code) := do
  let fp ← h.fp
  let ctxp ← h.ctxp
  let fip ← h.fip
  let codep ← h.codep
  let _ ← h.strb
  return (fp, ctxp, fip, codep)

/-- The loads of `dcmd_v8function`, up to the first one that fails. -/
def loadHandles (addr : ℕ) : StateM Mdb (FunctionHandles × List Update) := do
  let fp ← v8functionLoad env.d addr umNosleep
  let some funcp := fp | return ({}, [])
  let ctxp ← v8functionContext env funcp umNosleep
  if ctxp.isNone then return ({ fp }, [])
  let us ← asked env.d env.asks (.v8funcinfoLoad funcp.shared)
  let fip ← v8functionFuncinfo env funcp umNosleep
  let some info := fip | return ({ fp, ctxp }, us)
  let codep ← v8funcinfoCode env info umNosleep
  if codep.isNone then return ({ fp, ctxp, fip }, us)
  let strb ← mdbv8StrbufAlloc env.d 512 umNosleep
  return ({ fp, ctxp, fip, codep, strb }, us)

/-- The line of `dcmd_v8function` about the ScopeInfo. -/
def scopeinfoLine : Option V8Scopeinfo → CmdEvent Printf
  | none => printf "shared scope_info not available\n" []
  | some sip => printf "shared scope_info: %p\n" [.word sip.addr]

/-- What `dcmd_v8function` does with its handles, and the last handle. -/
def v8functionBody (fuel addr : ℕ) (optD : Bool) (h : FunctionHandles) :
    StateM Mdb (Option V8Scopeinfo × Option (DcmdStatus × List (CmdEvent Printf))) :=
  match h.ready with
  | none => return (none, some (.err, []))
  | some (fp, ctxp, fip, codep) => do
    let text ← read env.d fun t => v8functionText t addr fip.info
    let sip ← v8functionScopeinfo env fp umNosleep
    let events := text.map fun text =>
      [printf "%s\n" [.text text], printf "context: %p\n" [.word ctxp.addr], scopeinfoLine sip]
    return (sip, events.bind fun events =>
      (doV8code env.d.cfg env.eval fuel codep optD).map fun r => (r.1, events ++ r.2))

/-- **`dcmd_v8function`**, with all the arguments valid or not, and with `-d` or without. -/
def dcmdV8function (fuel addr : ℕ) (valid optD : Bool) :
    StateM Mdb (Option (DcmdStatus × List (CmdEvent Printf))) := do
  if !valid then return some (.usage, [])
  let (h, us) ← loadHandles env addr
  let (sip, body) ← v8functionBody env fuel addr optD h
  v8codeFree env.d h.codep
  v8funcinfoFree env.d h.fip
  v8scopeinfoFree env.d sip
  v8contextFree env.d h.ctxp
  v8functionFree env.d h.fp
  mdbv8StrbufFree env.d h.strb
  return body.map fun r =>
    (r.1, .update .warn :: (us.map .update ++ r.2 ++ [.update .unwarn]))

/-! ### `::jsfunction` -/

/-- `UM_SLEEP | UM_GC`. -/
def umSleepGc : Memflags := umSleep ||| umGc

/-- `obj_jstype` into a buffer of 80 bytes, and a line with what it prints. -/
def jsfunctionValue (format : String) (args : List PrintArg) (value : ℕ) :
    StateM Mdb (Option (List (CmdEvent Printf))) := do
  let us ← asked env.d env.asks (.objJstype value)
  let r ← read env.d fun t => objJstype t value (OutBuf.fresh (fun _ => 0) 80)
  return r.map fun r => us.map .update ++ [printf format (args ++ [.word value, .text (r.2.str 80)])]

/-- `v8boundfunction_iter_args` with `jsfunction_bound_arg`, for the arguments from one on, of which
there are `n`. -/
def jsfunctionBoundArgs (bfp : V8Boundfunction) :
    ℕ → ℕ → StateM Mdb (Option (List (CmdEvent Printf)))
  | 0, _ => return some []
  | n + 1, argi => do
    let first ← jsfunctionValue env "      arg%d  = %p (%s)\n" [.word argi]
      (bfp.array.elts.getD (bfp.idxArg0 + argi) 0)
    let rest ← jsfunctionBoundArgs bfp n (argi + 1)
    return first.bind fun first => rest.map fun rest => first ++ rest

/-- `dcmd_jsfunction` of a bound function. -/
def jsfunctionBound (bfp : V8Boundfunction) : StateM Mdb (Option (List (CmdEvent Printf))) := do
  let this ← jsfunctionValue env "with \"this\" = %p (%s)\n" [] bfp.this
  let args ← jsfunctionBoundArgs env bfp (bfp.arraylen - bfp.idxArg0) 0
  return this.bind fun this => args.map fun args =>
    printf "bound function that wraps: %p\n" [.word bfp.target] :: (this ++ args)

/-- What `dcmd_jsfunction` does with its handles. -/
def jsfunctionBody (fip : Option V8Funcinfo) (strb : Option Mdbv8Strbuf) :
    StateM Mdb (Option (DcmdStatus × List (CmdEvent Printf))) :=
  match fip, strb with
  | some fip, some _ => do
    let text ← read env.d fun t => jsfunctionText t fip.info
    return text.map fun text =>
      match text with
      | none => (.err, [])
      | some text => (.ok, [printf "%s\n" [.text text]])
  | _, _ => return some (.err, [])

/-- The buffer of `dcmd_jsfunction`, if it is allocated. -/
def jsfunctionStrbuf (fip : Option V8Funcinfo) : StateM Mdb (Option Mdbv8Strbuf) :=
  if fip.isNone then return none else mdbv8StrbufAlloc env.d 512 umSleepGc

/-- `dcmd_jsfunction` of another function. -/
def jsfunctionOther (addr : ℕ) : StateM Mdb (Option (DcmdStatus × List (CmdEvent Printf))) := do
  let fp ← v8functionLoad env.d addr umSleepGc
  let some funcp := fp | return some (.err, [.update .warn, .update .unwarn])
  let us ← asked env.d env.asks (.v8funcinfoLoad funcp.shared)
  let fip ← v8functionFuncinfo env funcp umSleepGc
  let strb ← jsfunctionStrbuf env fip
  let body ← jsfunctionBody env fip strb
  v8funcinfoFree env.d fip
  v8functionFree env.d fp
  mdbv8StrbufFree env.d strb
  return body.map fun r =>
    (r.1, .update .warn :: (us.map .update ++ r.2 ++ [.update .unwarn]))

/-- **`dcmd_jsfunction`**. -/
def dcmdJsfunction (addr : ℕ) : StateM Mdb (Option (DcmdStatus × List (CmdEvent Printf))) := do
  let us ← asked env.d env.asks (.v8boundfunctionLoad addr)
  let bfp ← v8boundfunctionLoad env.d addr umSleepGc
  match bfp with
  | some bound => do
    let events ← jsfunctionBound env bound
    v8boundfunctionFree env.d bfp
    return events.map fun events => (.ok, us.map .update ++ events)
  | none => do
    let r ← jsfunctionOther env addr
    return r.map fun r => (r.1, us.map .update ++ r.2)

/-! ### What they leave behind -/

variable {env} {fuel addr : ℕ} {rv : DcmdStatus} {events : List (CmdEvent Printf)}

/-- Warnings that are turned on and off again around other updates. -/
theorem restores_warnings [DecIndent] {us : List Update} (hus : Restores us)
    (hevents : Restores (eventUpdates events)) :
    Restores (eventUpdates (.update .warn :: (us.map .update ++ events ++ [.update .unwarn]))) := by
  rw [eventUpdates_update, eventUpdates_append, eventUpdates_append, eventUpdates_updates]
  exact (hus.append hevents).bracket takesBack_warn

/-- The loads restore what they find, whether one of them fails or not. -/
theorem yields_loadHandles [DecIndent] : Yields (fun r => Restores r.2) (loadHandles env addr) := by
  unfold loadHandles
  refine .andThen fun fp => ?_
  split
  · refine .andThen fun ctxp => ?_
    split
    · exact .pure .nil
    · refine (yields_asked env.d env.asks _).bind fun us hus => .andThen fun fip => ?_
      split
      · refine .andThen fun codep => ?_
        split
        · exact .pure hus
        · exact .andThen fun strb => .pure hus
      · exact .pure hus
  · exact .pure .nil

/-- Without all of its handles, `dcmd_v8function` prints nothing. -/
theorem v8functionBody_of_none {optD : Bool} {h : FunctionHandles} (hready : h.ready = none) :
    v8functionBody env fuel addr optD h = pure (none, some (.err, [])) := by
  rw [v8functionBody, hready]

/-- With them, it does what `do_v8code` does. -/
theorem yields_v8functionBody {optD : Bool} {h : FunctionHandles} {P : List Update → Prop}
    (hready : h.ready.isSome)
    (hcode : ∀ codep rv events,
      doV8code env.d.cfg env.eval fuel codep optD = some (rv, events) → P (eventUpdates events)) :
    Yields (fun r => ∀ x ∈ r.2, P (eventUpdates x.2)) (v8functionBody env fuel addr optD h) := by
  obtain ⟨⟨fp, ctxp, fip, codep⟩, hready⟩ := Option.isSome_iff_exists.mp hready
  rw [v8functionBody, hready]
  refine .andThen fun text => .andThen fun sip => .pure fun x hx => ?_
  obtain ⟨events, hevents, hx⟩ := Option.bind_eq_some_iff.mp hx
  obtain ⟨⟨rv, code⟩, hcodep, rfl⟩ := Option.map_eq_some_iff.mp hx
  obtain ⟨text, -, rfl⟩ := Option.map_eq_some_iff.mp hevents
  have hscope (events : List (CmdEvent Printf)) :
      eventUpdates (scopeinfoLine sip :: events) = eventUpdates events := by
    cases sip with
    | none => rfl
    | some sip => rfl
  dsimp only
  rw [eventUpdates_append, eventUpdates_printf, eventUpdates_printf, hscope, eventUpdates_nil,
    List.nil_append]
  exact hcode codep rv code hcodep

/-- The result of `dcmd_v8function`: the handles are freed without any effect on it. -/
theorem dcmdV8function_fst (optD : Bool) (m : Mdb) :
    (dcmdV8function env fuel addr true optD m).1 =
      let loaded := loadHandles env addr m
      (v8functionBody env fuel addr optD loaded.1.1 loaded.2).1.2.map fun r =>
        (r.1, .update .warn :: (loaded.1.2.map .update ++ r.2 ++ [.update .unwarn])) := rfl

variable (env addr) in
/-- **The parts of a function can be loaded** that `dcmd_v8function` cannot do without. -/
def V8functionLoads (m : Mdb) : Prop := (loadHandles env addr m).1.1.ready.isSome

/-- **`dcmd_v8function` leaves everything as it is**, if it does not come to the instructions. -/
theorem restores_dcmdV8function [DecIndent] {valid optD : Bool} {m : Mdb}
    (h : (dcmdV8function env fuel addr valid optD m).1 = some (rv, events))
    (hnot : ¬ (valid = true ∧ optD = true ∧ V8functionLoads env addr m)) :
    Restores (eventUpdates events) := by
  cases valid with
  | false =>
    cases h
    exact .nil
  | true =>
    rw [dcmdV8function_fst] at h
    -- loading the handles takes back what it has changed
    have hus : Restores (loadHandles env addr m).1.2 := yields_loadHandles m
    obtain ⟨x, hx, heq⟩ := Option.map_eq_some_iff.mp h
    obtain ⟨-, rfl⟩ := Prod.mk.inj heq
    refine restores_warnings hus ?_
    cases hready : (loadHandles env addr m).1.1.ready with
    | none =>
      rw [v8functionBody_of_none hready] at hx
      cases hx
      exact .nil
    | some handles =>
      -- everything has been loaded, so the instructions have not been asked for
      have hsome := Option.isSome_of_mem hready
      obtain rfl : optD = false := by
        by_contra hd
        exact hnot ⟨rfl, by simpa using hd, hsome⟩
      exact yields_v8functionBody hsome (fun codep rv events => restores_doV8code) _ x hx

/-- **If it does**, the indentation is in the end less than what it has been reset to. -/
theorem setsIndent_dcmdV8function [DecIndent] {m : Mdb}
    (h : (dcmdV8function env fuel addr true true m).1 = some (rv, events))
    (hloads : V8functionLoads env addr m) :
    SetsIndent (eventUpdates events) (env.eval.level - 8) := by
  rw [dcmdV8function_fst] at h
  have hus : Restores (loadHandles env addr m).1.2 := yields_loadHandles m
  obtain ⟨x, hx, heq⟩ := Option.map_eq_some_iff.mp h
  obtain ⟨-, rfl⟩ := Prod.mk.inj heq
  have hbody : SetsIndent (eventUpdates x.2) (env.eval.level - 8) :=
    yields_v8functionBody (P := fun us => SetsIndent us (env.eval.level - 8)) hloads
      (fun codep rv events => setsIndent_doV8code) _ x hx
  rw [eventUpdates_update, eventUpdates_append, eventUpdates_append, eventUpdates_updates]
  exact (hbody.neutral_append hus).between_warnings

/-! ### `::jsfunction` -/

theorem yields_jsfunctionValue [DecIndent] (format : String) (args : List PrintArg) (value : ℕ) :
    Yields (fun r => ∀ events ∈ r, Restores (eventUpdates events))
      (jsfunctionValue env format args value) := by
  refine (yields_asked env.d env.asks _).bind fun us hus => .andThen fun r => .pure fun events hevents => ?_
  obtain ⟨r, -, rfl⟩ := Option.map_eq_some_iff.mp hevents
  rw [eventUpdates_append, eventUpdates_updates]
  exact hus.append .nil

theorem yields_jsfunctionBoundArgs [DecIndent] {bfp : V8Boundfunction} (n argi : ℕ) :
    Yields (fun r => ∀ events ∈ r, Restores (eventUpdates events))
      (jsfunctionBoundArgs env bfp n argi) := by
  induction n generalizing argi with
  | zero =>
    refine .pure fun events hevents => ?_
    cases hevents
    exact .nil
  | succ n ih =>
    refine (yields_jsfunctionValue _ _ _).bind fun first hfirst => (ih _).bind fun rest hrest =>
      .pure fun events hevents => ?_
    obtain ⟨events₁, h₁, hevents⟩ := Option.bind_eq_some_iff.mp hevents
    obtain ⟨events₂, h₂, rfl⟩ := Option.map_eq_some_iff.mp hevents
    rw [eventUpdates_append]
    exact (hfirst events₁ h₁).append (hrest events₂ h₂)

theorem yields_jsfunctionBound [DecIndent] {bfp : V8Boundfunction} :
    Yields (fun r => ∀ events ∈ r, Restores (eventUpdates events)) (jsfunctionBound env bfp) := by
  refine (yields_jsfunctionValue _ _ _).bind fun this hthis =>
    (yields_jsfunctionBoundArgs _ _).bind fun args hargs => .pure fun events hevents => ?_
  obtain ⟨events₁, h₁, hevents⟩ := Option.bind_eq_some_iff.mp hevents
  obtain ⟨events₂, h₂, rfl⟩ := Option.map_eq_some_iff.mp hevents
  rw [eventUpdates_printf, eventUpdates_append]
  exact (hthis events₁ h₁).append (hargs events₂ h₂)

/-- Its handles are only printed. -/
theorem yields_jsfunctionBody [DecIndent] (fip : Option V8Funcinfo) (strb : Option Mdbv8Strbuf) :
    Yields (fun r => ∀ x ∈ r, Restores (eventUpdates x.2)) (jsfunctionBody env fip strb) := by
  unfold jsfunctionBody
  split
  · refine .andThen fun text => .pure fun x hx => ?_
    obtain ⟨text', -, rfl⟩ := Option.map_eq_some_iff.mp hx
    cases text' with
    | none => exact .nil
    | some text' => exact .nil
  · refine .pure fun x hx => ?_
    cases hx
    exact .nil

theorem yields_jsfunctionOther [DecIndent] :
    Yields (fun r => ∀ x ∈ r, Restores (eventUpdates x.2)) (jsfunctionOther env addr) := by
  refine .andThen fun fp => ?_
  split
  · refine (yields_asked env.d env.asks _).bind fun us hus => .andThen fun fip => .andThen fun strb =>
      (yields_jsfunctionBody _ _).bind fun body hbody => .andThen fun _ => .andThen fun _ =>
        .andThen fun _ => .pure fun x hx => ?_
    obtain ⟨r, hr, rfl⟩ := Option.map_eq_some_iff.mp hx
    exact restores_warnings hus (hbody r hr)
  · refine .pure fun x hx => ?_
    cases hx
    exact Neutral.bracket takesBack_warn .nil

/-- **`dcmd_jsfunction` leaves everything as it is**, on all of its paths. -/
theorem yields_dcmdJsfunction [DecIndent] :
    Yields (fun r => ∀ x ∈ r, Restores (eventUpdates x.2)) (dcmdJsfunction env addr) := by
  refine (yields_asked env.d env.asks _).bind fun us hus => .andThen fun bfp => ?_
  cases bfp with
  | some bound =>
    refine yields_jsfunctionBound.bind fun events hevents => .andThen fun _ =>
      .pure fun x hx => ?_
    obtain ⟨events', h', rfl⟩ := Option.map_eq_some_iff.mp hx
    rw [eventUpdates_append, eventUpdates_updates]
    exact hus.append (hevents events' h')
  | none =>
    refine yields_jsfunctionOther.bind fun r hr => .pure fun x hx => ?_
    obtain ⟨x', h', rfl⟩ := Option.map_eq_some_iff.mp hx
    rw [eventUpdates_append, eventUpdates_updates]
    exact hus.append (hr x' h')

end V8function

end MdbV8.Loading
