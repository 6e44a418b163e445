import MdbV8.Commands.Frames
import MdbV8.Commands.Silence
import MdbV8.Commands.V8function

/-!
# What commands leave behind

Ten functions change the state that all commands share, and each of them means to leave it as it has found
it. Here they are put side by side, as calls with all that they depend on (`GlobalCall`): the debugger,
where any read may fail, the options, and what has been found so far.

Two of them fail (`keepsGlobals_iff`). `do_jsframe` leaves the indentation behind if it stops at the line
endings of the script. `do_v8code` takes back an indentation that the debugger has taken back already, so
that what it leaves is right only if there was no indentation to begin with; and `dcmd_v8function` calls
it. The other functions, and all the options of these, leave everything as it is.

A function that is interrupted does not return, and is left out, as is one that does not come to an end.
-/

namespace MdbV8

open Lib
open Loading (Debugger Mdb)

/-- **A call** of a function that changes the state that all commands share. -/
inductive GlobalCall where
  | doJsframe (d : Debugger) (env : StackEnv) (opts : JsframeOpts) (frame : StackFrame) (nskipped : ℕ)
  | objPrintClass (d : Debugger) (asks : Asks) (readstr : ℕ → Option (List UInt8)) (addr : ℕ)
      (classes : List ConfClass) (m : Mdb)
  | doV8code (c : Config) (eval : EvalEnv) (codep : Loading.V8Code) (optD : Bool)
  | jsobjIsOddball (d : Debugger) (addr : ℕ) (oddball : String)
  | findjsobjectsConstructor (d : Debugger) (asks : Asks) (addr : ℕ)
  | findjsobjectsJsfunc (d : Debugger) (asks : Asks) (addr : ℕ)
  | findjsobjectsReferences (t : Target) (asks : Asks) (L : FindLib t.cfg) (fjs : FindState L)
  | findjsobjectsRun (t : Target) (asks : Asks) (maps : List Prmap) (L : FindLib t.cfg) (env : ScanEnv)
      (fjs : FindState L)
  | dcmdV8function (env : Loading.FunctionEnv) (addr : ℕ) (valid optD : Bool) (m : Mdb)
  | dcmdJsfunction (env : Loading.FunctionEnv) (addr : ℕ) (m : Mdb)

namespace GlobalCall

/-- What the function does to the state, if it returns. Instructions are disassembled for at most `fuel`
rounds. -/
def updates (fuel : ℕ) : GlobalCall → Option (List Update)
  | doJsframe d env opts frame nskipped =>
    (MdbV8.doJsframe d env opts frame.fptr frame.raddr nskipped).map fun run => eventUpdates run.events
  | objPrintClass d asks readstr addr classes m =>
    (Loading.objPrintClass d asks readstr addr classes m).1.map eventUpdates
  | doV8code c eval codep optD =>
    (MdbV8.doV8code c eval fuel codep optD).map fun r => eventUpdates r.2
  | jsobjIsOddball d addr oddball => some (jsobjIsOddballRun d addr oddball).2
  | findjsobjectsConstructor d asks addr => (findjsobjectsConstructorRun d asks addr).map Prod.snd
  | findjsobjectsJsfunc d asks addr => some (findjsobjectsFuncRun d asks addr).2
  | findjsobjectsReferences t asks _ fjs =>
    (findjsobjectsReferencesUpdates t asks fjs).toOption.map Prod.snd
  | findjsobjectsRun t asks maps _ env fjs =>
    match findjsobjectsRunUpdates t asks maps env fjs with
    | some ((.returned _, _, _), us) => some us
    | _ => none
  | dcmdV8function env addr valid optD m =>
    (Loading.dcmdV8function env fuel addr valid optD m).1.map fun r => eventUpdates r.2
  | dcmdJsfunction env addr m =>
    (Loading.dcmdJsfunction env addr m).1.map fun r => eventUpdates r.2

/-- What `mdb_eval` resets the indentation to, if the function may call it. -/
def resetLevel : GlobalCall → Option ℕ
  | doV8code _ eval _ true => some eval.level
  | dcmdV8function env _ _ true _ => some env.eval.level
  | _ => none

/-- **The function leaves everything as it is**, if it returns. -/
def KeepsGlobals [DecIndent] (call : GlobalCall) (fuel : ℕ) (g : Globals) : Prop :=
  ∀ us, call.updates fuel = some us → g.after us = g

/-- When it does: the frame is not one that `do_jsframe` stops in the middle of, and there is no
indentation if instructions are disassembled. -/
def Meets (g : Globals) : GlobalCall → Prop
  | doJsframe d env opts frame _ => ¬ frame.LeavesIndent d env opts
  | doV8code _ _ _ optD => optD = true → g.indent = 0
  | dcmdV8function env addr valid optD m =>
    valid = true ∧ optD = true ∧ Loading.V8functionLoads env addr m → g.indent = 0
  | _ => True

variable {call : GlobalCall} {fuel : ℕ} {g : Globals} {us : List Update}

/-- A function that ends by taking back what `mdb_eval` has taken back already. -/
theorem after_eq_iff_of_setsIndent [DecIndent] {level : ℕ} (h : SetsIndent us (level - 8))
    (hreset : level ≤ g.indent) : g.after us = g ↔ g.indent = 0 := by
  rw [h.after_eq_iff g]
  constructor
  · intro heq
    -- it would have to be as much as before, after less of it
    omega
  · intro hzero
    omega

/-- The updates of a call are taken back, where the condition says so. -/
theorem after_eq_iff_meets [DecIndent] (hreset : ∀ level ∈ call.resetLevel, level ≤ g.indent)
    (h : call.updates fuel = some us) : g.after us = g ↔ call.Meets g := by
  have hkept (hus : Restores us) : g.after us = g ↔ True := iff_of_true (hus g) trivial
  cases call with
  | doJsframe d env opts frame nskipped =>
    obtain ⟨run, hrun, rfl⟩ := Option.map_eq_some_iff.mp h
    exact after_doJsframe_iff hrun g
  | objPrintClass d asks readstr addr classes m =>
    obtain ⟨events, hevents, rfl⟩ := Option.map_eq_some_iff.mp h
    exact hkept (Loading.yields_objPrintClass classes m events hevents)
  | doV8code c eval codep optD =>
    obtain ⟨⟨rv, events⟩, hrun, rfl⟩ := Option.map_eq_some_iff.mp h
    cases optD with
    | false => exact iff_of_true (restores_doV8code hrun g) nofun
    | true =>
      rw [after_eq_iff_of_setsIndent (setsIndent_doV8code hrun) (hreset eval.level rfl)]
      exact ⟨fun hzero _ => hzero, fun hmeets => hmeets rfl⟩
  | jsobjIsOddball d addr oddball =>
    -- these three end their silence on every path
    cases h
    exact hkept (restores_jsobjIsOddballRun d addr oddball)
  | findjsobjectsConstructor d asks addr =>
    obtain ⟨⟨text, us⟩, hrun, rfl⟩ := Option.map_eq_some_iff.mp h
    exact hkept (restores_findjsobjectsConstructorRun hrun)
  | findjsobjectsJsfunc d asks addr =>
    cases h
    exact hkept (restores_findjsobjectsFuncRun addr)
  | findjsobjectsReferences t asks L fjs =>
    unfold updates at h
    dsimp only at h
    cases hrun : findjsobjectsReferencesUpdates t asks fjs with
    | error fault =>
      rw [hrun] at h
      cases h
    | ok r =>
      rw [hrun] at h
      cases h
      exact hkept (restores_findjsobjectsReferencesUpdates hrun)
  | findjsobjectsRun t asks maps L env fjs =>
    unfold updates at h
    dsimp only at h
    split at h
    · next hrun =>
      cases h
      exact hkept (restores_findjsobjectsRunUpdates hrun)
    · cases h
  | dcmdV8function env addr valid optD m =>
    -- it comes to the instructions if everything can be loaded
    obtain ⟨⟨rv, events⟩, hrun, rfl⟩ := Option.map_eq_some_iff.mp h
    by_cases hcode : valid = true ∧ optD = true ∧ Loading.V8functionLoads env addr m
    · obtain ⟨rfl, rfl, hloads⟩ := hcode
      rw [after_eq_iff_of_setsIndent (Loading.setsIndent_dcmdV8function hrun hloads)
        (hreset env.eval.level rfl)]
      exact ⟨fun hzero _ => hzero, fun hmeets => hmeets ⟨rfl, rfl, hloads⟩⟩
    · exact iff_of_true (Loading.restores_dcmdV8function hrun hcode g) fun h => absurd h hcode
  | dcmdJsfunction env addr m =>
    obtain ⟨⟨rv, events⟩, hrun, rfl⟩ := Option.map_eq_some_iff.mp h
    exact hkept (Loading.yields_dcmdJsfunction m (rv, events) hrun)

end GlobalCall

/-- **Which functions leave everything as it is**, of those that return, if `mdb_eval` resets the
indentation to what it has been at first, or to less. -/
theorem keepsGlobals_iff [DecIndent] {call : GlobalCall} {fuel : ℕ} {g : Globals}
    (hreset : ∀ level ∈ call.resetLevel, level ≤ g.indent) (hreturns : (call.updates fuel).isSome) :
    call.KeepsGlobals fuel g ↔ call.Meets g := by
  obtain ⟨us, hus⟩ := Option.isSome_iff_exists.mp hreturns
  rw [← GlobalCall.after_eq_iff_meets hreset hus]
  constructor
  · intro hkeeps
    exact hkeeps us hus
  · intro hafter us' hus'
    cases hus.symm.trans hus'
    exact hafter

/-! ### A read that fails, and an indentation that is lost -/

/-- A debugger that cannot read any more after nine reads: by then, all of a frame has been read but the
line endings of the script, once more. -/
def lostDebugger : Debugger where
  cfg := { Config.sample .ilp32 with
    offScriptName := 3, offScriptLineEnds := 7, offSharedfunctioninfoCode := 7 }
  mem reads a :=
    if reads < 9 then
      (Target.ofWords (Config.sample .ilp32)
        [(0x1ff8, 0x3101), (0x1ffc, 0x3001), (0x3100, 0x4001), (0x4008, 0xb5), (0x3114, 0x3201),
          (0x3204, 0x3401), (0x3208, 0x3501), (0x3220, 0x3301), (0x3230, 8), (0x3304, 0x3601),
          (0x3308, 0x3701)]).mem a
    else none
  outOfMemory _ := false

/-- The debugger has no symbols. -/
def lostEnv : StackEnv where
  layout := { offFpFunction := -8, offFpContextOrFrameType := -4 }
  symbol _ := []
  address _ := []
  asks _ := []
  zalloc := .unlimited

/-- `do_jsframe` with `-v`. -/
def lostFrame : GlobalCall := .doJsframe lostDebugger lostEnv { verbose := true } ⟨0x2000, 0x5000⟩ 0

/-- `do_v8code` with `-d`, of code that is a single instruction. -/
def oneInstruction : GlobalCall :=
  .doV8code (Config.sample .ilp32)
    { prints := fun _ => true, advances := fun _ => true, dot := fun k => 0x7000 + 4 * k, level := 0 }
    { ptr := 0, memflags := 0, addr := 0x6f01, instrStart := 0x7000, instrSize := 4 } true

theorem keepsGlobals_iff_oneInstruction :
    @GlobalCall.KeepsGlobals .sub oneInstruction 1 ⟨0, 0, 0⟩ ↔ oneInstruction.Meets ⟨0, 0, 0⟩ :=
  letI := DecIndent.sub
  keepsGlobals_iff (by decide) (by decide)

/-- The indentation of a frame stays; and one that has been there before the code is gone. -/
theorem not_keepsGlobals :
    ¬ @GlobalCall.KeepsGlobals .sub lostFrame 0 ⟨0, 0, 0⟩ ∧
      ¬ @GlobalCall.KeepsGlobals .sub oneInstruction 1 ⟨4, 0, 0⟩ := by
  constructor
  · have hus : lostFrame.updates 0 = some [.incIndent 10] := by decide +kernel
    intro hkeeps
    have hindent := congrArg Globals.indent (hkeeps _ hus)
    cases hindent
  · have hus : oneInstruction.updates 1 =
        some [.incIndent 8, .eval 0, .eval 0, .decIndent 8] := by decide
    intro hkeeps
    have hindent := congrArg Globals.indent (hkeeps _ hus)
    cases hindent

end MdbV8
