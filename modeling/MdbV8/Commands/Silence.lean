import MdbV8.Find.References
import MdbV8.Stack.Globals

/-!
# The silence of a scan

Most of what a scan takes for an object is none, and so the scan is silent, and the functions that it
calls for an object are silent once more: `findjsobjects_constructor` up to a label at its end, to which
every failure leads, and `findjsobjects_jsfunc` up to one of two places. A search for references is silent
as well. These functions have been modelled by what they find; here they come with their updates.

Any read of the first two may fail; in a whole scan, the memory is taken to stay as it is.
-/

namespace MdbV8

open Lib
open Loading (Debugger)

/-- Silence around other updates. -/
theorem restores_silence [DecIndent] {us : List Update} (h : Restores us) :
    Restores (.silence :: (us ++ [.unsilence])) :=
  h.bracket takesBack_silence

section Silence

variable (d : Debugger) (t : Target) (asks : Asks)

/-! ### Objects and functions -/

/-- `findjsobjects_constructor`, with its updates. -/
def findjsobjectsConstructorRun (addr : ℕ) : Option (List UInt8 × List Update) :=
  let out (text : List UInt8) (us : List Update) : Option (List UInt8 × List Update) :=
    some (text, .silence :: (us ++ [.unsilence]))
  match (d.target 0).readHeapPtr addr d.cfg.offHeapobjectMap with
  | none => out [] []
  | some map =>
    match getMapConstructor (d.target 1) (2 ^ d.cfg.bits + 1) map with
    | none => none
    | some none => out [] []
    | some (some addr) =>
      match (d.target 2).readTypebyte addr with
      | none => out [] []
      | some type =>
        if !Target.isType type d.cfg.typeJsfunction then out [] []
        else
          match (d.target 3).readHeapPtr addr d.cfg.offJsfunctionShared with
          | none => out [] []
          | some funcinfop =>
            out ((jsfuncName (d.target 4) funcinfop (OutBuf.fresh (fun _ => 0) 80)).2.str 80)
              (callUpdates (d.target 4) asks (.jsfuncName funcinfop))

/-- It finds what it finds without them. -/
theorem findjsobjectsConstructorRun_fst (addr : ℕ) :
    (findjsobjectsConstructorRun t.still asks addr).map Prod.fst = findjsobjectsConstructor t addr := by
  unfold findjsobjectsConstructorRun findjsobjectsConstructor
  rw [Target.target_still, Target.target_still, Target.target_still, Target.target_still,
    Target.target_still, Target.cfg_still]
  -- both read the same words
  cases t.readHeapPtr addr t.cfg.offHeapobjectMap with
  | none => rfl
  | some map =>
    dsimp only
    cases getMapConstructor t (2 ^ t.cfg.bits + 1) map with
    | none => rfl
    | some found =>
      cases found with
      | none => rfl
      | some consfunc =>
        dsimp only
        cases t.readTypebyte consfunc with
        | none => rfl
        | some type =>
          dsimp only
          split
          · rfl
          · cases t.readHeapPtr consfunc t.cfg.offJsfunctionShared with
            | none => rfl
            | some funcinfop => rfl

/-- The part of `findjsobjects_jsfunc` that is silent: the new function, with the updates. -/
def findjsobjectsFuncRun (addr : ℕ) : Option FindFunc × List Update :=
  let c := d.cfg
  let skipped : Option FindFunc × List Update := (none, [.silence, .unsilence])
  match (d.target 0).readHeapPtr addr c.offJsfunctionShared with
  | none => skipped
  | some funcinfo =>
    match (d.target 1).readHeapPtr funcinfo c.offSharedfunctioninfoScript with
    | none => skipped
    | some script =>
      match (d.target 2).readHeapPtr script c.offScriptName with
      | none => skipped
      | some name =>
        let (rv, funcname) := jsfuncName (d.target 3) funcinfo (OutBuf.fresh (fun _ => 0) 40)
        let (rv', scriptname) := jsstrLocal (d.target 4) name jsstrNone 80
        let us : List Update :=
          .silence :: (callUpdates (d.target 3) asks (.jsfuncName funcinfo) ++ [.unsilence])
        if rv ≠ 0 ∨ rv' ≠ 0 then (none, us)
        else
          (some { shared := funcinfo, funcname := funcname.str 40, scriptname, instances := [addr] }, us)

/-- It finds what it finds without them. -/
theorem findjsobjectsFuncRun_fst (addr : ℕ) :
    (findjsobjectsFuncRun t.still asks addr).1 = findjsobjectsFunc t addr := by
  unfold findjsobjectsFuncRun findjsobjectsFunc
  rw [Target.target_still, Target.target_still, Target.target_still, Target.target_still,
    Target.target_still, Target.cfg_still]
  dsimp only
  cases t.readHeapPtr addr t.cfg.offJsfunctionShared with
  | none => rfl
  | some funcinfo =>
    dsimp only
    cases t.readHeapPtr funcinfo t.cfg.offSharedfunctioninfoScript with
    | none => rfl
    | some script =>
      dsimp only
      cases t.readHeapPtr script t.cfg.offScriptName with
      | none => rfl
      | some name =>
        dsimp only
        split <;> rfl

variable {d t asks}

/-- **Every path leads to the label** where the silence ends. -/
theorem restores_findjsobjectsConstructorRun [DecIndent] {addr : ℕ} {text : List UInt8} {us : List Update}
    (h : findjsobjectsConstructorRun d asks addr = some (text, us)) : Restores us := by
  have hsilence := restores_silence .nil
  unfold findjsobjectsConstructorRun at h
  dsimp only at h
  split at h
  · cases h
    exact hsilence
  -- the search for the constructor may not end, and then nothing returns
  split at h
  · cases h
  · cases h
    exact hsilence
  split at h
  · cases h
    exact hsilence
  split at h
  · cases h
    exact hsilence
  split at h
  · cases h
    exact hsilence
  · cases h
    exact restores_silence (restores_callUpdates (d.target 4) asks _)

/-- **Both places** where the silence may end are after its beginning. -/
theorem restores_findjsobjectsFuncRun [DecIndent] (addr : ℕ) :
    Restores (findjsobjectsFuncRun d asks addr).2 := by
  have hsilence := restores_silence .nil
  unfold findjsobjectsFuncRun
  dsimp only
  cases (d.target 0).readHeapPtr addr d.cfg.offJsfunctionShared with
  | none => exact hsilence
  | some funcinfo =>
    have hname := restores_silence (restores_callUpdates (d.target 3) asks (.jsfuncName funcinfo))
    dsimp only
    cases (d.target 1).readHeapPtr funcinfo d.cfg.offSharedfunctioninfoScript with
    | none => exact hsilence
    | some script =>
      dsimp only
      cases (d.target 2).readHeapPtr script d.cfg.offScriptName with
      | none => exact hsilence
      | some name =>
        dsimp only
        split
        · exact hname
        · exact hname

/-! ### The scan -/

section Scan

variable (t asks)

/-- The updates of a visit. -/
def visitUpdates (range : FindRange) (addr : ℕ) : List Update :=
  match (findjsobjectsType t range addr {}).1.bind (findKind t.cfg) with
  | none => []
  | some .function => (findjsobjectsFuncRun t.still asks addr).2
  | some .object =>
    callUpdates t asks (.jsobjProperties addr) ++
      if (findjsobjectsProperties t addr).isSome then
        ((findjsobjectsConstructorRun t.still asks addr).map Prod.snd).getD []
      else []
  | some .array => []

/-- The updates of the visits of a scan. -/
def scanUpdates (visits : List (FindRange × ℕ)) : List Update :=
  visits.flatMap fun v => visitUpdates t asks v.1 v.2

/-- The updates of `findjsobjects_run`, if it comes to a scan. -/
def findjsobjectsScanUpdates (maps : List Prmap) {L : FindLib t.cfg} (env : ScanEnv)
    (fjs : FindState L) : List Update :=
  let visits (maps : List Prmap) : List Update := scanUpdates t asks (scanVisits t (fjs.params env) maps)
  match env.outcome with
  | .noHandle => []
  | .failed nmaps => .silence :: (visits (maps.take nmaps) ++ [.unsilence])
  | .completed => .silence :: (visits maps ++ [.unsilence])
  -- an interruption leaves the silence as it is
  | .abandoned naddrs =>
    .silence :: scanUpdates t asks ((scanVisits t (fjs.params env) maps).take naddrs)

/-- `findjsobjects_run`, with its updates. -/
def findjsobjectsRunUpdates (maps : List Prmap) {L : FindLib t.cfg} (env : ScanEnv)
    (fjs : FindState L) : Option ((RunEnd × List FindLine × FindState L) × List Update) :=
  (findjsobjectsRun t maps env fjs).map fun r =>
    (r, if L.objs.isEmpty fjs.makeTrees.cache.tree then
      findjsobjectsScanUpdates t asks maps env fjs.makeTrees
    else [])

variable {t asks}

theorem restores_visitUpdates [DecIndent] (range : FindRange) (addr : ℕ) :
    Restores (visitUpdates t asks range addr) := by
  unfold visitUpdates
  split
  · exact .nil
  · exact restores_findjsobjectsFuncRun addr
  · refine (restores_callUpdates t asks _).append ?_
    split
    · cases hconstructor : findjsobjectsConstructorRun t.still asks addr with
      | none => exact .nil
      | some r => exact restores_findjsobjectsConstructorRun hconstructor
    · exact .nil
  · exact .nil

theorem restores_scanUpdates [DecIndent] (visits : List (FindRange × ℕ)) :
    Restores (scanUpdates t asks visits) :=
  Neutral.flatMap fun v _ => restores_visitUpdates v.1 v.2

/-- **A scan that returns is no longer silent**, whether it has come to its end or not. -/
theorem restores_findjsobjectsRunUpdates [DecIndent] {maps : List Prmap} {L : FindLib t.cfg} {env : ScanEnv}
    {fjs fjs' : FindState L} {rv : ℤ} {lines : List FindLine} {us : List Update}
    (h : findjsobjectsRunUpdates t asks maps env fjs = some ((.returned rv, lines, fjs'), us)) :
    Restores us := by
  obtain ⟨r, hrun, heq⟩ := Option.map_eq_some_iff.mp h
  obtain ⟨rfl, rfl⟩ := Prod.mk.inj heq
  split
  · next hempty =>
    unfold findjsobjectsScanUpdates
    cases houtcome : env.outcome with
    | noHandle => exact .nil
    | failed nmaps => exact restores_silence (restores_scanUpdates _)
    | completed => exact restores_silence (restores_scanUpdates _)
    | abandoned naddrs =>
      -- this is no return
      unfold findjsobjectsRun findjsobjectsScan at hrun
      simp [hempty, houtcome] at hrun
  · exact .nil

end Scan

/-! ### References -/

section References

variable (t asks)

/-- The updates of a search for references in a group. -/
def groupUpdates (obj : FindObj) : List Update :=
  if obj.nprops ≠ 0 ∧ obj.props = [] then []
  else obj.instances.flatMap fun addr => callUpdates t asks (.jsobjProperties addr)

/-- `findjsobjects_references`, with its updates. -/
def findjsobjectsReferencesUpdates {L : FindLib t.cfg} (fjs : FindState L) :
    Except FindFault ((List FindLine × FindState L) × List Update) :=
  (findjsobjectsReferences t fjs).map fun r =>
    (r, .silence :: (fjs.cache.groups.flatMap (groupUpdates t asks) ++ [.unsilence]))

variable {t asks}

/-- **A search for references** is silent in its first part only. -/
theorem restores_findjsobjectsReferencesUpdates [DecIndent] {L : FindLib t.cfg} {fjs : FindState L}
    {r : List FindLine × FindState L} {us : List Update}
    (h : findjsobjectsReferencesUpdates t asks fjs = .ok (r, us)) : Restores us := by
  have hus : us = .silence :: (fjs.cache.groups.flatMap (groupUpdates t asks) ++ [.unsilence]) := by
    unfold findjsobjectsReferencesUpdates at h
    cases hreferences : findjsobjectsReferences t fjs with
    | error fault =>
      rw [hreferences] at h
      cases h
    | ok r' =>
      rw [hreferences] at h
      cases h
      rfl
  rw [hus]
  refine restores_silence (Neutral.flatMap fun obj _ => ?_)
  unfold groupUpdates
  split
  · exact .nil
  · exact Neutral.flatMap fun addr _ => restores_callUpdates t asks _

end References

end Silence

end MdbV8
