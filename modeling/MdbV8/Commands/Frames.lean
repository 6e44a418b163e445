import MdbV8.Stack.Jsstack

/-!
# What a frame leaves behind

`do_jsframe` has one place where it indents, in front of the name of the script, and one where it takes the
indentation back, at its end. Between them is a read: that of the line endings of the script. If it fails,
the function returns at once (`after_doJsframe_iff`).

The name of the function cannot be had without the line endings of its script, which are read for it, too.
So what fails is a read that has succeeded before: where the memory stays as it is, everything is as it has
been (`restores_doJsframe_still`).
-/

namespace MdbV8

open Lib
open Loading (Debugger)

section Frames

variable (d : Debugger) (env : StackEnv) (opts : JsframeOpts)

/-- **A special frame**, for `do_jsframe_special`: native, or of a type that V8 stores in it. -/
def StackFrame.Special (t : Target) (env : StackEnv) (frame : StackFrame) : Prop :=
  (env.symbol frame.raddr).length > 1 ∨ (adaptorFrametype t env frame.fptr).isSome ∨
    (internalFrametype t env frame.fptr).isSome

/-- The function of a frame of JavaScript, as it is read. -/
structure FrameFunction (frame : StackFrame) (funcp funcinfop : ℕ) (name : List UInt8) : Prop where
  found : (d.target 1).readPtr (d.cfg.add frame.fptr env.layout.offFpFunction) = some funcp
  type : ((d.target 2).readTypebyte funcp).bind d.cfg.enumLookupStr = some "JSFunction"
  shared : (d.target 3).readHeapPtr funcp d.cfg.offJsfunctionShared = some funcinfop
  named : (jsfuncName (d.target 4) funcinfop (OutBuf.fresh (fun _ => 0) 256)).1 = 0
  text : (jsfuncName (d.target 4) funcinfop (OutBuf.fresh (fun _ => 0) 256)).2.str 256 = name

/-- A function of which everything is printed up to the line endings, which cannot be read. -/
structure JsframeOpts.StopsAt (funcinfop : ℕ) (name : List UInt8) : Prop where
  verbose : opts.verbose = true
  prop : opts.prop = none
  /-- It is the function that is asked for, if there is one. -/
  func : ∀ func ∈ opts.func, name = func
  lost : ∃ tokpos scriptp ptrp, detailsScript d funcinfop = some (tokpos, scriptp, ptrp) ∧
    ¬ LineEndsRead d scriptp

/-- **A frame that the indentation is left behind of.** With `-f`, no frame is special. -/
structure StackFrame.LeavesIndent (frame : StackFrame) : Prop where
  special : opts.func = none → ¬ frame.Special (d.target 0) env
  stops : ∃ funcp funcinfop name, FrameFunction d env frame funcp funcinfop name ∧
    opts.StopsAt d funcinfop name

variable {d env opts} {frame : StackFrame} {nskipped : ℕ} {run : FrameRun}

@[simp] theorem eventUpdates_jsframePrintSkipped (n : ℕ) : eventUpdates (jsframePrintSkipped n) = [] := by
  unfold jsframePrintSkipped
  split
  · rfl
  split <;> rfl

@[simp] theorem eventUpdates_jsframeInternal (nskipped : ℕ) (line : FrameLine) :
    eventUpdates (jsframeInternal opts nskipped line).events = [] := by
  unfold jsframeInternal
  split
  · rw [eventUpdates_append, eventUpdates_jsframePrintSkipped]
    rfl
  · rfl

/-- Only lines are printed of a special frame. -/
theorem eventUpdates_doJsframeSpecial {t : Target}
    (h : doJsframeSpecial t env opts frame.fptr frame.raddr nskipped = some run) :
    eventUpdates run.events = [] := by
  unfold doJsframeSpecial at h
  -- a frame with a symbol, an adaptor frame, and an internal one
  split at h
  · split at h
    · cases h
      rfl
    · cases h
      dsimp only
      rw [eventUpdates_append, eventUpdates_jsframePrintSkipped]
      rfl
  split at h
  · split at h
    · cases h
      rfl
    · cases h
      exact eventUpdates_jsframeInternal _ _
  split at h
  · cases h
  · split at h
    · cases h
      rfl
    split at h
    · cases h
      exact eventUpdates_jsframeInternal _ _
    · cases h
      rfl

theorem doJsframeSpecial_eq_none_iff {t : Target} :
    doJsframeSpecial t env opts frame.fptr frame.raddr nskipped = none ↔ ¬ frame.Special t env := by
  unfold doJsframeSpecial StackFrame.Special
  by_cases hsymbol : (env.symbol frame.raddr).length > 1
  · rw [if_pos hsymbol]
    refine iff_of_false ?_ (not_not.mpr (.inl hsymbol))
    split <;> exact Option.some_ne_none _
  rw [if_neg hsymbol]
  cases adaptorFrametype t env frame.fptr with
  | some ftypename =>
    refine iff_of_false ?_ (by simp)
    dsimp only
    split <;> exact Option.some_ne_none _
  | none =>
    -- no symbol and no adaptor, so that it depends on the word of the frame
    cases internalFrametype t env frame.fptr with
    | none => exact iff_of_true rfl (by simp [hsymbol])
    | some ftype =>
      refine iff_of_false ?_ (by simp)
      dsimp only
      split
      · exact Option.some_ne_none _
      · split <;> exact Option.some_ne_none _

/-- **A function** is printed by its name, and it stops there, or goes on to the details. -/
theorem after_jsframeFunction_iff [DecIndent] {funcp funcinfop : ℕ} {name : List UInt8}
    (hfunction : FrameFunction d env frame funcp funcinfop name)
    (h : jsframeFunction d env opts frame.fptr frame.raddr funcp nskipped = some run) (g : Globals) :
    g.after (eventUpdates run.events) = g ↔ ¬ opts.StopsAt d funcinfop name := by
  have hasked := restores_callUpdates (d.target 4) env.asks (.jsfuncName funcinfop)
  unfold jsframeFunction at h
  rw [hfunction.shared] at h
  dsimp only at h
  rw [if_neg (by simp [hfunction.named]), hfunction.text] at h
  by_cases hfunc : opts.func.any (name ≠ ·) = true
  · -- it is not the function that is asked for
    rw [if_pos hfunc] at h
    cases h
    refine iff_of_true ?_ fun hstops => ?_
    · rw [eventUpdates_updates]
      exact hasked g
    · obtain ⟨func, hmem, hne⟩ := (Option.any_eq_true _ _).mp hfunc
      exact (of_decide_eq_true hne) (hstops.func func hmem)
  rw [if_neg hfunc] at h
  have hasks : ∀ func ∈ opts.func, name = func := by
    intro func hmem
    by_contra hne
    exact hfunc ((Option.any_eq_true _ _).mpr ⟨func, hmem, decide_eq_true hne⟩)
  -- printing the name leaves the indentation as it is
  have hname : eventUpdates (if opts.prop.isNone then
      (jsframePrintSkipped nskipped ++ [.line (jsLine env opts frame.fptr frame.raddr funcp name)], 0)
      else ([], nskipped)).1 = [] := by
    split
    · rw [eventUpdates_append, eventUpdates_jsframePrintSkipped]
      rfl
    · rfl
  have hskipped (n : ℕ) : eventUpdates
      (if opts.verbose then (jsframePrintSkipped n, 0) else ([], n)).1 = [] := by
    split
    · exact eventUpdates_jsframePrintSkipped n
    · rfl
  by_cases hplain : (!opts.verbose && opts.prop.isNone) = true
  · -- nothing but the name is asked for
    rw [if_pos hplain] at h
    cases h
    refine iff_of_true ?_ fun hstops => ?_
    · rw [eventUpdates_append, eventUpdates_updates, hname]
      exact (hasked.append .nil) g
    · have hverbose := (Bool.and_eq_true_iff.mp hplain).1
      rw [hstops.verbose] at hverbose
      cases hverbose
  rw [if_neg hplain] at h
  obtain ⟨⟨rv, events⟩, hdetails, rfl⟩ := Option.map_eq_some_iff.mp h
  dsimp only
  rw [eventUpdates_append, eventUpdates_append, eventUpdates_append, hname, hskipped,
    eventUpdates_updates, List.append_nil, List.append_nil, Globals.after, after_append, hasked g]
  by_cases hprop : opts.prop = none
  · have hverbose : opts.verbose = true := by
      by_contra hfalse
      exact hplain (by simp [hprop, Bool.eq_false_of_not_eq_true hfalse])
    -- the indentation is taken back, or it is too large by ten
    rcases (detailsRun_jsframeDetails hprop hdetails).updates with
      ⟨hrestores, hends⟩ | ⟨hupdates, hlost⟩
    · refine iff_of_true (hrestores g) fun hstops => ?_
      obtain ⟨tokpos, scriptp, ptrp, hscript, hnot⟩ := hstops.lost
      exact hnot (hends tokpos scriptp ptrp hscript)
    · refine iff_of_false ?_ fun hnot => hnot ⟨hverbose, hprop, hasks, hlost⟩
      rw [hupdates]
      intro heq
      have hindent : g.indent + 10 = g.indent := congrArg Globals.indent heq
      omega
  · exact iff_of_true (restores_jsframeDetails_prop hprop hdetails g) fun hstops =>
      hprop hstops.prop

/-- A frame that is not special, or is not asked whether it is. -/
theorem after_jsframeOther_iff [DecIndent]
    (h : jsframeOther d env opts frame.fptr frame.raddr nskipped = some run) (g : Globals) :
    g.after (eventUpdates run.events) = g ↔ ¬ ∃ funcp funcinfop name,
      FrameFunction d env frame funcp funcinfop name ∧ opts.StopsAt d funcinfop name := by
  unfold jsframeOther at h
  have hinternal (note : FrameNote) : eventUpdates (if opts.func.isSome || opts.prop.isSome then
      jsframeLeave .ok nskipped else jsframeInternal opts nskipped
        (.pointers frame.fptr (env.address frame.raddr) note)).events = [] := by
    split
    · rfl
    · exact eventUpdates_jsframeInternal _ _
  cases hfuncp : (d.target 1).readPtr (d.cfg.add frame.fptr env.layout.offFpFunction) with
  | none =>
    rw [hfuncp] at h
    cases h
    refine iff_of_true rfl ?_
    rintro ⟨funcp, funcinfop, name, hfunction, -⟩
    rw [hfunction.found] at hfuncp
    cases hfuncp
  | some funcp =>
    rw [hfuncp] at h
    dsimp only at h
    by_cases htype : ((d.target 2).readTypebyte funcp).bind d.cfg.enumLookupStr = some "JSFunction"
    · rw [htype] at h
      dsimp only at h
      rw [if_neg (by decide), if_neg (by decide)] at h
      by_cases hcalled : ∃ funcinfop name, FrameFunction d env frame funcp funcinfop name
      · obtain ⟨funcinfop, name, hfunction⟩ := hcalled
        rw [after_jsframeFunction_iff hfunction h g]
        constructor
        · rintro hnot ⟨funcp', funcinfop', name', hfunction', hstops⟩
          -- there is one function
          obtain rfl : funcp = funcp' :=
            Option.some.inj (hfunction.found.symm.trans hfunction'.found)
          obtain rfl : funcinfop = funcinfop' :=
            Option.some.inj (hfunction.shared.symm.trans hfunction'.shared)
          obtain rfl : name = name' := hfunction.text.symm.trans hfunction'.text
          exact hnot hstops
        · exact fun hnot hstops => hnot ⟨_, _, _, hfunction, hstops⟩
      · -- what it shares, or its name, cannot be read
        refine iff_of_true ?_ ?_
        · unfold jsframeFunction at h
          cases hshared : (d.target 3).readHeapPtr funcp d.cfg.offJsfunctionShared with
          | none =>
            rw [hshared] at h
            cases h
            rfl
          | some funcinfop =>
            rw [hshared] at h
            dsimp only at h
            rw [if_pos fun hnamed => hcalled ⟨_, _, hfuncp, htype, hshared, hnamed, rfl⟩] at h
            cases h
            rw [eventUpdates_updates]
            exact restores_callUpdates (d.target 4) env.asks _ g
        · rintro ⟨funcp', funcinfop, name, hfunction, -⟩
          obtain rfl : funcp = funcp' := Option.some.inj (hfuncp.symm.trans hfunction.found)
          exact hcalled ⟨_, _, hfunction⟩
    · -- it is no function
      refine iff_of_true ?_ ?_
      · split at h
        · obtain rfl := (Option.some.inj h).symm
          rw [hinternal]
          rfl
        · next typename hsome =>
          split at h
          · obtain rfl := (Option.some.inj h).symm
            rw [hinternal]
            rfl
          · have hne : typename ≠ "JSFunction" := by
              rintro rfl
              exact htype hsome
            rw [if_pos hne] at h
            obtain rfl := (Option.some.inj h).symm
            rw [hinternal]
            rfl
      · rintro ⟨funcp', funcinfop, name, hfunction, -⟩
        obtain rfl : funcp = funcp' := Option.some.inj (hfuncp.symm.trans hfunction.found)
        exact htype hfunction.type

/-- **When `do_jsframe` leaves everything as it is**: unless it stops at the line endings. -/
theorem after_doJsframe_iff [DecIndent] (h : doJsframe d env opts frame.fptr frame.raddr nskipped = some run)
    (g : Globals) :
    g.after (eventUpdates run.events) = g ↔ ¬ frame.LeavesIndent d env opts := by
  unfold doJsframe at h
  -- a special frame is done with, and any other one is looked at further
  by_cases hspecial : opts.func = none ∧ frame.Special (d.target 0) env
  · obtain ⟨hfunc, hspecial⟩ := hspecial
    refine iff_of_true ?_ fun hleaves => hleaves.special hfunc hspecial
    rw [hfunc, Option.isSome_none, if_neg Bool.false_ne_true] at h
    split at h
    · next hrun =>
      cases h
      rw [eventUpdates_doJsframeSpecial hrun]
      rfl
    · next hnone => exact absurd hspecial (doJsframeSpecial_eq_none_iff.mp hnone)
  · have hnone : (if opts.func.isSome then none
        else doJsframeSpecial (d.target 0) env opts frame.fptr frame.raddr nskipped) = none := by
      split
      · rfl
      · next hfunc =>
        refine doJsframeSpecial_eq_none_iff.mpr fun h => hspecial ⟨?_, h⟩
        exact Option.not_isSome_iff_eq_none.mp hfunc
    rw [hnone] at h
    rw [after_jsframeOther_iff h g, not_iff_not]
    exact ⟨fun hstops => ⟨fun hfunc h => hspecial ⟨hfunc, h⟩, hstops⟩, fun hleaves => hleaves.stops⟩

/-- **Where the memory stays as it is**, nothing is left behind. -/
theorem restores_doJsframe_still [DecIndent] {t : Target}
    (h : doJsframe t.still env opts frame.fptr frame.raddr nskipped = some run) :
    Restores (eventUpdates run.events) := by
  intro g
  refine (after_doJsframe_iff h g).mpr ?_
  rintro ⟨-, funcp, funcinfop, name, hfunction, hstops⟩
  obtain ⟨tokpos, scriptp, ptrp, hscript, hnot⟩ := hstops.lost
  obtain ⟨tokpos', scriptp', ptrp', hscript', hread⟩ := detailsScript_of_jsfuncName hfunction.named
  rw [Target.target_still, hscript, Option.some.injEq] at hscript'
  cases hscript'
  exact hnot hread

end Frames

end MdbV8
