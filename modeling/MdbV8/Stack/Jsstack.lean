import MdbV8.Lib.Report
import MdbV8.Stack.Jsframe

/-!
# The stack

`::jsstack` prints the frame that the registers belong to, and then has the debugger call `::jsframe` for
every frame pointer of the chain. Such a call looks at the frame behind the pointer that it is given. It
has a record of its own, so that the internal frames that it has left out are counted from zero for every
frame; the record of the command itself has only the first frame in it, and is looked at when the walk is
over.

A run of internal frames should be one line, in its place. `jsstackAccounts_iff` says for which stacks it
is.
-/

namespace MdbV8

open Lib

section Jsstack

variable (t : Target) (env : StackEnv) (opts : JsframeOpts)

/-! ### The walk -/

/-- The walk of `mdb_pwalk_dcmd` over the frame pointers, for at most `fuel` of them: what is printed, and
whether the walk has come to the end of the chain. The walk goes on if a call fails. -/
def walkJsframes : ℕ → ℕ → Option (Bool × List FrameEvent)
  | 0, _ => none
  | fuel + 1, addr =>
    match dcmdJsframe env opts t false addr with
    | none => none
    | some (_, events) =>
      match t.readPtr addr with
      | none => some (false, events)
      | some next =>
        if next = 0 then some (true, events)
        else (walkJsframes fuel next).map fun r => (r.1, events ++ r.2)

/-- The walk from an address, or from the frame pointer of the registers (`walk_jsframes_init`). -/
def pwalkJsframes (fuel : ℕ) (regs : Option (ℕ × ℕ)) (addr : ℕ) :
    Option (Bool × List FrameEvent) :=
  if addr ≠ 0 then walkJsframes t env opts fuel addr
  else
    match regs with
    | none => some (false, [])
    | some (fp, _) => walkJsframes t env opts fuel fp

/-- The end of `dcmd_jsstack`, with what has been printed of the first frame. -/
def jsstackWalk (fuel : ℕ) (regs : Option (ℕ × ℕ)) (addr : ℕ) (events : List FrameEvent)
    (nskipped : ℕ) : Option (DcmdStatus × List FrameEvent) :=
  (pwalkJsframes t env opts fuel regs addr).map fun r =>
    if r.1 then (.ok, events ++ r.2 ++ jsframePrintSkipped nskipped) else (.err, events ++ r.2)

/-- **`dcmd_jsstack`**, with the frame pointer and the instruction pointer of the registers. -/
def dcmdJsstack (fuel : ℕ) (regs : Option (ℕ × ℕ)) (addr : Option ℕ) :
    Option (DcmdStatus × List FrameEvent) :=
  if !opts.valid then some (.usage, [])
  else
    match addr with
    | some addr => jsstackWalk t env opts fuel regs addr [] 0
    | none =>
      match regs with
      | none => some (.err, [])
      | some (fp, ip) =>
        match doJsframe t.still env opts fp ip 0 with
        | none => none
        | some run =>
          if run.rv ≠ .ok then some (.err, run.events)
          else jsstackWalk t env opts fuel regs fp run.events run.nskipped

/-! ### What a stack is -/

/-- A frame, by its frame pointer and its return address. -/
structure StackFrame where
  fptr : ℕ
  raddr : ℕ
  deriving DecidableEq, Repr

/-- **A chain of frame pointers** that ends in `NULL`, with the frames behind the first pointer. -/
inductive FrameChain : ℕ → List StackFrame → Prop
  | last {fp : ℕ} (hnext : t.readPtr fp = some 0) : FrameChain fp []
  | next {fp next raddr : ℕ} {frames : List StackFrame} (hnext : t.readPtr fp = some next)
      (hne : next ≠ 0) (hraddr : t.readPtr (t.cfg.add fp t.cfg.ptrSize) = some raddr)
      (hchain : FrameChain next frames) : FrameChain fp ({ fptr := next, raddr } :: frames)

/-- What kind of frame it is. -/
inductive FrameClass where
  | native
  /-- An internal frame with a type that has a name, and one without. -/
  | recognised (name : List UInt8)
  | unrecognised
  | javascript (funcp funcinfop : ℕ) (name : List UInt8)
  deriving DecidableEq, Repr

/-- The class of a frame that is not special, if it can be told. -/
def StackFrame.otherClass (frame : StackFrame) : Option FrameClass :=
  match t.readPtr (t.cfg.add frame.fptr env.layout.offFpFunction) with
  | none => none
  | some funcp =>
    if (t.readTypebyte funcp).bind t.cfg.enumLookupStr ≠ some "JSFunction" then some .unrecognised
    else
      match t.readHeapPtr funcp t.cfg.offJsfunctionShared with
      | none => none
      | some funcinfop =>
        let (rv, buf) := jsfuncName t funcinfop (OutBuf.fresh (fun _ => 0) 256)
        if rv ≠ 0 then none else some (.javascript funcp funcinfop (buf.str 256))

/-- **The class of a frame**, if it can be told. -/
def StackFrame.class? (frame : StackFrame) : Option FrameClass :=
  if (env.symbol frame.raddr).length > 1 then some .native
  else
    match adaptorFrametype t env frame.fptr with
    | some ftypename => some (.recognised ftypename)
    | none =>
      match internalFrametype t env frame.fptr with
      | some ftype =>
        match env.layout.frametype (t.cfg.smiValue ftype) with
        | some ftypename => some (.recognised ftypename)
        | none => some .unrecognised
      | none => frame.otherClass t env

/-- Internal frames are hidden. -/
def FrameClass.hidden : FrameClass → Bool
  | native => false
  | recognised _ => true
  | unrecognised => true
  | javascript .. => false

/-- The frame is hidden. -/
def StackFrame.hidden (frame : StackFrame) : Bool := (frame.class? t env).any FrameClass.hidden

/-- What is printed of a frame itself. -/
def StackFrame.own (frame : StackFrame) : List FrameLine :=
  ((doJsframe t.still env opts frame.fptr frame.raddr 0).map fun run => eventLines run.events).getD []

/-- **A frame that can be told**, and of which everything that is printed is to be had. -/
structure StackFrame.Told (frame : StackFrame) : Prop where
  class? : (frame.class? t env).isSome
  ends : (doJsframe t.still env opts frame.fptr frame.raddr 0).isSome

/-- None of the options `-a`, `-f` and `-p` is given. -/
structure JsframeOpts.Plain (opts : JsframeOpts) : Prop where
  valid : opts.valid = true
  showall : opts.showall = false
  func : opts.func = none
  prop : opts.prop = none

/-- The frames that a command is about: with an address those behind it, and without one those of the
registers. -/
inductive StackOf (regs : Option (ℕ × ℕ)) : Option ℕ → List StackFrame → Prop
  | behind {addr : ℕ} {frames : List StackFrame} (hne : addr ≠ 0) (hchain : FrameChain t addr frames) :
      StackOf regs (some addr) frames
  /-- The address zero stands for the frame pointer of the registers. -/
  | restart {fp ip : ℕ} {frames : List StackFrame} (hregs : regs = some (fp, ip))
      (hchain : FrameChain t fp frames) : StackOf regs (some 0) frames
  | current {fp ip : ℕ} {frames : List StackFrame} (hregs : regs = some (fp, ip))
      (hchain : FrameChain t fp frames) : StackOf regs none ({ fptr := fp, raddr := ip } :: frames)

/-- The line for a run of hidden frames, in the singular or in the plural. -/
def elidedLine (n : ℕ) : FrameLine := if n = 1 then .elidedOne else .elided n

/-- **Every frame is accounted for, in order**: the shown frames by what is printed of them, and every
maximal run of hidden frames by one line with the number of the frames. -/
def JsstackAccounts (regs : Option (ℕ × ℕ)) (addr : Option ℕ) (frames : List StackFrame) : Prop :=
  ∃ fuel status events, dcmdJsstack t env opts fuel regs addr = some (status, events) ∧
    eventLines events =
      report (StackFrame.hidden t env) (StackFrame.own t env opts) elidedLine frames

/-- **The condition on a stack**: no two hidden frames are next to each other, and a first frame that is
hidden is the only one, if the command prints the first frame itself. -/
structure StackMeets (addr : Option ℕ) (frames : List StackFrame) : Prop where
  apart : Apart (StackFrame.hidden t env) frames
  last : addr = none → ∀ frame rest, frames = frame :: rest → frame.hidden t env = true → rest = []

/-! ### One frame -/

/-- What `do_jsframe` does for a frame of some class, if no option asks for something else. -/
def StackFrame.classRun (frame : StackFrame) (nskipped : ℕ) : FrameClass → Option FrameRun
  | .native =>
    some { rv := .ok, events := jsframePrintSkipped nskipped ++ [.line (nativeLine env frame.raddr)],
           nskipped := 0 }
  | .recognised _ => some { rv := .ok, events := [], nskipped := nskipped + 1 }
  | .unrecognised => some { rv := .ok, events := [], nskipped := nskipped + 1 }
  | .javascript _ funcinfop name =>
    let asked : List FrameEvent := (callUpdates t env.asks (.jsfuncName funcinfop)).map .update
    let js := asked ++ (jsframePrintSkipped nskipped ++ [.line (.js name)])
    if !opts.verbose then some { rv := .ok, events := js, nskipped := 0 }
    else
      (jsframeDetails t.still env opts frame.fptr funcinfop
        (jsfuncName t funcinfop (OutBuf.fresh (fun _ => 0) 256)).2).map fun r =>
          { rv := r.1, events := js ++ r.2, nskipped := 0 }

variable {t env opts} {frame : StackFrame} {nskipped : ℕ}

theorem jsframeInternal_plain (h : opts.Plain) (line : FrameLine) :
    jsframeInternal opts nskipped line = { rv := .ok, events := [], nskipped := nskipped + 1 } := by
  rw [jsframeInternal, h.showall, if_neg Bool.false_ne_true]

/-- A JavaScript frame. -/
theorem jsframeFunction_plain (h : opts.Plain) {funcp funcinfop : ℕ}
    (hshared : t.readHeapPtr funcp t.cfg.offJsfunctionShared = some funcinfop)
    (hname : (jsfuncName t funcinfop (OutBuf.fresh (fun _ => 0) 256)).1 = 0) :
    jsframeFunction t.still env opts frame.fptr frame.raddr funcp nskipped =
      frame.classRun t env opts nskipped (.javascript funcp funcinfop
        ((jsfuncName t funcinfop (OutBuf.fresh (fun _ => 0) 256)).2.str 256)) := by
  unfold jsframeFunction StackFrame.classRun
  rw [Target.target_still, Target.target_still, Target.cfg_still, hshared]
  dsimp only
  rw [if_neg (by simp [hname]), h.func, h.prop]
  simp only [Option.any_none, Bool.false_eq_true, if_false, Option.isNone_none, if_true, Bool.and_true,
    jsLine, h.showall]
  cases opts.verbose with
  | false => rfl
  | true =>
    simp only [Bool.not_true, Bool.false_eq_true, if_false, if_true, jsframePrintSkipped_zero,
      List.append_nil]

/-- A frame that is not special. -/
theorem jsframeOther_plain (h : opts.Plain) {class' : FrameClass}
    (hclass : frame.otherClass t env = some class') :
    jsframeOther t.still env opts frame.fptr frame.raddr nskipped =
      frame.classRun t env opts nskipped class' := by
  unfold StackFrame.otherClass at hclass
  unfold jsframeOther
  rw [Target.target_still, Target.target_still, Target.cfg_still]
  cases hfuncp : t.readPtr (t.cfg.add frame.fptr env.layout.offFpFunction) with
  | none =>
    rw [hfuncp] at hclass
    cases hclass
  | some funcp =>
    rw [hfuncp] at hclass
    dsimp only at hclass ⊢
    simp only [h.func, h.prop, Option.isSome_none, Bool.or_self, Bool.false_eq_true, if_false,
      jsframeInternal_plain h]
    cases htype : (t.readTypebyte funcp).bind t.cfg.enumLookupStr with
    | none =>
      rw [if_pos (by simp [htype])] at hclass
      cases hclass
      rfl
    | some typename =>
      dsimp only
      -- the class depends on whether the type is that of a function
      by_cases hfunction : typename = "JSFunction"
      · rw [if_neg (by simp [htype, hfunction])] at hclass
        rw [if_neg (by simp [hfunction]), if_neg (by simp [hfunction])]
        cases hshared : t.readHeapPtr funcp t.cfg.offJsfunctionShared with
        | none =>
          rw [hshared] at hclass
          cases hclass
        | some funcinfop =>
          rw [hshared] at hclass
          dsimp only at hclass
          split at hclass
          · cases hclass
          · next hname =>
            cases hclass
            exact jsframeFunction_plain h hshared (not_not.mp hname)
      · rw [if_pos (by simp [htype, hfunction])] at hclass
        cases hclass
        rw [if_pos hfunction, ite_self]
        rfl

/-- **What happens to a frame depends on its class.** -/
theorem doJsframe_plain (h : opts.Plain) {class' : FrameClass}
    (hclass : frame.class? t env = some class') :
    doJsframe t.still env opts frame.fptr frame.raddr nskipped =
      frame.classRun t env opts nskipped class' := by
  unfold StackFrame.class? at hclass
  unfold doJsframe doJsframeSpecial
  rw [h.func, Option.isSome_none, if_neg Bool.false_ne_true, Target.target_still]
  simp only [h.prop, h.showall, Option.isSome_none, Bool.false_eq_true, if_false,
    jsframeInternal_plain h]
  by_cases hsymbol : (env.symbol frame.raddr).length > 1
  · rw [if_pos hsymbol] at hclass ⊢
    cases hclass
    rfl
  · rw [if_neg hsymbol] at hclass ⊢
    -- no symbol, so that the frame may be an adaptor frame
    cases hadaptor : adaptorFrametype t env frame.fptr with
    | some ftypename =>
      rw [hadaptor] at hclass
      cases hclass
      rfl
    | none =>
      rw [hadaptor] at hclass
      dsimp only at hclass ⊢
      -- no adaptor frame, so that it may be an internal one
      cases hinternal : internalFrametype t env frame.fptr with
      | some ftype =>
        rw [hinternal] at hclass
        dsimp only at hclass ⊢
        cases hlookup : env.layout.frametype (t.cfg.smiValue ftype) with
        | some ftypename =>
          rw [hlookup] at hclass
          cases hclass
          rfl
        | none =>
          rw [hlookup] at hclass
          cases hclass
          rfl
      | none =>
        rw [hinternal] at hclass
        exact jsframeOther_plain h hclass

/-- A hidden frame is counted, and nothing is printed of it. -/
theorem doJsframe_hidden (h : opts.Plain) (hhidden : frame.hidden t env = true) :
    doJsframe t.still env opts frame.fptr frame.raddr 0 =
      some { rv := .ok, events := [], nskipped := 1 } := by
  obtain ⟨class', hclass, hc⟩ := (Option.any_eq_true _ _).mp hhidden
  rw [doJsframe_plain h hclass]
  cases class' with
  | native => cases hc
  | recognised name => rfl
  | unrecognised => rfl
  | javascript funcp funcinfop name => cases hc

/-- The name of a JavaScript frame has been read. -/
theorem StackFrame.jsfuncName_eq_zero {funcp funcinfop : ℕ} {name : List UInt8}
    (hclass : frame.class? t env = some (.javascript funcp funcinfop name)) :
    (jsfuncName t funcinfop (OutBuf.fresh (fun _ => 0) 256)).1 = 0 := by
  -- the frame is not special
  have hother : frame.otherClass t env = some (.javascript funcp funcinfop name) := by
    unfold StackFrame.class? at hclass
    split at hclass
    · cases hclass
    split at hclass
    · cases hclass
    split at hclass
    · split at hclass
      · cases hclass
      · cases hclass
    · exact hclass
  unfold StackFrame.otherClass at hother
  split at hother
  · cases hother
  split at hother
  · cases hother
  split at hother
  · cases hother
  · dsimp only at hother
    split at hother
    · cases hother
    · next hname =>
      cases hother
      exact not_not.mp hname

/-- **A shown frame**: something is printed of it, but nothing about internal frames. -/
theorem doJsframe_shown (h : opts.Plain) (hshown : frame.hidden t env = false)
    (hclass : (frame.class? t env).isSome) {run : FrameRun}
    (hrun : doJsframe t.still env opts frame.fptr frame.raddr 0 = some run) :
    run.rv = .ok ∧ run.nskipped = 0 ∧ eventLines run.events ≠ [] ∧
      ∀ l ∈ eventLines run.events, l.isElided = false := by
  obtain ⟨class', hclass⟩ := Option.isSome_iff_exists.mp hclass
  have hnot : class'.hidden = false := by
    rw [StackFrame.hidden, hclass] at hshown
    exact hshown
  rw [doJsframe_plain h hclass] at hrun
  cases class' with
  | recognised name => cases hnot
  | unrecognised => cases hnot
  | native =>
    obtain rfl := (Option.some.inj hrun).symm
    -- a native frame has one line
    have hline : eventLines (jsframePrintSkipped 0 ++ [.line (nativeLine env frame.raddr)]) =
        [nativeLine env frame.raddr] := rfl
    refine ⟨rfl, rfl, by rw [hline]; exact List.cons_ne_nil _ _, ?_⟩
    dsimp only
    rw [hline]
    intro l hl
    obtain rfl := List.mem_singleton.mp hl
    unfold nativeLine
    split <;> rfl
  | javascript funcp funcinfop name =>
    unfold StackFrame.classRun at hrun
    dsimp only at hrun
    -- a JavaScript frame begins with a line, which the details may follow
    have hjs : eventLines ((callUpdates t env.asks (.jsfuncName funcinfop)).map .update ++
        (jsframePrintSkipped 0 ++ [.line (.js name)])) = [.js name] := by
      rw [eventLines_append, eventLines_updates]
      rfl
    cases hverbose : opts.verbose with
    | false =>
      rw [hverbose, Bool.not_false, if_pos rfl] at hrun
      obtain rfl := (Option.some.inj hrun).symm
      refine ⟨rfl, rfl, by rw [hjs]; exact List.cons_ne_nil _ _, ?_⟩
      dsimp only
      rw [hjs]
      intro l hl
      obtain rfl := List.mem_singleton.mp hl
      rfl
    | true =>
      rw [hverbose, Bool.not_true, if_neg Bool.false_ne_true] at hrun
      obtain ⟨⟨rv, events⟩, hdetails, rfl⟩ := Option.map_eq_some_iff.mp hrun
      have hdetails := detailsRun_jsframeDetails h.prop hdetails
      have hrv := hdetails.rv_eq_ok_iff.mpr
        (detailsScript_of_jsfuncName (StackFrame.jsfuncName_eq_zero hclass))
      dsimp only
      rw [eventLines_append, hjs]
      refine ⟨hrv, rfl, List.cons_ne_nil _ _, ?_⟩
      intro l hl
      rcases List.mem_cons.mp hl with rfl | hl
      · rfl
      · exact hdetails.not_isElided hl

/-! ### The frames of a walk -/

/-- What the walk contributes for a frame: the frame is taken for a run of its own. -/
theorem eventLines_finish (h : opts.Plain) (htold : frame.Told t env opts) {run : FrameRun}
    (hrun : doJsframe t.still env opts frame.fptr frame.raddr 0 = some run) :
    eventLines run.finish.2 =
      reportItem (StackFrame.hidden t env) (StackFrame.own t env opts) elidedLine frame := by
  unfold reportItem
  cases hhidden : frame.hidden t env with
  | true =>
    rw [doJsframe_hidden h hhidden] at hrun
    cases hrun
    rfl
  | false =>
    obtain ⟨-, hnskipped, -, -⟩ := doJsframe_shown h hhidden htold.class? hrun
    have hown : frame.own t env opts = eventLines run.events := by
      rw [StackFrame.own, hrun]
      rfl
    have hnone : (if run.rv = .ok then jsframePrintSkipped run.nskipped else []) = [] := by
      rw [hnskipped, jsframePrintSkipped_zero, ite_self]
    rw [if_neg Bool.false_ne_true, hown, FrameRun.finish, hnone, List.append_nil]

/-- **A walk over a chain** comes to its end, and takes every frame for a run of its own. -/
theorem walkJsframes_chain (h : opts.Plain) {fp : ℕ} {frames : List StackFrame}
    (hchain : FrameChain t fp frames) (htold : ∀ frame ∈ frames, frame.Told t env opts) :
    ∃ events, eventLines events =
        itemwise (StackFrame.hidden t env) (StackFrame.own t env opts) elidedLine frames ∧
      ∀ fuel, walkJsframes t env opts fuel fp =
        if frames.length < fuel then some (true, events) else none := by
  induction hchain with
  | @last fp hnext =>
    refine ⟨[], rfl, fun fuel => ?_⟩
    cases fuel with
    | zero => rfl
    | succ fuel =>
      -- the frame at the end of the chain is not printed
      have hdcmd : ∃ rv, dcmdJsframe env opts t false fp = some (rv, []) := by
        unfold dcmdJsframe
        rw [h.valid, hnext]
        cases t.readPtr (t.cfg.add fp t.cfg.ptrSize) with
        | none => exact ⟨_, rfl⟩
        | some raddr => exact ⟨_, rfl⟩
      obtain ⟨rv, hdcmd⟩ := hdcmd
      rw [walkJsframes, hdcmd, hnext, List.length_nil, if_pos fuel.succ_pos]
      rfl
  | @next fp next raddr frames hnext hne hraddr hchain ih =>
    obtain ⟨hfirst, hrest⟩ := List.forall_mem_cons.mp htold
    -- this frame is printed by a run of its own, and the induction hypothesis is for the others
    obtain ⟨run, hrun⟩ := Option.isSome_iff_exists.mp hfirst.ends
    obtain ⟨events, hlines, hwalk⟩ := ih hrest
    refine ⟨run.finish.2 ++ events, ?_, fun fuel => ?_⟩
    · rw [eventLines_append, eventLines_finish h hfirst hrun, hlines]
      exact List.flatMap_cons.symm
    · cases fuel with
      | zero => rfl
      | succ fuel =>
        have hdcmd : dcmdJsframe env opts t false fp = some run.finish := by
          unfold dcmdJsframe
          rw [h.valid, hnext, hraddr]
          dsimp only
          rw [if_neg hne, hrun]
          rfl
        rw [walkJsframes, hdcmd, hnext]
        dsimp only
        rw [if_neg hne, hwalk fuel, List.length_cons]
        by_cases hfuel : frames.length < fuel
        · rw [if_pos hfuel, if_pos (Nat.succ_lt_succ hfuel), Option.map_some]
        · rw [if_neg hfuel, if_neg fun hlt => hfuel (Nat.lt_of_succ_lt_succ hlt), Option.map_none]

/-- The walk from the address of a command, or from the registers. -/
theorem pwalkJsframes_eq {regs : Option (ℕ × ℕ)} {fp ip : ℕ} (hregs : regs = some (fp, ip)) (fuel : ℕ) :
    pwalkJsframes t env opts fuel regs fp = walkJsframes t env opts fuel fp ∧
      pwalkJsframes t env opts fuel regs 0 = walkJsframes t env opts fuel fp := by
  subst hregs
  unfold pwalkJsframes
  by_cases hfp : fp = 0
  · simp [hfp]
  · simp [hfp]

/-- The end of the command, after a walk over a chain. -/
theorem jsstackWalk_of_walk {regs : Option (ℕ × ℕ)} {addr nskipped n : ℕ}
    {before events : List FrameEvent}
    (hwalk : ∀ fuel, pwalkJsframes t env opts fuel regs addr =
      if n < fuel then some (true, events) else none) (expected : List FrameLine) :
    (∃ fuel status output,
        jsstackWalk t env opts fuel regs addr before nskipped = some (status, output) ∧
          eventLines output = expected) ↔
      eventLines before ++ eventLines events ++ eventLines (jsframePrintSkipped nskipped) = expected := by
  have heq (fuel : ℕ) : jsstackWalk t env opts fuel regs addr before nskipped =
      if n < fuel then some (.ok, before ++ events ++ jsframePrintSkipped nskipped) else none := by
    rw [jsstackWalk, hwalk]
    split <;> rfl
  constructor
  · rintro ⟨fuel, status, output, houtput, rfl⟩
    rw [heq] at houtput
    split at houtput
    · cases houtput
      rw [eventLines_append, eventLines_append]
    · cases houtput
  · intro hexpected
    -- a round for every frame is enough
    refine ⟨n + 1, _, _, (heq (n + 1)).trans (if_pos n.lt_succ_self), ?_⟩
    rw [eventLines_append, eventLines_append, hexpected]

theorem isElided_elidedLine (n : ℕ) : (elidedLine n).isElided = true := by
  unfold elidedLine
  split <;> rfl

/-- What the marks are told by. -/
theorem unmarked_own (h : opts.Plain) {frames : List StackFrame}
    (htold : ∀ frame ∈ frames, frame.Told t env opts) :
    Unmarked (StackFrame.hidden t env) (StackFrame.own t env opts) FrameLine.isElided frames := by
  intro frame hframe hhidden
  obtain ⟨run, hrun⟩ := Option.isSome_iff_exists.mp (htold frame hframe).ends
  have hown : frame.own t env opts = eventLines run.events := by
    rw [StackFrame.own, hrun]
    rfl
  rw [hown]
  exact (doJsframe_shown h hhidden (htold frame hframe).class? hrun).2.2.2

theorem own_ne_nil (h : opts.Plain) {frames : List StackFrame}
    (htold : ∀ frame ∈ frames, frame.Told t env opts) :
    ∀ frame ∈ frames, frame.hidden t env = false → frame.own t env opts ≠ [] := by
  intro frame hframe hhidden
  obtain ⟨run, hrun⟩ := Option.isSome_iff_exists.mp (htold frame hframe).ends
  have hown : frame.own t env opts = eventLines run.events := by
    rw [StackFrame.own, hrun]
    rfl
  rw [hown]
  exact (doJsframe_shown h hhidden (htold frame hframe).class? hrun).2.2.1

/-- With an address, the frames are accounted for if no two hidden frames are next to each other. -/
theorem accounts_behind (h : opts.Plain) {regs : Option (ℕ × ℕ)} {addr fp : ℕ}
    {frames : List StackFrame} (hchain : FrameChain t fp frames)
    (htold : ∀ frame ∈ frames, frame.Told t env opts)
    (hwalk : ∀ fuel, pwalkJsframes t env opts fuel regs addr = walkJsframes t env opts fuel fp) :
    JsstackAccounts t env opts regs (some addr) frames ↔ Apart (StackFrame.hidden t env) frames := by
  obtain ⟨events, hlines, hfuel⟩ := walkJsframes_chain h hchain htold
  unfold JsstackAccounts dcmdJsstack
  simp only [h.valid, Bool.not_true, Bool.false_eq_true, if_false]
  rw [jsstackWalk_of_walk fun fuel => (hwalk fuel).trans (hfuel fuel), hlines]
  change itemwise _ _ _ frames ++ [] = _ ↔ _
  rw [List.append_nil, eq_comm]
  exact report_eq_itemwise_iff isElided_elidedLine (unmarked_own h htold)

/-- Without one, the first frame is printed on its own. -/
theorem accounts_current (h : opts.Plain) {fp ip : ℕ} {frames : List StackFrame}
    (hchain : FrameChain t fp frames) {top : StackFrame} (htop : top = { fptr := fp, raddr := ip })
    (htold : ∀ frame ∈ top :: frames, frame.Told t env opts) :
    JsstackAccounts t env opts (some (fp, ip)) none (top :: frames) ↔
      if top.hidden t env then frames = [] else Apart (StackFrame.hidden t env) frames := by
  subst htop
  obtain ⟨hfirst, hrest⟩ := List.forall_mem_cons.mp htold
  obtain ⟨run, hrun⟩ := Option.isSome_iff_exists.mp hfirst.ends
  obtain ⟨events, hlines, hfuel⟩ := walkJsframes_chain h hchain hrest
  -- the walk begins with the frame behind the first one
  have hwalk (fuel : ℕ) : pwalkJsframes t env opts fuel (some (fp, ip)) fp =
      if frames.length < fuel then some (true, events) else none :=
    (pwalkJsframes_eq rfl fuel).1.trans (hfuel fuel)
  dsimp only at hrun
  -- the first frame is printed without an error
  have hrv : run.rv = .ok := by
    cases hhidden : StackFrame.hidden t env { fptr := fp, raddr := ip } with
    | true =>
      rw [doJsframe_hidden h hhidden] at hrun
      cases hrun
      rfl
    | false => exact (doJsframe_shown h hhidden hfirst.class? hrun).1
  unfold JsstackAccounts dcmdJsstack
  simp only [h.valid, hrun, hrv, Bool.not_true, Bool.false_eq_true, ne_eq, not_true_eq_false, if_false]
  rw [jsstackWalk_of_walk hwalk, hlines]
  cases hhidden : StackFrame.hidden t env { fptr := fp, raddr := ip } with
  | true =>
    rw [doJsframe_hidden h hhidden] at hrun
    cases hrun
    rw [if_pos rfl, eq_comm]
    exact report_eq_itemwise_append_mark_iff isElided_elidedLine (unmarked_own h hrest)
      (own_ne_nil h hrest) hhidden
  | false =>
    obtain ⟨-, hnskipped, -, -⟩ := doJsframe_shown h hhidden hfirst.class? hrun
    -- what is printed of it is its own
    have hown : StackFrame.own t env opts { fptr := fp, raddr := ip } = eventLines run.events := by
      rw [StackFrame.own, hrun]
      rfl
    rw [hnskipped, report_cons_shown hhidden, hown, if_neg Bool.false_ne_true]
    change _ ++ itemwise _ _ _ frames ++ [] = _ ↔ _
    rw [List.append_nil, List.append_cancel_left_eq, eq_comm]
    exact report_eq_itemwise_iff isElided_elidedLine (unmarked_own h hrest)

/-- The condition, if the command prints the first frame itself. -/
theorem stackMeets_none_iff {frames : List StackFrame} :
    StackMeets t env none (frame :: frames) ↔
      if frame.hidden t env then frames = [] else Apart (StackFrame.hidden t env) frames := by
  cases hhidden : frame.hidden t env with
  | true =>
    rw [if_pos rfl]
    constructor
    · intro hmeets
      exact hmeets.last rfl frame frames rfl hhidden
    · rintro rfl
      -- a hidden frame is the last one
      refine ⟨List.isChain_singleton _, fun _ frame' rest heq _ => ?_⟩
      exact (List.cons.inj heq).2.symm
  | false =>
    rw [if_neg Bool.false_ne_true]
    constructor
    · intro hmeets
      exact hmeets.apart.tail
    · intro happart
      -- a shown frame does not join another one
      refine ⟨List.isChain_cons.mpr ⟨fun b _ => by rw [hhidden, Bool.false_and], happart⟩, ?_⟩
      intro _ frame' rest heq hhidden'
      obtain ⟨rfl, -⟩ := List.cons.inj heq
      rw [hhidden] at hhidden'
      cases hhidden'

/-- **Which stacks are accounted for**: those in which no two hidden frames are next to each other, and in
which nothing follows a first frame that is hidden, if the command prints that frame itself. -/
theorem jsstackAccounts_iff (h : opts.Plain) {regs : Option (ℕ × ℕ)} {addr : Option ℕ}
    {frames : List StackFrame} (hstack : StackOf t regs addr frames)
    (htold : ∀ frame ∈ frames, frame.Told t env opts) :
    JsstackAccounts t env opts regs addr frames ↔ StackMeets t env addr frames := by
  have hmeets (addr : ℕ) : StackMeets t env (some addr) frames ↔
      Apart (StackFrame.hidden t env) frames :=
    ⟨StackMeets.apart, fun happart => ⟨happart, nofun⟩⟩
  cases hstack with
  | behind hne hchain =>
    rw [hmeets]
    exact accounts_behind h hchain htold fun fuel => if_pos hne
  | restart hregs hchain =>
    rw [hmeets]
    exact accounts_behind h hchain htold fun fuel => (pwalkJsframes_eq hregs fuel).2
  | current hregs hchain =>
    subst hregs
    rw [accounts_current h hchain rfl htold, stackMeets_none_iff]

end Jsstack

/-! ### Two hidden frames -/

/-- A stack with two internal frames and one that is native behind them. -/
def framesTarget : Target :=
  .ofWords (Config.sample .ilp32)
    [(0x1000, 0x1100), (0x1004, 0x5000), (0x10fc, 2), (0x1100, 0x1200), (0x1104, 0x5000),
      (0x11fc, 2), (0x1200, 0x1300), (0x1204, 0x6000), (0x1300, 0)]

/-- The debugger has a symbol for one address. -/
def framesEnv : StackEnv where
  layout := { offFpContextOrFrameType := -4 }
  symbol addr := if addr = 0x6000 then bytesOf "main" else []
  address _ := bytesOf "main"
  asks _ := []
  zalloc := .unlimited

/-- The frames behind a frame pointer. -/
def framesBehind : List StackFrame := [⟨0x1100, 0x5000⟩, ⟨0x1200, 0x5000⟩, ⟨0x1300, 0x6000⟩]

theorem plain_default : ({} : JsframeOpts).Plain := ⟨rfl, rfl, rfl, rfl⟩

theorem frameChain_framesBehind : FrameChain framesTarget 0x1000 framesBehind :=
  .next (by decide) (by decide) (by decide)
    (.next (by decide) (by decide) (by decide)
      (.next (by decide) (by decide) (by decide) (.last (by decide))))

theorem told_frames : ∀ frame ∈ ⟨0x1000, 0x6000⟩ :: framesBehind,
    frame.Told framesTarget framesEnv {} := by
  have hall : ∀ frame ∈ (⟨0x1000, 0x6000⟩ :: framesBehind : List StackFrame),
      (frame.class? framesTarget framesEnv).isSome ∧
        (doJsframe framesTarget.still framesEnv {} frame.fptr frame.raddr 0).isSome := by decide +kernel
  intro frame hframe
  exact ⟨(hall frame hframe).1, (hall frame hframe).2⟩

theorem jsstackAccounts_iff_native :
    JsstackAccounts framesTarget framesEnv {} (some (0x1000, 0x6000)) none
        (⟨0x1000, 0x6000⟩ :: framesBehind) ↔
      StackMeets framesTarget framesEnv none (⟨0x1000, 0x6000⟩ :: framesBehind) :=
  jsstackAccounts_iff plain_default (.current rfl frameChain_framesBehind) told_frames

/-- Two hidden frames are two lines; and if the first frame is hidden, its line comes last. -/
theorem not_jsstackAccounts :
    ¬ JsstackAccounts framesTarget framesEnv {} (some (0x1000, 0x6000)) none
        (⟨0x1000, 0x6000⟩ :: framesBehind) ∧
      ¬ JsstackAccounts framesTarget framesEnv {} (some (0x1200, 0x5000)) none
        [⟨0x1200, 0x5000⟩, ⟨0x1300, 0x6000⟩] := by
  constructor
  · -- the first two frames are hidden
    have hhidden : (framesBehind.take 2).map (StackFrame.hidden framesTarget framesEnv) =
        [true, true] := by decide +kernel
    obtain ⟨hfirst, hsecond⟩ : StackFrame.hidden framesTarget framesEnv ⟨0x1100, 0x5000⟩ = true ∧
        StackFrame.hidden framesTarget framesEnv ⟨0x1200, 0x5000⟩ = true := by
      simpa [framesBehind] using hhidden
    rw [accounts_current plain_default frameChain_framesBehind rfl told_frames,
      if_neg (by decide +kernel)]
    intro happart
    have hjoined := (List.isChain_cons_cons.mp happart).1
    rw [hfirst, hsecond] at hjoined
    cases hjoined
  · have hchain : FrameChain framesTarget 0x1200 [⟨0x1300, 0x6000⟩] :=
      .next (by decide) (by decide) (by decide) (.last (by decide))
    have htold : ∀ frame ∈ ([⟨0x1200, 0x5000⟩, ⟨0x1300, 0x6000⟩] : List StackFrame),
        frame.Told framesTarget framesEnv {} := fun frame hframe =>
      told_frames frame (List.mem_cons_of_mem _ (List.mem_cons_of_mem _ hframe))
    rw [accounts_current plain_default hchain rfl htold, if_pos (by decide +kernel)]
    exact List.cons_ne_nil _ _

end MdbV8
