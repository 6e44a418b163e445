import MdbV8.Lib.Neutral
import MdbV8.Loading.Loaders
import MdbV8.Objects.Values

/-!
# The state that all commands share

The debugger has one level of indentation for all the output, and the module has two counters that say
whether its warnings are printed, `v8_warnings` and `v8_silent`. Functions add to the three and take away
again. What a function does to them is the list of its updates (`Update`), in order.

`jsobjIsOddball` is where most functions come to change a counter, without saying so: it silences the
warnings about what may be no object. It is called while properties are read, while a function is loaded
and while a line is looked up. Which values these functions ask about is of no interest here, and is left
open (`Callee`).

A function that reads the target is given a debugger that may find the memory different for every one of
its reads, which are numbered.
-/

namespace MdbV8

open Lib
open Loading (Debugger)

/-- What all commands share. -/
structure Globals where
  /-- The level of indentation of the debugger. -/
  indent : ℕ
  /-- `v8_silent`. -/
  silent : ℤ
  /-- `v8_warnings`. -/
  warnings : ℤ
  deriving DecidableEq, Repr

/-- `mdb_dec_indent` of the debugger: the level that it leaves, of a level and the number of columns. It
takes back `mdb_inc_indent`, and it stops at zero. -/
class DecIndent where
  level : ℕ → ℕ → ℕ
  takesBack : ∀ indent n, level (indent + n) n = indent
  stops : ∀ indent n, indent ≤ n → level indent n = 0

/-- One that does. -/
@[reducible] def DecIndent.sub : DecIndent where
  level indent n := indent - n
  takesBack := Nat.add_sub_cancel
  stops _ _ := Nat.sub_eq_zero_of_le

@[simp] theorem DecIndent.level_eq [DecIndent] (indent n : ℕ) : level indent n = indent - n := by
  rcases le_total indent n with hle | hle
  · rw [stops indent n hle, Nat.sub_eq_zero_of_le hle]
  · obtain ⟨k, rfl⟩ := Nat.exists_eq_add_of_le' hle
    rw [takesBack, Nat.add_sub_cancel]

/-- A change of it. -/
inductive Update where
  /-- `mdb_inc_indent`. -/
  | incIndent (n : ℕ)
  /-- `mdb_dec_indent`. -/
  | decIndent (n : ℕ)
  /-- `mdb_eval`, as far as the indentation goes: it resets it to some level. -/
  | eval (level : ℕ)
  /-- `v8_silent++`. -/
  | silence
  /-- `v8_silent--`. -/
  | unsilence
  /-- `v8_warnings++`. -/
  | warn
  /-- `v8_warnings--`. -/
  | unwarn
  deriving DecidableEq, Repr

section Updates

variable [DecIndent]

/-- Making a change. -/
def Update.apply : Update → Globals → Globals
  | incIndent n, g => { g with indent := g.indent + n }
  | decIndent n, g => { g with indent := DecIndent.level g.indent n }
  | eval level, g => { g with indent := level }
  | silence, g => { g with silent := g.silent + 1 }
  | unsilence, g => { g with silent := g.silent - 1 }
  | warn, g => { g with warnings := g.warnings + 1 }
  | unwarn, g => { g with warnings := g.warnings - 1 }

/-- The updates leave everything as it is, whatever it is. -/
abbrev Restores (us : List Update) : Prop := Neutral Update.apply us

/-- The state after some updates. -/
abbrev Globals.after (g : Globals) (us : List Update) : Globals := Lib.after Update.apply us g

theorem takesBack_indent (n : ℕ) : TakesBack Update.apply (.decIndent n) (.incIndent n) := by
  intro g
  simp [Update.apply]

theorem takesBack_silence : TakesBack Update.apply .unsilence .silence := by
  intro g
  simp [Update.apply]

theorem takesBack_warn : TakesBack Update.apply .unwarn .warn := by
  intro g
  simp [Update.apply]

end Updates

/-! ### Events -/

/-- A line that is printed, or a change of what commands share. -/
inductive CmdEvent (α : Type) where
  | line (line : α)
  | update (u : Update)
  deriving DecidableEq, Repr

section Events

variable {α : Type}

/-- The line of an event. -/
def CmdEvent.line? : CmdEvent α → Option α
  | line l => some l
  | update _ => none

/-- The update of an event. -/
def CmdEvent.update? : CmdEvent α → Option Update
  | line _ => none
  | update u => some u

/-- What is printed. -/
def eventLines (events : List (CmdEvent α)) : List α := events.filterMap CmdEvent.line?

/-- What is done to the state that commands share. -/
def eventUpdates (events : List (CmdEvent α)) : List Update := events.filterMap CmdEvent.update?

@[simp] theorem eventLines_append (events events' : List (CmdEvent α)) :
    eventLines (events ++ events') = eventLines events ++ eventLines events' :=
  List.filterMap_append

@[simp] theorem eventUpdates_nil : eventUpdates ([] : List (CmdEvent α)) = [] := rfl

@[simp] theorem eventUpdates_line (l : α) (events : List (CmdEvent α)) :
    eventUpdates (.line l :: events) = eventUpdates events := rfl

@[simp] theorem eventUpdates_update (u : Update) (events : List (CmdEvent α)) :
    eventUpdates (.update u :: events) = u :: eventUpdates events := rfl

@[simp] theorem eventUpdates_append (events events' : List (CmdEvent α)) :
    eventUpdates (events ++ events') = eventUpdates events ++ eventUpdates events' :=
  List.filterMap_append

@[simp] theorem eventLines_updates (us : List Update) :
    eventLines (us.map (.update : Update → CmdEvent α)) = [] := by
  induction us with
  | nil => rfl
  | cons u us ih => exact ih

@[simp] theorem eventUpdates_updates (us : List Update) :
    eventUpdates (us.map (.update : Update → CmdEvent α)) = us := by
  induction us with
  | nil => rfl
  | cons u us ih => exact congrArg (u :: ·) ih

end Events

/-! ### Oddballs -/

/-- A debugger that finds the memory of a target, whenever it reads. -/
def Target.still (t : Target) : Debugger where
  cfg := t.cfg
  mem _ := t.mem
  outOfMemory _ := false

@[simp] theorem Target.target_still (t : Target) (k : ℕ) : t.still.target k = t := rfl

@[simp] theorem Target.cfg_still (t : Target) : t.still.cfg = t.cfg := rfl

section Oddballs

variable (d : Debugger) (t : Target)

/-- `jsobj_is_oddball`, with its updates. Its reads are numbered, and any of them may fail. -/
def jsobjIsOddballRun (addr : ℕ) (oddball : String) : Bool × List Update :=
  let silenced : List Update := [.silence]
  match (d.target 0).readTypebyte addr with
  | none => (false, silenced ++ [.unsilence])
  | some type =>
    let us := silenced ++ [.unsilence]
    if d.cfg.enumLookupStr type != some "Oddball" then (false, us)
    else
      match (d.target 1).readHeapPtr addr d.cfg.offOddballToString with
      | none => (false, us)
      | some strptr =>
        let (rv, buf) := jsstrLocal (d.target 2) strptr jsstrNone 16
        if rv ≠ 0 then (false, us) else (buf == bytesOf oddball, us)

/-- It returns what it returns without them. -/
theorem jsobjIsOddballRun_fst (addr : ℕ) (oddball : String) :
    (jsobjIsOddballRun t.still addr oddball).1 = jsobjIsOddball t addr oddball := by
  unfold jsobjIsOddballRun jsobjIsOddball
  rw [Target.target_still, Target.target_still, Target.target_still, Target.cfg_still]
  cases t.readTypebyte addr with
  | none => rfl
  | some type =>
    dsimp only
    split
    · rfl
    · cases t.readHeapPtr addr t.cfg.offOddballToString with
      | none => rfl
      | some strptr =>
        dsimp only
        split <;> rfl

/-- **`jsobjIsOddball` takes back what it adds.** -/
theorem restores_jsobjIsOddballRun [DecIndent] (addr : ℕ) (oddball : String) :
    Restores (jsobjIsOddballRun d addr oddball).2 := by
  have hus : Restores [.silence, .unsilence] := Neutral.bracket takesBack_silence .nil
  unfold jsobjIsOddballRun
  cases (d.target 0).readTypebyte addr with
  | none => exact hus
  | some type =>
    dsimp only
    split
    · exact hus
    · cases (d.target 1).readHeapPtr addr d.cfg.offOddballToString with
      | none => exact hus
      | some strptr =>
        dsimp only
        split <;> exact hus

/-- The functions that are called and ask about oddballs, with what they are called for. -/
inductive Callee where
  | jsfuncName (funcinfop : ℕ)
  | objJstype (addr : ℕ)
  | jsobjProperties (addr : ℕ)
  | v8funcinfoLoad (funcinfo : ℕ)
  | v8boundfunctionLoad (addr : ℕ)
  deriving DecidableEq, Repr

/-- What a function asks about: the addresses, each with the name of an oddball. -/
abbrev Asks : Type := Callee → List (ℕ × String)

/-- The updates of a function that is called. -/
def callUpdates (asks : Asks) (callee : Callee) : List Update :=
  (asks callee).flatMap fun ask => (jsobjIsOddballRun t.still ask.1 ask.2).2

theorem restores_callUpdates [DecIndent] (asks : Asks) (callee : Callee) :
    Restores (callUpdates t asks callee) :=
  Neutral.flatMap fun ask _ => restores_jsobjIsOddballRun t.still ask.1 ask.2

end Oddballs

end MdbV8
