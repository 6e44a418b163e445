import MdbV8.Metadata.Symbols
import MdbV8.Stack.Jsframe

/-!
# An object as an instance of its C++ class

`obj_print_class` prints the fields of an object that its class has, behind those of the parent of the
class, and so on up to the root. The fields are indented under the line of the class, and this is why the
function is here: it changes the indentation, and calls itself in between.

A class without fields of its own, and without any of an ancestor, is printed on the line of its child.

Like the commands about functions, it is a program: any of its reads may fail.
-/

namespace MdbV8

open Lib

/-- An argument of `mdb_printf`. -/
inductive PrintArg where
  | word (w : ℕ)
  | text (text : List UInt8)
  deriving DecidableEq, Repr

/-- A call of `mdb_printf`. -/
structure Printf where
  format : String
  args : List PrintArg
  deriving DecidableEq, Repr

/-- The event of a call. -/
def printf (format : String) (args : List PrintArg) : CmdEvent Printf := .line ⟨format, args⟩

/-- A string constant, or a name from the metadata, as an argument. -/
def PrintArg.cstr (s : CStr) : PrintArg := .text (s.map fun c => UInt8.ofNat c.toNat)

@[simp] theorem eventUpdates_printf (format : String) (args : List PrintArg)
    (events : List (CmdEvent Printf)) :
    eventUpdates (printf format args :: events) = eventUpdates events := rfl

/-- The type that `obj_jstype` delivers, if it succeeds. -/
def jstypeByte (t : Target) (addr : ℕ) : ℕ :=
  if t.cfg.isFailure addr || t.cfg.isSmi addr then 0 else (t.readTypebyte addr).getD 0

/-- `obj_print_fields`, of a field that cannot be read. -/
def fieldUnreadable (addr : ℕ) (name : CStr) : CmdEvent Printf :=
  printf "%p %s (unreadable)\n" [.word addr, .cstr name]

/-- What `obj_print_fields` prints behind a word: its type, and the string, if it is one. There is
`none` if that does not come to an end, and no text if the type cannot be told. -/
def fieldText (t : Target) (value : ℕ) : Option (Option (List UInt8)) :=
  (objJstype t value (OutBuf.fresh (fun _ => 0) 256)).map fun r =>
    if r.1 ≠ 0 then none
    else
      let type := jstypeByte t value
      if type ≠ 0 ∧ t.cfg.typeString type then
        some ((jsstrPrint t value jsstrQuoted (bsnprintf r.2 (bytesOf ": "))).2.str 256)
      else some (r.2.str 256)

end MdbV8

namespace MdbV8.Loading

open Lib

/-- The updates of a function that is called, for the target as it is then. -/
def asked (d : Debugger) (asks : Asks) (callee : Callee) : StateM Mdb (List Update) := fun m =>
  (callUpdates (d.target m.reads) asks callee, m)

theorem yields_asked [DecIndent] (d : Debugger) (asks : Asks) (callee : Callee) :
    Yields Restores (asked d asks callee) :=
  fun m => restores_callUpdates (d.target m.reads) asks callee

section PrintClass

variable (d : Debugger) (asks : Asks) (readstr : ℕ → Option (List UInt8))

/-- `obj_print_fields`, of a field that is a word. -/
def objPrintWord (addr : ℕ) (name : CStr) : StateM Mdb (Option (List (CmdEvent Printf))) := do
  let some value ← read d (·.readPtr addr) | return some [fieldUnreadable addr name]
  let us ← asked d asks (.objJstype value)
  let text ← read d fun t => fieldText t value
  return text.map fun text =>
    us.map .update ++
      [match text with
        | none => fieldUnreadable addr name
        | some text => printf "%p %s = %p (%s)\n" [.word addr, .cstr name, .word value, .text text]]

/-- `obj_print_fields`, of one field. The function `readstr` is `mdb_readstr` into 256 bytes. -/
def objPrintField (baddr : ℕ) (flp : ConfField) : StateM Mdb (Option (List (CmdEvent Printf))) := do
  let addr := d.cfg.add baddr (d.cfg.offHeap flp.offset)
  if flp.isstr then
    let some s := readstr addr | return some [fieldUnreadable addr flp.name]
    return some [printf "%p %s = \"%s\"\n" [.word addr, .cstr flp.name, .text s]]
  else if flp.isbyte then
    let some sv ← read d (·.readByte addr) | return some [fieldUnreadable addr flp.name]
    return some [printf "%p %s = 0x%x\n" [.word addr, .cstr flp.name, .word sv]]
  else objPrintWord d asks addr flp.name

/-- `obj_print_fields`. -/
def objPrintFields (baddr : ℕ) : List ConfField → StateM Mdb (Option (List (CmdEvent Printf)))
  | [] => return some []
  | flp :: flps => do
    let first ← objPrintField d asks readstr baddr flp
    let rest ← objPrintFields baddr flps
    return first.bind fun first => rest.map fun rest => first ++ rest

/-- What `obj_print_class` prints for a class with fields: the parent is printed behind the name, if it
has no fields, and else above the fields of the class. -/
def classLines (addr : ℕ) (clp : ConfClass) (parents : List ConfClass)
    (parent fields : List (CmdEvent Printf)) : List (CmdEvent Printf) :=
  let header : List (CmdEvent Printf) :=
    if clp.startOff = 0 ∧ parents ≠ [] then printf " < " [] :: parent else []
  let inherited := if clp.startOff > 0 then parent else []
  [printf "%p %s" [.word addr, .cstr clp.name]] ++ header ++ [printf " \x7b\n" []] ++
    ([.update (.incIndent 4)] ++ inherited ++ fields ++ [.update (.decIndent 4)]) ++
    [printf "\x7d\n" []]

/-- **`obj_print_class`**, of a class with its ancestors. It returns zero, as `obj_print_fields` does. -/
def objPrintClass (addr : ℕ) : List ConfClass → StateM Mdb (Option (List (CmdEvent Printf)))
  | [] => return some []
  | clp :: parents => do
    let parent ← objPrintClass addr parents
    if clp.endOff = 0 then
      let behind : List (CmdEvent Printf) := if parents = [] then [] else [printf "< " []]
      return parent.map fun parent => printf "%s " [.cstr clp.name] :: (behind ++ parent)
    else
      let fields ← objPrintFields d asks readstr addr clp.fields
      return parent.bind fun parent => fields.map fun fields =>
        classLines addr clp parents parent fields

variable {d asks readstr} {addr : ℕ}

/-- What is printed of a field leaves everything as it is. -/
theorem yields_objPrintField [DecIndent] (baddr : ℕ) (flp : ConfField) :
    Yields (fun r => ∀ events ∈ r, Restores (eventUpdates events))
      (objPrintField d asks readstr baddr flp) := by
  -- a line changes nothing
  have hline (format : String) (args : List PrintArg) : Yields
      (fun r => ∀ events ∈ r, Restores (eventUpdates events))
      (pure (some [printf format args]) : StateM Mdb (Option (List (CmdEvent Printf)))) := by
    refine .pure fun events hevents => ?_
    cases hevents
    exact .nil
  unfold objPrintField
  dsimp only
  split
  · split
    · exact hline _ _
    · exact hline _ _
  split
  · refine .andThen fun sv => ?_
    split
    · exact hline _ _
    · exact hline _ _
  · refine .andThen fun value => ?_
    split
    · refine (yields_asked d asks _).bind fun us hus => .andThen fun text =>
        .pure fun events hevents => ?_
      obtain ⟨text', -, rfl⟩ := Option.map_eq_some_iff.mp hevents
      rw [eventUpdates_append, eventUpdates_updates]
      cases text' with
      | none => exact hus.append .nil
      | some text' => exact hus.append .nil
    · exact hline _ _

theorem yields_objPrintFields [DecIndent] (baddr : ℕ) (flps : List ConfField) :
    Yields (fun r => ∀ events ∈ r, Restores (eventUpdates events))
      (objPrintFields d asks readstr baddr flps) := by
  induction flps with
  | nil =>
    refine .pure fun events hevents => ?_
    cases hevents
    exact .nil
  | cons flp flps ih =>
    refine (yields_objPrintField baddr flp).bind fun first hfirst => ih.bind fun rest hrest =>
      .pure fun events hevents => ?_
    obtain ⟨events₁, h₁, hevents⟩ := Option.bind_eq_some_iff.mp hevents
    obtain ⟨events₂, h₂, rfl⟩ := Option.map_eq_some_iff.mp hevents
    rw [eventUpdates_append]
    exact (hfirst events₁ h₁).append (hrest events₂ h₂)

/-- The lines of a class are indented where they are its fields, and then no more. -/
theorem restores_classLines [DecIndent] {clp : ConfClass} {parents : List ConfClass}
    {parent fields : List (CmdEvent Printf)} (hparent : Restores (eventUpdates parent))
    (hfields : Restores (eventUpdates fields)) :
    Restores (eventUpdates (classLines addr clp parents parent fields)) := by
  have hheader : Restores (eventUpdates
      (if clp.startOff = 0 ∧ parents ≠ [] then printf " < " [] :: parent else [])) := by
    split
    · exact hparent
    · exact .nil
  have hinherited : Restores (eventUpdates (if clp.startOff > 0 then parent else [])) := by
    split
    · exact hparent
    · exact .nil
  have hbody := (hinherited.append hfields).bracket (takesBack_indent 4)
  simp only [classLines, eventUpdates_append, eventUpdates_printf, eventUpdates_update,
    eventUpdates_nil, List.nil_append, List.append_nil]
  exact hheader.append hbody

/-- **A class leaves the indentation as it is**, with all of its ancestors. -/
theorem yields_objPrintClass [DecIndent] (classes : List ConfClass) :
    Yields (fun r => ∀ events ∈ r, Restores (eventUpdates events))
      (objPrintClass d asks readstr addr classes) := by
  induction classes with
  | nil =>
    refine .pure fun events hevents => ?_
    cases hevents
    exact .nil
  | cons clp parents ih =>
    refine ih.bind fun parent hparent => ?_
    -- a class that ends at zero is printed by its name only
    split
    · refine .pure fun events hevents => ?_
      obtain ⟨parent', hsome, rfl⟩ := Option.map_eq_some_iff.mp hevents
      rw [eventUpdates_printf, eventUpdates_append]
      split
      · exact hparent parent' hsome
      · exact hparent parent' hsome
    · refine (yields_objPrintFields addr clp.fields).bind fun fields hfields =>
        .pure fun events hevents => ?_
      obtain ⟨parent', hsome, hevents⟩ := Option.bind_eq_some_iff.mp hevents
      obtain ⟨fields', hsome', rfl⟩ := Option.map_eq_some_iff.mp hevents
      exact restores_classLines (hparent parent' hsome) (hfields fields' hsome')

end PrintClass

end MdbV8.Loading
