import MdbV8.Target.Config

/-!
# The metadata symbols

The metadata of V8 is a set of constants, and most of it is in their names: `v8dbg_parent_X__Y` says
that Y is the parent class of X, `v8dbg_class_X__F__T` that class X has a field F of type T, whose
offset is the value of the constant, and `v8dbg_type_X__T` and `v8dbg_frametype_X` that the value of
the constant is the type byte of X, or the number of the frame type X. `autoconfIterSymbol` is called
for one symbol after the other, in whatever order the linker has put them, until it does not return
zero. What it collects is a `ConfState`.

Classes are found by their names; a pointer to a class is modelled by the name that the class has.
The module does not run out of memory here.
-/

namespace MdbV8

/-! ### Strings of C -/

/-- A C string: the characters before its NUL. -/
abbrev CStr := List Char

/-- `strlcpy` into a buffer of `size` bytes. -/
def strlcpy (size : ℕ) (src : CStr) : CStr := src.take (size - 1)

/-- `conf_next_part`: the string up to its first `"__"`, and what follows that. -/
def confNextPart : CStr → Option (CStr × CStr)
  | '_' :: '_' :: rest => some ([], rest)
  | c :: rest => (confNextPart rest).map fun part => (c :: part.1, part.2)
  | [] => none

/-- `sizeof (v8c_name)`, and of the other names. -/
def confNameSize : ℕ := 64

/-- `sizeof (buf)`, of the copies of a symbol. -/
def confBufSize : ℕ := 128

/-- The conversion of an integer to a `size_t`. -/
def sizeT (m : DataModel) (x : ℤ) : ℕ := (x % 2 ^ m.bits).toNat

/-! ### What is configured -/

/-- `v8_enum_t`. -/
structure V8Enum where
  name : CStr := []
  value : ℕ := 0
  deriving DecidableEq, Repr

/-- `v8_types` with `v8_next_type`, and `v8_frametypes` with `v8_next_frametype`. -/
structure EnumTable where
  entries : ℕ → V8Enum := fun _ => {}
  next : ℕ := 0
  /-- Something has been written outside of the array. -/
  overrun : Bool := false

/-- The number of entries of `v8_types`. -/
def nTypes : ℕ := 128

/-- The number of entries of `v8_frametypes`. -/
def nFrametypes : ℕ := 16

/-- An assignment to an entry. -/
def EnumTable.store (tbl : EnumTable) (cap i : ℕ) (e : V8Enum) : EnumTable :=
  if i < cap then { tbl with entries := Function.update tbl.entries i e }
  else { tbl with overrun := true }

/-- `v8_field_t`, with its place in the list of fields. -/
structure ConfField where
  name : CStr
  offset : ℤ
  isbyte : Bool := false
  isstr : Bool := false
  deriving DecidableEq, Repr

/-- `v8_class_t`, with its place in the list of classes. -/
structure ConfClass where
  name : CStr
  parent : Option CStr := none
  fields : List ConfField := []
  startOff : ℕ := 0
  endOff : ℕ
  deriving DecidableEq, Repr

/-- The globals that are configured. -/
structure ConfState where
  model : DataModel
  v8Major : ℕ
  v8Minor : ℕ
  classes : List ConfClass := []
  types : EnumTable := {}
  frametypes : EnumTable := {}

/-- Before anything is configured. -/
def ConfState.start (m : DataModel) (major minor : ℕ) : ConfState :=
  { model := m, v8Major := major, v8Minor := minor }

/-- `(size_t)-1`, the end of a class that has not been computed. -/
def noEnd (m : DataModel) : ℕ := 2 ^ m.bits - 1

/-- `v8cfg_readsym`: the value of a symbol. -/
abbrev Readsym := CStr → Option ℤ

/-! ### The classes -/

/-- The class that `conf_class_findcreate` returns, as a pointer. -/
def confClassPtr (name : CStr) : CStr := strlcpy confNameSize name

/-- `conf_class_findcreate`: the list with the class in it. -/
def confClassFindcreate (m : DataModel) (name : CStr) : List ConfClass → List ConfClass
  | [] => [{ name := strlcpy confNameSize name, endOff := noEnd m }]
  | iclp :: rest =>
    if iclp.name = name then iclp :: rest
    else if name < iclp.name then
      { name := strlcpy confNameSize name, endOff := noEnd m } :: iclp :: rest
    else iclp :: confClassFindcreate m name rest

/-- An assignment through a pointer to a class. -/
def updateClass (clp : CStr) (f : ConfClass → ConfClass) (classes : List ConfClass) :
    List ConfClass :=
  classes.map fun c => if c.name = clp then f c else c

/-- `conf_field_create`, of a field that has been filled in. The offsets are compared as unsigned
integers. -/
def confFieldCreate (m : DataModel) (flp : ConfField) : List ConfField → List ConfField
  | [] => [flp]
  | iflp :: rest =>
    if sizeT m iflp.offset > sizeT m flp.offset then flp :: iflp :: rest
    else iflp :: confFieldCreate m flp rest

/-- `conf_update_parent`. -/
def confUpdateParent (symbol : CStr) (s : ConfState) : ℤ × ConfState :=
  let buf := strlcpy confBufSize symbol
  match confNextPart (buf.drop "v8dbg_parent_".length) with
  | none => (-1, s)
  | some (pp, qq) =>
    let classes := confClassFindcreate s.model qq (confClassFindcreate s.model pp s.classes)
    (0, { s with
      classes := updateClass (confClassPtr pp)
        (fun clp => { clp with parent := some (confClassPtr qq) }) classes })

/-- The kinds of fields that `conf_update_field` knows: an integer, and a C string. -/
def confFieldKind (s : ConfState) (pp qq tt : CStr) : Bool × Bool :=
  let isMapBitfield3Smi := pp = "Map".toList ∧ qq = "bit_field3".toList ∧ tt = "SMI".toList
  let isV8Bitfield3ActuallyInt :=
    (s.v8Major = 3 ∧ s.v8Minor ≥ 28) ∨ (s.v8Major = 4 ∧ s.v8Minor ≤ 7)
  if tt = "int".toList ∨ (isMapBitfield3Smi ∧ isV8Bitfield3ActuallyInt) then (true, false)
  else if tt = "char".toList then (false, true)
  else (false, false)

/-- `conf_update_field`. -/
def confUpdateField (readsym : Readsym) (symbol : CStr) (s : ConfState) : ℤ × ConfState :=
  let buf := strlcpy confBufSize symbol
  match confNextPart (buf.drop "v8dbg_class_".length) with
  | none => (-1, s)
  | some (pp, rest) =>
    match confNextPart rest with
    | none => (-1, s)
    | some (qq, tt) =>
      match readsym symbol with
      | none => (-1, s)
      | some offset =>
        let kind := confFieldKind s pp qq tt
        let flp : ConfField :=
          { name := strlcpy confNameSize qq, offset, isbyte := kind.1, isstr := kind.2 }
        (0, { s with
          classes := updateClass (confClassPtr pp)
            (fun clp => { clp with fields := confFieldCreate s.model flp clp.fields })
            (confClassFindcreate s.model pp s.classes) })

/-! ### The enumerations -/

/-- `conf_update_enum`, of the entry at an index. -/
def confUpdateEnum (readsym : Readsym) (symbol name : CStr) (cap i : ℕ) (tbl : EnumTable) :
    ℤ × EnumTable :=
  match readsym symbol with
  | none => (-1, tbl)
  | some value =>
    (0, tbl.store cap i
      { name := strlcpy confNameSize name, value := (value % 2 ^ 32).toNat })

/-- `conf_update_type`. -/
def confUpdateType (readsym : Readsym) (symbol : CStr) (tbl : EnumTable) : ℤ × EnumTable :=
  if tbl.next > nTypes then (-1, tbl)
  else
    let buf := strlcpy confBufSize symbol
    match confNextPart (buf.drop "v8dbg_type_".length) with
    | none => (-1, tbl)
    | some (klass, _) =>
      confUpdateEnum readsym symbol klass nTypes tbl.next { tbl with next := tbl.next + 1 }

/-- `conf_update_frametype`. -/
def confUpdateFrametype (readsym : Readsym) (symbol : CStr) (tbl : EnumTable) : ℤ × EnumTable :=
  if tbl.next > nFrametypes then (-1, tbl)
  else
    let frametype := symbol.drop "v8dbg_frametype_".length
    confUpdateEnum readsym symbol frametype nFrametypes tbl.next { tbl with next := tbl.next + 1 }

/-! ### The iteration -/

/-- `autoconf_iter_symbol`. -/
def autoconfIterSymbol (readsym : Readsym) (symbol : CStr) (s : ConfState) : ℤ × ConfState :=
  if "v8dbg_parent_".toList.isPrefixOf symbol then confUpdateParent symbol s
  else if "v8dbg_class_".toList.isPrefixOf symbol then confUpdateField readsym symbol s
  else if "v8dbg_type_".toList.isPrefixOf symbol then
    let r := confUpdateType readsym symbol s.types
    (r.1, { s with types := r.2 })
  else if "v8dbg_frametype_".toList.isPrefixOf symbol then
    let r := confUpdateFrametype readsym symbol s.frametypes
    (r.1, { s with frametypes := r.2 })
  else (0, s)

/-- `v8cfg_iter` with `autoconf_iter_symbol`: until it does not return zero. -/
def cfgIter (readsym : Readsym) : List CStr → ConfState → ℤ × ConfState
  | [], s => (0, s)
  | symbol :: symbols, s =>
    let r := autoconfIterSymbol readsym symbol s
    if r.1 ≠ 0 then r else cfgIter readsym symbols r.2

/-! ### The end of a class -/

/-- The class that a pointer points to. -/
def findClass (clp : CStr) (classes : List ConfClass) : Option ConfClass :=
  classes.find? fun c => c.name = clp

/-- `conf_class_compute_offsets`, with at most `fuel` calls nested in each other, or nothing if an
assertion fails. -/
def confClassComputeOffsets (m : DataModel) : ℕ → CStr → List ConfClass → Option (List ConfClass)
  | 0, _, _ => none
  | fuel + 1, ptr, classes =>
    match findClass ptr classes with
    | none => none
    | some clp =>
      if ¬ (clp.startOff = 0 ∧ clp.endOff = noEnd m) then none
      else
        let started : Option (List ConfClass × ℕ) :=
          match clp.parent with
          | none => some (classes, clp.startOff)
          | some parent =>
            let computed :=
              if (findClass parent classes).map ConfClass.endOff = some (noEnd m) then
                confClassComputeOffsets m fuel parent classes
              else some classes
            computed.bind fun classes =>
              (findClass parent classes).map fun pclp => (classes, pclp.endOff)
        started.map fun (classes, startOff) =>
          let endOff :=
            match clp.fields.getLast? with
            | none => startOff
            | some flp => sizeT m (flp.offset + m.ptrSize)
          updateClass ptr (fun clp => { clp with startOff, endOff }) classes

/-- The loop of `autoconfigure` over the classes, which are those at the pointers given. -/
def offsetPass (m : DataModel) (fuel : ℕ) : List CStr → List ConfClass → Option (List ConfClass)
  | [], classes => some classes
  | ptr :: ptrs, classes =>
    if (findClass ptr classes).map ConfClass.endOff ≠ some (noEnd m) then
      offsetPass m fuel ptrs classes
    else
      match confClassComputeOffsets m fuel ptr classes with
      | none => none
      | some classes => offsetPass m fuel ptrs classes

/-- The part of `autoconfigure` that collects the metadata: the iteration, and the ends of the
classes. What it returns comes with the classes, or with nothing if an assertion fails. -/
def autoconfigureClasses (readsym : Readsym) (fuel : ℕ) (symbols : List CStr) (s : ConfState) :
    ℤ × Option ConfState :=
  let r := cfgIter readsym symbols s
  if r.1 ≠ 0 then (-1, some r.2)
  else
    (0, (offsetPass r.2.model fuel (r.2.classes.map ConfClass.name) r.2.classes).map
      fun classes => { r.2 with classes })

end MdbV8
