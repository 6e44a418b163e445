import MdbV8.Objects.Values

/-!
# The name of a function

`mdb_v8_function.c`, as far as the name of a function goes. A closure refers to a
`SharedFunctionInfo`, which refers to the name of the function and to its script. A function without
a name is printed with the name that V8 has inferred for it.

`jsfuncName` prints the name into the rest of an output buffer. Like a string it emits a text
(`emits_jsfuncName`).
-/

namespace MdbV8

open Lib

/-- `v8funcinfo_t`, with the fields that the name and the position are printed from. -/
structure V8Funcinfo where
  addr : ℕ
  funcname : ℕ
  /-- Zero if it could not be read. -/
  inferredName : ℕ
  script : ℕ
  scriptpath : ℕ
  tokenpos : ℕ
  /-- Zero if the table is undefined. -/
  lineEndings : ℕ
  deriving DecidableEq, Repr

section Name

variable (t : Target)

/-- `v8funcinfo_load`. Each field it reads has to be readable, also those that are not used for the
name. -/
def v8funcinfoLoad (funcinfo : ℕ) : Option V8Funcinfo :=
  let c := t.cfg
  match t.readHeapMaybesmi funcinfo c.offSharedfunctioninfoFunctionTokenPosition,
    t.readHeapPtr funcinfo c.offSharedfunctioninfoName,
    t.readHeapPtr funcinfo c.offSharedfunctioninfoScript with
  | some tokenpos, some name, some script =>
    match t.readHeapPtr script c.offScriptName, t.readHeapPtr script c.offScriptLineEnds,
      t.readHeapPtr funcinfo c.offSharedfunctioninfoCode with
    | some scriptpath, some lineends, some _ =>
      some {
        addr := funcinfo
        funcname := name
        inferredName := (t.readHeapPtr funcinfo c.offSharedfunctioninfoIdentifier).getD 0
        script
        scriptpath
        tokenpos
        lineEndings := if jsobjIsUndefined t lineends then 0 else lineends }
    | _, _, _ => none
  | _, _, _ => none

/-- `v8funcinfo_funcname`. -/
def v8funcinfoFuncname (fip : V8Funcinfo) (strb : Strbuf) (flags : ℕ) : ℤ × Strbuf :=
  -- the inferred name is appended to a generic one
  let inferred (strb : Strbuf) : ℤ × Strbuf :=
    if fip.inferredName = 0 then (0, strb)
    else
      match v8stringLoad t fip.inferredName with
      | none => (0, strb)
      | some strp =>
        let strb := mdbv8StrbufSprintf strb (bytesOf " (as ")
        let (rv, strb) :=
          if strp.len = 0 then (0, mdbv8StrbufSprintf strb (bytesOf "<anon>"))
          else v8stringWrite t strp strb flags jsstrNone
        (rv, mdbv8StrbufSprintf strb (bytesOf ")"))
  match v8stringLoad t fip.funcname with
  | none => inferred (mdbv8StrbufSprintf strb (bytesOf "<unknown>"))
  | some strp =>
    if strp.len = 0 then inferred (mdbv8StrbufSprintf strb (bytesOf "<anonymous>"))
    else v8stringWrite t strp strb flags jsstrNone

/-- `jsfunc_name`. When the function cannot be loaded, the buffer has been initialised and nothing
more. -/
def jsfuncName (funcinfop : ℕ) (o : OutBuf) : ℤ × OutBuf :=
  match v8funcinfoLoad t funcinfop with
  | none => (-1, { o with mem := o.toStrbuf.mem })
  | some fip =>
    let (rv, strb) := v8funcinfoFuncname t fip o.toStrbuf msfAsciionly
    (rv, mdbv8StrbufLegacyUpdate strb)

/-! ### The text of a name -/

/-- The text of `v8funcinfoFuncname`, with what it returns. -/
def funcnameText (fip : V8Funcinfo) (flags : ℕ) : ℤ × List UInt8 :=
  let inferred (T : List UInt8) : ℤ × List UInt8 :=
    if fip.inferredName = 0 then (0, T)
    else
      match v8stringLoad t fip.inferredName with
      | none => (0, T)
      | some strp =>
        let (rv, U) :=
          if strp.len = 0 then (0, bytesOf "<anon>")
          else stringTextN t (jsstrMaxdepth + 2) strp flags jsstrNone
        (rv, T ++ bytesOf " (as " ++ U ++ bytesOf ")")
  match v8stringLoad t fip.funcname with
  | none => inferred (bytesOf "<unknown>")
  | some strp =>
    if strp.len = 0 then inferred (bytesOf "<anonymous>")
    else stringTextN t (jsstrMaxdepth + 2) strp flags jsstrNone

/-- **The text of the name of a function**, with what `jsfuncName` returns. -/
def jsfuncText (funcinfop : ℕ) : ℤ × List UInt8 :=
  match v8funcinfoLoad t funcinfop with
  | none => (-1, [])
  | some fip => funcnameText t fip msfAsciionly

/-- Writing the name of a function prints its text. -/
theorem prints_v8funcinfoFuncname (fip : V8Funcinfo) {strb : Strbuf} (hres : strb.reservesz = 0)
    {flags : ℕ} (hjson : flags &&& msfJson ≠ msfJson) :
    (v8funcinfoFuncname t fip strb flags).1 = (funcnameText t fip flags).1 ∧
      strb.Prints t.cfg.bits (funcnameText t fip flags).2 (v8funcinfoFuncname t fip strb flags).2 := by
  unfold v8funcinfoFuncname funcnameText
  extract_lets inferred inferredText
  -- a generic name, with the inferred one behind it
  have hinferred : ∀ T : List UInt8, (inferred (mdbv8StrbufSprintf strb T)).1 = (inferredText T).1 ∧
      strb.Prints t.cfg.bits (inferredText T).2 (inferred (mdbv8StrbufSprintf strb T)).2 := by
    intro T
    have hgeneric := @Strbuf.Prints.sprintf t.cfg.bits strb hres T
    unfold inferred inferredText
    split
    · exact ⟨rfl, hgeneric⟩
    · cases hload : v8stringLoad t fip.inferredName with
      | none => exact ⟨rfl, hgeneric⟩
      | some strp =>
        have hopen := hgeneric.trans (.sprintf hgeneric.reservesz_eq (bytesOf " (as "))
        dsimp only
        split
        · have hanon := hopen.trans (.sprintf hopen.reservesz_eq (bytesOf "<anon>"))
          exact ⟨rfl, hanon.trans (.sprintf hanon.reservesz_eq (bytesOf ")"))⟩
        · obtain ⟨hrv, hprints⟩ := prints_v8stringWrite t (knownRep_of_load hload) hjson
            hopen.reservesz_eq jsstrNone
          have hname := hopen.trans hprints
          exact ⟨hrv, hname.trans (.sprintf hname.reservesz_eq (bytesOf ")"))⟩
  cases hload : v8stringLoad t fip.funcname with
  | none => exact hinferred _
  | some strp =>
    dsimp only
    split
    · exact hinferred _
    · exact prints_v8stringWrite t (knownRep_of_load hload) hjson hres jsstrNone

/-- **Printing the name of a function** emits its text. -/
theorem emits_jsfuncName (funcinfop : ℕ) {o : OutBuf} (ho : o.len ≤ 2 ^ t.cfg.bits) :
    (jsfuncName t funcinfop o).1 = (jsfuncText t funcinfop).1 ∧
      outSink.Emits (jsfuncText t funcinfop).2 o (jsfuncName t funcinfop o).2 ∧
      (jsfuncName t funcinfop o).2.len ≤ o.len := by
  unfold jsfuncName jsfuncText
  cases hload : v8funcinfoLoad t funcinfop with
  | none =>
    refine ⟨rfl, Sink.Wrote.emits ⟨?_, rfl⟩, le_refl _⟩
    exact o.toStrbuf_text.trans (List.append_nil _).symm
  | some fip =>
    obtain ⟨hrv, hprints⟩ := prints_v8funcinfoFuncname t fip (show o.toStrbuf.reservesz = 0 from rfl)
      msfAsciionly_ne_json
    exact ⟨hrv, hprints.legacyUpdate ho⟩

end Name

end MdbV8
