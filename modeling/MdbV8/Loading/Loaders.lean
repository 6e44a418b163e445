import MdbV8.Functions.Iterators
import MdbV8.Functions.FuncInfo
import MdbV8.Lib.Ledger
import MdbV8.Lib.Neutral

/-!
# Loading objects

What the module knows about an object of the target it has in a handle of its own, which a function
loads and another one frees. The handles are allocated with the flags of the caller. A block that is
allocated with `UM_GC` is given back by the debugger when the command is over, and `mdb_free` must not
be called for it; so every handle remembers its flags, and `maybefree` looks at them.

Elsewhere in this development a load is a partial function of the target. Here the loads are programs
that run in a debugger (`Debugger`), where each read may find the memory of the target different, and
each allocation may fail. Their state has the books of the allocator (`Mdb`).
-/

namespace MdbV8.Loading

open Lib Target

/-! ### The debugger -/

/-- The flags of an allocation, an `int`. -/
abbrev Memflags : Type := BitVec 32

/-- `UM_SLEEP`. -/
def umSleep : Memflags := 0x1

/-- `UM_GC`. -/
def umGc : Memflags := 0x2

/-- Whether a block that is allocated with these flags is given back by the debugger. -/
def isGc (memflags : Memflags) : Bool := memflags &&& umGc != 0

/-- The debugger, as a program finds it. -/
structure Debugger where
  cfg : Config
  /-- The memory of the target, as it is for a read. -/
  mem : ℕ → ℕ → Option UInt8
  /-- Whether an allocation fails. -/
  outOfMemory : ℕ → Bool

/-- The target, as it is for a read. -/
def Debugger.target (d : Debugger) (reads : ℕ) : Target := { cfg := d.cfg, mem := d.mem reads }

/-- The allocator, after so many allocations. -/
def Debugger.allocator (d : Debugger) (count : ℕ) : Allocator where
  gives size := Allocator.unlimited.gives size && !d.outOfMemory count
  gives_zero := rfl

/-- The state of a program: the books of the allocator, and how much has been read. -/
structure Mdb where
  ledger : Ledger
  reads : ℕ

/-- The size of a structure of so many words. An `int` is followed by padding, if it is no word. -/
def Debugger.words (d : Debugger) (n : ℕ) : ℕ := n * d.cfg.ptrSize

section Programs

variable (d : Debugger)

/-- Reading something of the target. -/
def read {α : Type} (f : Target → α) : StateM Mdb α := fun m =>
  (f (d.target m.reads), { m with reads := m.reads + 1 })

/-- `mdb_zalloc`. -/
def mdbZalloc (size : ℕ) (memflags : Memflags) : StateM Mdb ℕ := fun m =>
  let (ptr, ledger) :=
    m.ledger.alloc (isGc memflags) size ((d.allocator m.ledger.count).gives size)
  (ptr, { m with ledger })

/-- `maybefree`. -/
def maybefree (ptr size : ℕ) (memflags : Memflags) : StateM Mdb Unit := fun m =>
  ((), { m with ledger := m.ledger.release (isGc memflags) ptr size })

/-! ### Strings -/

/-- `v8string_t`. -/
structure V8String where
  ptr : ℕ
  memflags : Memflags
  /-- What has been loaded. -/
  str : MdbV8.V8String

/-- `sizeof (v8string_t)`: the type is a byte, and shares a word with the flags if there is room. -/
def sizeofV8String : ℕ := d.words (if d.cfg.model = .lp64 then 5 else 6)

/-- `v8string_free`. -/
def v8stringFree : Option V8String → StateM Mdb Unit
  | none => pure ()
  | some strp => maybefree strp.ptr (sizeofV8String d) strp.memflags

/-- `v8string_load`. -/
def v8stringLoad (addr : ℕ) (memflags : Memflags) : StateM Mdb (Option V8String) := do
  let c := d.cfg
  let some type ← read d (·.readTypebyte addr) | return none
  if !c.typeString type then return none
  if !c.strrepSeq type && !c.strrepCons type && !c.strrepExt type && !c.strrepSliced type then
    return none
  let some len ← read d (·.readHeapSmi addr c.offStringLength) | return none
  let ptr ← mdbZalloc d (sizeofV8String d) memflags
  if ptr = 0 then return none
  let strp : V8String := { ptr, memflags, str := { addr, len, type } }
  let fail : StateM Mdb (Option V8String) := do
    v8stringFree d (some strp)
    return none
  if c.strrepCons type then
    let some consP1 ← read d (·.readHeapPtr addr c.offConsstringFirst) | fail
    let some consP2 ← read d (·.readHeapPtr addr c.offConsstringSecond) | fail
    return some { strp with str := { strp.str with consP1, consP2 } }
  else if c.strrepSliced type then
    let some slicedParent ← read d (·.readHeapPtr addr c.offSlicedstringParent) | fail
    let some slicedOffset ← read d (·.readHeapSmi addr c.offSlicedstringOffset) | fail
    return some { strp with str := { strp.str with slicedParent, slicedOffset } }
  else if c.strrepExt type then
    let some data ← read d (·.readHeapPtr addr c.offExternalstringResource) | fail
    let some externalNodedata ← read d (·.readHeapPtr data c.ptrSize) | fail
    return some { strp with str := { strp.str with externalNodedata } }
  else return some strp

/-- `v8string_write_sliced`. -/
def v8stringWriteSliced (strp : V8String) (strb : Strbuf) (strflags v8flags : ℕ) :
    StateM Mdb (ℤ × Strbuf) := do
  let pstrp ← v8stringLoad d strp.str.slicedParent strp.memflags
  let r ← match pstrp with
    | none =>
      pure (0, mdbv8StrbufSprintf strb (bytesOf "<sliced string (failed to load parent)>"))
    | some parent =>
      if !d.cfg.strrepSeq parent.str.type then
        pure (0, mdbv8StrbufSprintf strb
          (bytesOf "<sliced string (parent is not a sequential string)>"))
      else
        read d fun t => v8stringWriteSeq t parent.str strb strflags (jsstrBumpdepth v8flags)
          strp.str.slicedOffset (d.cfg.toSigned strp.str.len)
  v8stringFree d pstrp
  return r

/-- `v8string_write_cons`, with the function that writes the two parts. -/
def v8stringWriteCons (write : V8String → Strbuf → ℕ → ℕ → StateM Mdb (ℤ × Strbuf))
    (strp : V8String) (strb : Strbuf) (strflags v8flags : ℕ) : StateM Mdb (ℤ × Strbuf) := do
  let str1p ← v8stringLoad d strp.str.consP1 strp.memflags
  let str2p ← v8stringLoad d strp.str.consP2 strp.memflags
  let r ← match str1p, str2p with
    | some part1, some part2 => do
      let flags := jsstrBumpdepth v8flags
      let (rv, strb) ← write part1 strb strflags flags
      if rv = 0 then write part2 strb strflags flags else pure (rv, strb)
    | _, _ => pure (0, mdbv8StrbufSprintf strb (bytesOf "<string (failed to read cons ptrs)>"))
  v8stringFree d str1p
  v8stringFree d str2p
  return r

/-- `v8string_write`, with at most `fuel` calls nested in each other. -/
def v8stringWriteN : ℕ → V8String → Strbuf → ℕ → ℕ → StateM Mdb (ℤ × Strbuf)
  | 0, _, strb, _, _ => pure (-1, { strb with mem := strb.mem.trap })
  | fuel + 1, strp, strb, strflags, v8flags => do
    let c := d.cfg
    if jsstrDepth v8flags > jsstrMaxdepth then
      return (-1, mdbv8StrbufSprintf strb (bytesOf "<maximum depth exceeded>"))
    let type := strp.str.type
    let v8flags :=
      if c.strencAscii type then v8flags ||| jsstrIsascii else clearFlag v8flags jsstrIsascii
    let quoted := v8flags &&& jsstrQuoted != 0
    let strb :=
      if quoted then mdbv8StrbufReserve c.bits (mdbv8StrbufAppendc strb 34 strflags) 1 else strb
    let v8flags := if quoted then clearFlag v8flags jsstrQuoted else v8flags
    let v8flags := clearFlag (jsstrBumpdepth v8flags) jsstrQuoted
    let (err, strb) ←
      if c.strrepSeq type then
        read d fun t => v8stringWriteSeq t strp.str strb strflags v8flags 0 (-1)
      else if c.strrepCons type then
        v8stringWriteCons d (v8stringWriteN fuel) strp strb strflags v8flags
      else if c.strrepExt type then
        read d fun t => v8stringWriteExt t strp.str strb strflags v8flags
      else if !c.strrepSliced type then pure (0, { strb with mem := strb.mem.trap })
      else v8stringWriteSliced d strp strb strflags v8flags
    let strb :=
      if quoted then mdbv8StrbufAppendc (mdbv8StrbufReserve c.bits strb (-1)) 34 strflags else strb
    return (err, strb)

/-- `jsstr_print`. -/
def jsstrPrint (addr flags : ℕ) (o : OutBuf) : StateM Mdb (ℤ × OutBuf) := do
  let strp ← v8stringLoad d addr umSleep
  match strp with
  | none =>
    return (-1, mdbv8StrbufLegacyUpdate
      (mdbv8StrbufAppends o.toStrbuf (bytesOf "<string (failed to load string)>") flags))
  | some str =>
    let (rv, strb) ← v8stringWriteN d (jsstrMaxdepth + 2) str o.toStrbuf msfAsciionly flags
    v8stringFree d strp
    return (rv, mdbv8StrbufLegacyUpdate strb)

/-- `jsobj_is_undefined`. -/
def jsobjIsUndefined (addr : ℕ) : StateM Mdb Bool := do
  let some type ← read d (·.readTypebyte addr) | return false
  if d.cfg.enumLookupStr type != some "Oddball" then return false
  let some strptr ← read d (·.readHeapPtr addr d.cfg.offOddballToString) | return false
  let (rv, o) ← jsstrPrint d strptr jsstrNone (OutBuf.fresh (fun _ => 0) 16)
  return rv = 0 && o.str 16 == bytesOf "undefined"

/-! ### Arrays -/

/-- `v8fixedarray_t`. -/
structure V8FixedArray where
  ptr : ℕ
  memflags : Memflags
  addr : ℕ
  nelts : ℕ

/-- `v8fixedarray_load`. -/
def v8fixedarrayLoad (addr : ℕ) (memflags : Memflags) : StateM Mdb (Option V8FixedArray) := do
  let c := d.cfg
  if !c.isHeapobject addr then return none
  let some type ← read d (·.readTypebyte addr) | return none
  if !isType type c.typeFixedarray then return none
  let some nelts ← read d (·.readHeapSmi addr c.offFixedarrayLength) | return none
  let ptr ← mdbZalloc d (d.words 4) memflags
  if ptr = 0 then return none
  return some { ptr, memflags, addr, nelts }

/-- `v8fixedarray_free`. -/
def v8fixedarrayFree : Option V8FixedArray → StateM Mdb Unit
  | none => pure ()
  | some arrayp => maybefree arrayp.ptr (d.words 4) arrayp.memflags

/-- `v8array_t`. -/
structure V8Array where
  ptr : ℕ
  memflags : Memflags
  addr : ℕ
  length : ℕ
  elements : Option V8FixedArray := none

/-- `v8array_free`. -/
def v8arrayFree : Option V8Array → StateM Mdb Unit
  | none => pure ()
  | some ap => do
    v8fixedarrayFree d ap.elements
    maybefree ap.ptr (d.words 4) ap.memflags

/-- `v8array_load`. -/
def v8arrayLoad (addr : ℕ) (memflags : Memflags) : StateM Mdb (Option V8Array) := do
  let c := d.cfg
  if !c.isHeapobject addr then return none
  let some type ← read d (·.readTypebyte addr) | return none
  if !isType type c.typeJsarray then return none
  let some length ← read d (·.readHeapSmi addr c.offJsarrayLength) | return none
  let some elements ← read d (·.readHeapPtr addr c.offJsobjectElements) | return none
  let ptr ← mdbZalloc d (d.words 4) memflags
  if ptr = 0 then return none
  let ap : V8Array := { ptr, memflags, addr, length }
  if length > 0 then
    let arrayp ← v8fixedarrayLoad d elements memflags
    if arrayp.isNone then
      v8arrayFree d (some ap)
      return none
    return some { ap with elements := arrayp }
  else return some ap

/-- An array of words that has been read into a block. The null pointer has no words. -/
structure Words where
  ptr : ℕ := 0
  elts : List ℕ := []

/-- The size of the block of an array of words, as a `size_t`. -/
def Debugger.wordsSize (len : ℕ) : ℕ := len * d.cfg.ptrSize % 2 ^ d.cfg.bits

/-- `read_heap_array`: what it returns, and what it leaves in `*retp` and `*lenp`, where it may have
stored nothing. -/
def readHeapArray (addr : ℕ) (retp : Words) (lenp : ℕ) (flags : Memflags) :
    StateM Mdb (ℤ × Words × ℕ) := do
  let c := d.cfg
  if !c.isHeapobject addr then return (-1, retp, lenp)
  let some type ← read d (·.readTypebyte addr) | return (-1, retp, lenp)
  if !isType type c.typeFixedarray then return (-1, retp, lenp)
  let some len ← read d (·.readHeapSmi addr c.offFixedarrayLength) | return (-1, retp, lenp)
  if len = 0 then return (0, {}, len)
  let ptr ← mdbZalloc d (d.wordsSize len) flags
  if ptr = 0 then return (-1, {}, len)
  let bytes ← read d (·.mdbVread (d.wordsSize len) (c.add addr c.offFixedarrayData))
  match bytes with
  | none =>
    maybefree ptr (d.wordsSize len) flags
    return (-1, {}, len)
  | some bs => return (0, { ptr, elts := wordsOf c.ptrSize bs }, len)

/-! ### Functions -/

/-- `v8function_t`. -/
structure V8Function where
  ptr : ℕ
  memflags : Memflags
  addr : ℕ
  shared : ℕ

/-- `v8function_load`. -/
def v8functionLoad (addr : ℕ) (memflags : Memflags) : StateM Mdb (Option V8Function) := do
  let c := d.cfg
  if !c.isHeapobject addr then return none
  let some type ← read d (·.readTypebyte addr) | return none
  if !isType type c.typeJsfunction then return none
  let some shared ← read d (·.readHeapPtr addr c.offJsfunctionShared) | return none
  let ptr ← mdbZalloc d (d.words 3) memflags
  if ptr = 0 then return none
  return some { ptr, memflags, addr, shared }

/-- `v8function_free`. -/
def v8functionFree : Option V8Function → StateM Mdb Unit
  | none => pure ()
  | some funcp => maybefree funcp.ptr (d.words 3) funcp.memflags

/-- `v8funcinfo_t`. -/
structure V8Funcinfo where
  ptr : ℕ
  memflags : Memflags
  /-- What has been loaded. -/
  info : MdbV8.V8Funcinfo
  code : ℕ

/-- `v8funcinfo_load`. -/
def v8funcinfoLoad (funcinfo : ℕ) (memflags : Memflags) : StateM Mdb (Option V8Funcinfo) := do
  let c := d.cfg
  let some tokenpos ←
    read d (·.readHeapMaybesmi funcinfo c.offSharedfunctioninfoFunctionTokenPosition) | return none
  let some funcname ← read d (·.readHeapPtr funcinfo c.offSharedfunctioninfoName) | return none
  let some script ← read d (·.readHeapPtr funcinfo c.offSharedfunctioninfoScript) | return none
  let some scriptpath ← read d (·.readHeapPtr script c.offScriptName) | return none
  let some lineends ← read d (·.readHeapPtr script c.offScriptLineEnds) | return none
  let some code ← read d (·.readHeapPtr funcinfo c.offSharedfunctioninfoCode) | return none
  let inferred ← read d (·.readHeapPtr funcinfo c.offSharedfunctioninfoIdentifier)
  let ptr ← mdbZalloc d (d.words 9) memflags
  if ptr = 0 then return none
  let undefined ← jsobjIsUndefined d lineends
  return some {
    ptr, memflags, code
    info := {
      addr := funcinfo, funcname, inferredName := inferred.getD 0, script, scriptpath, tokenpos
      lineEndings := if undefined then 0 else lineends } }

/-- `v8funcinfo_free`. -/
def v8funcinfoFree : Option V8Funcinfo → StateM Mdb Unit
  | none => pure ()
  | some fip => maybefree fip.ptr (d.words 9) fip.memflags

/-- `v8code_t`. -/
structure V8Code where
  ptr : ℕ
  memflags : Memflags
  addr : ℕ
  instrStart : ℕ
  instrSize : ℕ

/-- `v8code_load`. -/
def v8codeLoad (code : ℕ) (memflags : Memflags) : StateM Mdb (Option V8Code) := do
  let c := d.cfg
  let instrStart := c.add code c.offCodeInstructionStart
  let some instrSize ← read d (·.readHeapPtr code c.offCodeInstructionSize) | return none
  let ptr ← mdbZalloc d (d.words 4) memflags
  if ptr = 0 then return none
  return some { ptr, memflags, addr := code, instrStart, instrSize }

/-- `v8code_free`. -/
def v8codeFree : Option V8Code → StateM Mdb Unit
  | none => pure ()
  | some codep => maybefree codep.ptr (d.words 4) codep.memflags

/-! ### Contexts and ScopeInfos -/

/-- `v8context_t`. -/
structure V8Context where
  ptr : ℕ
  memflags : Memflags
  addr : ℕ
  elts : Words := {}
  nelts : ℕ := 0

/-- `v8context_free`. -/
def v8contextFree : Option V8Context → StateM Mdb Unit
  | none => pure ()
  | some ctxp => do
    maybefree ctxp.elts.ptr (d.wordsSize ctxp.nelts) ctxp.memflags
    maybefree ctxp.ptr (d.words 4) ctxp.memflags

/-- `v8context_load`. -/
def v8contextLoad (addr : ℕ) (memflags : Memflags) : StateM Mdb (Option V8Context) := do
  let ptr ← mdbZalloc d (d.words 4) memflags
  if ptr = 0 then return none
  let ctxp : V8Context := { ptr, memflags, addr }
  let (rv, elts, nelts) ← readHeapArray d addr ctxp.elts ctxp.nelts memflags
  let ctxp := { ctxp with elts, nelts }
  if rv ≠ 0 then
    v8contextFree d (some ctxp)
    return none
  if nelts < d.cfg.wrap d.cfg.contextNcommon then
    v8contextFree d (some ctxp)
    return none
  return some ctxp

/-- `v8scopeinfo_t`. -/
structure V8Scopeinfo where
  ptr : ℕ
  memflags : Memflags
  addr : ℕ
  elts : Words := {}
  nelts : ℕ := 0

/-- `v8scopeinfo_free`. -/
def v8scopeinfoFree : Option V8Scopeinfo → StateM Mdb Unit
  | none => pure ()
  | some sip => do
    maybefree sip.elts.ptr (d.wordsSize sip.nelts) sip.memflags
    maybefree sip.ptr (d.words 4) sip.memflags

/-- `v8scopeinfo_load`. -/
def v8scopeinfoLoad (addr : ℕ) (memflags : Memflags) : StateM Mdb (Option V8Scopeinfo) := do
  let c := d.cfg
  let ptr ← mdbZalloc d (d.words 4) memflags
  if ptr = 0 then return none
  let sip : V8Scopeinfo := { ptr, memflags, addr }
  let (rv, elts, nelts) ← readHeapArray d addr sip.elts sip.nelts memflags
  let sip := { sip with elts, nelts }
  if rv ≠ 0 then
    v8scopeinfoFree d (some sip)
    return none
  if nelts < c.wrap c.scopeinfoIdxFirstVars then
    v8scopeinfoFree d (some sip)
    return none
  let elt (idx : ℤ) : ℕ := elts.elts.getD (c.wrap idx) 0
  if !c.isSmi (elt c.scopeinfoIdxNparams) || !c.isSmi (elt c.scopeinfoIdxNstacklocals) ||
      !c.isSmi (elt c.scopeinfoIdxNcontextlocals) then
    v8scopeinfoFree d (some sip)
    return none
  return some sip

/-! ### Bound functions -/

/-- `v8boundfunction_t`. -/
structure V8Boundfunction where
  ptr : ℕ
  addr : ℕ := 0
  memflags : Memflags := 0
  target : ℕ := 0
  this : ℕ := 0
  array : Words := {}
  arraylen : ℕ := 0
  idxArg0 : ℕ := 0

/-- `v8boundfunction_free`. -/
def v8boundfunctionFree : Option V8Boundfunction → StateM Mdb Unit
  | none => pure ()
  | some bfp => do
    maybefree bfp.array.ptr (d.wordsSize bfp.arraylen) bfp.memflags
    maybefree bfp.ptr (d.words 7) bfp.memflags

/-- `V8_CompilerHints_BoundFunction`, where it is needed. -/
def compilerHintsBoundFunction : ℕ :=
  if d.cfg.v8VersionCurrentOlder 3 28 71 19 then 13
  else if d.cfg.v8VersionCurrentOlder 4 5 103 30 then 8
  else 10

/-- `V8_HINT_BOUND`. -/
def hintBound (hints : ℕ) : Bool := hints &&& 1 <<< compilerHintsBoundFunction d != 0

/-- `v8boundfunction_load_bindings`. The indexes of the target, of `this` and of the first argument in
the bindings are 0, 1 and 2. -/
def v8boundfunctionLoadBindings (addr : ℕ) (memflags : Memflags) :
    StateM Mdb (Option V8Boundfunction) := do
  let c := d.cfg
  let some funcp ← v8functionLoad d addr memflags | return none
  let fip ← v8funcinfoLoad d funcp.shared memflags
  v8functionFree d (some funcp)
  let some info := fip | return none
  let err ← read d (·.readHeapMaybesmi info.info.addr c.offSharedfunctioninfoCompilerHints)
  v8funcinfoFree d fip
  let some hints := err | return none
  if !hintBound d hints then return none
  let some bindingsp ← read d (·.readHeapPtr addr c.offJsfunctionLiteralsOrBindings) | return none
  let ptr ← mdbZalloc d (d.words 7) memflags
  if ptr = 0 then return none
  let bfp : V8Boundfunction := { ptr, addr, memflags }
  let (rv, array, arraylen) ← readHeapArray d bindingsp bfp.array bfp.arraylen memflags
  let bfp := { bfp with array, arraylen }
  if rv ≠ 0 then
    v8boundfunctionFree d (some bfp)
    return none
  if arraylen < 2 then
    v8boundfunctionFree d (some bfp)
    return none
  return some
    { bfp with target := array.elts.getD 0 0, this := array.elts.getD 1 0, idxArg0 := 2 }

/-- The reads of `v8boundfunction_load_direct` into its handle: whether all of them have succeeded, and
what they leave there. -/
def readBindingDetails (addr : ℕ) (memflags : Memflags) (bfp : V8Boundfunction) :
    StateM Mdb (Bool × V8Boundfunction) := do
  let c := d.cfg
  let some target ← read d (·.readHeapPtr addr c.offJsboundfunctionBoundTargetFunction)
    | return (false, bfp)
  let bfp := { bfp with target }
  let some this ← read d (·.readHeapPtr addr c.offJsboundfunctionBoundThis) | return (false, bfp)
  let bfp := { bfp with this }
  let some boundArgs ← read d (·.readHeapPtr addr c.offJsboundfunctionBoundArguments)
    | return (false, bfp)
  let (rv, array, arraylen) ← readHeapArray d boundArgs bfp.array bfp.arraylen memflags
  return (rv != -1, { bfp with array, arraylen })

/-- `v8boundfunction_load_direct`. The flags are the last field of the handle to be set. -/
def v8boundfunctionLoadDirect (addr : ℕ) (memflags : Memflags) :
    StateM Mdb (Option V8Boundfunction) := do
  let c := d.cfg
  if !c.isHeapobject addr then return none
  let some type ← read d (·.readTypebyte addr) | return none
  if !isType type c.typeJsboundfunction then return none
  let ptr ← mdbZalloc d (d.words 7) memflags
  if ptr = 0 then return none
  let (ok, bfp) ← readBindingDetails d addr memflags { ptr }
  if !ok then
    v8boundfunctionFree d (some bfp)
    return none
  return some { bfp with addr, memflags }

/-- `v8boundfunction_load`. -/
def v8boundfunctionLoad (addr : ℕ) (memflags : Memflags) : StateM Mdb (Option V8Boundfunction) :=
  if d.cfg.typeJsboundfunction = -1 then v8boundfunctionLoadBindings d addr memflags
  else v8boundfunctionLoadDirect d addr memflags

/-- A handle of which the arguments are in the array. -/
def V8Boundfunction.HasArgs (bfp : V8Boundfunction) : Prop := bfp.idxArg0 ≤ bfp.arraylen

/-- The bindings are only taken if there is room for a target and for `this`. -/
theorem yields_v8boundfunctionLoadBindings (addr : ℕ) (memflags : Memflags) :
    Yields (fun r => ∀ bfp ∈ r, bfp.HasArgs) (v8boundfunctionLoadBindings d addr memflags) := by
  have hnone : Yields (fun r => ∀ bfp ∈ r, bfp.HasArgs)
      (pure none : StateM Mdb (Option V8Boundfunction)) := .pure fun _ h => by cases h
  unfold v8boundfunctionLoadBindings
  -- the function has to be loaded, with what is known about it
  refine .andThen fun funcp => ?_
  split
  swap
  · exact hnone
  refine .andThen fun fip => .andThen fun _ => ?_
  split
  swap
  · exact hnone
  refine .andThen fun err => .andThen fun _ => ?_
  split
  swap
  · exact hnone
  split
  · exact hnone
  -- it has to be a bound one, and its bindings have to be an array
  refine .andThen fun bindingsp => ?_
  split
  swap
  · exact hnone
  refine .andThen fun ptr => ?_
  -- that array is read, and it is not too short
  split
  · exact hnone
  refine .andThen fun ⟨rv, array, arraylen⟩ => ?_
  dsimp only
  split
  · exact .andThen fun _ => hnone
  split
  · exact .andThen fun _ => hnone
  next hlen =>
  refine .pure fun bfp hbfp => ?_
  obtain rfl := Option.some.inj hbfp
  exact not_lt.mp hlen

/-- The reads leave the index of the first argument as it is. -/
theorem yields_readBindingDetails (addr : ℕ) (memflags : Memflags) (bfp : V8Boundfunction) :
    Yields (fun r => r.2.idxArg0 = bfp.idxArg0) (readBindingDetails d addr memflags bfp) := by
  unfold readBindingDetails
  refine .andThen fun target => ?_
  split
  swap
  · exact .pure rfl
  refine .andThen fun this => ?_
  split
  swap
  · exact .pure rfl
  refine .andThen fun boundArgs => ?_
  split
  · exact .andThen fun _ => .pure rfl
  · exact .pure rfl

/-- A function that has an array of its arguments has nothing in front of them. -/
theorem yields_v8boundfunctionLoadDirect (addr : ℕ) (memflags : Memflags) :
    Yields (fun r => ∀ bfp ∈ r, bfp.HasArgs) (v8boundfunctionLoadDirect d addr memflags) := by
  have hnone : Yields (fun r => ∀ bfp ∈ r, bfp.HasArgs)
      (pure none : StateM Mdb (Option V8Boundfunction)) := .pure fun _ h => by cases h
  unfold v8boundfunctionLoadDirect
  dsimp only
  split
  · exact hnone
  refine .andThen fun type => ?_
  split
  swap
  · exact hnone
  split
  · exact hnone
  refine .andThen fun ptr => ?_
  split
  · exact hnone
  -- the arguments begin at the start of the array, whatever its length
  refine (yields_readBindingDetails d addr memflags _).bind fun ⟨ok, bfp⟩ hfirst => ?_
  dsimp only at hfirst ⊢
  split
  · exact .andThen fun _ => hnone
  refine .pure fun _ hbfp => ?_
  obtain rfl := Option.some.inj hbfp
  exact hfirst.trans_le (Nat.zero_le _)

/-- **A bound function that has been loaded** is one that can be iterated over: no argument begins in
front of the array or behind its end. -/
theorem yields_v8boundfunctionLoad (addr : ℕ) (memflags : Memflags) :
    Yields (fun r => ∀ bfp ∈ r, ∃ iterated : MdbV8.V8Boundfunction,
      iterated.array = ⟨bfp.arraylen, bfp.array.elts⟩ ∧ iterated.idxArg0 = bfp.idxArg0)
      (v8boundfunctionLoad d addr memflags) := by
  have hargs : Yields (fun r => ∀ bfp ∈ r, bfp.HasArgs) (v8boundfunctionLoad d addr memflags) := by
    unfold v8boundfunctionLoad
    split
    · exact yields_v8boundfunctionLoadBindings d addr memflags
    · exact yields_v8boundfunctionLoadDirect d addr memflags
  exact fun m bfp hbfp => ⟨⟨⟨bfp.arraylen, bfp.array.elts⟩, bfp.idxArg0, hargs m bfp hbfp⟩, rfl, rfl⟩

/-! ### String buffers -/

/-- `mdbv8_strbuf_t`, where it has been allocated. -/
structure Mdbv8Strbuf where
  ptr : ℕ
  memflags : Memflags
  buf : ℕ
  bufsz : ℕ

/-- `sizeof (mdbv8_strbuf_t)`: two `int`s share a word if there is room. -/
def sizeofMdbv8Strbuf : ℕ := d.words (if d.cfg.model = .lp64 then 6 else 7)

/-- `mdbv8_strbuf_alloc`. -/
def mdbv8StrbufAlloc (nbytes : ℕ) (memflags : Memflags) : StateM Mdb (Option Mdbv8Strbuf) := do
  let ptr ← mdbZalloc d (sizeofMdbv8Strbuf d) memflags
  if ptr = 0 then
    maybefree ptr (sizeofMdbv8Strbuf d) memflags
    return none
  let buf ← mdbZalloc d nbytes memflags
  if buf = 0 then
    maybefree ptr (sizeofMdbv8Strbuf d) memflags
    return none
  return some { ptr, memflags, buf, bufsz := nbytes }

/-- `mdbv8_strbuf_free`, of a buffer that has been allocated. -/
def mdbv8StrbufFree : Option Mdbv8Strbuf → StateM Mdb Unit
  | none => pure ()
  | some strb => do
    maybefree strb.buf strb.bufsz strb.memflags
    maybefree strb.ptr (sizeofMdbv8Strbuf d) strb.memflags

end Programs

end MdbV8.Loading
