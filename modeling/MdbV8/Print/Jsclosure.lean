import MdbV8.Commands.V8function
import MdbV8.Functions.ScopeVars
import MdbV8.Print.Ends

/-!
# The variables of a closure

`::jsclosure` follows a function to its context, the context to the function that has made it, and that one
to its ScopeInfo, where the names of the variables of the context are behind those of the parameters and the
stack locals. It prints a line for each of them, with its name and its value, in a local array of 1024 bytes.

Here a closure is a list of variables with their values (`JsClosure`), and `ClosureAt` says that memory is
laid out for it. `dcmdJsclosure_renders` is the way back: what is printed are the lines of the closure, in
which the values are shown as by `::jsprint` (`JsHeap.text`), if the lines fit into the array.
-/

namespace MdbV8

open Lib

/-! ### The command -/

/-- `v8function_t`. -/
structure V8Function where
  addr : ℕ
  shared : ℕ
  deriving DecidableEq, Repr

section Functions

variable (t : Target) (layout : Loading.FunctionLayout)

/-- `v8function_load`. -/
def v8functionLoad (addr : ℕ) : Option V8Function :=
  let c := t.cfg
  if !c.isHeapobject addr then none
  else
    match t.readTypebyte addr with
    | none => none
    | some type =>
      if !Target.isType type c.typeJsfunction then none
      else (t.readHeapPtr addr c.offJsfunctionShared).map fun shared => { addr, shared }

/-- `v8function_context`. -/
def v8functionContext (funcp : V8Function) : Option V8Context :=
  (t.readHeapPtr funcp.addr layout.offJsfunctionContext).bind (v8contextLoad t)

/-- `v8function_scopeinfo`. -/
def v8functionScopeinfo (funcp : V8Function) : Option V8Scopeinfo :=
  if layout.offSharedfunctioninfoScopeInfo = -1 then none
  else
    (t.readHeapPtr funcp.addr t.cfg.offJsfunctionShared).bind fun shared =>
      (t.readHeapPtr shared layout.offSharedfunctioninfoScopeInfo).bind (v8scopeinfoLoad t)

/-- `v8context_scopeinfo`. There is no result where the assertion about the slot fails. -/
def v8contextScopeinfo (ctxp : V8Context) : Option (Option V8Scopeinfo) :=
  (Asserted.v8contextClosure t ctxp).map fun closure =>
    (v8functionLoad t closure).bind (v8functionScopeinfo t layout)

end Functions

namespace Jsclosure

section Command

variable (t : Target) (layout : Loading.FunctionLayout) (fmtY : ℤ → List UInt8)
  (before : ℕ → ℕ → UInt8)

/-- The settings for the value of a variable. -/
def jsop : JsobjPrint where
  depth := 1
  indent := 4
  printaddr := true

/-- What `jsclosure_iter_var` prints of a variable, but for the end of the line, or nothing if it fails.
`before` is what is in its array before. The index of the value is an argument of the type
`unsigned int`. -/
def jsclosureLine (sip : V8Scopeinfo) (ctxp : V8Context) : DbgElt → Option (List UInt8)
  | .var which realidx =>
    let buf := bsnprintf (OutBuf.fresh (before which) 1024) (bytesOf "    ")
    let (rv, buf) := jsstrPrint t (sip.elts.get realidx) jsstrQuoted buf
    if rv ≠ 0 then none
    else
      match Asserted.v8contextVarValue t ctxp (which % 2 ^ 32) with
      | some (0, some valp) =>
        let buf := bsnprintf buf (bytesOf ": ")
        let (rv, _, buf) := jsobjPrint t fmtY (bufDevice t) valp jsop buf
        if rv ≠ 0 then none else some (buf.str 1024)
      | _ => none
  | _ => none

/-- `jsclosure_iter_var`, with the lines that have been printed. -/
def jsclosureIterVar (sip : V8Scopeinfo) (ctxp : V8Context) :
    DbgElt → List (List UInt8) → ℤ × List (List UInt8) :=
  collecting (jsclosureLine t fmtY before sip ctxp)

/-- `V8SV_CONTEXTLOCALS`. -/
def contextLocals : V8ScopeinfoVartypeInfo where
  vartype := 2
  label := "context local variable"
  idxCount := t.cfg.scopeinfoIdxNcontextlocals

/-- `dcmd_jsclosure`, with the lines that it prints. There is no result where an assertion fails. -/
def dcmdJsclosure (addr : ℕ) : Option (DcmdStatus × List (List UInt8)) :=
  match v8functionLoad t addr with
  | none => some (.err, [])
  | some funcp =>
    match v8functionContext t layout funcp with
    | none => some (.err, [])
    | some ctxp =>
      (v8contextScopeinfo t layout ctxp).map fun sip =>
        match sip with
        | none => (.err, [])
        | some sip =>
          let (rv, lines) := v8scopeinfoIterVars t (jsclosureIterVar t fmtY before sip ctxp) sip
            (contextLocals t) []
          (if rv ≠ 0 then .err else .ok, lines)

end Command

end Jsclosure

/-! ### Closures in memory -/

/-- **A closure**: its variables with their values, behind some parameters and stack locals. -/
structure JsClosure where
  params : ℕ
  stackLocals : ℕ
  vars : List (List UInt8 × ℕ)
  deriving DecidableEq, Repr

/-- The line of a variable. The values of a heap are shown with their addresses. -/
def JsHeap.closureLine (H : JsHeap) (p : List UInt8 × ℕ) : List UInt8 :=
  bytesOf "    \"" ++ p.1 ++ bytesOf "\": " ++ H.text (addrsText 0 true) 1 4 p.2

/-- The metadata about contexts and ScopeInfos: the fields with the numbers of variables are different, and
in front of the variables. -/
structure Config.V8Scopes (c : Config) : Prop where
  context : c.ContextSlots
  params : 0 ≤ c.scopeinfoIdxNparams ∧ c.scopeinfoIdxNparams < c.scopeinfoIdxFirstVars
  stackLocals : 0 ≤ c.scopeinfoIdxNstacklocals ∧ c.scopeinfoIdxNstacklocals < c.scopeinfoIdxFirstVars
  contextLocals : 0 ≤ c.scopeinfoIdxNcontextlocals ∧
    c.scopeinfoIdxNcontextlocals < c.scopeinfoIdxFirstVars
  nodup : c.scopeinfoIdxNparams ≠ c.scopeinfoIdxNcontextlocals ∧
    c.scopeinfoIdxNstacklocals ≠ c.scopeinfoIdxNcontextlocals
  offset : -1 ≤ c.scopeinfoOffsetStackLocals

section Memory

variable (t : Target) (layout : Loading.FunctionLayout)

/-- A function. -/
structure FunctionAt (addr shared : ℕ) : Prop where
  tagged : t.cfg.isHeapobject addr = true
  type : ∃ type, t.readTypebyte addr = some type ∧ Target.isType type t.cfg.typeJsfunction = true
  shared : t.readHeapPtr addr t.cfg.offJsfunctionShared = some shared

/-- A context, with the values of variables behind the common slots. -/
def ContextAt (addr closure : ℕ) (vars : List (List UInt8 × ℕ)) : Prop :=
  ∃ elts, t.readHeapArray addr = some elts ∧
    t.cfg.contextNcommon.toNat + vars.length ≤ elts.len ∧
    elts.get t.cfg.contextIdxClosure.toNat = closure ∧
    ∀ i p, vars[i]? = some p → elts.get (t.cfg.contextNcommon.toNat + i) = p.2

/-- Where the names of the variables of a closure begin in a ScopeInfo. -/
def JsClosure.start (c : Config) (cl : JsClosure) : ℕ :=
  c.scopeinfoIdxFirstVars.toNat + cl.params + c.scopeinfoOffsetStackLocals.toNat + cl.stackLocals

/-- A ScopeInfo, with the numbers of the variables and the names of those of the context. -/
def ScopeAt (addr : ℕ) (cl : JsClosure) : Prop :=
  ∃ elts, t.readHeapArray addr = some elts ∧
    (cl.params < smiIndexes t.cfg ∧
      elts.get t.cfg.scopeinfoIdxNparams.toNat = t.cfg.smiWord cl.params) ∧
    (cl.stackLocals < smiIndexes t.cfg ∧
      elts.get t.cfg.scopeinfoIdxNstacklocals.toNat = t.cfg.smiWord cl.stackLocals) ∧
    (cl.vars.length < smiIndexes t.cfg ∧
      elts.get t.cfg.scopeinfoIdxNcontextlocals.toNat = t.cfg.smiWord cl.vars.length) ∧
    cl.start t.cfg + cl.vars.length ≤ elts.len ∧
    ∀ i p, cl.vars[i]? = some p → NameAt t (elts.get (cl.start t.cfg + i)) p.1

/-- **Memory is laid out for a closure**: the function has a context, and the function that has made the
context has a ScopeInfo. -/
structure ClosureAt (addr : ℕ) (cl : JsClosure) : Prop where
  hasScope : layout.offSharedfunctioninfoScopeInfo ≠ -1
  parts : ∃ shared context closure shared' scope, FunctionAt t addr shared ∧
    t.readHeapPtr addr layout.offJsfunctionContext = some context ∧
    ContextAt t context closure cl.vars ∧ FunctionAt t closure shared' ∧
    t.readHeapPtr shared' layout.offSharedfunctioninfoScopeInfo = some scope ∧ ScopeAt t scope cl

end Memory

/-! ### Loading -/

section Loading

variable {t : Target} {layout : Loading.FunctionLayout}

/-- The length of an array is an `unsigned int`. -/
theorem readHeapArray_len_lt_uint (hsmis : t.cfg.V8Smis) {addr : ℕ} {elts : Target.HeapArray}
    (hread : t.readHeapArray addr = some elts) : elts.len < 2 ^ 32 := by
  obtain ⟨w, hw, hlen⟩ := t.readHeapArray_smi hread
  rw [hlen, Config.smiValue, Nat.shiftRight_eq_div_pow]
  rcases hsmis.cases with ⟨hbits, hshift, -⟩ | ⟨hbits, hshift, -⟩
  · rw [hbits] at hw
    rw [hshift]
    omega
  · rw [hbits] at hw
    rw [hshift]
    omega

theorem FunctionAt.load {addr shared : ℕ} (h : FunctionAt t addr shared) :
    v8functionLoad t addr = some ⟨addr, shared⟩ := by
  obtain ⟨type, htype, hfunction⟩ := h.type
  unfold v8functionLoad
  simp only [h.tagged, htype, hfunction, h.shared, Bool.not_true, Bool.false_eq_true, if_false,
    Option.map_some]

/-- The number of common slots is the one that loading compares with. -/
theorem wrap_contextNcommon (hslots : t.cfg.ContextSlots) :
    t.cfg.wrap t.cfg.contextNcommon = t.cfg.contextNcommon.toNat := by
  have hpos : 0 < t.cfg.contextNcommon := lt_of_le_of_lt hslots.closure.1 hslots.closure.2
  exact t.cfg.wrap_of_lt hpos.le (hslots.ncommon.trans_le
    (pow_le_pow_right₀ (by norm_num) (Nat.sub_le _ _)))

/-- What is known of a context that has been loaded. -/
structure ContextHas (t : Target) (ctxp : V8Context) (closure : ℕ) (vars : List (List UInt8 × ℕ)) :
    Prop where
  closure : Asserted.v8contextClosure t ctxp = some closure
  value : ∀ i p, vars[i]? = some p → Asserted.v8contextVarValue t ctxp (i % 2 ^ 32) = some (0, some p.2)

/-- **Loading a context.** -/
theorem ContextAt.load (hsmis : t.cfg.V8Smis) (hslots : t.cfg.ContextSlots) {addr closure : ℕ}
    {vars : List (List UInt8 × ℕ)} (h : ContextAt t addr closure vars) :
    ∃ ctxp, v8contextLoad t addr = some ctxp ∧ ContextHas t ctxp closure vars := by
  obtain ⟨elts, hread, hlen, hclosure, hvars⟩ := h
  have hlt := readHeapArray_len_lt_uint hsmis hread
  have hpos : 0 < t.cfg.contextNcommon := lt_of_le_of_lt hslots.closure.1 hslots.closure.2
  have hload : v8contextLoad t addr = some ⟨addr, elts⟩ := by
    unfold v8contextLoad
    rw [hread]
    dsimp only
    rw [wrap_contextNcommon hslots, if_neg (by omega)]
  obtain ⟨-, hle⟩ := ncommon_le_of_v8contextLoad hslots hload
  refine ⟨_, hload, ?_, fun i p hp => ?_⟩
  · unfold Asserted.v8contextClosure
    rw [v8contextElt_commonSlot hslots.closure hle hlt, ← hclosure]
    rfl
  · obtain ⟨hi, -⟩ := List.getElem?_eq_some_iff.mp hp
    have hcount : t.cfg.contextNcommon.toNat + i < elts.len := by omega
    rw [Nat.mod_eq_of_lt (by omega), Asserted.v8contextVarValue_of_lt t _ hpos.le (by omega),
      if_neg (by dsimp only; omega), ← hvars i p hp, Nat.add_comm i]
    rfl

/-- A number in a ScopeInfo. -/
theorem smiValue_of_count (hsmis : t.cfg.V8Smis) {n : ℕ} (hn : n < smiIndexes t.cfg) :
    t.cfg.smiValue (t.cfg.smiWord n) = n := by
  have hint : t.cfg.IsSmiInt n := by
    unfold Config.IsSmiInt
    unfold smiIndexes at hn
    exact ⟨(neg_nonpos.mpr (by positivity)).trans (Int.natCast_nonneg n), by exact_mod_cast hn⟩
  exact_mod_cast smiValue_of_nonneg hsmis hint (Int.natCast_nonneg n)

/-- **Loading a ScopeInfo**: the variables of the kinds begin where the sums of the numbers before them
say. -/
theorem v8scopeinfoLoad_of_counts (hsmis : t.cfg.V8Smis) (hscopes : t.cfg.V8Scopes) {addr : ℕ}
    {elts : Target.HeapArray} (hread : t.readHeapArray addr = some elts)
    (hlen : t.cfg.scopeinfoIdxFirstVars.toNat ≤ elts.len) {nparams nlocals ncontext : ℕ}
    (hparams : nparams < smiIndexes t.cfg ∧
      elts.get t.cfg.scopeinfoIdxNparams.toNat = t.cfg.smiWord nparams)
    (hlocals : nlocals < smiIndexes t.cfg ∧
      elts.get t.cfg.scopeinfoIdxNstacklocals.toNat = t.cfg.smiWord nlocals)
    (hcontext : ncontext < smiIndexes t.cfg ∧
      elts.get t.cfg.scopeinfoIdxNcontextlocals.toNat = t.cfg.smiWord ncontext) :
    v8scopeinfoLoad t addr = some ⟨addr, elts⟩ ∧
      (∀ vtip ∈ v8scopeinfoVartypes t, t.cfg.wrap vtip.idxCount = vtip.idxCount.toNat) ∧
      scopeVars t ⟨addr, elts⟩ = (v8scopeinfoVartypes t).zip
        [(t.cfg.scopeinfoIdxFirstVars.toNat : ℤ),
          ((t.cfg.scopeinfoIdxFirstVars.toNat + nparams + t.cfg.scopeinfoOffsetStackLocals.toNat : ℕ) : ℤ),
          ((t.cfg.scopeinfoIdxFirstVars.toNat + nparams + t.cfg.scopeinfoOffsetStackLocals.toNat +
            nlocals : ℕ) : ℤ)] := by
  have hlt : (elts.len : ℤ) < 2 ^ t.cfg.bits := by exact_mod_cast t.readHeapArray_len_lt_two_pow hread
  -- the indexes of the fields are in front of the variables
  have hfield {idx : ℤ} (hidx : 0 ≤ idx ∧ idx < t.cfg.scopeinfoIdxFirstVars) :
      t.cfg.wrap idx = idx.toNat := t.cfg.wrap_of_lt hidx.1 (by omega)
  have hfirst : t.cfg.wrap t.cfg.scopeinfoIdxFirstVars = t.cfg.scopeinfoIdxFirstVars.toNat :=
    t.cfg.wrap_of_lt (by have := hscopes.params; omega) (by omega)
  have hparams' := hparams.2
  have hlocals' := hlocals.2
  have hcontext' := hcontext.2
  rw [← hfield hscopes.params] at hparams'
  rw [← hfield hscopes.stackLocals] at hlocals'
  rw [← hfield hscopes.contextLocals] at hcontext'
  refine ⟨?_, fun vtip hvtip => ?_, ?_⟩
  · unfold v8scopeinfoLoad
    rw [hread]
    dsimp only
    rw [hfirst, if_neg hlen.not_gt, hparams', hlocals', hcontext']
    simp [isSmi_smiWord hsmis]
  · simp only [v8scopeinfoVartypes, List.mem_cons, List.not_mem_nil, or_false] at hvtip
    rcases hvtip with rfl | rfl | rfl
    · exact hfield hscopes.params
    · exact hfield hscopes.stackLocals
    · exact hfield hscopes.contextLocals
  · have hskip : (if t.cfg.scopeinfoOffsetStackLocals ≠ -1 then t.cfg.scopeinfoOffsetStackLocals else 0) =
        t.cfg.scopeinfoOffsetStackLocals.toNat := by
      have hoffset := hscopes.offset
      split <;> omega
    simp only [scopeVars, v8scopeinfoVartypes, varsFrom, V8ScopeinfoVartypeInfo.skip,
      v8scopeinfoVartypeNvars, hparams', hlocals', smiValue_of_count hsmis hparams.1,
      smiValue_of_count hsmis hlocals.1, hskip, hfirst, List.zip_cons_cons, List.zip_nil_right,
      List.cons.injEq, Prod.mk.injEq, and_true, true_and]
    push_cast
    refine ⟨?_, ?_, ?_⟩ <;> ring

/-- What is known of a ScopeInfo that has been loaded. -/
structure ScopeHas (t : Target) (sip : V8Scopeinfo) (cl : JsClosure) : Prop where
  name : ∀ i p, cl.vars[i]? = some p → NameAt t (sip.elts.get (cl.start t.cfg + i)) p.1
  iterates : ∀ {σ : Type} (func : DbgElt → σ → ℤ × σ) (s : σ),
    v8scopeinfoIterVars t func sip (Jsclosure.contextLocals t) s =
      runUntil func 0 ((List.range cl.vars.length).map fun i => .var i (cl.start t.cfg + i)) s

/-- The variables of a closure are the third kind of its ScopeInfo. -/
theorem ScopeAt.load (hsmis : t.cfg.V8Smis) (hscopes : t.cfg.V8Scopes) {addr : ℕ} {cl : JsClosure}
    (h : ScopeAt t addr cl) : ∃ sip, v8scopeinfoLoad t addr = some sip ∧ ScopeHas t sip cl := by
  obtain ⟨elts, hread, hparams, hlocals, hcount, hlen, hnames⟩ := h
  have hlt := t.readHeapArray_len_lt_two_pow hread
  have hstart : cl.start t.cfg = t.cfg.scopeinfoIdxFirstVars.toNat + cl.params +
    t.cfg.scopeinfoOffsetStackLocals.toNat + cl.stackLocals := rfl
  obtain ⟨hload, hidx, hvars⟩ :=
    v8scopeinfoLoad_of_counts hsmis hscopes hread (by omega) hparams hlocals hcount
  rw [← hstart] at hvars
  refine ⟨_, hload, hnames, fun func s => ?_⟩
  have hmem : (Jsclosure.contextLocals t, (cl.start t.cfg : ℤ)) ∈ scopeVars t ⟨addr, elts⟩ := by
    rw [hvars]
    simp [v8scopeinfoVartypes, Jsclosure.contextLocals]
  -- the start of the third kind is the sum of the numbers before it
  have hsame : sameFieldStart t ⟨addr, elts⟩ (Jsclosure.contextLocals t) = cl.start t.cfg := by
    unfold sameFieldStart
    rw [hvars]
    simp [v8scopeinfoVartypes, Jsclosure.contextLocals, hscopes.nodup.1, hscopes.nodup.2]
  have hnvars : v8scopeinfoVartypeNvars t ⟨addr, elts⟩ (Jsclosure.contextLocals t) = cl.vars.length := by
    have hfield := hidx (Jsclosure.contextLocals t) (by simp [v8scopeinfoVartypes, Jsclosure.contextLocals])
    unfold v8scopeinfoVartypeNvars
    rw [hfield]
    dsimp only [Jsclosure.contextLocals]
    rw [hcount.2, smiValue_of_count hsmis hcount.1]
  -- all of the variables are inside of the array
  have hinside : varsInside ⟨addr, elts⟩ cl.vars.length (cl.start t.cfg) = cl.vars.length := by
    unfold varsInside
    dsimp only
    omega
  -- so the iteration is over these indexes, one after the other
  have hiter := v8scopeinfoIterVars_eq func hlt hmem s
  dsimp only at hiter
  rw [hsame, hnvars, t.cfg.wrap_natCast (show cl.start t.cfg < _ by omega), hinside,
    if_neg (lt_irrefl _)] at hiter
  rw [hiter, varItems, hinside]

/-- **Loading a function and what is behind it.** -/
theorem ClosureAt.load (hsmis : t.cfg.V8Smis) (hscopes : t.cfg.V8Scopes) {addr : ℕ} {cl : JsClosure}
    (h : ClosureAt t layout addr cl) :
    ∃ funcp ctxp sip closure, v8functionLoad t addr = some funcp ∧
      v8functionContext t layout funcp = some ctxp ∧ ContextHas t ctxp closure cl.vars ∧
      v8contextScopeinfo t layout ctxp = some (some sip) ∧ ScopeHas t sip cl := by
  obtain ⟨shared, context, closure, shared', scope, hfunc, hcontext, hctx, hfunc', hscope, hsip⟩ := h.parts
  obtain ⟨ctxp, hctxload, hhas⟩ := hctx.load hsmis hscopes.context
  obtain ⟨sip, hsipload, hsiphas⟩ := hsip.load hsmis hscopes
  refine ⟨⟨addr, shared⟩, ctxp, sip, closure, hfunc.load, ?_, hhas, ?_, hsiphas⟩
  · unfold v8functionContext
    rw [hcontext, Option.bind_some, hctxload]
  · unfold v8contextScopeinfo v8functionScopeinfo
    rw [hhas.closure, Option.map_some, hfunc'.load, Option.bind_some, if_neg h.hasScope]
    dsimp only
    rw [hfunc'.shared, Option.bind_some, hscope, Option.bind_some, hsipload]

end Loading

/-! ### A line -/

section Line

variable {t : Target} {b : PropBits} (fmtY : ℤ → List UInt8)

variable {H : JsHeap}

/-- There is no NUL in a line. -/
theorem JsHeap.StoredIn.noNul_closureLine (hstored : H.StoredIn t b) {p : List UInt8 × ℕ}
    (hname : 0 ∉ p.1) : 0 ∉ H.closureLine p :=
  noNul_append (noNul_append (noNul_append (by decide) hname) (by decide)) (hstored.noNul _ _ _ _ _)

/-- The value of a variable, behind its name. -/
theorem jsclosureValue_spec (hprops : t.cfg.V8Props b) (hstored : H.StoredIn t b) (hlegible : H.Legible t)
    {w : ℕ} {v : JsValue} (hv : H w = some v) {o o' : OutBuf} {ps ps' : List Piece}
    (h : SamePrint t o ps o' ps') (ho : o.len ≤ 2 ^ t.cfg.bits) :
    let r := jsobjPrint t fmtY (bufDevice t) w Jsclosure.jsop o'
    r.1 = 0 ∧ EndsIn (bufDevice t) r.2.2 ∧
      ∃ ps'', SamePrint t o ps r.2.2 ps'' ∧ Appends t ps' ps'' (H.text (addrsText 0 true) 1 4 w) := by
  intro r
  have hplain : PlainPrint 0 true 1 4 Jsclosure.jsop := ⟨rfl, rfl, rfl, rfl, rfl, rfl⟩
  have hsame := h.print (same_jsobjPrintValue fmtY 3) (some (.addr w)) (.refl Jsclosure.jsop) rfl ho
  obtain ⟨hrv, -, happends⟩ := appends_jsobjPrintValue fmtY hprops hstored hlegible (by decide)
    (by decide : 1 < 3) hv (H.indents_of_depth (by decide) w) hplain ps'
  have hzero : r.1 = 0 := hsame.rv.trans hrv
  exact ⟨hzero, endsIn_jsobjPrintWord fmtY (bufDevice t) hprops (hstored.stored w v hv) _ _ rfl rfl hzero,
    _, hsame.print, happends⟩

/-- **A line that fits into the array.** -/
theorem jsclosureLine_eq (hprops : t.cfg.V8Props b) (hstored : H.StoredIn t b) (hlegible : H.Legible t)
    (before : ℕ → ℕ → UInt8) {sip : V8Scopeinfo} {ctxp : V8Context} {which realidx : ℕ}
    {p : List UInt8 × ℕ} (hname : NameAt t (sip.elts.get realidx) p.1)
    (hvalue : Asserted.v8contextVarValue t ctxp (which % 2 ^ 32) = some (0, some p.2)) {v : JsValue}
    (hv : H p.2 = some v) (hfits : (H.closureLine p).length + outputSlack < 1024) :
    Jsclosure.jsclosureLine t fmtY before sip ctxp (.var which realidx) = some (H.closureLine p) := by
  have hbits : 1024 ≤ 2 ^ t.cfg.bits := (lt_two_pow_bits (by decide)).le
  -- the name
  have hhead : SamePrint t (OutBuf.fresh (before which) 1024) []
      (bsnprintf (OutBuf.fresh (before which) 1024) (bytesOf "    ")) _ := SamePrint.refl.bsnprintf _
  obtain ⟨hrv, hstring⟩ := samePrint_jsstrPrint hhead (sip.elts.get realidx) jsstrQuoted hbits
  obtain ⟨hrv', happends⟩ := hname.appends jsstrQuoted rfl [.text (bytesOf "    ")]
  have hzero := hrv.trans hrv'
  -- the value
  obtain ⟨hval, hends, ps, hsame, happends'⟩ :=
    jsclosureValue_spec fmtY hprops hstored hlegible hv (hstring.bsnprintf (bytesOf ": ")) hbits
  have hall := (((Appends.bsnprintf [] (bytesOf "    ")).trans happends).trans
    (.bsnprintf _ (bytesOf ": "))).trans happends'
  have hline : bytesOf "    " ++ quotedText msfAsciionly (quotedFlag jsstrQuoted) p.1 ++ bytesOf ": " ++
      H.text (addrsText 0 true) 1 4 p.2 = H.closureLine p := by
    change bytesOf "    " ++ (bytesOf "\"" ++ p.1 ++ bytesOf "\"") ++ bytesOf ": " ++ _ = _
    unfold JsHeap.closureLine
    simp only [show bytesOf "    \"" = bytesOf "    " ++ bytesOf "\"" by decide,
      show bytesOf "\": " = bytesOf "\"" ++ bytesOf ": " by decide, List.append_assoc]
  obtain ⟨htext, hlen⟩ := hsame.text_of_fits (hall.of_eq hline) hfits
  have hstr := hends.str_eq htext hlen (hstored.noNul_closureLine hname.noNul) (n := 1024) (by omega)
  rw [Jsclosure.jsclosureLine]
  generalize jsstrPrint t (sip.elts.get realidx) jsstrQuoted _ = r₁ at hzero hval hstr ⊢
  obtain ⟨rv₁, buf₁⟩ := r₁
  obtain rfl : rv₁ = 0 := hzero
  simp only [ne_eq, not_true_eq_false, if_false, hvalue]
  change (jsobjPrint t fmtY (bufDevice t) p.2 Jsclosure.jsop (bsnprintf buf₁ (bytesOf ": "))).1 = 0 at hval
  change (jsobjPrint t fmtY (bufDevice t) p.2 Jsclosure.jsop
    (bsnprintf buf₁ (bytesOf ": "))).2.2.str 1024 = _ at hstr
  generalize jsobjPrint t fmtY (bufDevice t) p.2 Jsclosure.jsop _ = r₂ at hval hstr ⊢
  obtain ⟨rv₂, jsop₂, buf₂⟩ := r₂
  obtain rfl : rv₂ = 0 := hval
  rw [if_neg (by simp)]
  exact congrArg some hstr

end Line

/-! ### The way back -/

section Renders

variable {t : Target} {layout : Loading.FunctionLayout} {b : PropBits} {fmtY : ℤ → List UInt8}
  {before : ℕ → ℕ → UInt8}

/-- What comes of the variables, if a line comes of each of them. -/
theorem filterMap_range_var {β : Type*} {f : DbgElt → Option β} {start : ℕ} {lines : List β}
    (h : ∀ i line, lines[i]? = some line → f (.var i (start + i)) = some line) :
    ((List.range lines.length).map fun i => DbgElt.var i (start + i)).filterMap f = lines := by
  have hmap : ((List.range lines.length).map fun i => DbgElt.var i (start + i)).map f = lines.map some := by
    apply List.ext_getElem
    · simp
    · intro i hi hi'
      have hlt : i < lines.length := by simpa using hi'
      simpa using h i _ (List.getElem?_eq_getElem hlt)
  calc _ = (((List.range lines.length).map fun i => DbgElt.var i (start + i)).map f).filterMap id :=
        List.filterMap_map.symm
    _ = lines := by
        rw [hmap, List.filterMap_map]
        exact List.filterMap_some

/-- **`::jsclosure` prints the variables of a closure.** -/
theorem dcmdJsclosure_renders (hprops : t.cfg.V8Props b) (hscopes : t.cfg.V8Scopes) {H : JsHeap}
    (hstored : H.StoredIn t b) (hlegible : H.Legible t) {addr : ℕ} {cl : JsClosure}
    (hclosure : ClosureAt t layout addr cl)
    (hvalues : ∀ p ∈ cl.vars, ∃ v, H p.2 = some v)
    (hfits : ∀ p ∈ cl.vars, (H.closureLine p).length + outputSlack < 1024) :
    Jsclosure.dcmdJsclosure t layout fmtY before addr = some (.ok, cl.vars.map H.closureLine) := by
  obtain ⟨funcp, ctxp, sip, closure, hfunc, hctx, hhas, hsip, hscope⟩ := hclosure.load hprops.smis hscopes
  -- every variable makes its line
  have hlines : ∀ i line, (cl.vars.map H.closureLine)[i]? = some line →
      Jsclosure.jsclosureLine t fmtY before sip ctxp (.var i (cl.start t.cfg + i)) = some line := by
    intro i line hline
    rw [List.getElem?_map] at hline
    obtain ⟨p, hp, rfl⟩ := Option.map_eq_some_iff.mp hline
    have hmem := List.mem_of_getElem? hp
    obtain ⟨v, hv⟩ := hvalues p hmem
    exact jsclosureLine_eq fmtY hprops hstored hlegible before (hscope.name i p hp) (hhas.value i p hp) hv
      (hfits p hmem)
  have hfilter := filterMap_range_var hlines
  -- no variable ends the iteration
  have hsome : ∀ x ∈ (List.range cl.vars.length).map fun i => DbgElt.var i (cl.start t.cfg + i),
      (Jsclosure.jsclosureLine t fmtY before sip ctxp x).isSome := by
    intro x hx
    obtain ⟨i, hi, rfl⟩ := List.mem_map.mp hx
    have hlt : i < (cl.vars.map H.closureLine).length := by simpa using hi
    rw [hlines i _ (List.getElem?_eq_getElem hlt)]
    rfl
  rw [List.length_map] at hfilter
  -- what the iteration has collected is these lines
  have hiter : v8scopeinfoIterVars t (Jsclosure.jsclosureIterVar t fmtY before sip ctxp) sip
      (Jsclosure.contextLocals t) [] = (0, cl.vars.map H.closureLine) := by
    unfold Jsclosure.jsclosureIterVar
    rw [hscope.iterates, runUntil_collecting_of_some hsome, hfilter, List.nil_append]
  unfold Jsclosure.dcmdJsclosure
  rw [hfunc]
  dsimp only
  rw [hctx]
  dsimp only
  rw [hsip, Option.map_some]
  dsimp only
  rw [hiter]
  rfl

end Renders

/-! ### A closure with two variables -/

/-- A function at `0x1001`, whose context belongs to the function at `0x1101`: with one parameter, and with
two variables, an integer and a string. -/
def twoVarsTarget : Target :=
  .ofWords (.sample .lp64)
    [(0x1000, 0x2001), (0x1028, 0x3001), (0x1030, 0x4001), (0x1100, 0x2001), (0x1128, 0x3101),
      -- the Maps of a function, of a FixedArray and of a string
      (0x2010, 0xb5), (0x2110, 0xa3), (0x2210, 0x04), (0x3118, 0x4101),
      -- the context and the ScopeInfo
      (0x4000, 0x2101), (0x4008, 0x600000000), (0x4010, 0x1101), (0x4018, 0), (0x4020, 0), (0x4028, 0),
      (0x4030, 0x500000000), (0x4038, 0x5001),
      (0x4100, 0x2101), (0x4108, 0x700000000), (0x4110, 0), (0x4118, 0x100000000), (0x4120, 0),
      (0x4128, 0x200000000), (0x4130, 0), (0x4138, 0x5001), (0x4140, 0x5101),
      -- the names
      (0x5000, 0x2201), (0x5008, 0x100000000), (0x5018, 0x61),
      (0x5100, 0x2201), (0x5108, 0x100000000), (0x5118, 0x62)]

/-- Where a function has its context, and its ScopeInfo. -/
def closureLayout : Loading.FunctionLayout where
  offJsfunctionContext := 47
  offSharedfunctioninfoScopeInfo := 23

/-- The closure. -/
def twoVars : JsClosure where
  params := 1
  stackLocals := 0
  vars := [([97], 0x500000000), ([98], 0x5001)]

/-- The values of its variables. -/
def twoVarsHeap : JsHeap := fun w =>
  if w = 0x500000000 then some (.int 5) else if w = 0x5001 then some (.string [97]) else none

/-- A string of one character. -/
theorem NameAt.of_char {t : Target} {addr : ℕ} {ch : UInt8}
    (hload : v8stringLoad t addr = some { addr, len := 1, type := 4 })
    (hseq : t.cfg.strrepSeq 4 = true)
    (hread : ReadsChars t addr (t.cfg.strencAscii 4) 0 1 [ch.toNat]) (hascii : ch ≠ 0 ∧ ch ≤ 126) :
    NameAt t addr [ch] :=
  ⟨0, [[ch.toNat]], .seq hload hseq hread, by decide, rfl, by simpa using hascii⟩

theorem twoVarsTarget_a : NameAt twoVarsTarget 0x5001 [97] :=
  NameAt.of_char (by decide) (by decide) ⟨[97], by decide, by decide⟩ (by decide)

theorem twoVarsTarget_b : NameAt twoVarsTarget 0x5101 [98] :=
  NameAt.of_char (by decide) (by decide) ⟨[98], by decide, by decide⟩ (by decide)

theorem Config.v8Scopes_sample : (Config.sample .lp64).V8Scopes where
  context := contextSlots_contextTarget
  params := by decide
  stackLocals := by decide
  contextLocals := by decide
  nodup := by decide
  offset := by decide

theorem closureAt_twoVars : ClosureAt twoVarsTarget closureLayout 0x1001 twoVars where
  hasScope := by decide
  parts := by
    refine ⟨0x3001, 0x4001, 0x1101, 0x3101, 0x4101, ⟨by decide, ⟨0xb5, by decide, by decide⟩, by decide⟩,
      by decide, ?_, ⟨by decide, ⟨0xb5, by decide, by decide⟩, by decide⟩, by decide, ?_⟩
    · refine ⟨⟨6, [0x1101, 0, 0, 0, 0x500000000, 0x5001]⟩, by decide +kernel, by decide, by decide,
        fun i p hp => ?_⟩
      match i, hp with
      | 0, rfl => decide
      | 1, rfl => decide
    · refine ⟨⟨7, [0, 0x100000000, 0, 0x200000000, 0, 0x5001, 0x5101]⟩, by decide +kernel,
        ⟨by decide, by decide⟩, ⟨by decide, by decide⟩, ⟨by decide, by decide⟩, by decide,
        fun i p hp => ?_⟩
      match i, hp with
      | 0, rfl => exact twoVarsTarget_a
      | 1, rfl => exact twoVarsTarget_b

theorem twoVarsHeap_cases {w : ℕ} {v : JsValue} (h : twoVarsHeap w = some v) :
    (w = 0x500000000 ∧ v = .int 5) ∨ (w = 0x5001 ∧ v = .string [97]) := by
  unfold twoVarsHeap at h
  split at h
  · next hw => exact .inl ⟨hw, (Option.some.inj h).symm⟩
  · split at h
    · next hw => exact .inr ⟨hw, (Option.some.inj h).symm⟩
    · cases h

theorem storedIn_twoVars : twoVarsHeap.StoredIn twoVarsTarget sampleBits where
  stored w v h := by
    rcases twoVarsHeap_cases h with ⟨rfl, rfl⟩ | ⟨rfl, rfl⟩
    · exact ⟨⟨by decide, by decide⟩, by decide⟩
    · exact ⟨by decide, twoVarsTarget_a⟩
  closed w v h w' hw' := by
    rcases twoVarsHeap_cases h with ⟨rfl, rfl⟩ | ⟨rfl, rfl⟩
    · cases hw'
    · cases hw'

theorem legible_twoVars : twoVarsHeap.Legible twoVarsTarget := by
  intro w v h
  rcases twoVarsHeap_cases h with ⟨rfl, rfl⟩ | ⟨rfl, rfl⟩
  · exact .inl rfl
  · trivial

/-- Both of them are printed. -/
theorem dcmdJsclosure_renders_twoVars :
    Jsclosure.dcmdJsclosure twoVarsTarget closureLayout (fun _ => []) (fun _ _ => 0) 0x1001 =
      some (.ok, [bytesOf "    \"a\": 500000000: 5", bytesOf "    \"b\": 5001: \"a\""]) :=
  (dcmdJsclosure_renders Config.v8Props_sample Config.v8Scopes_sample storedIn_twoVars legible_twoVars
    closureAt_twoVars (fun p hp => by
      simp only [twoVars, List.mem_cons, List.not_mem_nil, or_false] at hp
      rcases hp with rfl | rfl
      · exact ⟨_, rfl⟩
      · exact ⟨_, rfl⟩) (by decide +kernel)).trans (by decide +kernel)

end MdbV8
