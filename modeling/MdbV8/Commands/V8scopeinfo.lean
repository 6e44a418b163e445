import MdbV8.Print.Jsclosure

/-!
# The command `::v8scopeinfo`

The command lists the variables that a ScopeInfo has, kind by kind: how many there are, and for each of them
where its name is, with the name behind it. Two iterators are nested in each other, that of the kinds and
that of the variables of a kind.

Here a scope is a list of names for each kind (`JsScope`), and `ScopeinfoAt` says that memory is laid out
for it. `dcmdV8scopeinfo_renders` is the way back: what is printed are the lines of the scope, if each of its
names fits into the local array of the command, and a scope can be told from its lines
(`JsScope.eq_of_lines_eq`).
-/

namespace MdbV8

open Lib

/-! ### The command -/

/-- What is printed on a line. -/
inductive ScopeinfoLine where
  /-- `%d %s%s`. -/
  | vartype (nvars : ℤ) (label : String)
  /-- `    %s %d: %p`, with the name behind it, if it can be printed. -/
  | var (label : String) (idx : ℤ) (namestr : ℕ) (name : Option (List UInt8))
  deriving DecidableEq, Repr

section Command

variable (t : Target) (before : ℕ → ℕ → UInt8)

/-- The line of a variable. `before` is what is in the array of its name before. -/
def scopeinfoVarLine (sip : V8Scopeinfo) (label : String) : DbgElt → Option ScopeinfoLine
  | .var which realidx =>
    let namestr := sip.elts.get realidx
    let (rv, buf) := jsstrPrint t namestr jsstrQuoted (OutBuf.fresh (before realidx) 64)
    some (.var label (toInt32 which) namestr (if rv = 0 then some (buf.str 64) else none))
  | _ => none

/-- `do_v8scopeinfo_var_print`, with the lines that have been printed. -/
def doV8scopeinfoVarPrint (sip : V8Scopeinfo) (label : String) :
    DbgElt → List ScopeinfoLine → ℤ × List ScopeinfoLine :=
  collecting (scopeinfoVarLine t before sip label)

/-- `v8scopeinfo_vartype_lookup`. -/
def v8scopeinfoVartypeLookup (scopevartype : ℕ) : Option V8ScopeinfoVartypeInfo :=
  (v8scopeinfoVartypes t).find? fun vtip => scopevartype == vtip.vartype

/-- `do_v8scopeinfo_vartype_print`. Nothing is left of the lines where an assertion fails. -/
def doV8scopeinfoVartypePrint (sip : V8Scopeinfo) :
    DbgElt → Option (List ScopeinfoLine) → ℤ × Option (List ScopeinfoLine)
  | .vartype scopevartype, some lines =>
    match v8scopeinfoVartypeLookup t scopevartype with
    | none => (-1, none)
    | some vtip =>
      let nvars := v8scopeinfoVartypeNvars t sip vtip
      let header := .vartype (toInt32 nvars) (vtip.label ++ if nvars = 1 then "" else "s")
      let (rv, lines) := v8scopeinfoIterVars t (doV8scopeinfoVarPrint t before sip vtip.label) sip vtip
        (lines ++ [header])
      (rv, some lines)
  | _, _ => (-1, none)

/-- `dcmd_v8scopeinfo`, with the lines that it prints. There is no result where an assertion fails. -/
def dcmdV8scopeinfo (addr : ℕ) : Option (DcmdStatus × List ScopeinfoLine) :=
  match v8scopeinfoLoad t addr with
  | none => some (.err, [])
  | some sip =>
    let (rv, lines) := v8scopeinfoIterVartypes t (doV8scopeinfoVartypePrint t before sip) sip (some [])
    lines.map fun lines => (if rv ≠ 0 then .err else .ok, lines)

end Command

/-! ### Scopes in memory -/

/-- **A scope**: the variables of each kind, with the words that lead to their names. -/
@[ext]
structure JsScope where
  params : List (ℕ × List UInt8)
  stackLocals : List (ℕ × List UInt8)
  contextLocals : List (ℕ × List UInt8)
  deriving DecidableEq, Repr

namespace JsScope

/-- All the variables. -/
def vars (sc : JsScope) : List (ℕ × List UInt8) := sc.params ++ sc.stackLocals ++ sc.contextLocals

/-- The line of a variable with an index. -/
def varLine (label : String) (p : (ℕ × List UInt8) × ℕ) : ScopeinfoLine :=
  .var label p.2 p.1.1 (some (bytesOf "\"" ++ p.1.2 ++ bytesOf "\""))

/-- The lines of the variables of a kind. -/
def kindLines (label : String) (vars : List (ℕ × List UInt8)) : List ScopeinfoLine :=
  .vartype vars.length (label ++ if vars.length = 1 then "" else "s") :: vars.zipIdx.map (varLine label)

/-- The lines of a scope. -/
def lines (sc : JsScope) : List ScopeinfoLine :=
  kindLines "parameter" sc.params ++ kindLines "stack local variable" sc.stackLocals ++
    kindLines "context local variable" sc.contextLocals

end JsScope

section Memory

variable (t : Target)

/-- The variables of a kind in a ScopeInfo, from an index on, and their number. -/
structure KindAt (elts : Target.HeapArray) (idxCount : ℤ) (start : ℕ) (vars : List (ℕ × List UInt8)) :
    Prop where
  bound : vars.length < smiIndexes t.cfg
  count : elts.get idxCount.toNat = t.cfg.smiWord vars.length
  inside : start + vars.length ≤ elts.len
  name : ∀ i p, vars[i]? = some p → elts.get (start + i) = p.1 ∧ NameAt t p.1 p.2

/-- Where the stack locals begin. In front of them is the first of their slots, in some versions. -/
def JsScope.stackStart (sc : JsScope) : ℕ :=
  t.cfg.scopeinfoIdxFirstVars.toNat + sc.params.length + t.cfg.scopeinfoOffsetStackLocals.toNat

/-- **Memory is laid out for a scope**: the kinds come one after the other. -/
def ScopeinfoAt (addr : ℕ) (sc : JsScope) : Prop :=
  ∃ elts, t.readHeapArray addr = some elts ∧
    KindAt t elts t.cfg.scopeinfoIdxNparams t.cfg.scopeinfoIdxFirstVars.toNat sc.params ∧
    KindAt t elts t.cfg.scopeinfoIdxNstacklocals (sc.stackStart t) sc.stackLocals ∧
    KindAt t elts t.cfg.scopeinfoIdxNcontextlocals (sc.stackStart t + sc.stackLocals.length)
      sc.contextLocals

end Memory

/-! ### The variables of a kind -/

section Kind

variable {t : Target} (before : ℕ → ℕ → UInt8)

/-- **A name in quotes** that fits into a local array. -/
theorem NameAt.quoted_eq {addr : ℕ} {name : List UInt8} (h : NameAt t addr name)
    (bytes : ℕ → UInt8) {n : ℕ} (hn : n ≤ 2 ^ t.cfg.bits) (hfits : name.length + 2 + outputSlack < n) :
    (jsstrPrint t addr jsstrQuoted (OutBuf.fresh bytes n)).1 = 0 ∧
      (jsstrPrint t addr jsstrQuoted (OutBuf.fresh bytes n)).2.str n =
        bytesOf "\"" ++ name ++ bytesOf "\"" := by
  have hlength : (bytesOf "\"" ++ name ++ bytesOf "\"").length = name.length + 2 := by
    have hquote : (bytesOf "\"").length = 1 := rfl
    rw [List.length_append, List.length_append, hquote]
    omega
  have hlen : (OutBuf.fresh bytes n).len ≤ 2 ^ t.cfg.bits := hn
  have hstart : SamePrint t (OutBuf.fresh bytes n) [] (OutBuf.fresh bytes n) [] := SamePrint.refl
  obtain ⟨hrv, hsame⟩ := samePrint_jsstrPrint hstart addr jsstrQuoted hlen
  obtain ⟨hrv', happends⟩ := h.appends jsstrQuoted rfl []
  have hquoted : quotedText msfAsciionly (quotedFlag jsstrQuoted) name =
      bytesOf "\"" ++ name ++ bytesOf "\"" := rfl
  rw [hquoted] at happends
  have htext := (hsame.text_of_fits happends (by rw [hlength]; exact hfits)).1
  have hnul := jsstrPrint_nul (t := t) addr jsstrQuoted (OutBuf.fresh bytes n)
  refine ⟨hrv.trans hrv', ?_⟩
  generalize jsstrPrint t addr jsstrQuoted (OutBuf.fresh bytes n) = r at htext hnul ⊢
  have hbufp : r.2.bufp < n := by
    have hupTo : r.2.bufp = (bytesOf "\"" ++ name ++ bytesOf "\"").length := by
      rw [← htext]
      exact (CharMem.upTo_length _ _).symm
    omega
  rw [OutBuf.str_eq r.2 hnul hbufp, htext]
  -- there is no NUL in the text
  refine List.takeWhile_eq_self_iff.mpr fun ch hch => ?_
  have hne : ch ≠ 0 := fun hzero =>
    noNul_append (noNul_append (by decide) h.noNul) (by decide) (hzero ▸ hch)
  simpa using hne

theorem smiIndexes_le (hsmis : t.cfg.V8Smis) : smiIndexes t.cfg ≤ 2 ^ 31 := by
  unfold smiIndexes
  rcases hsmis.cases with ⟨-, -, hsmi⟩ | ⟨-, -, hsmi⟩
  · rw [hsmi]
    decide
  · rw [hsmi]

/-- An index of a variable, and the number of them, is printed as it is. -/
theorem KindAt.toInt32_eq (hsmis : t.cfg.V8Smis) {elts : Target.HeapArray} {idxCount : ℤ} {start : ℕ}
    {vars : List (ℕ × List UInt8)} (h : KindAt t elts idxCount start vars) {n : ℕ} (hn : n ≤ vars.length) :
    toInt32 n = n :=
  toInt32_of_lt ((hn.trans_lt h.bound).trans_le (smiIndexes_le hsmis))

/-- **The line of a variable** of a kind. -/
theorem KindAt.varLine_eq (hsmis : t.cfg.V8Smis) {sip : V8Scopeinfo} {idxCount : ℤ} {start : ℕ}
    {vars : List (ℕ × List UInt8)} (h : KindAt t sip.elts idxCount start vars)
    (hfits : ∀ p ∈ vars, p.2.length + 2 + outputSlack < 64) (label : String) {i : ℕ}
    {line : ScopeinfoLine} (hline : (vars.zipIdx.map (JsScope.varLine label))[i]? = some line) :
    scopeinfoVarLine t before sip label (.var i (start + i)) = some line := by
  rw [List.getElem?_map, List.getElem?_zipIdx] at hline
  obtain ⟨q, hq, rfl⟩ := Option.map_eq_some_iff.mp hline
  obtain ⟨p, hp, rfl⟩ := Option.map_eq_some_iff.mp hq
  obtain ⟨hword, hname⟩ := h.name i p hp
  obtain ⟨hi, -⟩ := List.getElem?_eq_some_iff.mp hp
  obtain ⟨hrv, hstr⟩ := hname.quoted_eq (before (start + i)) (lt_two_pow_bits (by decide)).le
    (hfits p (List.mem_of_getElem? hp))
  unfold scopeinfoVarLine JsScope.varLine
  dsimp only
  rw [hword, hrv, hstr, if_pos rfl, h.toInt32_eq hsmis hi.le, Nat.zero_add]

/-- **A kind of variables** is listed, behind what has been listed before. -/
theorem KindAt.prints (hsmis : t.cfg.V8Smis) {sip : V8Scopeinfo} {vtip : V8ScopeinfoVartypeInfo}
    {start : ℕ} {vars : List (ℕ × List UInt8)} (h : KindAt t sip.elts vtip.idxCount start vars)
    (hidx : t.cfg.wrap vtip.idxCount = vtip.idxCount.toNat) (hlen : sip.elts.len < 2 ^ t.cfg.bits)
    (hmem : (vtip, (start : ℤ)) ∈ scopeVars t sip) (hsame : sameFieldStart t sip vtip = start)
    (hlookup : v8scopeinfoVartypeLookup t vtip.vartype = some vtip)
    (hfits : ∀ p ∈ vars, p.2.length + 2 + outputSlack < 64) (lines : List ScopeinfoLine) :
    doV8scopeinfoVartypePrint t before sip (.vartype vtip.vartype) (some lines) =
      (0, some (lines ++ JsScope.kindLines vtip.label vars)) := by
  have hnvars : v8scopeinfoVartypeNvars t sip vtip = vars.length := by
    unfold v8scopeinfoVartypeNvars
    rw [hidx, h.count, smiValue_of_count hsmis h.bound]
  have hinside : varsInside sip vars.length start = vars.length := by
    have hle := h.inside
    unfold varsInside
    omega
  -- a line comes of each of the variables
  have hfilter := filterMap_range_var fun i line hline => h.varLine_eq before hsmis hfits vtip.label hline
  rw [List.length_map, List.length_zipIdx] at hfilter
  have hsome : ∀ x ∈ (List.range vars.length).map fun i => DbgElt.var i (start + i),
      (scopeinfoVarLine t before sip vtip.label x).isSome := by
    intro x hx
    obtain ⟨i, -, rfl⟩ := List.mem_map.mp hx
    rfl
  have hiter := v8scopeinfoIterVars_eq (doV8scopeinfoVarPrint t before sip vtip.label) hlen hmem
    (lines ++ [.vartype vars.length (vtip.label ++ if vars.length = 1 then "" else "s")])
  dsimp only at hiter
  rw [hsame, hnvars, t.cfg.wrap_natCast (by have := h.inside; omega), hinside, if_neg (lt_irrefl _),
    varItems, hinside, doV8scopeinfoVarPrint, runUntil_collecting_of_some hsome, hfilter] at hiter
  rw [doV8scopeinfoVartypePrint, hlookup]
  dsimp only
  rw [hnvars, h.toInt32_eq hsmis le_rfl]
  unfold doV8scopeinfoVarPrint
  rw [hiter, List.append_assoc]
  rfl

end Kind

/-! ### The way back -/

section Renders

variable {t : Target} (before : ℕ → ℕ → UInt8)

/-- The kinds of variables, with where theirs begin, and these. -/
def JsScope.kinds (t : Target) (sc : JsScope) :
    List (V8ScopeinfoVartypeInfo × ℕ × List (ℕ × List UInt8)) :=
  (v8scopeinfoVartypes t).zip
    [(t.cfg.scopeinfoIdxFirstVars.toNat, sc.params), (sc.stackStart t, sc.stackLocals),
      (sc.stackStart t + sc.stackLocals.length, sc.contextLocals)]

/-- What is known of a ScopeInfo that has been loaded. -/
structure ScopeinfoHas (t : Target) (sip : V8Scopeinfo) (sc : JsScope) : Prop where
  len : sip.elts.len < 2 ^ t.cfg.bits
  kind : ∀ k ∈ sc.kinds t, KindAt t sip.elts k.1.idxCount k.2.1 k.2.2
  idx : ∀ k ∈ sc.kinds t, t.cfg.wrap k.1.idxCount = k.1.idxCount.toNat
  vars : scopeVars t sip = (sc.kinds t).map fun k => (k.1, (k.2.1 : ℤ))

theorem ScopeinfoAt.load (hsmis : t.cfg.V8Smis) (hscopes : t.cfg.V8Scopes) {addr : ℕ} {sc : JsScope}
    (h : ScopeinfoAt t addr sc) : ∃ sip, v8scopeinfoLoad t addr = some sip ∧ ScopeinfoHas t sip sc := by
  obtain ⟨elts, hread, hparams, hlocals, hcontext⟩ := h
  have hinside := hparams.inside
  obtain ⟨hload, hidx, hvars⟩ := v8scopeinfoLoad_of_counts hsmis hscopes hread (by omega)
    ⟨hparams.bound, hparams.count⟩ ⟨hlocals.bound, hlocals.count⟩ ⟨hcontext.bound, hcontext.count⟩
  refine ⟨_, hload, t.readHeapArray_len_lt_two_pow hread, fun k hk => ?_,
    fun k hk => hidx _ (List.of_mem_zip hk).1, hvars⟩
  simp only [JsScope.kinds, v8scopeinfoVartypes, List.zip_cons_cons, List.zip_nil_right, List.mem_cons,
    List.not_mem_nil, or_false] at hk
  rcases hk with rfl | rfl | rfl
  · exact hparams
  · exact hlocals
  · exact hcontext

/-- The kinds are told by the fields with their numbers. -/
theorem ScopeinfoHas.sameFieldStart_eq {sip : V8Scopeinfo} {sc : JsScope} (h : ScopeinfoHas t sip sc)
    (hscopes : t.cfg.V8Scopes) (hne : t.cfg.scopeinfoIdxNparams ≠ t.cfg.scopeinfoIdxNstacklocals) :
    ∀ k ∈ sc.kinds t, sameFieldStart t sip k.1 = k.2.1 := by
  intro k hk
  unfold sameFieldStart
  rw [h.vars]
  simp only [JsScope.kinds, v8scopeinfoVartypes, List.zip_cons_cons, List.zip_nil_right, List.mem_cons,
    List.not_mem_nil, or_false] at hk ⊢
  rcases hk with rfl | rfl | rfl
  · simp
  · simp [hne]
  · simp [hscopes.nodup.1, hscopes.nodup.2]

/-- A kind is looked up. -/
theorem v8scopeinfoVartypeLookup_eq {vtip : V8ScopeinfoVartypeInfo} (h : vtip ∈ v8scopeinfoVartypes t) :
    v8scopeinfoVartypeLookup t vtip.vartype = some vtip := by
  simp only [v8scopeinfoVartypes, List.mem_cons, List.not_mem_nil, or_false] at h
  rcases h with rfl | rfl | rfl
  · rfl
  · rfl
  · rfl

/-- The lines of some kinds, behind what has been listed before. -/
theorem ScopeinfoHas.vartypesLoop_eq (hsmis : t.cfg.V8Smis) (hscopes : t.cfg.V8Scopes)
    (hne : t.cfg.scopeinfoIdxNparams ≠ t.cfg.scopeinfoIdxNstacklocals) {sip : V8Scopeinfo} {sc : JsScope}
    (h : ScopeinfoHas t sip sc) (hfits : ∀ p ∈ sc.vars, p.2.length + 2 + outputSlack < 64)
    (ks : List (V8ScopeinfoVartypeInfo × ℕ × List (ℕ × List UInt8))) (hks : ∀ k ∈ ks, k ∈ sc.kinds t)
    (lines : List ScopeinfoLine) :
    vartypesLoop (doV8scopeinfoVartypePrint t before sip) (ks.map Prod.fst) 0 (some lines) =
      (0, some (lines ++ ks.flatMap fun k => JsScope.kindLines k.1.label k.2.2)) := by
  induction ks generalizing lines with
  | nil => simp [vartypesLoop]
  | cons k ks ih =>
    have hk := hks k List.mem_cons_self
    have hmem : (k.1, (k.2.1 : ℤ)) ∈ scopeVars t sip := by
      rw [h.vars]
      exact List.mem_map_of_mem hk
    -- the first kind is looked up, and its variables are printed
    have hlookup := v8scopeinfoVartypeLookup_eq (List.of_mem_zip hk).1
    have hvars : ∀ p ∈ k.2.2, p ∈ sc.vars := by
      have hzip := (List.of_mem_zip hk).2
      simp only [List.mem_cons, List.not_mem_nil, or_false] at hzip
      unfold JsScope.vars
      intro p hp
      rcases hzip with heq | heq | heq
      all_goals
        rw [heq] at hp
        simp [hp]
    have hprints := (h.kind k hk).prints before hsmis (h.idx k hk) h.len hmem
      (h.sameFieldStart_eq hscopes hne k hk) hlookup (fun p hp => hfits p (hvars p hp)) lines
    rw [List.map_cons, vartypesLoop, hprints]
    dsimp only
    rw [if_neg (by decide), ih (fun k' hk' => hks k' (List.mem_cons_of_mem _ hk')), List.flatMap_cons,
      List.append_assoc]

/-- **`::v8scopeinfo` prints the lines of a scope.** -/
theorem dcmdV8scopeinfo_renders (hsmis : t.cfg.V8Smis) (hscopes : t.cfg.V8Scopes)
    (hne : t.cfg.scopeinfoIdxNparams ≠ t.cfg.scopeinfoIdxNstacklocals) {addr : ℕ} {sc : JsScope}
    (hscope : ScopeinfoAt t addr sc) (hfits : ∀ p ∈ sc.vars, p.2.length + 2 + outputSlack < 64) :
    dcmdV8scopeinfo t before addr = some (.ok, sc.lines) := by
  obtain ⟨sip, hload, hhas⟩ := hscope.load hsmis hscopes
  have hloop := hhas.vartypesLoop_eq before hsmis hscopes hne hfits (sc.kinds t)
    (fun _ hk => hk) []
  have hkinds : (sc.kinds t).map Prod.fst = v8scopeinfoVartypes t := rfl
  have hlines : ((sc.kinds t).flatMap fun k => JsScope.kindLines k.1.label k.2.2) = sc.lines := by
    simp [JsScope.kinds, v8scopeinfoVartypes, JsScope.lines]
  rw [hkinds, List.nil_append, hlines] at hloop
  unfold dcmdV8scopeinfo v8scopeinfoIterVartypes
  rw [hload]
  dsimp only
  rw [hloop]
  rfl

/-- The variables of a kind can be told from their lines. -/
theorem JsScope.kindLines_append_inj {label : String} {vars vars' : List (ℕ × List UInt8)}
    {rest rest' : List ScopeinfoLine} (h : kindLines label vars ++ rest = kindLines label vars' ++ rest') :
    vars = vars' ∧ rest = rest' := by
  unfold kindLines at h
  rw [List.cons_append, List.cons_append, List.cons.injEq] at h
  obtain ⟨hheader, htail⟩ := h
  have hlen : vars.length = vars'.length := by
    injection hheader with hnvars
    exact_mod_cast hnvars
  obtain ⟨hvars, hrest⟩ := List.append_inj htail (by simp [hlen])
  refine ⟨List.ext_getElem? fun i => ?_, hrest⟩
  have hline := congrArg (fun lines => lines[i]?) hvars
  simp only [List.getElem?_map, List.getElem?_zipIdx, Option.map_map] at hline
  refine Option.map_injective (fun p q hpq => ?_) hline
  simp only [Function.comp_apply, varLine, ScopeinfoLine.var.injEq, Option.some.injEq] at hpq
  obtain ⟨-, -, hword, hname⟩ := hpq
  exact Prod.ext hword (List.append_cancel_left (List.append_cancel_right hname))

/-- **A scope can be told from its lines.** -/
theorem JsScope.eq_of_lines_eq {sc sc' : JsScope} (h : sc.lines = sc'.lines) : sc = sc' := by
  unfold lines at h
  rw [List.append_assoc, List.append_assoc] at h
  obtain ⟨hparams, h⟩ := kindLines_append_inj h
  obtain ⟨hlocals, h⟩ := kindLines_append_inj h
  rw [← List.append_nil (kindLines _ sc.contextLocals),
    ← List.append_nil (kindLines _ sc'.contextLocals)] at h
  exact JsScope.ext hparams hlocals (kindLines_append_inj h).1

end Renders

/-! ### A scope with a variable of each kind -/

/-- A ScopeInfo at `0x4101`, with the Maps of a FixedArray and of a string in front of it. -/
def oneEachTarget : Target :=
  .ofWords (.sample .lp64)
    [(0x2110, 0xa3), (0x2210, 0x04),
      -- the ScopeInfo
      (0x4100, 0x2101), (0x4108, 0x700000000), (0x4110, 0), (0x4118, 0x100000000), (0x4120, 0x100000000),
      (0x4128, 0x100000000), (0x4130, 0x5001), (0x4138, 0x5101), (0x4140, 0x5001),
      -- the names
      (0x5000, 0x2201), (0x5008, 0x100000000), (0x5018, 0x61),
      (0x5100, 0x2201), (0x5108, 0x100000000), (0x5118, 0x62)]

theorem oneEachTarget_a : NameAt oneEachTarget 0x5001 [97] :=
  .of_char (by decide) (by decide) ⟨[97], by decide, by decide⟩ (by decide)

theorem oneEachTarget_b : NameAt oneEachTarget 0x5101 [98] :=
  .of_char (by decide) (by decide) ⟨[98], by decide, by decide⟩ (by decide)

/-- The scope. -/
def oneEach : JsScope where
  params := [(0x5001, [97])]
  stackLocals := [(0x5101, [98])]
  contextLocals := [(0x5001, [97])]

/-- A kind with one variable. -/
theorem KindAt.one {elts : Target.HeapArray} {idxCount : ℤ} {start addr : ℕ} {name : List UInt8}
    (hcount : elts.get idxCount.toNat = oneEachTarget.cfg.smiWord 1) (hinside : start < elts.len)
    (hword : elts.get start = addr) (hname : NameAt oneEachTarget addr name) :
    KindAt oneEachTarget elts idxCount start [(addr, name)] where
  bound := List.length_singleton.trans_lt (by decide)
  count := hcount
  inside := hinside
  name i p hp := by
    obtain ⟨hi, rfl⟩ := List.getElem?_eq_some_iff.mp hp
    obtain rfl : i = 0 := by simpa using hi
    exact ⟨hword, hname⟩

theorem scopeinfoAt_oneEach : ScopeinfoAt oneEachTarget 0x4101 oneEach :=
  ⟨⟨7, [0, 0x100000000, 0x100000000, 0x100000000, 0x5001, 0x5101, 0x5001]⟩, by decide +kernel,
    .one (by decide) (by decide) (by decide) oneEachTarget_a,
    .one (by decide) (by decide) (by decide) oneEachTarget_b,
    .one (by decide) (by decide) (by decide) oneEachTarget_a⟩

/-- All of them are listed. -/
theorem dcmdV8scopeinfo_renders_oneEach :
    dcmdV8scopeinfo oneEachTarget (fun _ _ => 0) 0x4101 = some (.ok,
      [.vartype 1 "parameter", .var "parameter" 0 0x5001 (some (bytesOf "\"a\"")),
        .vartype 1 "stack local variable", .var "stack local variable" 0 0x5101 (some (bytesOf "\"b\"")),
        .vartype 1 "context local variable",
        .var "context local variable" 0 0x5001 (some (bytesOf "\"a\""))]) :=
  (dcmdV8scopeinfo_renders _ Config.v8Props_sample.smis Config.v8Scopes_sample (by decide)
    scopeinfoAt_oneEach (by decide)).trans (by decide +kernel)

end MdbV8
