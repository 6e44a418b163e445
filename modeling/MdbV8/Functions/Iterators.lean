import MdbV8.Arrays.JsArray
import MdbV8.Lib.Iterate

/-!
# The iterators of the debugging interface

The functions that call back for the elements of an array, the slots of a context, the kinds of
variables and the variables of a ScopeInfo, and the arguments of a bound function. `DbgIterator` has
them all, with the objects they have been given, and `DbgIterator.iterate` runs one of them.

Each of them does as its callback asks (`Lib.Obeys`), but one: after the loop over the named slots of
a context, `v8contextIterStaticSlots` calls back for one slot more, whether the loop has been stopped
or not (`obeys_iterate_iff`).
-/

namespace MdbV8

open Lib

/-! ### Contexts -/

/-- `v8context_t`. -/
structure V8Context where
  addr : ℕ
  elts : Target.HeapArray
  deriving DecidableEq, Repr

/-- `v8context_load`. -/
def v8contextLoad (t : Target) (addr : ℕ) : Option V8Context :=
  match t.readHeapArray addr with
  | none => none
  | some elts => if elts.len < t.cfg.wrap t.cfg.contextNcommon then none else some { addr, elts }

/-- `v8context_elt`. -/
def v8contextElt (ctxp : V8Context) (i : ℕ) : ℕ := ctxp.elts.get i

/-- An element as a callback gets it. -/
inductive DbgElt where
  | indexed (index value : ℕ)
  | slot (label : String) (value : ℕ)
  | vartype (vartype : ℕ)
  | var (which realidx : ℕ)
  deriving DecidableEq, Repr

section Context

variable (t : Target) {σ : Type*} (func : DbgElt → σ → ℤ × σ)

/-- `v8context_fields`. -/
def v8contextFields : List (String × ℤ) :=
  [("closure function", t.cfg.contextIdxClosure), ("previous context", t.cfg.contextIdxPrev),
    ("extension", t.cfg.contextIdxExt)]

/-- The loop of `v8context_iter_static_slots`, with the value of `rv` before it. -/
def staticSlotsLoop (ctxp : V8Context) : List (String × ℤ) → ℤ → σ → ℤ × σ
  | [], rv, s => (rv, s)
  | (label, idx) :: fields, _, s =>
    let (rv, s) := func (.slot label (v8contextElt ctxp (t.cfg.wrap idx % 2 ^ 32))) s
    if rv ≠ 0 then (rv, s) else staticSlotsLoop ctxp fields rv s

/-- `v8context_iter_static_slots`. -/
def v8contextIterStaticSlots (ctxp : V8Context) (s : σ) : ℤ × σ :=
  let c := t.cfg
  let (_, s) := staticSlotsLoop t func ctxp (v8contextFields t) 0 s
  if c.contextIdxNative ≠ -1 then
    func (.slot "native context" (v8contextElt ctxp (c.wrap c.contextIdxNative % 2 ^ 32))) s
  else func (.slot "global object" (v8contextElt ctxp (c.wrap c.contextIdxGlobal % 2 ^ 32))) s

/-- The loop of `v8context_iter_dynamic_slots`, over as many slots as there are from `i` on. -/
def dynamicSlotsLoop (ctxp : V8Context) (nslots : ℕ) : ℕ → ℕ → ℤ → σ → ℤ × σ
  | 0, _, rv, s => (rv, s)
  | n + 1, i, _, s =>
    let (rv, s) := func (.indexed (i - nslots) (v8contextElt ctxp i)) s
    if rv ≠ 0 then (rv, s) else dynamicSlotsLoop ctxp nslots n (i + 1) rv s

/-- `v8context_iter_dynamic_slots`. Its counter is an `unsigned int`, which counts the slots of a shorter
array (`Asserted.v8contextIterDynamicSlots_eq`). -/
def v8contextIterDynamicSlots (ctxp : V8Context) (s : σ) : ℤ × σ :=
  let nslots := t.cfg.wrap t.cfg.contextNcommon % 2 ^ 32
  dynamicSlotsLoop func ctxp nslots (ctxp.elts.len - nslots) nslots 0 s

end Context

/-! ### ScopeInfos -/

/-- `v8scopeinfo_t`. -/
structure V8Scopeinfo where
  addr : ℕ
  elts : Target.HeapArray
  deriving DecidableEq, Repr

/-- `v8scopeinfo_load`. -/
def v8scopeinfoLoad (t : Target) (addr : ℕ) : Option V8Scopeinfo :=
  let c := t.cfg
  match t.readHeapArray addr with
  | none => none
  | some elts =>
    if elts.len < c.wrap c.scopeinfoIdxFirstVars then none
    else if !c.isSmi (elts.get (c.wrap c.scopeinfoIdxNparams)) ||
        !c.isSmi (elts.get (c.wrap c.scopeinfoIdxNstacklocals)) ||
        !c.isSmi (elts.get (c.wrap c.scopeinfoIdxNcontextlocals)) then none
    else some { addr, elts }

/-- `v8scopeinfo_vartype_info_t`. There is no offset where the source has a null pointer. -/
structure V8ScopeinfoVartypeInfo where
  vartype : ℕ
  label : String
  idxCount : ℤ
  offset : Option ℤ := none
  deriving DecidableEq, Repr

section Scopeinfo

variable (t : Target) {σ : Type*} (func : DbgElt → σ → ℤ × σ)

/-- `v8scopeinfo_vartypes`. The types are `V8SV_PARAMS`, `V8SV_STACKLOCALS` and
`V8SV_CONTEXTLOCALS`. -/
def v8scopeinfoVartypes : List V8ScopeinfoVartypeInfo :=
  [{ vartype := 0, label := "parameter", idxCount := t.cfg.scopeinfoIdxNparams },
    { vartype := 1, label := "stack local variable", idxCount := t.cfg.scopeinfoIdxNstacklocals,
      offset := some t.cfg.scopeinfoOffsetStackLocals },
    { vartype := 2, label := "context local variable",
      idxCount := t.cfg.scopeinfoIdxNcontextlocals }]

/-- The loop of `v8scopeinfo_iter_vartypes`. -/
def vartypesLoop : List V8ScopeinfoVartypeInfo → ℤ → σ → ℤ × σ
  | [], rv, s => (rv, s)
  | vtip :: vtips, _, s =>
    let (rv, s) := func (.vartype vtip.vartype) s
    if rv ≠ 0 then (rv, s) else vartypesLoop vtips rv s

/-- `v8scopeinfo_iter_vartypes`. -/
def v8scopeinfoIterVartypes (_sip : V8Scopeinfo) (s : σ) : ℤ × σ :=
  vartypesLoop func (v8scopeinfoVartypes t) 0 s

/-- `v8scopeinfo_vartype_nvars`, of a kind of variable that has been looked up. -/
def v8scopeinfoVartypeNvars (sip : V8Scopeinfo) (vtip : V8ScopeinfoVartypeInfo) : ℕ :=
  t.cfg.smiValue (sip.elts.get (t.cfg.wrap vtip.idxCount))

/-- The loop of `v8scopeinfo_iter_vars` that finds the variables of a kind in the ScopeInfo. -/
def varsNskip (sip : V8Scopeinfo) (vtip : V8ScopeinfoVartypeInfo) :
    List V8ScopeinfoVartypeInfo → ℕ → ℕ
  | [], nskip => nskip
  | ogrp :: ogrps, nskip =>
    let nskip :=
      match ogrp.offset with
      | none => nskip
      | some offset => if offset ≠ -1 then t.cfg.wrap (nskip + offset) else nskip
    if ogrp.idxCount = vtip.idxCount then nskip
    else varsNskip sip vtip ogrps (t.cfg.wrap (nskip + v8scopeinfoVartypeNvars t sip ogrp))

/-- The loop of `v8scopeinfo_iter_vars` over the variables, of which there are `n` left. -/
def varsLoop (sip : V8Scopeinfo) (nskip : ℕ) : ℕ → ℕ → ℤ → σ → ℤ × σ
  | 0, _, rv, s => (rv, s)
  | n + 1, i, _, s =>
    let idx := t.cfg.wrap (nskip + i)
    if idx ≥ sip.elts.len then (-1, s)
    else
      let (rv, s) := func (.var i idx) s
      if rv ≠ 0 then (rv, s) else varsLoop sip nskip n (i + 1) rv s

/-- `v8scopeinfo_iter_vars`, of a kind of variable that has been looked up. -/
def v8scopeinfoIterVars (sip : V8Scopeinfo) (vtip : V8ScopeinfoVartypeInfo) (s : σ) : ℤ × σ :=
  let nvars := v8scopeinfoVartypeNvars t sip vtip
  let nskip := varsNskip t sip vtip (v8scopeinfoVartypes t) (t.cfg.wrap t.cfg.scopeinfoIdxFirstVars)
  varsLoop t func sip nskip nvars 0 0 s

end Scopeinfo

/-! ### Bound functions -/

/-- `v8boundfunction_t`, with the fields that the arguments are found by. -/
structure V8Boundfunction where
  array : Target.HeapArray
  idxArg0 : ℕ
  /-- `v8boundfunction_load` checks that the array has room for what comes before the arguments
  (`Loading.yields_v8boundfunctionLoad`). -/
  le : idxArg0 ≤ array.len

/-- `v8boundfunction_nargs`. -/
def v8boundfunctionNargs (bfp : V8Boundfunction) : ℕ := bfp.array.len - bfp.idxArg0

section Boundfunction

variable {σ : Type*} (func : DbgElt → σ → ℤ × σ)

/-- The loop of `v8boundfunction_iter_args`, over as many arguments as there are from `elti` on. -/
def argsLoop (bfp : V8Boundfunction) : ℕ → ℕ → ℕ → σ → ℤ × σ
  | 0, _, _, s => (0, s)
  | n + 1, argi, elti, s =>
    let (rv, s) := func (.indexed argi (bfp.array.get elti)) s
    if rv ≠ 0 then (rv, s) else argsLoop bfp n (argi + 1) (elti + 1) s

/-- `v8boundfunction_iter_args`. -/
def v8boundfunctionIterArgs (bfp : V8Boundfunction) (s : σ) : ℤ × σ :=
  argsLoop func bfp (bfp.array.len - bfp.idxArg0) 0 bfp.idxArg0 s

end Boundfunction

/-! ### All of them -/

/-- An iterator with the object that it has been given. -/
inductive DbgIterator where
  | fixedarrayElements (arrayp : V8FixedArray)
  | arrayElements (ap : V8Array)
  | contextStaticSlots (ctxp : V8Context)
  | contextDynamicSlots (ctxp : V8Context)
  | scopeinfoVartypes (sip : V8Scopeinfo)
  | scopeinfoVars (sip : V8Scopeinfo) (vtip : V8ScopeinfoVartypeInfo)
  | boundfunctionArgs (bfp : V8Boundfunction)

namespace DbgIterator

variable (t : Target) {σ : Type*}

/-- Running an iterator. -/
def iterate (func : DbgElt → σ → ℤ × σ) : DbgIterator → σ → ℤ × σ
  | fixedarrayElements arrayp, s =>
    v8fixedarrayIterElements t arrayp (fun index value => func (.indexed index value)) s
  | arrayElements ap, s => v8arrayIterElements t ap (fun index value => func (.indexed index value)) s
  | contextStaticSlots ctxp, s => v8contextIterStaticSlots t func ctxp s
  | contextDynamicSlots ctxp, s => v8contextIterDynamicSlots t func ctxp s
  | scopeinfoVartypes sip, s => v8scopeinfoIterVartypes t func sip s
  | scopeinfoVars sip vtip, s => v8scopeinfoIterVars t func sip vtip s
  | boundfunctionArgs bfp, s => v8boundfunctionIterArgs func bfp s

/-- The number of elements that there are to be delivered. -/
def total : DbgIterator → ℕ
  | fixedarrayElements arrayp => v8fixedarrayLength arrayp
  | arrayElements ap => v8arrayLength ap
  | contextStaticSlots _ => 4
  | contextDynamicSlots ctxp => ctxp.elts.len - t.cfg.wrap t.cfg.contextNcommon % 2 ^ 32
  | scopeinfoVartypes _ => 3
  | scopeinfoVars sip vtip => v8scopeinfoVartypeNvars t sip vtip
  | boundfunctionArgs bfp => v8boundfunctionNargs bfp

/-- The callback goes on at each of the named slots. -/
def GoesOn (func : DbgElt → σ → ℤ × σ) (s : σ) : DbgIterator → Prop
  | contextStaticSlots ctxp =>
    (runUntil func 0 ((v8contextFields t).map fun f =>
      .slot f.1 (v8contextElt ctxp (t.cfg.wrap f.2 % 2 ^ 32))) s).1 = 0
  | _ => True

end DbgIterator

/-! ### What each of them does -/

section Runs

variable {t : Target} {σ : Type*}

/-- The words of an array as a callback gets them, from an index on. -/
def indexedElts (index : ℕ) (values : List ℕ) : List DbgElt :=
  (values.zipIdx index).map fun p => .indexed p.2 p.1

theorem visitWhile_eq_runUntil (func : DbgElt → σ → ℤ × σ) (index : ℕ) (values : List ℕ) (s : σ) :
    visitWhile (fun index value => func (.indexed index value)) index values s =
      runUntil func 0 (indexedElts index values) s := by
  induction values generalizing index s with
  | nil => rfl
  | cons value values ih =>
    rw [visitWhile, indexedElts, List.zipIdx_cons, List.map_cons, runUntil]
    dsimp only
    rw [ih, indexedElts]

theorem afterWords_runUntil (func : DbgElt → σ → ℤ × σ) (ok : Bool) (xs : List DbgElt) (s : σ) :
    afterWords ok (runUntil func 0 xs s) = runUntil func (if ok then 0 else -1) xs s := by
  conv_rhs => rw [← List.append_nil xs, runUntil_append, runUntil]
  by_cases h : (runUntil func 0 xs s).1 ≠ 0
  · rw [afterWords_of_ne h, if_pos h]
  · rw [afterWords, if_neg h, if_neg h]

theorem isRunUntil_fixedarrayElements (arrayp : V8FixedArray) :
    IsRunUntil (fun (func : DbgElt → σ → ℤ × σ) => v8fixedarrayIterElements t arrayp
      fun index value => func (.indexed index value)) (v8fixedarrayLength arrayp) := by
  refine ⟨if (fixedarrayWords t arrayp).2 then 0 else -1,
    indexedElts 0 (fixedarrayWords t arrayp).1, fun hend => ?_, fun func s => ?_⟩
  · -- a page could not be read
    rw [indexedElts, List.length_map, List.length_zipIdx]
    refine length_fixedarrayWords_lt ?_
    cases hok : (fixedarrayWords t arrayp).2 with
    | false => rfl
    | true => exact absurd (if_pos hok) hend
  · dsimp only
    rw [v8fixedarrayIterElements_pages, visitWhile_eq_runUntil, afterWords_runUntil]

theorem isRunUntil_arrayElements (ap : V8Array) :
    IsRunUntil (fun (func : DbgElt → σ → ℤ × σ) => v8arrayIterElements t ap fun index value =>
      func (.indexed index value)) (v8arrayLength ap) := by
  refine ⟨0, indexedElts 0 (arrayWords t ap), fun hend => absurd rfl hend, fun func s => ?_⟩
  dsimp only
  rw [v8arrayIterElements_eq_visitWhile, visitWhile_eq_runUntil]

/-- The named slots of a context, as a callback gets them. -/
def staticSlots (t : Target) (ctxp : V8Context) : List DbgElt :=
  (v8contextFields t).map fun f => .slot f.1 (v8contextElt ctxp (t.cfg.wrap f.2 % 2 ^ 32))

theorem staticSlotsLoop_eq (func : DbgElt → σ → ℤ × σ) (ctxp : V8Context)
    (fields : List (String × ℤ)) (s : σ) :
    staticSlotsLoop t func ctxp fields 0 s = runUntil func 0 (fields.map fun f =>
      .slot f.1 (v8contextElt ctxp (t.cfg.wrap f.2 % 2 ^ 32))) s := by
  induction fields generalizing s with
  | nil => rfl
  | cons f fields ih =>
    obtain ⟨label, idx⟩ := f
    rw [staticSlotsLoop, List.map_cons, runUntil]
    dsimp only
    split
    · rfl
    · next h => rw [not_not.mp h, ih]

/-- The slot that there is another call for in any case. -/
def lastStaticSlot (t : Target) (ctxp : V8Context) : DbgElt :=
  if t.cfg.contextIdxNative ≠ -1 then
    .slot "native context" (v8contextElt ctxp (t.cfg.wrap t.cfg.contextIdxNative % 2 ^ 32))
  else .slot "global object" (v8contextElt ctxp (t.cfg.wrap t.cfg.contextIdxGlobal % 2 ^ 32))

/-- The call for the last slot comes after the loop, however that has ended. -/
theorem v8contextIterStaticSlots_eq (func : DbgElt → σ → ℤ × σ) (ctxp : V8Context) (s : σ) :
    v8contextIterStaticSlots t func ctxp s =
      func (lastStaticSlot t ctxp) (runUntil func 0 (staticSlots t ctxp) s).2 := by
  unfold v8contextIterStaticSlots lastStaticSlot
  dsimp only
  rw [staticSlotsLoop_eq]
  split <;> rfl

theorem dynamicSlotsLoop_eq (func : DbgElt → σ → ℤ × σ) (ctxp : V8Context) (nslots n i : ℕ) (s : σ) :
    dynamicSlotsLoop func ctxp nslots n i 0 s = runUntil func 0 ((List.range' i n).map fun i =>
      .indexed (i - nslots) (v8contextElt ctxp i)) s := by
  induction n generalizing i s with
  | zero => rfl
  | succ n ih =>
    rw [dynamicSlotsLoop, List.range'_succ, List.map_cons, runUntil]
    dsimp only
    split
    · rfl
    · next h => rw [not_not.mp h, ih]

theorem vartypesLoop_eq (func : DbgElt → σ → ℤ × σ) (vtips : List V8ScopeinfoVartypeInfo) (s : σ) :
    vartypesLoop func vtips 0 s =
      runUntil func 0 (vtips.map fun vtip => .vartype vtip.vartype) s := by
  induction vtips generalizing s with
  | nil => rfl
  | cons vtip vtips ih =>
    rw [vartypesLoop, List.map_cons, runUntil]
    dsimp only
    split
    · rfl
    · next h => rw [not_not.mp h, ih]

/-- The loop over the variables ends where the ScopeInfo does, if that is too short. -/
theorem isRunUntil_varsLoop (sip : V8Scopeinfo) (nskip n i : ℕ) :
    IsRunUntil (fun (func : DbgElt → σ → ℤ × σ) => varsLoop t func sip nskip n i 0) n := by
  induction n generalizing i with
  | zero => exact ⟨0, [], fun hend => absurd rfl hend, fun _ _ => rfl⟩
  | succ n ih =>
    by_cases hshort : t.cfg.wrap (nskip + i) ≥ sip.elts.len
    · refine ⟨-1, [], fun _ => n.succ_pos, fun func s => ?_⟩
      simp only [varsLoop]
      exact if_pos hshort
    · obtain ⟨atEnd, xs, hend, heq⟩ := ih (i + 1)
      refine ⟨atEnd, .var i (t.cfg.wrap (nskip + i)) :: xs, fun h => ?_, fun func s => ?_⟩
      · exact Nat.succ_lt_succ (hend h)
      · simp only [varsLoop, runUntil]
        rw [if_neg hshort]
        split
        · rfl
        · next h =>
          rw [not_not.mp h]
          exact heq func _

theorem argsLoop_eq (func : DbgElt → σ → ℤ × σ) (bfp : V8Boundfunction) (n argi elti : ℕ) (s : σ) :
    argsLoop func bfp n argi elti s = runUntil func 0 ((List.range n).map fun i =>
      .indexed (argi + i) (bfp.array.get (elti + i))) s := by
  induction n generalizing argi elti s with
  | zero => rfl
  | succ n ih =>
    rw [argsLoop, List.range_succ_eq_map, List.map_cons, List.map_map, runUntil]
    dsimp only
    rw [ih]
    simp only [Function.comp_def, Nat.succ_eq_add_one, Nat.add_assoc, Nat.add_comm 1, Nat.add_zero]

/-- All the iterators but that of the named slots do as they are asked. -/
theorem isRunUntil_iterate (it : DbgIterator) (hit : ∀ ctxp, it ≠ .contextStaticSlots ctxp) :
    IsRunUntil (fun (func : DbgElt → σ → ℤ × σ) => it.iterate t func) (it.total t) := by
  cases it with
  | fixedarrayElements arrayp => exact isRunUntil_fixedarrayElements arrayp
  | arrayElements ap => exact isRunUntil_arrayElements ap
  | contextStaticSlots ctxp => exact absurd rfl (hit ctxp)
  | contextDynamicSlots ctxp =>
    exact ⟨0, _, fun h => absurd rfl h, fun func s => dynamicSlotsLoop_eq func ctxp _ _ _ s⟩
  | scopeinfoVartypes sip =>
    exact ⟨0, _, fun h => absurd rfl h, fun func s => vartypesLoop_eq func _ s⟩
  | scopeinfoVars sip vtip => exact isRunUntil_varsLoop sip _ _ 0
  | boundfunctionArgs bfp =>
    exact ⟨0, _, fun h => absurd rfl h, fun func s => argsLoop_eq func bfp _ _ _ s⟩

end Runs

/-- **The contract of the iterators**: an iterator does as its callback asks, unless it is the one of
the named slots of a context and the callback stops it in the loop. -/
theorem obeys_iterate_iff (t : Target) {σ : Type*} (func : DbgElt → σ → ℤ × σ) (it : DbgIterator)
    (s : σ) :
    let r := it.iterate t (logged func) (s, [])
    Obeys (it.total t) r.1 r.2.2 ↔ it.GoesOn t func s := by
  intro r
  unfold r
  by_cases hit : ∀ ctxp, it ≠ .contextStaticSlots ctxp
  · -- nothing is asked of the callback
    have hgoes : it.GoesOn t func s := by
      cases it with
      | contextStaticSlots ctxp => exact absurd rfl (hit ctxp)
      | _ => trivial
    exact iff_of_true ((isRunUntil_iterate it hit).obeys func s) hgoes
  · push Not at hit
    obtain ⟨ctxp, rfl⟩ := hit
    have hgoes : (DbgIterator.contextStaticSlots ctxp).GoesOn t func s ↔
        (runUntil (logged func) 0 (staticSlots t ctxp) (s, [])).1 = 0 := by
      rw [runUntil_logged_fst]
      rfl
    have hrun : (DbgIterator.contextStaticSlots ctxp).iterate t (logged func) (s, []) =
        logged func (lastStaticSlot t ctxp)
          (runUntil (logged func) 0 (staticSlots t ctxp) (s, [])).2 := by
      rw [DbgIterator.iterate]
      exact v8contextIterStaticSlots_eq (logged func) ctxp (s, [])
    rw [hgoes, hrun]
    constructor
    · -- a call follows the one that has stopped the loop
      intro hobeys
      rcases runUntil_logged func 0 (staticSlots t ctxp) s [] (by simp) with
        ⟨rs, rv, hrv, -, hlog, -⟩ | ⟨-, -, hend⟩
      · refine absurd (hobeys.stops rv ?_) hrv
        simp only [logged, hlog, List.dropLast_concat, List.mem_append, List.mem_singleton, or_true]
      · exact hend
    · -- the last slot is one slot more
      intro hend
      have hall : logged func (lastStaticSlot t ctxp)
            (runUntil (logged func) 0 (staticSlots t ctxp) (s, [])).2 =
          runUntil (logged func) 0 (staticSlots t ctxp ++ [lastStaticSlot t ctxp]) (s, []) := by
        rw [runUntil_append, if_neg (not_not.mpr hend), runUntil_singleton]
      rw [hall]
      exact obeys_runUntil func (fun h => absurd rfl h) s

/-- A callback that stops at the first slot of a context is called for another one. -/
theorem not_obeys_staticSlots :
    let t : Target := .ofWords (.sample .lp64) []
    let it := DbgIterator.contextStaticSlots ⟨0x1001, ⟨8, [0, 1, 2, 3, 4, 5, 6, 7]⟩⟩
    let func := fun (_ : DbgElt) (_ : Unit) => ((-1 : ℤ), ())
    let r := it.iterate t (logged func) ((), [])
    r.2.2 = [-1, -1] ∧ ¬ Obeys (it.total t) r.1 r.2.2 := by
  refine ⟨by decide, fun h => ?_⟩
  exact absurd (h.stops (-1) (by decide)) (by decide)

end MdbV8
