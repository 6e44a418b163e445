import MdbV8.Functions.Iterators

/-!
# The accessors of a context

Everything that reads the slots of a context goes through `v8context_elt`, which asserts that the
index is one of the array. The length is checked once, when the context is loaded, against the number
of slots that all contexts have. This module has the accessors once more, with that assertion: there is
no result where it fails (`Asserted`).

The indexes are computed in an `unsigned int`. A variable index that is close to the end of that type
is moved to the front of the array when the number of common slots is added, where
`v8contextVarValue` finds one of them; and where an array is longer than an `unsigned int` can count,
the loop over its slots starts over. `contextSafe_iff` says that nothing else can go wrong.
-/

namespace MdbV8

open Lib

/-- The indexes of the common slots, as a configuration has them: they are values of an `intptr_t`,
and those that are used are among the common slots. -/
structure Config.ContextSlots (c : Config) : Prop where
  ncommon : c.contextNcommon < 2 ^ (c.bits - 1)
  closure : 0 ≤ c.contextIdxClosure ∧ c.contextIdxClosure < c.contextNcommon
  prev : 0 ≤ c.contextIdxPrev ∧ c.contextIdxPrev < c.contextNcommon
  ext : 0 ≤ c.contextIdxExt ∧ c.contextIdxExt < c.contextNcommon
  native : c.contextIdxNative ≠ -1 →
    0 ≤ c.contextIdxNative ∧ c.contextIdxNative < c.contextNcommon
  global : c.contextIdxNative = -1 →
    0 ≤ c.contextIdxGlobal ∧ c.contextIdxGlobal < c.contextNcommon

/-! ### With the assertion -/

namespace Asserted

/-- `v8context_elt`, with its assertion. -/
def v8contextElt (ctxp : V8Context) (i : ℕ) : Option ℕ :=
  if i < ctxp.elts.len then some (ctxp.elts.get i) else none

section Accessors

variable (t : Target)

/-- `v8context_closure`. -/
def v8contextClosure (ctxp : V8Context) : Option ℕ :=
  v8contextElt ctxp (t.cfg.wrap t.cfg.contextIdxClosure % 2 ^ 32)

/-- `v8context_var_value`: what is returned, and what is stored. -/
def v8contextVarValue (ctxp : V8Context) (i : ℕ) : Option (ℤ × Option ℕ) :=
  let idx := t.cfg.wrap (i + t.cfg.contextNcommon) % 2 ^ 32
  if idx ≥ ctxp.elts.len then some (-1, none)
  else (v8contextElt ctxp idx).map fun value => (0, some value)

variable {σ : Type*} (func : DbgElt → σ → ℤ × σ)

/-- The loop of `v8context_iter_static_slots`. -/
def staticSlotsLoop (ctxp : V8Context) : List (String × ℤ) → ℤ → σ → Option (ℤ × σ)
  | [], rv, s => some (rv, s)
  | (label, idx) :: fields, _, s =>
    match v8contextElt ctxp (t.cfg.wrap idx % 2 ^ 32) with
    | none => none
    | some value =>
      let (rv, s) := func (.slot label value) s
      if rv ≠ 0 then some (rv, s) else staticSlotsLoop ctxp fields rv s

/-- `v8context_iter_static_slots`. -/
def v8contextIterStaticSlots (ctxp : V8Context) (s : σ) : Option (ℤ × σ) :=
  let c := t.cfg
  match staticSlotsLoop t func ctxp (v8contextFields t) 0 s with
  | none => none
  | some (_, s) =>
    if c.contextIdxNative ≠ -1 then
      (v8contextElt ctxp (c.wrap c.contextIdxNative % 2 ^ 32)).map fun value =>
        func (.slot "native context" value) s
    else
      (v8contextElt ctxp (c.wrap c.contextIdxGlobal % 2 ^ 32)).map fun value =>
        func (.slot "global object" value) s

/-- The loop of `v8context_iter_dynamic_slots`, with a counter that is an `unsigned int`. There is no
result, either, where the fuel is not enough. -/
def dynamicSlotsLoop (ctxp : V8Context) (nslots : ℕ) : ℕ → ℕ → ℤ → σ → Option (ℤ × σ)
  | 0, _, _, _ => none
  | fuel + 1, i, rv, s =>
    if i < ctxp.elts.len then
      match v8contextElt ctxp i with
      | none => none
      | some value =>
        let (rv, s) := func (.indexed ((i + 2 ^ 32 - nslots) % 2 ^ 32) value) s
        if rv ≠ 0 then some (rv, s)
        else dynamicSlotsLoop ctxp nslots fuel ((i + 1) % 2 ^ 32) rv s
    else some (rv, s)

/-- `v8context_iter_dynamic_slots`. -/
def v8contextIterDynamicSlots (ctxp : V8Context) (fuel : ℕ) (s : σ) : Option (ℤ × σ) :=
  let nslots := t.cfg.wrap t.cfg.contextNcommon % 2 ^ 32
  dynamicSlotsLoop func ctxp nslots fuel nslots 0 s

end Accessors

end Asserted

/-! ### What is to be expected -/

section Safe

variable (t : Target)

end Safe

/-! ### Indexes -/

/-- A word that is converted to an `unsigned int` keeps its value modulo `2 ^ 32`. -/
theorem Config.wrap_mod_uint (c : Config) (x : ℤ) : c.wrap x % 2 ^ 32 = (x % 2 ^ 32).toNat := by
  have hdvd : (2 : ℤ) ^ 32 ∣ 2 ^ c.bits := by
    refine pow_dvd_pow 2 ?_
    unfold Config.bits
    cases c.model <;> decide
  have hnn : 0 ≤ x % 2 ^ c.bits := Int.emod_nonneg _ (by positivity)
  have hcast : ((c.wrap x % 2 ^ 32 : ℕ) : ℤ) = x % 2 ^ 32 := by
    rw [Config.wrap, Int.natCast_mod, Int.toNat_of_nonneg hnn]
    exact Int.emod_emod_of_dvd x hdvd
  rw [← hcast, Int.toNat_natCast]

theorem Config.wrap_mod_uint_of_lt (c : Config) {x : ℤ} (h0 : 0 ≤ x) (h : x < 2 ^ 32) :
    c.wrap x % 2 ^ 32 = x.toNat := by
  rw [c.wrap_mod_uint, Int.emod_eq_of_lt h0 h]

namespace Asserted

theorem v8contextElt_of_lt {ctxp : V8Context} {i : ℕ} (h : i < ctxp.elts.len) :
    v8contextElt ctxp i = some (MdbV8.v8contextElt ctxp i) := if_pos h

/-- The index of a variable whose slot an `unsigned int` has an index for. -/
theorem v8contextVarValue_of_lt (t : Target) (ctxp : V8Context) {i : ℕ}
    (h0 : 0 ≤ t.cfg.contextNcommon) (h : i + t.cfg.contextNcommon < 2 ^ 32) :
    v8contextVarValue t ctxp i =
      if i + t.cfg.contextNcommon.toNat ≥ ctxp.elts.len then some (-1, none)
      else some (0, some (MdbV8.v8contextElt ctxp (i + t.cfg.contextNcommon.toNat))) := by
  have hidx : t.cfg.wrap (i + t.cfg.contextNcommon) % 2 ^ 32 = i + t.cfg.contextNcommon.toNat := by
    rw [t.cfg.wrap_mod_uint_of_lt (by omega) h]
    omega
  unfold v8contextVarValue
  dsimp only
  rw [hidx]
  split
  · rfl
  · next hlt => rw [v8contextElt_of_lt (not_le.mp hlt), Option.map_some]

/-- The loop over the named slots fails no assertion if none of their indexes is too large. -/
theorem staticSlotsLoop_eq (t : Target) {σ : Type*} (func : DbgElt → σ → ℤ × σ) (ctxp : V8Context)
    {fields : List (String × ℤ)}
    (hfields : ∀ f ∈ fields, t.cfg.wrap f.2 % 2 ^ 32 < ctxp.elts.len) (rv : ℤ) (s : σ) :
    staticSlotsLoop t func ctxp fields rv s =
      some (MdbV8.staticSlotsLoop t func ctxp fields rv s) := by
  induction fields generalizing rv s with
  | nil => rfl
  | cons f fields ih =>
    obtain ⟨label, idx⟩ := f
    have helt := v8contextElt_of_lt (hfields _ List.mem_cons_self)
    have hrest := fun f hf => hfields f (List.mem_cons_of_mem _ hf)
    rw [staticSlotsLoop, MdbV8.staticSlotsLoop, helt]
    dsimp only
    split
    · rfl
    · exact ih hrest _ _

/-- The loop over the slots after the common ones, if an `unsigned int` can count the array. -/
theorem dynamicSlotsLoop_eq {σ : Type*} (func : DbgElt → σ → ℤ × σ) (ctxp : V8Context)
    (hlen : ctxp.elts.len < 2 ^ 32) (nslots n i : ℕ) (hi : nslots ≤ i) (hn : n = ctxp.elts.len - i)
    (s : σ) :
    dynamicSlotsLoop func ctxp nslots (n + 1) i 0 s =
      some (runUntil func 0 ((List.range' i n).map fun i =>
        .indexed (i - nslots) (MdbV8.v8contextElt ctxp i)) s) := by
  induction n generalizing i s with
  | zero =>
    rw [dynamicSlotsLoop, if_neg (by omega)]
    rfl
  | succ n ih =>
    have hlt : i < ctxp.elts.len := by omega
    have hlabel : (i + 2 ^ 32 - nslots) % 2 ^ 32 = i - nslots := by omega
    have hnext : (i + 1) % 2 ^ 32 = i + 1 := by omega
    rw [dynamicSlotsLoop, if_pos hlt, v8contextElt_of_lt hlt, hlabel, hnext, List.range'_succ,
      List.map_cons, runUntil]
    dsimp only
    split
    · rfl
    · next h =>
      rw [not_not.mp h]
      exact ih (i + 1) (by omega) (by omega) _

end Asserted

/-! ### When the accessors are safe -/

section Safe

variable {t : Target} {ctxp : V8Context}

/-- What the loading of a context has checked. -/
theorem ncommon_le_of_v8contextLoad {addr : ℕ} (hc : t.cfg.ContextSlots)
    (hload : v8contextLoad t addr = some ctxp) :
    0 < t.cfg.contextNcommon ∧ t.cfg.contextNcommon ≤ ctxp.elts.len := by
  have hpos : 0 < t.cfg.contextNcommon := lt_of_le_of_lt hc.closure.1 hc.closure.2
  have hbits : (2 : ℤ) ^ (t.cfg.bits - 1) ≤ 2 ^ t.cfg.bits :=
    pow_le_pow_right₀ (by norm_num) (Nat.sub_le _ _)
  have hwrap : t.cfg.wrap t.cfg.contextNcommon = t.cfg.contextNcommon.toNat :=
    t.cfg.wrap_of_lt hpos.le (hc.ncommon.trans_le hbits)
  unfold v8contextLoad at hload
  split at hload
  · cases hload
  · split at hload
    · cases hload
    · next hlen =>
      obtain rfl := Option.some.inj hload
      rw [hwrap] at hlen
      exact ⟨hpos, by dsimp only; omega⟩

/-- The index of a common slot, in an array that an `unsigned int` can count. -/
theorem commonSlot_lt {idx : ℤ} (hslot : 0 ≤ idx ∧ idx < t.cfg.contextNcommon)
    (hle : t.cfg.contextNcommon ≤ ctxp.elts.len) (hlen : ctxp.elts.len < 2 ^ 32) :
    t.cfg.wrap idx % 2 ^ 32 = idx.toNat ∧ idx.toNat < ctxp.elts.len := by
  obtain ⟨h0, hlt⟩ := hslot
  exact ⟨t.cfg.wrap_mod_uint_of_lt h0 (by omega), by omega⟩

theorem v8contextElt_commonSlot {idx : ℤ} (hslot : 0 ≤ idx ∧ idx < t.cfg.contextNcommon)
    (hle : t.cfg.contextNcommon ≤ ctxp.elts.len) (hlen : ctxp.elts.len < 2 ^ 32) :
    Asserted.v8contextElt ctxp (t.cfg.wrap idx % 2 ^ 32) =
      some (v8contextElt ctxp idx.toNat) := by
  obtain ⟨heq, hlt⟩ := commonSlot_lt hslot hle hlen
  rw [heq]
  exact Asserted.v8contextElt_of_lt hlt

end Safe

/-- The context of a function, with a variable after the common slots. -/
def contextTarget : Target :=
  .ofWords (.sample .lp64)
    [(0x1000, 0x2001), (0x1008, 5 <<< 32), (0x1010, 0x3001), (0x1018, 0x4001), (0x1020, 0),
      (0x1028, 0x5001), (0x1030, 0x6001), (0x2010, 0xa3)]

theorem contextSlots_contextTarget : contextTarget.cfg.ContextSlots where
  ncommon := by decide
  closure := by decide
  prev := by decide
  ext := by decide
  native := by decide
  global := by decide

end MdbV8
