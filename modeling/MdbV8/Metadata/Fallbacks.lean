import MdbV8.Metadata.Constants

/-!
# Fallbacks

What an entry of the two tables declares is the macro that it is written with: that it is optional, since
when it has been removed or added, or which value it has from some version on where it is not in the
metadata (`Declared`). Its variable is to have the value of the metadata, or else the fallback, or else
`-1`, and the entry is a failure if it is missing where it should be there.

Three things are different. A constant that is a failure keeps the value it has had. And two of the
offsets, the two names of the identifier of a function, have their flags in the place of `v8o_optional`:
there they only say that the entry is optional, so that the fallback of the one is not used, and the
absence of the other is not counted. `fallbacksApplied_iff` says that this is all.
-/

namespace MdbV8

/-! ### What is declared -/

/-- A version is older than another one. -/
def VersionOlder (v w : ℕ × ℕ) : Prop := v.1 < w.1 ∨ (v.1 = w.1 ∧ v.2 < w.2)

instance (v w : ℕ × ℕ) : Decidable (VersionOlder v w) :=
  inferInstanceAs (Decidable (v.1 < w.1 ∨ (v.1 = w.1 ∧ v.2 < w.2)))

/-- What an entry declares. -/
structure Declared where
  optional : Bool
  removedSince : Option (ℕ × ℕ)
  addedSince : Option (ℕ × ℕ)
  fallback : Option ((ℕ × ℕ) × ℤ)
  deriving DecidableEq, Repr

namespace Declared

variable (d : Declared) (version : ℕ × ℕ)

/-- The value of the variable of an entry: that of the metadata, or else the fallback, if the version is
at least the one that it is declared for, or else `-1`. -/
def value : Option ℤ → ℤ
  | some val => val
  | none =>
    match d.fallback with
    | none => -1
    | some (since, val) => if VersionOlder version since then -1 else val

/-- A missing entry is a failure: it is not optional, not yet removed in the version, and not added only
after it. -/
def Fails : Prop :=
  d.optional = false ∧ (∀ since, d.removedSince = some since → VersionOlder version since) ∧
    ∀ since, d.addedSince = some since → ¬ VersionOlder version since

end Declared

/-- What flags declare. -/
def declaredBy (flags : ℕ) (fallback : ℤ) : Declared where
  optional := flagSet flags v8ConstantOptional
  removedSince :=
    if flagSet flags v8ConstantRemoved then some (v8ConstantMajor flags, v8ConstantMinor flags) else none
  addedSince :=
    if flagSet flags v8ConstantAdded then some (v8ConstantMajor flags, v8ConstantMinor flags) else none
  fallback :=
    if flagSet flags v8ConstantHasfallback then
      some ((v8ConstantMajor flags, v8ConstantMinor flags), fallback)
    else none

/-- What the entry of a constant declares. -/
def V8Constant.declared (cnp : V8Constant) : Declared := declaredBy cnp.flags cnp.fallback

/-- What the entry of an offset declares: a truth value and flags, or only flags, where these are in the
place of the truth value. -/
def V8Offset.declared (offp : V8Offset) : Declared :=
  if offp.optional ≤ 1 then
    { declaredBy offp.flags offp.fallback with
      optional := offp.optional = 1 || flagSet offp.flags v8ConstantOptional }
  else declaredBy offp.optional offp.flags

/-- The offset of the field of an entry in its class: that of the field, or for a `FixedArray` that of
the field of its base class. -/
def offsetFound (classes : List ConfClass) (offp : V8Offset) : Option ℤ :=
  match confFieldLookup classes offp.klass offp.member with
  | some flp => some flp.offset
  | none =>
    if offp.klass = "FixedArray".toList then
      (confFieldLookup classes "FixedArrayBase".toList offp.member).map ConfField.offset
    else none

/-- The variables for which there are two entries, the one that is used first. -/
def alternatives : List (V8Var × V8Var) :=
  [(.offSeqasciistrChars, .offSeqonebytestrChars),
    (.offMapConstructor, .offMapConstructorOrBackpointer),
    (.offMapInobjectProperties, .offMapInobjectPropertiesOrCtorFunIndex),
    (.offJsobjectProperties, .offJsreceiverProperties),
    (.offFpContextOrFrameType, .offFpMarker),
    (.offSharedfunctioninfoIdentifier, .offSharedfunctioninfoInferredName)]

/-- A variable has the value of the one of two entries that is there, or of one of them if both are. -/
structure TakesAvailable (a b val : ℤ) : Prop where
  left : a ≠ -1 → b = -1 → val = a
  right : a = -1 → b ≠ -1 → val = b
  either : val = a ∨ val = b

/-! ### The property -/

section Fallbacks

variable (st : V8State) (readsym : Readsym) (types : List V8Enum)

/-- The version that the entries are for. -/
def V8State.version : ℕ × ℕ := (st.conf.v8Major, st.conf.v8Minor)

/-- **The fallbacks are applied as they are declared**: every variable of the tables has the value of the
metadata, the fallback or `-1` before some of them are replaced, every entry is counted if it is missing
and should not be, and of two alternative entries the one that is there is used. -/
structure FallbacksApplied : Prop where
  constants : ∀ e ∈ v8Constants st.conf.model,
    (st.loops readsym types).1 e.valp = e.declared.value st.version (readsym e.symbol)
  offsets : ∀ e ∈ v8Offsets st.conf.model,
    (st.loops readsym types).1 e.valp = e.declared.value st.version
      ((offsetFound st.conf.classes e).map (· - (st.loops readsym types).1 .heapObjectTag))
  constantsCounted : ∀ e ∈ v8Constants st.conf.model, ∀ r,
    (constantStep readsym st.conf.v8Major st.conf.v8Minor r e).2 = r.2 + 1 ↔
      readsym e.symbol = none ∧ e.declared.Fails st.version
  offsetsCounted : ∀ e ∈ v8Offsets st.conf.model, ∀ r,
    (offsetStep st.conf.classes st.conf.v8Major st.conf.v8Minor r e).2 = r.2 + 1 ↔
      offsetFound st.conf.classes e = none ∧ e.declared.Fails st.version
  substituted : ∀ p ∈ alternatives,
    TakesAvailable ((st.loops readsym types).1 p.1) ((st.loops readsym types).1 p.2)
      ((st.configureVars readsym types).1 p.1)

/-- The condition: a constant that is a failure has been `-1` before, and of the two fields for the
identifier of a function the one is there that belongs to the version. -/
structure FallbacksFit : Prop where
  constants : ∀ e ∈ v8Constants st.conf.model, readsym e.symbol = none →
    e.declared.Fails st.version → st.vars e.valp = -1
  identifier : ¬ VersionOlder st.version (5, 1) →
    confFieldLookup st.conf.classes "SharedFunctionInfo".toList "function_identifier".toList ≠ none
  inferredName : VersionOlder st.version (5, 1) →
    confFieldLookup st.conf.classes "SharedFunctionInfo".toList "inferred_name".toList ≠ none

end Fallbacks

/-! ### Loops over entries with different variables -/

section Loops

variable {E S : Type*} {key : E → V8Var} {get : S → V8Vars} {step : S → E → S}
  (hframe : ∀ s e v, v ≠ key e → get (step s e) v = get s v)

include hframe

/-- A loop leaves the variables that none of its entries is about. -/
theorem foldl_of_notMem {es : List E} {v : V8Var} (hv : v ∉ es.map key) (s : S) :
    get (es.foldl step s) v = get s v := by
  induction es generalizing s with
  | nil => rfl
  | cons e es ih =>
    rw [List.map_cons, List.mem_cons, not_or] at hv
    rw [List.foldl_cons, ih hv.2, hframe s e v hv.1]

/-- **The variable of an entry** is set when it is the turn of the entry; up to there, it and the
variables that no entry is about are as they have been. -/
theorem foldl_of_mem {es : List E} (hnodup : (es.map key).Nodup) {e : E} (he : e ∈ es) (s : S) :
    ∃ s', get (es.foldl step s) (key e) = get (step s' e) (key e) ∧ get s' (key e) = get s (key e) ∧
      ∀ v, v ∉ es.map key → get s' v = get s v := by
  induction es generalizing s with
  | nil => exact absurd he List.not_mem_nil
  | cons f es ih =>
    rw [List.map_cons, List.nodup_cons] at hnodup
    rw [List.foldl_cons]
    rcases List.mem_cons.mp he with rfl | hmem
    · exact ⟨s, foldl_of_notMem hframe hnodup.1 _, rfl, fun _ _ => rfl⟩
    · obtain ⟨s', hfold, hkey, hother⟩ := ih hnodup.2 hmem (step s f)
      have hne : key e ≠ key f := fun heq => hnodup.1 (heq ▸ List.mem_map_of_mem hmem)
      refine ⟨s', hfold, hkey.trans (hframe s f _ hne), fun v hv => ?_⟩
      rw [List.map_cons, List.mem_cons, not_or] at hv
      exact (hother v hv.2).trans (hframe s f v hv.1)

end Loops

/-! ### The flags -/

section Flags

variable {major minor flags : ℕ} {fallback : ℤ}

theorem v8VersionOlder_iff :
    v8VersionOlder major minor flags = true ↔
      VersionOlder (major, minor) (v8ConstantMajor flags, v8ConstantMinor flags) := by
  simp [v8VersionOlder, VersionOlder]

theorem v8VersionAtLeast_iff :
    v8VersionAtLeast major minor flags = true ↔
      ¬ VersionOlder (major, minor) (v8ConstantMajor flags, v8ConstantMinor flags) := by
  simp only [v8VersionAtLeast, VersionOlder, Bool.or_eq_true, Bool.and_eq_true, decide_eq_true_eq,
    beq_iff_eq]
  omega

/-- What is counted is what is declared to be a failure. -/
theorem missingFails_iff :
    missingFails major minor flags = true ↔ (declaredBy flags fallback).Fails (major, minor) := by
  simp only [missingFails, Declared.Fails, declaredBy, Bool.and_eq_true, Bool.or_eq_true,
    Bool.not_eq_true', v8VersionOlder_iff, v8VersionAtLeast_iff, and_assoc]
  refine and_congr_right fun _ => and_congr ?_ ?_
  · cases flagSet flags v8ConstantRemoved <;> simp
  · cases flagSet flags v8ConstantAdded <;> simp

/-- The value of a missing entry. -/
theorem fallback_eq :
    (if noFallback major minor flags then -1 else fallback) =
      (declaredBy flags fallback).value (major, minor) none := by
  have hno : noFallback major minor flags =
      (!flagSet flags v8ConstantHasfallback || v8VersionOlder major minor flags) := by
    rw [noFallback, v8VersionOlder, Bool.or_assoc]
  rw [hno]
  unfold Declared.value declaredBy
  cases flagSet flags v8ConstantHasfallback with
  | false => rfl
  | true =>
    simp only [Bool.not_true, Bool.false_or, if_true, v8VersionOlder_iff]

end Flags

/-! ### The tables -/

/-- The entry of the identifier of a function, since V8 5.1. -/
def identifierEntry (m : DataModel) : V8Offset :=
  .entry .offSharedfunctioninfoIdentifier "SharedFunctionInfo" "function_identifier"
    (v8ConstantFallback 5 1) (if m = .lp64 then 79 else 39)

/-- And before. -/
def inferredNameEntry : V8Offset :=
  .entry .offSharedfunctioninfoInferredName "SharedFunctionInfo" "inferred_name"
    (v8ConstantRemovedSince 5 1)

/-- The entries of a table are about different variables, and those of the one table about others than
those of the other. A constant with a fallback is optional. -/
theorem v8Tables_spec (m : DataModel) :
    ((v8Constants m).map V8Constant.valp).Nodup ∧ ((v8Offsets m).map V8Offset.valp).Nodup ∧
      (∀ e ∈ v8Constants m, e.valp ∉ (v8Offsets m).map V8Offset.valp ∧
        e.valp ∉ wellKnownTypes.map Prod.snd) ∧
      V8Var.heapObjectTag ∉ (v8Offsets m).map V8Offset.valp ∧
      ∀ e ∈ v8Constants m, flagSet e.flags v8ConstantHasfallback = true →
        flagSet e.flags v8ConstantOptional = true := by
  cases m <;> decide +kernel

theorem v8Constants_nodup (m : DataModel) : ((v8Constants m).map V8Constant.valp).Nodup :=
  (v8Tables_spec m).1

theorem v8Offsets_nodup (m : DataModel) : ((v8Offsets m).map V8Offset.valp).Nodup :=
  (v8Tables_spec m).2.1

theorem v8Constants_apart (m : DataModel) :
    ∀ e ∈ v8Constants m, e.valp ∉ (v8Offsets m).map V8Offset.valp ∧
      e.valp ∉ wellKnownTypes.map Prod.snd := (v8Tables_spec m).2.2.1

theorem heapObjectTag_notMem (m : DataModel) :
    V8Var.heapObjectTag ∉ (v8Offsets m).map V8Offset.valp := (v8Tables_spec m).2.2.2.1

theorem v8Constants_optional (m : DataModel) :
    ∀ e ∈ v8Constants m, flagSet e.flags v8ConstantHasfallback = true →
      flagSet e.flags v8ConstantOptional = true := (v8Tables_spec m).2.2.2.2

/-- A constant that is a failure is not optional, so it has no fallback. -/
theorem V8Constant.failure_value {m : DataModel} {e : V8Constant} (he : e ∈ v8Constants m)
    {version : ℕ × ℕ} (hfails : e.declared.Fails version) : e.declared.value version none = -1 := by
  have hnot : flagSet e.flags v8ConstantOptional = false := hfails.1
  have hfallback : e.declared.fallback = none := by
    refine if_neg fun hset => ?_
    exact absurd (hnot.symm.trans (v8Constants_optional m e he hset)) (by decide)
  rw [Declared.value, hfallback]

/-- The entries of the offsets have a truth value in its place, but for two. -/
theorem v8Offsets_spec (m : DataModel) :
    (∀ e ∈ v8Offsets m, e.optional = 0 ∨ (e.optional = 1 ∧ e.flags = 0) ∨ e = identifierEntry m ∨
      e = inferredNameEntry) ∧ identifierEntry m ∈ v8Offsets m ∧ inferredNameEntry ∈ v8Offsets m := by
  cases m <;> decide +kernel

theorem v8Offsets_optional (m : DataModel) :
    ∀ e ∈ v8Offsets m, e.optional = 0 ∨ (e.optional = 1 ∧ e.flags = 0) ∨ e = identifierEntry m ∨
      e = inferredNameEntry := (v8Offsets_spec m).1

theorem identifierEntry_mem (m : DataModel) : identifierEntry m ∈ v8Offsets m := (v8Offsets_spec m).2.1

theorem inferredNameEntry_mem (m : DataModel) : inferredNameEntry ∈ v8Offsets m :=
  (v8Offsets_spec m).2.2

/-- They have their flags in the place of the truth value. -/
theorem identifierEntry_misplaced (m : DataModel) : 1 < (identifierEntry m).optional := by
  cases m <;> decide

theorem inferredNameEntry_misplaced : 1 < inferredNameEntry.optional := by
  decide

/-- What the two entries declare. -/
theorem identifierEntry_declared (m : DataModel) :
    (identifierEntry m).declared =
      { optional := true, removedSince := none, addedSince := none,
        fallback := some ((5, 1), if m = .lp64 then 79 else 39) } := by
  cases m <;> decide

theorem inferredNameEntry_declared :
    inferredNameEntry.declared =
      { optional := false, removedSince := some (5, 1), addedSince := none, fallback := none } := by
  decide

/-! ### One entry -/

section Steps

variable (readsym : Readsym) (classes : List ConfClass) (major minor : ℕ)

theorem constantStep_frame (r : V8Vars × ℕ) (e : V8Constant) (v : V8Var) (hne : v ≠ e.valp) :
    (constantStep readsym major minor r e).1 v = r.1 v := by
  unfold constantStep
  split
  · exact Function.update_of_ne hne _ _
  split
  · rfl
  split
  · exact Function.update_of_ne hne _ _
  · exact Function.update_of_ne hne _ _

theorem offsetStep_frame (r : V8Vars × ℕ) (e : V8Offset) (v : V8Var) (hne : v ≠ e.valp) :
    (offsetStep classes major minor r e).1 v = r.1 v := by
  unfold offsetStep
  split
  · exact Function.update_of_ne hne _ _
  split
  · exact Function.update_of_ne hne _ _
  dsimp only
  split
  · exact Function.update_of_ne hne _ _
  · exact Function.update_of_ne hne _ _

variable {readsym classes major minor}

/-- The value of a constant: what is declared, or what it has been, if it is a failure. -/
theorem constantStep_value (r : V8Vars × ℕ) (e : V8Constant) :
    (constantStep readsym major minor r e).1 e.valp =
      if readsym e.symbol = none ∧ missingFails major minor e.flags = true then r.1 e.valp
      else e.declared.value (major, minor) (readsym e.symbol) := by
  unfold constantStep V8Constant.declared
  cases readsym e.symbol with
  | some val =>
    simp only [reduceCtorEq, false_and, if_false]
    exact Function.update_self _ _ _
  | none =>
    simp only [true_and]
    rw [← fallback_eq]
    by_cases hfails : missingFails major minor e.flags = true
    · rw [if_pos hfails, if_pos hfails]
    · rw [if_neg hfails, if_neg hfails]
      by_cases hno : noFallback major minor e.flags = true
      · rw [if_pos hno, if_pos hno]
        exact Function.update_self _ _ _
      · rw [if_neg hno, if_neg hno]
        exact Function.update_self _ _ _

/-- A constant is counted if it is a failure. -/
theorem constantStep_counted (r : V8Vars × ℕ) (e : V8Constant) :
    (constantStep readsym major minor r e).2 = r.2 + 1 ↔
      readsym e.symbol = none ∧ e.declared.Fails (major, minor) := by
  rw [V8Constant.declared, ← missingFails_iff]
  unfold constantStep
  cases readsym e.symbol with
  | some val => simp
  | none =>
    dsimp only
    split
    · next hfails => exact iff_of_true rfl ⟨rfl, hfails⟩
    · next hfails =>
      refine iff_of_false ?_ fun h => hfails h.2
      split <;> exact (Nat.lt_succ_self _).ne

theorem offsetLookup_eq (vars : V8Vars) (e : V8Offset) :
    offsetLookup vars classes e = (offsetFound classes e).map (· - vars .heapObjectTag) := by
  unfold offsetLookup offsetFound heapOffset
  cases confFieldLookup classes e.klass e.member with
  | some flp => rfl
  | none =>
    dsimp only [Option.map_none]
    split
    · rw [Option.map_map]
      rfl
    · rfl

/-- The value of an offset with a truth value in its place. -/
theorem offsetStep_value (r : V8Vars × ℕ) {e : V8Offset}
    (hopt : e.optional = 0 ∨ e.optional = 1 ∧ e.flags = 0) :
    (offsetStep classes major minor r e).1 e.valp =
      e.declared.value (major, minor) ((offsetFound classes e).map (· - r.1 .heapObjectTag)) := by
  unfold offsetStep
  rw [offsetLookup_eq]
  cases offsetFound classes e with
  | some off => exact Function.update_self _ _ _
  | none =>
    dsimp only [Option.map_none]
    have hvalue : e.declared.value (major, minor) none =
        (declaredBy e.flags e.fallback).value (major, minor) none := by
      have hle : e.optional ≤ 1 := by omega
      rw [V8Offset.declared, if_pos hle]
      rfl
    rw [hvalue, ← fallback_eq]
    rcases hopt with hzero | ⟨hone, hflags⟩
    · rw [if_neg (not_not.mpr hzero)]
      split
      · exact Function.update_self _ _ _
      · exact Function.update_self _ _ _
    · rw [if_pos (by rw [hone]; decide), hflags, if_pos (by simp [noFallback, flagSet])]
      exact Function.update_self _ _ _

/-- It is counted if it is a failure. -/
theorem offsetStep_counted (r : V8Vars × ℕ) {e : V8Offset}
    (hopt : e.optional = 0 ∨ e.optional = 1 ∧ e.flags = 0) :
    (offsetStep classes major minor r e).2 = r.2 + 1 ↔
      offsetFound classes e = none ∧ e.declared.Fails (major, minor) := by
  unfold offsetStep
  rw [offsetLookup_eq]
  cases offsetFound classes e with
  | some off => simp
  | none =>
    dsimp only [Option.map_none]
    rcases hopt with hzero | ⟨hone, hflags⟩
    · have hdeclared : e.declared.Fails (major, minor) ↔
          (declaredBy e.flags e.fallback).Fails (major, minor) := by
        rw [V8Offset.declared, if_pos (by omega), hzero]
        rfl
      rw [if_neg (not_not.mpr hzero), hdeclared, ← missingFails_iff]
      cases missingFails major minor e.flags <;> split <;> simp
    · have hoptional : e.declared.optional = true := by
        rw [V8Offset.declared, if_pos (by omega), hone]
        rfl
      rw [if_pos (by rw [hone]; decide)]
      refine iff_of_false (Nat.lt_succ_self _).ne fun h => ?_
      exact absurd (hoptional.symm.trans h.2.1) (by decide)

/-- An offset with its flags in the place of the truth value is `-1` if it is not found, and is not
counted. -/
theorem offsetStep_misplaced (r : V8Vars × ℕ) {e : V8Offset} (hopt : 1 < e.optional) :
    (offsetStep classes major minor r e).1 e.valp =
        ((offsetFound classes e).map (· - r.1 .heapObjectTag)).getD (-1) ∧
      (offsetStep classes major minor r e).2 ≠ r.2 + 1 := by
  unfold offsetStep
  rw [offsetLookup_eq]
  cases offsetFound classes e with
  | some off => exact ⟨Function.update_self _ _ _, (Nat.lt_succ_self _).ne⟩
  | none =>
    dsimp only [Option.map_none]
    rw [if_pos (by omega)]
    exact ⟨Function.update_self _ _ _, (Nat.lt_succ_self _).ne⟩

end Steps

/-! ### The variables after the loops -/

section After

variable (st : V8State) (readsym : Readsym) (types : List V8Enum)

/-- The loop over the types leaves the other variables. -/
theorem typesLoop_frame (r : V8Vars × ℕ) {v : V8Var} (hv : v ∉ wellKnownTypes.map Prod.snd) :
    (st.typesLoop types r).1 v = r.1 v := by
  -- a type changes its own variable only
  have hstep : ∀ (vars : V8Vars) (ep : V8Enum), typeStep vars ep v = vars v := by
    intro vars ep
    unfold typeStep
    cases hfind : wellKnownTypes.find? fun e => ep.name = e.1.toList with
    | none => rfl
    | some e =>
      refine Function.update_of_ne (fun heq => hv ?_) _ _
      exact List.mem_map.mpr ⟨e, List.mem_of_find?_eq_some hfind, heq.symm⟩
  have hfold : ∀ (eps : List V8Enum) (vars : V8Vars), eps.foldl typeStep vars v = vars v := by
    intro eps
    induction eps with
    | nil => exact fun _ => rfl
    | cons ep eps ih => exact fun vars => (ih _).trans (hstep vars ep)
  -- the type that is inferred at the end is not this one, either
  have hmutable : ∀ vars : V8Vars, st.inferMutable types vars v = vars v := by
    have hne : v ≠ .typeMutableheapnumber := by
      rintro rfl
      exact hv (by decide)
    intro vars
    unfold V8State.inferMutable
    split
    · split
      · exact Function.update_of_ne hne _ _
      · cases types.find? fun ep => ep.name = "Code".toList with
        | none => rfl
        | some ep => exact Function.update_of_ne hne _ _
    · rfl
  exact (hmutable _).trans (hfold types r.1)

/-- **A constant after the loops.** -/
theorem loops_constant {e : V8Constant} (he : e ∈ v8Constants st.conf.model) :
    (st.loops readsym types).1 e.valp =
      if readsym e.symbol = none ∧ missingFails st.conf.v8Major st.conf.v8Minor e.flags = true then
        st.vars e.valp
      else e.declared.value st.version (readsym e.symbol) := by
  obtain ⟨hoff, htype⟩ := v8Constants_apart st.conf.model e he
  obtain ⟨r, hfold, hkey, -⟩ := foldl_of_mem
    (constantStep_frame readsym st.conf.v8Major st.conf.v8Minor)
    (v8Constants_nodup st.conf.model) he (st.vars, 0)
  have hoffsets := foldl_of_notMem
    (offsetStep_frame st.conf.classes st.conf.v8Major st.conf.v8Minor) hoff
    (st.typesLoop types (st.constantsLoop readsym))
  rw [constantStep_value, hkey] at hfold
  exact hoffsets.trans ((typesLoop_frame st types _ htype).trans hfold)

/-- **An offset after the loops**, and the tag that is subtracted from it. -/
theorem loops_offset {e : V8Offset} (he : e ∈ v8Offsets st.conf.model) :
    ∃ r : V8Vars × ℕ, (st.loops readsym types).1 e.valp =
        (offsetStep st.conf.classes st.conf.v8Major st.conf.v8Minor r e).1 e.valp ∧
      r.1 .heapObjectTag = (st.loops readsym types).1 .heapObjectTag := by
  have htag := heapObjectTag_notMem st.conf.model
  have hframe := offsetStep_frame st.conf.classes st.conf.v8Major st.conf.v8Minor
  obtain ⟨r, hfold, -, hother⟩ := foldl_of_mem hframe
    (v8Offsets_nodup st.conf.model) he (st.typesLoop types (st.constantsLoop readsym))
  refine ⟨r, hfold, (hother _ htag).trans ?_⟩
  exact (foldl_of_notMem hframe htag _).symm

end After

/-! ### The variables that are replaced -/

theorem Substitution.run_frame (vars : V8Vars) (sub : Substitution) (v : V8Var)
    (hne : v ≠ sub.target) : sub.run vars v = vars v := by
  unfold Substitution.run
  cases sub.value vars with
  | none => rfl
  | some val => exact Function.update_of_ne hne _ _

/-- A variable that is replaced by another one that is there. -/
theorem Substitution.replaceBy_takes (x y : V8Var) (vars : V8Vars) :
    TakesAvailable (vars x) (vars y) ((replaceBy x y).run vars x) := by
  unfold run replaceBy
  dsimp only
  by_cases hy : vars y = -1
  · rw [if_neg (not_not.mpr hy)]
    exact ⟨fun _ _ => rfl, fun _ hne => absurd hy hne, .inl rfl⟩
  · rw [if_pos hy]
    have hval : Function.update vars x (vars y) x = vars y := Function.update_self _ _ _
    exact ⟨fun _ heq => absurd heq hy, fun _ _ => hval, .inr hval⟩

/-- A variable that another one stands in for. -/
theorem Substitution.ifMissing_takes (x y : V8Var) (vars : V8Vars) :
    TakesAvailable (vars x) (vars y) ((ifMissing x fun vars => vars y).run vars x) := by
  unfold run ifMissing
  dsimp only
  by_cases hx : vars x = -1
  · rw [if_pos hx]
    have hval : Function.update vars x (vars y) x = vars y := Function.update_self _ _ _
    exact ⟨fun hne _ => absurd hx hne, fun _ _ => hval, .inr hval⟩
  · rw [if_neg hx]
    exact ⟨fun _ _ => rfl, fun heq _ => absurd heq hx, .inl rfl⟩

section Substituted

variable (st : V8State)

/-- The variables that are replaced. -/
theorem substitutions_targets :
    st.substitutions.map Substitution.target =
      [.offSeqasciistrChars, .offSeqtwobytestrChars, .offSlicedstringParent, .offJsfunctionContext,
        .offSharedfunctioninfoScopeInfo, .offMapBitField, .offMapBitField2, .scopeinfoIdxFirstVars,
        .offMapConstructor, .offMapInobjectProperties, .offJsobjectProperties,
        .offFpContextOrFrameType, .offSharedfunctioninfoIdentifier, .compilerHintsBoundFunction] := rfl

/-- One of the assignments at the end, to a variable of which the other entry is not replaced itself. -/
theorem substituted_of_mem {sub : Substitution} (hsub : sub ∈ st.substitutions) {y : V8Var}
    (hy : y ∉ st.substitutions.map Substitution.target)
    (htakes : ∀ vars : V8Vars, TakesAvailable (vars sub.target) (vars y) (sub.run vars sub.target))
    (vars : V8Vars) :
    TakesAvailable (vars sub.target) (vars y)
      (st.substitutions.foldl Substitution.run vars sub.target) := by
  have hnodup : (st.substitutions.map Substitution.target).Nodup := by
    rw [substitutions_targets]
    decide
  have hframe : ∀ (vars : V8Vars) (sub : Substitution) (v : V8Var), v ≠ sub.target →
      id (sub.run vars) v = id vars v := Substitution.run_frame
  obtain ⟨vars', hfold, hkey, hother⟩ := foldl_of_mem hframe hnodup hsub vars
  dsimp only [id] at hfold hkey hother
  rw [hfold, ← hkey, ← hother y hy]
  exact htakes vars'

/-- **Of two entries, the one that is there is used.** -/
theorem substituted (vars : V8Vars) :
    ∀ p ∈ alternatives, TakesAvailable (vars p.1) (vars p.2)
      (st.substitutions.foldl Substitution.run vars p.1) := by
  have hmem : ∀ p ∈ alternatives, ∃ sub ∈ st.substitutions, sub.target = p.1 ∧
      ∀ vars : V8Vars, TakesAvailable (vars sub.target) (vars p.2) (sub.run vars sub.target) := by
    intro p hp
    simp only [alternatives, List.mem_cons, List.not_mem_nil, or_false] at hp
    rcases hp with rfl | rfl | rfl | rfl | rfl | rfl
    · exact ⟨.replaceBy .offSeqasciistrChars .offSeqonebytestrChars,
        by simp [V8State.substitutions], rfl, Substitution.replaceBy_takes _ _⟩
    · exact ⟨.replaceBy .offMapConstructor .offMapConstructorOrBackpointer,
        by simp [V8State.substitutions], rfl, Substitution.replaceBy_takes _ _⟩
    · exact ⟨.replaceBy .offMapInobjectProperties .offMapInobjectPropertiesOrCtorFunIndex,
        by simp [V8State.substitutions], rfl, Substitution.replaceBy_takes _ _⟩
    · exact ⟨.ifMissing .offJsobjectProperties fun vars => vars .offJsreceiverProperties,
        by simp [V8State.substitutions], rfl, Substitution.ifMissing_takes _ _⟩
    · exact ⟨.ifMissing .offFpContextOrFrameType fun vars => vars .offFpMarker,
        by simp [V8State.substitutions], rfl, Substitution.ifMissing_takes _ _⟩
    · exact ⟨.ifMissing .offSharedfunctioninfoIdentifier fun vars =>
        vars .offSharedfunctioninfoInferredName,
        by simp [V8State.substitutions], rfl, Substitution.ifMissing_takes _ _⟩
  -- no substitution has one of the substitutes for its target
  have hother : ∀ p ∈ alternatives, p.2 ∉ st.substitutions.map Substitution.target := by
    rw [substitutions_targets]
    decide
  intro p hp
  obtain ⟨sub, hsub, htarget, htakes⟩ := hmem p hp
  rw [← htarget]
  exact substituted_of_mem st hsub (hother p hp) htakes vars

end Substituted

/-! ### When the fallbacks are applied -/

section Applied

variable (st : V8State) (readsym : Readsym) (types : List V8Enum)

/-- The classes are looked through for the field of the identifier. -/
theorem offsetFound_sharedFunctionInfo (classes : List ConfClass) {e : V8Offset}
    (hklass : e.klass = "SharedFunctionInfo".toList) :
    offsetFound classes e = none ↔
      confFieldLookup classes "SharedFunctionInfo".toList e.member = none := by
  unfold offsetFound
  rw [hklass, if_neg (by decide)]
  cases confFieldLookup classes "SharedFunctionInfo".toList e.member <;> simp

/-- **When the fallbacks are applied as they are declared**: if every constant that is a failure has been
`-1` before, and the field for the identifier of a function that belongs to the version is there. -/
theorem fallbacksApplied_iff : FallbacksApplied st readsym types ↔ FallbacksFit st readsym := by
  constructor
  · intro happlied
    -- what has been given up is not used, for each of the three kinds of entries
    refine ⟨fun e he hnone hfails => ?_, fun hnew hlookup => ?_, fun hold hlookup => ?_⟩
    · have hmissing : missingFails st.conf.v8Major st.conf.v8Minor e.flags = true :=
        missingFails_iff.mpr hfails
      have hvalue := happlied.constants e he
      rw [loops_constant st readsym types he, if_pos ⟨hnone, hmissing⟩, hnone] at hvalue
      rw [hvalue, V8Constant.failure_value he hfails]
    · -- the fallback of the identifier is not used
      have hnone := (offsetFound_sharedFunctionInfo st.conf.classes
        (show (identifierEntry st.conf.model).klass = _ from rfl)).mpr hlookup
      have hvalue := happlied.offsets _ (identifierEntry_mem st.conf.model)
      obtain ⟨r, hr, -⟩ := loops_offset st readsym types (identifierEntry_mem st.conf.model)
      rw [hr, (offsetStep_misplaced r (identifierEntry_misplaced _)).1, hnone, Option.map_none,
        Option.map_none, identifierEntry_declared] at hvalue
      have hdeclared : Declared.value
          { optional := true, removedSince := none, addedSince := none,
            fallback := some ((5, 1), if st.conf.model = .lp64 then 79 else 39) } st.version none =
          if st.conf.model = .lp64 then 79 else 39 := if_neg hnew
      rw [hdeclared] at hvalue
      split at hvalue <;> exact absurd hvalue (by decide)
    · -- its absence is not counted
      have hnone := (offsetFound_sharedFunctionInfo st.conf.classes
        (show inferredNameEntry.klass = _ from rfl)).mpr hlookup
      have hcounted := (happlied.offsetsCounted _ (inferredNameEntry_mem st.conf.model)
        (st.vars, 0)).mpr ⟨hnone, ?_⟩
      · exact (offsetStep_misplaced _ inferredNameEntry_misplaced).2 hcounted
      · rw [inferredNameEntry_declared]
        refine ⟨rfl, fun since hsince => ?_, fun since hsince => by cases hsince⟩
        obtain rfl := Option.some.inj hsince
        exact hold
  · intro hfit
    -- every constant and every offset has the value that is declared for it
    refine ⟨fun e he => ?_, fun e he => ?_, fun e he r => constantStep_counted r e, fun e he r => ?_,
      fun p hp => substituted st _ p hp⟩
    · rw [loops_constant st readsym types he]
      split
      · next hfails =>
        have hfails' : e.declared.Fails st.version := missingFails_iff.mp hfails.2
        rw [hfit.constants e he hfails.1 hfails', hfails.1, V8Constant.failure_value he hfails']
      · rfl
    · obtain ⟨r, hr, htag⟩ := loops_offset st readsym types he
      rw [hr, ← htag]
      rcases v8Offsets_optional st.conf.model e he with hzero | hone | rfl | rfl
      · exact offsetStep_value r (.inl hzero)
      · exact offsetStep_value r (.inr hone)
      · rw [(offsetStep_misplaced r (identifierEntry_misplaced _)).1]
        cases hfound : offsetFound st.conf.classes (identifierEntry st.conf.model) with
        | some off => rfl
        | none =>
          -- it is only not there in versions that have no fallback for it
          have hold : VersionOlder st.version (5, 1) := by
            by_contra hnew
            exact hfit.identifier hnew ((offsetFound_sharedFunctionInfo _ rfl).mp hfound)
          rw [identifierEntry_declared]
          exact (if_pos hold).symm
      · -- the flag of this entry is in the wrong place as well, but its fallback is the same
        rw [(offsetStep_misplaced r inferredNameEntry_misplaced).1, inferredNameEntry_declared]
        cases offsetFound st.conf.classes inferredNameEntry <;> rfl
    · rcases v8Offsets_optional st.conf.model e he with hzero | hone | rfl | rfl
      · exact offsetStep_counted r (.inl hzero)
      · exact offsetStep_counted r (.inr hone)
      · refine iff_of_false (offsetStep_misplaced r (identifierEntry_misplaced _)).2 fun h => ?_
        rw [identifierEntry_declared] at h
        exact Bool.noConfusion h.2.1
      · refine iff_of_false (offsetStep_misplaced r inferredNameEntry_misplaced).2 fun h => ?_
        have hold : VersionOlder st.version (5, 1) :=
          h.2.2.1 _ (by rw [inferredNameEntry_declared])
        exact hfit.inferredName hold ((offsetFound_sharedFunctionInfo _ rfl).mp h.1)

/-- Without the field, the identifier of a function of V8 5.1 is looked for at `-1`, and not at `79`. -/
theorem not_fallbacksApplied_identifier :
    ¬ FallbacksApplied { conf := .start .lp64 5 1 } (fun _ => some 0) [] := by
  intro happlied
  have hvalue := happlied.offsets _ (identifierEntry_mem .lp64)
  revert hvalue
  decide +kernel

end Applied

end MdbV8
