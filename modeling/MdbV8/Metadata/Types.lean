import MdbV8.Metadata.Symbols

/-!
# The tables of types

The type bytes and the frame types are collected in two arrays. An entry with an empty name ends each
of them for those that read it, so the last entry of an array must not be used: an array of `cap`
entries has room for `cap - 1` names.

What `conf_update_type` and `conf_update_frametype` check is that the index is not *larger* than the
number of entries. So they fill the last entry, and then write one more behind the array
(`tablesSafe_iff`). The indexes are counted on from one attempt at configuring the module to the next,
and a symbol whose value cannot be read uses up an entry as well.
-/

namespace MdbV8

namespace EnumTable

variable (tbl : EnumTable) (cap : ℕ)

/-- The entries that a reader sees, of which `k` entries of the array are left: up to the first one
with an empty name. A reader that finds none leaves the array. -/
def walk : ℕ → Option (List V8Enum)
  | 0 => none
  | k + 1 =>
    let e := tbl.entries (cap - (k + 1))
    if e.name = [] then some [] else (walk k).map (e :: ·)

/-- Nothing has been written outside of the array, and at or after the last entry with a name, there is
one without; so the readers stay inside the array. -/
structure Safe : Prop where
  inside : tbl.overrun = false
  ends : ∃ j < cap, (tbl.entries j).name = [] ∧
    ∀ i < cap, j < i → (tbl.entries i).name = []
  walk : (tbl.walk cap cap).isSome

/-- The entries that have not been used have no name. -/
def Unused : Prop := ∀ i, tbl.next ≤ i → (tbl.entries i).name = []

variable {tbl cap}

/-- A reader stops at an entry without a name. -/
theorem walk_isSome {j : ℕ} (hname : (tbl.entries j).name = []) {k : ℕ} (hk : cap - k ≤ j)
    (hj : j < cap) (hkc : k ≤ cap) : (tbl.walk cap k).isSome := by
  induction k with
  | zero => omega
  | succ k ih =>
    rw [EnumTable.walk]
    by_cases hempty : (tbl.entries (cap - (k + 1))).name = []
    · simp [hempty]
    · have hne : cap - (k + 1) ≠ j := fun h => hempty (h ▸ hname)
      simp only [hempty, if_false, Option.isSome_map]
      exact ih (by omega) (by omega)

/-- What makes a table safe is its last entry. -/
theorem safe_iff (hcap : 0 < cap) :
    tbl.Safe cap ↔ tbl.overrun = false ∧ (tbl.entries (cap - 1)).name = [] := by
  constructor
  · rintro ⟨hin, ⟨j, hj, hempty, hlater⟩, -⟩
    refine ⟨hin, ?_⟩
    rcases Nat.lt_or_ge j (cap - 1) with hlt | hge
    · exact hlater _ (by omega) hlt
    · obtain rfl : j = cap - 1 := by omega
      exact hempty
  · rintro ⟨hin, hlast⟩
    exact ⟨hin, ⟨cap - 1, by omega, hlast, fun i hi hlt => by omega⟩,
      walk_isSome hlast (by omega) (by omega) le_rfl⟩

end EnumTable

/-! ### One symbol -/

/-- What the two functions do with a symbol for the entry `name`, if it has one. -/
def enterEnum (cap : ℕ) (readsym : Readsym) (symbol : CStr) (name : Option CStr) (tbl : EnumTable) :
    EnumTable :=
  if tbl.next > cap then tbl
  else
    match name with
    | none => tbl
    | some name =>
      (confUpdateEnum readsym symbol name cap tbl.next { tbl with next := tbl.next + 1 }).2

/-- The name in the symbol of a type. -/
def typeName (symbol : CStr) : Option CStr :=
  (confNextPart ((strlcpy confBufSize symbol).drop "v8dbg_type_".length)).map Prod.fst

/-- The name in the symbol of a frame type. -/
def frametypeName (symbol : CStr) : Option CStr := some (symbol.drop "v8dbg_frametype_".length)

theorem confUpdateType_eq (readsym : Readsym) (symbol : CStr) (tbl : EnumTable) :
    (confUpdateType readsym symbol tbl).2 =
      enterEnum nTypes readsym symbol (typeName symbol) tbl := by
  unfold confUpdateType enterEnum typeName
  split
  · rfl
  · dsimp only
    cases confNextPart ((strlcpy confBufSize symbol).drop "v8dbg_type_".length) with
    | none => rfl
    | some part => rfl

theorem confUpdateFrametype_eq (readsym : Readsym) (symbol : CStr) (tbl : EnumTable) :
    (confUpdateFrametype readsym symbol tbl).2 =
      enterEnum nFrametypes readsym symbol (frametypeName symbol) tbl := by
  unfold confUpdateFrametype enterEnum frametypeName
  split
  · rfl
  · rfl

/-- A symbol that has a name and a value finds an entry for it before the last one; or the last one,
if the name is empty. -/
def EntryFits (cap : ℕ) (readsym : Readsym) (symbol : CStr) (name : Option CStr) (tbl : EnumTable) :
    Prop :=
  ∀ nm, name = some nm → readsym symbol ≠ none → tbl.next ≤ cap →
    tbl.next + 1 < cap ∨ (tbl.next + 1 = cap ∧ nm = [])

theorem strlcpy_name_eq_nil {nm : CStr} : strlcpy confNameSize nm = [] ↔ nm = [] := by
  simp [strlcpy, confNameSize]

section Enter

variable {cap : ℕ} {tbl : EnumTable}

/-- The ways that a symbol can be entered. -/
theorem enterEnum_cases (cap : ℕ) (readsym : Readsym) (symbol : CStr) (name : Option CStr)
    (tbl : EnumTable) :
    (enterEnum cap readsym symbol name tbl = tbl ∧ (cap < tbl.next ∨ name = none)) ∨
    (tbl.next ≤ cap ∧ readsym symbol = none ∧
      enterEnum cap readsym symbol name tbl = { tbl with next := tbl.next + 1 }) ∨
    ∃ nm value, tbl.next ≤ cap ∧ name = some nm ∧ readsym symbol = some value ∧
      enterEnum cap readsym symbol name tbl =
        { tbl with next := tbl.next + 1 }.store cap tbl.next
          { name := strlcpy confNameSize nm, value := (value % 2 ^ 32).toNat } := by
  unfold enterEnum
  by_cases hfull : tbl.next > cap
  · exact .inl ⟨if_pos hfull, .inl hfull⟩
  · rw [if_neg hfull]
    cases name with
    | none => exact .inl ⟨rfl, .inr rfl⟩
    | some nm =>
      unfold confUpdateEnum
      dsimp only
      cases hval : readsym symbol with
      | none => exact .inr (.inl ⟨by omega, rfl, rfl⟩)
      | some value => exact .inr (.inr ⟨nm, value, by omega, rfl, rfl, rfl⟩)

/-- **A step of the configuration**: the entries that have not been used stay so, and the table stays
safe exactly if the symbol fits. -/
theorem enterEnum_safe_iff (readsym : Readsym) (symbol : CStr) (name : Option CStr)
    (hcap : 0 < cap) (hunused : tbl.Unused) :
    (enterEnum cap readsym symbol name tbl).Unused ∧
      ((enterEnum cap readsym symbol name tbl).Safe cap ↔
        tbl.Safe cap ∧ EntryFits cap readsym symbol name tbl) := by
  rw [EnumTable.safe_iff hcap, EnumTable.safe_iff hcap]
  rcases enterEnum_cases cap readsym symbol name tbl with
    ⟨heq, hwhy⟩ | ⟨hnext, hval, heq⟩ | ⟨nm, value, hnext, hname, hval, heq⟩
  · -- nothing is entered
    rw [heq]
    refine ⟨hunused, (and_iff_left ?_).symm⟩
    intro nm hname _ hle
    rcases hwhy with hfull | hnone
    · omega
    · rw [hnone] at hname
      cases hname
  · -- an entry is used up
    rw [heq]
    refine ⟨fun i hi => hunused i (by change tbl.next + 1 ≤ i at hi; omega), (and_iff_left ?_).symm⟩
    exact fun nm _ hne => absurd hval hne
  · -- an entry is written
    have hfits : EntryFits cap readsym symbol name tbl ↔
        tbl.next + 1 < cap ∨ (tbl.next + 1 = cap ∧ nm = []) := by
      constructor
      · exact fun h => h nm hname (by simp [hval]) hnext
      · intro h nm' hname' _ _
        obtain rfl : nm = nm' := Option.some.inj (hname.symm.trans hname')
        exact h
    rw [heq, hfits]
    unfold EnumTable.store
    by_cases hin : tbl.next < cap
    · rw [if_pos hin]
      refine ⟨fun i hi => ?_, ?_⟩
      · have hne : i ≠ tbl.next := by
          change tbl.next + 1 ≤ i at hi
          omega
        change (Function.update tbl.entries tbl.next _ i).name = []
        rw [Function.update_of_ne hne]
        exact hunused i (by change tbl.next + 1 ≤ i at hi; omega)
      · dsimp only
        have hlast : (tbl.entries (cap - 1)).name = [] := hunused _ (by omega)
        by_cases hend : cap - 1 = tbl.next
        · rw [hend, Function.update_self, ← hend, strlcpy_name_eq_nil]
          simp only [hlast, and_true]
          refine and_congr_right fun _ => ⟨fun h => .inr ⟨by omega, h⟩, ?_⟩
          rintro (h | ⟨-, h⟩)
          · omega
          · exact h
        · rw [Function.update_of_ne hend]
          exact ⟨fun h => ⟨h, .inl (by omega)⟩, fun h => h.1⟩
    · rw [if_neg hin]
      refine ⟨fun i hi => hunused i (by change tbl.next + 1 ≤ i at hi; omega), ?_⟩
      constructor
      · rintro ⟨h, -⟩
        cases h
      · rintro ⟨-, h | ⟨h, -⟩⟩ <;> omega

end Enter

/-! ### Runs -/

/-- The tables of a configuration are safe. -/
def ConfState.TablesSafe (s : ConfState) : Prop := s.types.Safe nTypes ∧ s.frametypes.Safe nFrametypes

/-- The entries of the tables that have not been used have no names. -/
def ConfState.TablesUnused (s : ConfState) : Prop := s.types.Unused ∧ s.frametypes.Unused

/-- The symbols that `autoconf_iter_symbol` tells apart. -/
inductive SymbolKind where
  | parent
  | field
  | type
  | frametype
  | other
  deriving DecidableEq, Repr

/-- What a symbol is about. -/
def symbolKind (symbol : CStr) : SymbolKind :=
  if "v8dbg_parent_".toList.isPrefixOf symbol then .parent
  else if "v8dbg_class_".toList.isPrefixOf symbol then .field
  else if "v8dbg_type_".toList.isPrefixOf symbol then .type
  else if "v8dbg_frametype_".toList.isPrefixOf symbol then .frametype
  else .other

/-- There is an entry for a symbol. -/
def SymbolFits (readsym : Readsym) (symbol : CStr) (s : ConfState) : Prop :=
  match symbolKind symbol with
  | .type => EntryFits nTypes readsym symbol (typeName symbol) s.types
  | .frametype => EntryFits nFrametypes readsym symbol (frametypeName symbol) s.frametypes
  | _ => True

/-- There is an entry for every symbol of an iteration when it is its turn. -/
def SymbolsFit (readsym : Readsym) : List CStr → ConfState → Prop
  | [], _ => True
  | symbol :: symbols, s =>
    SymbolFits readsym symbol s ∧
      ((autoconfIterSymbol readsym symbol s).1 = 0 →
        SymbolsFit readsym symbols (autoconfIterSymbol readsym symbol s).2)

/-- An attempt to configure the module: `autoconfigure`, which is not called (by `configure` and
`dcmd_v8load`) once there are classes. The rest of it only reads the tables. -/
def attempt (a : Readsym × List CStr) (s : ConfState) : ConfState :=
  if s.classes ≠ [] then s else (cfgIter a.1 a.2 s).2

/-- Some attempts one after the other. -/
def attempts (as : List (Readsym × List CStr)) (s : ConfState) : ConfState :=
  as.foldl (fun s a => attempt a s) s

/-- There is an entry for every symbol of some attempts when it is its turn. -/
def AttemptsFit : List (Readsym × List CStr) → ConfState → Prop
  | [], _ => True
  | a :: as, s => (s.classes = [] → SymbolsFit a.1 a.2 s) ∧ AttemptsFit as (attempt a s)

section Runs

variable {s : ConfState}

theorem confUpdateParent_tables (symbol : CStr) (s : ConfState) :
    (confUpdateParent symbol s).2.types = s.types ∧
      (confUpdateParent symbol s).2.frametypes = s.frametypes := by
  unfold confUpdateParent
  dsimp only
  split <;> exact ⟨rfl, rfl⟩

theorem confUpdateField_tables (readsym : Readsym) (symbol : CStr) (s : ConfState) :
    (confUpdateField readsym symbol s).2.types = s.types ∧
      (confUpdateField readsym symbol s).2.frametypes = s.frametypes := by
  unfold confUpdateField
  dsimp only
  split
  · exact ⟨rfl, rfl⟩
  · split
    · exact ⟨rfl, rfl⟩
    · split <;> exact ⟨rfl, rfl⟩

/-- What a symbol does to the tables. -/
theorem autoconfIterSymbol_tables (readsym : Readsym) (symbol : CStr) (s : ConfState) :
    let s' := (autoconfIterSymbol readsym symbol s).2
    match symbolKind symbol with
    | .type => s'.types = enterEnum nTypes readsym symbol (typeName symbol) s.types ∧
        s'.frametypes = s.frametypes
    | .frametype => s'.types = s.types ∧
        s'.frametypes = enterEnum nFrametypes readsym symbol (frametypeName symbol) s.frametypes
    | _ => s'.types = s.types ∧ s'.frametypes = s.frametypes := by
  unfold autoconfIterSymbol symbolKind
  by_cases hparent : "v8dbg_parent_".toList.isPrefixOf symbol
  · simp only [hparent, if_true]
    exact confUpdateParent_tables symbol s
  by_cases hclass : "v8dbg_class_".toList.isPrefixOf symbol
  · simp only [hparent, hclass, if_true]
    exact confUpdateField_tables readsym symbol s
  by_cases htype : "v8dbg_type_".toList.isPrefixOf symbol
  · simp only [hparent, hclass, htype, if_true]
    exact ⟨confUpdateType_eq readsym symbol s.types, rfl⟩
  by_cases hframe : "v8dbg_frametype_".toList.isPrefixOf symbol
  · simp only [hparent, hclass, htype, hframe, if_true]
    exact ⟨rfl, confUpdateFrametype_eq readsym symbol s.frametypes⟩
  · simp only [hparent, hclass, htype, hframe]
    exact ⟨rfl, rfl⟩

/-- One symbol. -/
theorem autoconfIterSymbol_safe_iff (readsym : Readsym) (symbol : CStr) (hunused : s.TablesUnused) :
    (autoconfIterSymbol readsym symbol s).2.TablesUnused ∧
      ((autoconfIterSymbol readsym symbol s).2.TablesSafe ↔
        s.TablesSafe ∧ SymbolFits readsym symbol s) := by
  have htables := autoconfIterSymbol_tables readsym symbol s
  unfold ConfState.TablesUnused ConfState.TablesSafe SymbolFits
  generalize (autoconfIterSymbol readsym symbol s).2 = s' at htables ⊢
  dsimp only at htables
  cases hkind : symbolKind symbol with
  | type =>
    -- the symbols of types and of frame types enter something into a table
    simp only [hkind] at htables ⊢
    obtain ⟨hkeep, hsafe⟩ := enterEnum_safe_iff readsym symbol (typeName symbol)
      (by decide : 0 < nTypes) hunused.1
    rw [htables.1, htables.2, hsafe]
    exact ⟨⟨hkeep, hunused.2⟩, and_right_comm⟩
  | frametype =>
    simp only [hkind] at htables ⊢
    obtain ⟨hkeep, hsafe⟩ := enterEnum_safe_iff readsym symbol
      (frametypeName symbol) (by decide : 0 < nFrametypes) hunused.2
    rw [htables.1, htables.2, hsafe]
    exact ⟨⟨hunused.1, hkeep⟩, (and_assoc).symm⟩
  | parent =>
    -- the others leave both of the tables alone
    simp only [hkind] at htables ⊢
    rw [htables.1, htables.2]
    exact ⟨hunused, (and_iff_left trivial).symm⟩
  | field =>
    simp only [hkind] at htables ⊢
    rw [htables.1, htables.2]
    exact ⟨hunused, (and_iff_left trivial).symm⟩
  | other =>
    simp only [hkind] at htables ⊢
    rw [htables.1, htables.2]
    exact ⟨hunused, (and_iff_left trivial).symm⟩

/-- An iteration. -/
theorem cfgIter_safe_iff (readsym : Readsym) (symbols : List CStr) (hunused : s.TablesUnused) :
    (cfgIter readsym symbols s).2.TablesUnused ∧
      ((cfgIter readsym symbols s).2.TablesSafe ↔
        s.TablesSafe ∧ SymbolsFit readsym symbols s) := by
  induction symbols generalizing s with
  | nil => exact ⟨hunused, (and_iff_left trivial).symm⟩
  | cons symbol symbols ih =>
    obtain ⟨hkeep, hsafe⟩ := autoconfIterSymbol_safe_iff readsym symbol hunused
    rw [cfgIter, SymbolsFit]
    by_cases hstop : (autoconfIterSymbol readsym symbol s).1 = 0
    · rw [if_neg (not_not.mpr hstop)]
      obtain ⟨hkeep', hsafe'⟩ := ih hkeep
      refine ⟨hkeep', ?_⟩
      rw [hsafe', hsafe, and_assoc]
      simp only [hstop, true_imp_iff]
    · rw [if_pos hstop, hsafe]
      exact ⟨hkeep, by simp [hstop]⟩

/-- Some attempts. -/
theorem attempts_safe_iff (as : List (Readsym × List CStr)) (hunused : s.TablesUnused) :
    (attempts as s).TablesSafe ↔ s.TablesSafe ∧ AttemptsFit as s := by
  induction as generalizing s with
  | nil => exact (and_iff_left trivial).symm
  | cons a as ih =>
    have hrest : attempts (a :: as) s = attempts as (attempt a s) := rfl
    rw [hrest, AttemptsFit]
    by_cases hclasses : s.classes = []
    · have hattempt : attempt a s = (cfgIter a.1 a.2 s).2 := if_neg (not_not.mpr hclasses)
      obtain ⟨hkeep, hsafe⟩ := cfgIter_safe_iff a.1 a.2 hunused
      rw [hattempt, ih hkeep, hsafe, and_assoc]
      simp only [hclasses, true_imp_iff]
    · have hattempt : attempt a s = s := if_pos hclasses
      rw [hattempt, ih hunused]
      simp only [hclasses, false_imp_iff, true_and]

end Runs

theorem AttemptsFit.take {as : List (Readsym × List CStr)} {s : ConfState} (h : AttemptsFit as s)
    (k : ℕ) : AttemptsFit (as.take k) s := by
  induction as generalizing s k with
  | nil => simpa using h
  | cons a as ih =>
    cases k with
    | zero => trivial
    | succ k => exact ⟨h.1, ih h.2 k⟩

/-- **When the tables are safe** after every attempt: if every symbol finds an entry before the last
one. -/
theorem tablesSafe_iff (m : DataModel) (major minor : ℕ) (as : List (Readsym × List CStr)) :
    (∀ k ≤ as.length, (attempts (as.take k) (.start m major minor)).TablesSafe) ↔
      AttemptsFit as (.start m major minor) := by
  have hunused : (ConfState.start m major minor).TablesUnused := ⟨fun _ _ => rfl, fun _ _ => rfl⟩
  have hsafe : (ConfState.start m major minor).TablesSafe :=
    ⟨(EnumTable.safe_iff (by decide)).mpr ⟨rfl, rfl⟩, (EnumTable.safe_iff (by decide)).mpr ⟨rfl, rfl⟩⟩
  constructor
  · intro h
    have hlast := h as.length le_rfl
    rw [List.take_length, attempts_safe_iff as hunused] at hlast
    exact hlast.2
  · intro h k _
    exact (attempts_safe_iff _ hunused).mpr ⟨hsafe, h.take k⟩

/-! ### Few symbols -/

/-- The number of symbols of a kind. -/
def countKind (kind : SymbolKind) (symbols : List CStr) : ℕ :=
  symbols.countP fun symbol => symbolKind symbol = kind

/-- A symbol uses up one entry at most, and only one of its kind does. -/
theorem autoconfIterSymbol_next_le (readsym : Readsym) (symbol : CStr) (s : ConfState) :
    (autoconfIterSymbol readsym symbol s).2.types.next ≤
        s.types.next + countKind .type [symbol] ∧
      (autoconfIterSymbol readsym symbol s).2.frametypes.next ≤
        s.frametypes.next + countKind .frametype [symbol] := by
  have hnext : ∀ cap name tbl, (enterEnum cap readsym symbol name tbl).next ≤ tbl.next + 1 := by
    intro cap name tbl
    rcases enterEnum_cases cap readsym symbol name tbl with
      ⟨heq, -⟩ | ⟨-, -, heq⟩ | ⟨nm, value, -, -, -, heq⟩
    · rw [heq]
      exact Nat.le_succ _
    · rw [heq]
    · rw [heq]
      unfold EnumTable.store
      split <;> exact le_rfl
  have htables := autoconfIterSymbol_tables readsym symbol s
  generalize (autoconfIterSymbol readsym symbol s).2 = s' at htables ⊢
  unfold countKind
  simp only [List.countP_singleton]
  cases hkind : symbolKind symbol <;> simp only [hkind] at htables <;> rw [htables.1, htables.2]
  case type => exact ⟨hnext _ _ _, by simp⟩
  case frametype => exact ⟨by simp, hnext _ _ _⟩
  all_goals simp

/-- Fewer symbols than entries fit. -/
theorem symbolsFit_of_few (readsym : Readsym) (symbols : List CStr) {s : ConfState}
    (htypes : s.types.next + countKind .type symbols < nTypes)
    (hframes : s.frametypes.next + countKind .frametype symbols < nFrametypes) :
    SymbolsFit readsym symbols s := by
  induction symbols generalizing s with
  | nil => trivial
  | cons symbol symbols ih =>
    -- the first symbol is counted with the table that it goes into
    have hcount : ∀ kind, countKind kind (symbol :: symbols) =
        countKind kind [symbol] + countKind kind symbols := fun kind => by
      unfold countKind
      rw [← List.countP_append, List.singleton_append]
    rw [hcount] at htypes hframes
    obtain ⟨hle, hle'⟩ := autoconfIterSymbol_next_le readsym symbol s
    refine ⟨?_, fun _ => ih (by omega) (by omega)⟩
    unfold SymbolFits
    have hself : ∀ kind, symbolKind symbol = kind → countKind kind [symbol] = 1 := fun kind h => by
      simp [countKind, h]
    split
    · next hkind =>
      rw [hself _ hkind] at htypes
      exact fun _ _ _ _ => .inl (by omega)
    · next hkind =>
      rw [hself _ hkind] at hframes
      exact fun _ _ _ _ => .inl (by omega)
    · trivial

/-- The symbols of 128 types. -/
def manyTypes : List CStr :=
  (List.range 128).map fun i =>
    "v8dbg_type_".toList ++ [Char.ofNat (65 + i / 16), Char.ofNat (97 + i % 16)] ++ "__T".toList

/-- With as many types as there are entries, no entry is left without a name. -/
theorem not_tablesSafe_many :
    ¬ (∀ k ≤ 1, (attempts ([(fun _ => some 1, manyTypes)].take k)
      (.start .lp64 3 14)).TablesSafe) := by
  intro h
  have hsafe := (EnumTable.safe_iff (by decide)).mp (h 1 le_rfl).1
  exact absurd hsafe.2 (by decide +kernel)

end MdbV8
