import MdbV8.Metadata.Canned
import MdbV8.Metadata.Constants
import MdbV8.Metadata.Fields

/-!
# Loading a configuration

At the start, `configure` looks for the metadata in the target, and if there is none, for a canned
configuration of its version. If that has not come to anything, `::v8load` takes the name of a canned
configuration. `dcmdV8load` goes through those that there are and stops at the one with the name; but if
there is none with the name, it has gone through to the last one, and takes that. So an argument that is
no name does not lead to an error: it loads the last configuration there is.

The next argument then is refused, since there are classes now. `loadsExact_iff` says when a run of
commands has only loaded what it has been asked for.
-/

namespace MdbV8

/-! ### Configurations -/

/-- A canned configuration: `v8cfg_canned_iter` goes through its symbols, and `v8cfg_canned_readsym`
finds the first one with a name. -/
def cannedCfg (name label : String) (symbols : List (String × ℤ)) : V8Cfg where
  name := some name.toList
  label := some label.toList
  symbols := symbols.map fun v8sym => v8sym.1.toList
  readsym name := (symbols.find? fun v8sym => name = v8sym.1.toList).map Prod.snd

/-- `v8_cfg_04`. -/
def v8Cfg04 : V8Cfg := cannedCfg "node-0.4" "node v0.4" v8SymbolsNode04

/-- `v8_cfg_06`. -/
def v8Cfg06 : V8Cfg := cannedCfg "node-0.6" "node v0.6" v8SymbolsNode06

/-- `v8_cfgs`. -/
def v8Cfgs : List V8Cfg := [v8Cfg04, v8Cfg06]

/-- What is asked of the target: the values of integers, whether there is a symbol, and the symbols that
are gone through. -/
structure V8Target where
  model : DataModel
  readInt : CStr → Option ℤ
  lookupByName : CStr → Bool
  symbols : List CStr

namespace V8Target

variable (t : V8Target)

/-- `v8_cfg_target`. -/
def v8CfgTarget : V8Cfg where
  name := none
  label := none
  symbols := t.symbols
  readsym := t.readInt

/-- The version of V8 in the target: the major, minor and build numbers, and that of the patch. -/
def readVersion : Option (ℕ × ℕ × ℕ × ℕ) :=
  match t.readInt "_ZN2v88internal7Version6major_E".toList,
    t.readInt "_ZN2v88internal7Version6minor_E".toList,
    t.readInt "_ZN2v88internal7Version6build_E".toList,
    t.readInt "_ZN2v88internal7Version6patch_E".toList with
  | some major, some minor, some build, some patch =>
    some (sizeT t.model major, sizeT t.model minor, sizeT t.model build, sizeT t.model patch)
  | _, _, _, _ => none

/-- Before the version is known. -/
def initial : V8State := { conf := .start t.model 0 0 }

/-- After the version is known. -/
def versioned (version : ℕ × ℕ × ℕ × ℕ) : V8State where
  conf := .start t.model version.1 version.2.1
  v8Build := version.2.2.1
  v8Patch := version.2.2.2

/-- The configuration that `configure` chooses: that of the target, or a canned one for the version. -/
def startCfg (version : ℕ × ℕ × ℕ × ℕ) : Option V8Cfg :=
  if t.lookupByName "v8dbg_SmiTag".toList then some t.v8CfgTarget
  else if version.1 = 3 ∧ version.2.1 = 1 ∧ version.2.2.1 = 8 then some v8Cfg04
  else if version.1 = 3 ∧ version.2.1 = 6 ∧ version.2.2.1 = 6 then some v8Cfg06
  else none

/-- `configure`: the globals, if it comes to its end. -/
def configure : Option V8State :=
  match t.readVersion with
  | none => some t.initial
  | some version =>
    match t.startCfg version with
    | none => some (t.versioned version)
    | some cfgp => (autoconfigure cfgp (t.versioned version)).map Prod.snd

end V8Target

/-! ### The command -/

/-- The configuration that the loop over `v8_cfgs` leaves: the first one with the name, or the last one
that there is. -/
def loopCfg (str : CStr) : List V8Cfg → Option V8Cfg → Option V8Cfg
  | [], cfgp => cfgp
  | cfg :: cfgs, _ => if cfg.name = some str then some cfg else loopCfg str cfgs (some cfg)

/-- `dcmd_v8load`, if it comes to its end. -/
def dcmdV8load (argv : List CmdArg) (st : V8State) : Option (DcmdStatus × V8State) :=
  if st.conf.classes ≠ [] then some (.err, st)
  else
    match argv with
    | .string str :: _ =>
      match loopCfg str v8Cfgs none with
      | none => some (.err, st)
      | some cfgp =>
        if cfgp.name = none then some (.err, st)
        else (autoconfigure cfgp st).map fun r => (if r.1 = -1 then .err else .ok, r.2)
    | _ => some (.usage, st)

/-- The globals after some commands. -/
def v8loadRun : List (List CmdArg) → V8State → Option V8State
  | [], st => some st
  | argv :: cmds, st => (dcmdV8load argv st).bind fun r => v8loadRun cmds r.2

/-! ### What is to be loaded -/

/-- The configuration that has the name. -/
def namedCfg : List CmdArg → Option V8Cfg
  | .string str :: _ => v8Cfgs.find? fun cfg => cfg.name = some str
  | _ => none

/-- **The command loads what it is asked for**: the configuration with the name, if nothing has been
configured yet; otherwise it fails, and nothing changes. -/
def LoadExact (argv : List CmdArg) (st : V8State) : Prop :=
  match namedCfg argv with
  | some cfgp =>
    if st.conf.classes = [] then
      dcmdV8load argv st =
        (autoconfigure cfgp st).map fun r => (if r.1 = -1 then .err else .ok, r.2)
    else dcmdV8load argv st = some (.err, st)
  | none => ∃ status, status ≠ .ok ∧ dcmdV8load argv st = some (status, st)

/-- The configurations that the globals have come from: what `configure` has left, and what has been
loaded by its name while nothing had been configured. -/
inductive LoadedFrom (t : V8Target) : List (List CmdArg) → V8State → Prop where
  | start {st : V8State} (hstart : t.configure = some st) : LoadedFrom t [] st
  | refused {cmds : List (List CmdArg)} {st : V8State} (argv : List CmdArg)
      (hst : LoadedFrom t cmds st) : LoadedFrom t (cmds ++ [argv]) st
  | named {cmds : List (List CmdArg)} {st st' : V8State} {argv : List CmdArg} {cfgp : V8Cfg} {rv : ℤ}
      (hst : LoadedFrom t cmds st) (hclasses : st.conf.classes = []) (hname : namedCfg argv = some cfgp)
      (hload : autoconfigure cfgp st = some (rv, st')) : LoadedFrom t (cmds ++ [argv]) st'

/-- **What is loaded in a run of commands**: every command loads what it is asked for, and everything
that is there comes from the target, from the version, or from the name that a command has been given. -/
structure LoadsExact (t : V8Target) (cmds : List (List CmdArg)) : Prop where
  commands : ∀ done argv rest st, cmds = done ++ argv :: rest →
    t.configure.bind (v8loadRun done) = some st → LoadExact argv st
  loaded : ∀ done rest st, cmds = done ++ rest → t.configure.bind (v8loadRun done) = some st →
    LoadedFrom t done st

/-- The condition for a command: something has been configured, or it is not given a string, or one that
is the name of a configuration; or there have been so many types that no other one is entered. -/
def LoadFits (argv : List CmdArg) (st : V8State) : Prop :=
  st.conf.classes ≠ [] ∨ (∀ str rest, argv ≠ .string str :: rest) ∨ namedCfg argv ≠ none ∨
    nTypes < st.conf.types.next

/-- The condition for a run. -/
def LoadsFit (t : V8Target) (cmds : List (List CmdArg)) : Prop :=
  ∀ done argv rest st, cmds = done ++ argv :: rest →
    t.configure.bind (v8loadRun done) = some st → LoadFits argv st

/-! ### The types that are counted -/

section Next

variable {readsym : Readsym} {symbol : CStr}

theorem enterEnum_next_ge (cap : ℕ) (readsym : Readsym) (symbol : CStr) (name : Option CStr)
    (tbl : EnumTable) : tbl.next ≤ (enterEnum cap readsym symbol name tbl).next := by
  rcases enterEnum_cases cap readsym symbol name tbl with
    ⟨heq, -⟩ | ⟨-, -, heq⟩ | ⟨nm, value, -, -, -, heq⟩
  · exact (congrArg EnumTable.next heq).ge
  · rw [heq]
    exact Nat.le_succ _
  · rw [heq]
    unfold EnumTable.store
    split <;> exact Nat.le_succ _

/-- The number of types never gets smaller. -/
theorem autoconfIterSymbol_next_ge (readsym : Readsym) (symbol : CStr) (s : ConfState) :
    s.types.next ≤ (autoconfIterSymbol readsym symbol s).2.types.next := by
  have htables := autoconfIterSymbol_tables readsym symbol s
  dsimp only at htables
  cases hkind : symbolKind symbol with
  | type =>
    rw [hkind] at htables
    rw [htables.1]
    exact enterEnum_next_ge _ _ _ _ _
  | frametype =>
    rw [hkind] at htables
    exact (congrArg EnumTable.next htables.1).ge
  | _ =>
    rw [hkind] at htables
    exact (congrArg EnumTable.next htables.1).ge

theorem cfgIter_next_ge (readsym : Readsym) (symbols : List CStr) (s : ConfState) :
    s.types.next ≤ (cfgIter readsym symbols s).2.types.next := by
  induction symbols generalizing s with
  | nil => exact le_rfl
  | cons symbol symbols ih =>
    have hstep := autoconfIterSymbol_next_ge readsym symbol s
    unfold cfgIter
    dsimp only
    split
    · exact hstep
    · exact hstep.trans (ih _)

/-- A symbol of a type is counted, if the types can still be entered. -/
theorem autoconfIterSymbol_next_of_type (hkind : symbolKind symbol = .type)
    (hname : typeName symbol ≠ none) {s : ConfState} (hnext : s.types.next ≤ nTypes) :
    (autoconfIterSymbol readsym symbol s).2.types.next = s.types.next + 1 := by
  have htables := autoconfIterSymbol_tables readsym symbol s
  dsimp only at htables
  rw [hkind] at htables
  rw [htables.1]
  rcases enterEnum_cases nTypes readsym symbol (typeName symbol) s.types with
    ⟨-, hfull | hnone⟩ | ⟨-, -, heq⟩ | ⟨nm, value, -, -, -, heq⟩
  · exact absurd hnext hfull.not_ge
  · exact absurd hnone hname
  · rw [heq]
  · rw [heq]
    unfold EnumTable.store
    split <;> rfl

/-- If they cannot, it stops the iteration, and nothing changes. -/
theorem autoconfIterSymbol_of_full (hkind : symbolKind symbol = .type) {s : ConfState}
    (hnext : nTypes < s.types.next) : autoconfIterSymbol readsym symbol s = (-1, s) := by
  have hfull : confUpdateType readsym symbol s.types = (-1, s.types) := if_pos hnext
  unfold symbolKind at hkind
  unfold autoconfIterSymbol
  by_cases hparent : "v8dbg_parent_".toList.isPrefixOf symbol
  · rw [if_pos hparent] at hkind
    cases hkind
  by_cases hclass : "v8dbg_class_".toList.isPrefixOf symbol
  · rw [if_neg hparent, if_pos hclass] at hkind
    cases hkind
  by_cases htype : "v8dbg_type_".toList.isPrefixOf symbol
  · rw [if_neg hparent, if_neg hclass, if_pos htype, hfull]
  · rw [if_neg hparent, if_neg hclass, if_neg htype] at hkind
    split at hkind <;> cases hkind

end Next

/-! ### The last configuration -/

section Last

variable (st : V8State)

/-- The first symbol of the last configuration is one of a type. -/
theorem v8Cfg06_symbols : ∃ rest, v8Cfg06.symbols =
    "v8dbg_type_AccessCheckInfo__ACCESS_CHECK_INFO_TYPE".toList :: rest := ⟨_, rfl⟩

/-- `autoconfigure` never leaves fewer types. -/
theorem autoconfigure_next_ge {cfgp : V8Cfg} {symbol : CStr} {rest : List CStr}
    (hsymbols : cfgp.symbols = symbol :: rest) {st st' : V8State} {rv : ℤ}
    (hload : autoconfigure cfgp st = some (rv, st')) :
    (autoconfIterSymbol cfgp.readsym symbol st.conf).2.types.next ≤ st'.conf.types.next := by
  have hiter : (autoconfIterSymbol cfgp.readsym symbol st.conf).2.types.next ≤
      (cfgIter cfgp.readsym cfgp.symbols st.conf).2.types.next := by
    rw [hsymbols]
    unfold cfgIter
    dsimp only
    split
    · exact le_rfl
    · exact cfgIter_next_ge _ _ _
  -- what follows the iteration does not enter any types
  refine hiter.trans (le_of_eq ?_)
  unfold autoconfigure at hload
  split at hload
  · cases hload
  dsimp only at hload
  split at hload
  · obtain rfl := congrArg Prod.snd (Option.some.inj hload)
    rfl
  split at hload
  · cases hload
  split at hload
  · cases hload
  · obtain rfl := congrArg Prod.snd (Option.some.inj hload)
    rfl

/-- **The last configuration leaves everything as it has been** only if no more types are entered; then it
fails. -/
theorem autoconfigure_last_iff (hclasses : st.conf.classes = []) :
    (∃ status : DcmdStatus, status ≠ .ok ∧
      ((autoconfigure v8Cfg06 st).map fun r => (if r.1 = -1 then .err else .ok, r.2)) =
        some (status, st)) ↔ nTypes < st.conf.types.next := by
  obtain ⟨rest, hsymbols⟩ := v8Cfg06_symbols
  constructor
  · -- if anything is as it has been, no type has been entered
    rintro ⟨status, -, hload⟩
    obtain ⟨⟨rv, st'⟩, hload', hpair⟩ := Option.map_eq_some_iff.mp hload
    obtain rfl : st' = st := congrArg Prod.snd hpair
    have hle := autoconfigure_next_ge hsymbols hload'
    by_contra hnext
    rw [autoconfIterSymbol_next_of_type (by decide) (by decide) (not_lt.mp hnext)] at hle
    exact absurd hle (Nat.not_succ_le_self _)
  · -- with full tables the first symbol fails, and with it everything
    intro hnext
    have hstep : autoconfIterSymbol v8Cfg06.readsym
        "v8dbg_type_AccessCheckInfo__ACCESS_CHECK_INFO_TYPE".toList st.conf = (-1, st.conf) :=
      autoconfIterSymbol_of_full (by decide) hnext
    have hiter : cfgIter v8Cfg06.readsym v8Cfg06.symbols st.conf = (-1, st.conf) := by
      rw [hsymbols, cfgIter, hstep]
      rfl
    have hload : autoconfigure v8Cfg06 st = some (-1, st) := by
      unfold autoconfigure
      rw [if_neg (not_not.mpr hclasses), hiter]
      rfl
    exact ⟨.err, by decide, by rw [hload]; rfl⟩

end Last

/-! ### What a command loads -/

section Commands

variable {argv : List CmdArg} {st : V8State}

/-- The loop over the configurations: it finds the one with the name, or leaves the last one. -/
theorem loopCfg_eq (str : CStr) :
    loopCfg str v8Cfgs none = some ((v8Cfgs.find? fun cfg => cfg.name = some str).getD v8Cfg06) := by
  unfold v8Cfgs
  rw [loopCfg, loopCfg, loopCfg, List.find?_cons, List.find?_cons, List.find?_nil]
  by_cases h04 : v8Cfg04.name = some str
  · simp [h04]
  · by_cases h06 : v8Cfg06.name = some str <;> simp [h04, h06]

theorem v8Cfgs_name {str : CStr} :
    ((v8Cfgs.find? fun cfg => cfg.name = some str).getD v8Cfg06).name ≠ none := by
  cases hfind : v8Cfgs.find? fun cfg => cfg.name = some str with
  | none => exact Option.some_ne_none _
  | some cfgp =>
    have hname : cfgp.name = some str := by simpa using List.find?_some hfind
    rw [Option.getD_some, hname]
    exact Option.some_ne_none _

/-- The command, when nothing has been configured. -/
theorem dcmdV8load_string (hclasses : st.conf.classes = []) (str : CStr) (rest : List CmdArg) :
    dcmdV8load (.string str :: rest) st =
      (autoconfigure ((namedCfg (.string str :: rest)).getD v8Cfg06) st).map fun r =>
        (if r.1 = -1 then .err else .ok, r.2) := by
  unfold dcmdV8load
  rw [if_neg (not_not.mpr hclasses)]
  dsimp only
  rw [loopCfg_eq]
  dsimp only
  rw [if_neg v8Cfgs_name]
  rfl

/-- **One command** loads what it is asked for if and only if it fits. -/
theorem loadExact_iff : LoadExact argv st ↔ LoadFits argv st := by
  unfold LoadExact LoadFits
  by_cases hclasses : st.conf.classes = []
  · cases hnamed : namedCfg argv with
    | some cfgp =>
      -- a name of the table loads that configuration
      refine iff_of_true ?_ (.inr (.inr (.inl (Option.some_ne_none _))))
      dsimp only
      rw [if_pos hclasses]
      cases argv with
      | nil => cases hnamed
      | cons arg rest =>
        cases arg with
        | immediate val => cases hnamed
        | string str => rw [dcmdV8load_string hclasses, hnamed, Option.getD_some]
    | none =>
      -- any other name loads the last one
      by_cases hstring : ∃ str rest, argv = .string str :: rest
      · obtain ⟨str, rest, rfl⟩ := hstring
        have hlast := autoconfigure_last_iff st hclasses
        dsimp only
        rw [dcmdV8load_string hclasses, hnamed, Option.getD_none, hlast]
        constructor
        · exact fun hnext => .inr (.inr (.inr hnext))
        · rintro (hne | hno | hnamed | hnext)
          · exact absurd hclasses hne
          · exact absurd rfl (hno str rest)
          · exact absurd rfl hnamed
          · exact hnext
      · have hno : ∀ str rest, argv ≠ .string str :: rest := by simpa using hstring
        refine iff_of_true ⟨.usage, by decide, ?_⟩ (.inr (.inl hno))
        unfold dcmdV8load
        rw [if_neg (not_not.mpr hclasses)]
        split
        · next str rest => exact absurd rfl (hno str rest)
        · rfl
  · have hload : dcmdV8load argv st = some (.err, st) := if_pos hclasses
    refine iff_of_true ?_ (.inl hclasses)
    cases namedCfg argv with
    | some cfgp =>
      dsimp only
      rw [if_neg hclasses]
      exact hload
    | none => exact ⟨.err, by decide, hload⟩

end Commands

/-! ### Runs -/

section Runs

variable {t : V8Target}

theorem v8loadRun_append (done : List (List CmdArg)) (argv : List CmdArg) (st : V8State) :
    v8loadRun (done ++ [argv]) st =
      (v8loadRun done st).bind fun st => (dcmdV8load argv st).map Prod.snd := by
  induction done generalizing st with
  | nil =>
    rw [List.nil_append, v8loadRun, v8loadRun, Option.bind_some]
    cases dcmdV8load argv st <;> rfl
  | cons argv' done ih =>
    change (dcmdV8load argv' st).bind _ = ((dcmdV8load argv' st).bind _).bind _
    cases dcmdV8load argv' st with
    | none => rfl
    | some r => exact ih r.2

/-- One more command, and where the globals are from. -/
theorem LoadedFrom.step {done : List (List CmdArg)} {argv : List CmdArg} {st st' : V8State}
    (hst : LoadedFrom t done st) (hexact : LoadExact argv st) {status : DcmdStatus}
    (hload : dcmdV8load argv st = some (status, st')) : LoadedFrom t (done ++ [argv]) st' := by
  unfold LoadExact at hexact
  cases hnamed : namedCfg argv with
  | none =>
    rw [hnamed] at hexact
    obtain ⟨status', -, hsame⟩ := hexact
    obtain rfl : st = st' := congrArg Prod.snd (Option.some.inj (hsame.symm.trans hload))
    exact .refused argv hst
  | some cfgp =>
    rw [hnamed] at hexact
    dsimp only at hexact
    by_cases hclasses : st.conf.classes = []
    · rw [if_pos hclasses, hload] at hexact
      obtain ⟨⟨rv, st''⟩, hconf, hpair⟩ := Option.map_eq_some_iff.mp hexact.symm
      obtain rfl : st'' = st' := congrArg Prod.snd hpair
      exact .named hst hclasses hnamed hconf
    · rw [if_neg hclasses, hload] at hexact
      obtain rfl : st' = st := congrArg Prod.snd (Option.some.inj hexact)
      exact .refused argv hst

/-- **When a run loads what it is asked for**: if and only if every command fits when it is its turn. -/
theorem loadsExact_iff (t : V8Target) (cmds : List (List CmdArg)) :
    LoadsExact t cmds ↔ LoadsFit t cmds := by
  constructor
  · exact fun h done argv rest st hcmds hst => loadExact_iff.mp (h.commands done argv rest st hcmds hst)
  · intro hfits
    refine ⟨fun done argv rest st hcmds hst => loadExact_iff.mpr (hfits done argv rest st hcmds hst), ?_⟩
    intro done
    -- the induction is on the commands that have been run
    induction done using List.reverseRecOn with
    | nil =>
      intro rest st _ hst
      rw [Option.bind_eq_some_iff] at hst
      obtain ⟨st', hstart, hsame⟩ := hst
      obtain rfl : st' = st := Option.some.inj hsame
      exact .start hstart
    | append_singleton done argv ih =>
      intro rest st hcmds hst
      rw [List.append_assoc, List.singleton_append] at hcmds
      obtain ⟨st₀, hstart, hrun⟩ := Option.bind_eq_some_iff.mp hst
      rw [v8loadRun_append] at hrun
      obtain ⟨st₁, hdone, hload⟩ := Option.bind_eq_some_iff.mp hrun
      obtain ⟨⟨status, st'⟩, hcmd, hsame⟩ := Option.map_eq_some_iff.mp hload
      obtain rfl : st' = st := hsame
      have hreach : t.configure.bind (v8loadRun done) = some st₁ := by
        rw [hstart]
        exact hdone
      have hexact : LoadExact argv st₁ := loadExact_iff.mpr (hfits done argv rest st₁ hcmds hreach)
      exact (ih (argv :: rest) st₁ hcmds hreach).step hexact hcmd

/-- A target without metadata, of a version for which there is no configuration. -/
def bareTarget : V8Target where
  model := .lp64
  readInt _ := some 4
  lookupByName _ := false
  symbols := []

/-- There, a name that is none of a configuration loads the last one. -/
theorem not_loadsExact_bare : ¬ LoadsExact bareTarget [[.string "node-0.8".toList]] := by
  intro hexact
  have hstart : bareTarget.configure = some (bareTarget.versioned (4, 4, 4, 4)) := rfl
  have hload := loadExact_iff.mp (hexact.commands [] _ [] _ rfl (by rw [hstart]; rfl))
  rcases hload with hclasses | hno | hnamed | hnext
  · exact absurd rfl hclasses
  · exact absurd rfl (hno _ _)
  · exact absurd (by decide) hnamed
  · exact absurd hnext (by decide)

end Runs

end MdbV8
