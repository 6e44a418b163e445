import MdbV8.Arrays.BlockSizes
import MdbV8.Find.Rescan

/-!
# The functions that are listed

`::jsfunctions` lists the functions of the cache that pass its filters: by the name of the function, by
the name of the script and by an address in the instructions. The options `-X` and `-l` are about the
columns; `-l` is refused together with a filter.

A function passes a filter by an address if its instructions cannot be read, or if there are none: the
address is looked at only if the length that has been read is not zero. Apart from these functions,
`jsfunctionsListing` says that the functions listed are the ones that meet the filters.
-/

namespace MdbV8

/-! ### The filters -/

/-- The function of a line, by the address in its first column. -/
def FindLine.listed : FindLine → Option ℕ
  | .address addr => some addr
  | .function addr .. => some addr
  | _ => none

/-- The functions that are listed by some lines. -/
def listedFunctions (lines : List FindLine) : List ℕ := lines.filterMap FindLine.listed

/-- The address by which a function is listed: its first closure. -/
def FindFunc.representative (func : FindFunc) : ℕ := func.instances.headD 0

/-- There is a filter among the options. -/
def JsfunctionsOpts.filters (opts : JsfunctionsOpts) : Bool :=
  opts.name.isSome || opts.filename.isSome || opts.instr ≠ 0

/-- The instructions form a range, of which the end is an address too, and the address is in it. -/
def InstructionsContain (c : Config) (code ilen addr : ℕ) : Prop :=
  let start := c.add code c.offCodeInstructionStart
  start + ilen < 2 ^ c.bits ∧ start ≤ addr ∧ addr < start + ilen

section Listing

variable (t : Target)

/-- The names of a function meet the filters. -/
structure FindFunc.MeetsNames (opts : JsfunctionsOpts) (func : FindFunc) : Prop where
  name : ∀ name, opts.name = some name → name <:+: func.funcname
  filename : ∀ filename, opts.filename = some filename → filename <:+: func.scriptname

/-- **A function meets the filters**: its names do, and it has instructions, with the address among
them. -/
structure FindFunc.Meets (opts : JsfunctionsOpts) (func : FindFunc) : Prop
    extends func.MeetsNames opts where
  instr : opts.instr ≠ 0 → ∃ code ilen, jsfunctionsCode t func = some (code, ilen) ∧
    InstructionsContain t.cfg code ilen opts.instr

/-- The instructions of a function can be read, and there are some. -/
def FindFunc.HasCode (func : FindFunc) : Prop :=
  ∃ code ilen, jsfunctionsCode t func = some (code, ilen) ∧ ilen ≠ 0

/-- The table of the line endings of the script is none whose block would be cut. -/
def FindFunc.LinesFit (func : FindFunc) : Prop :=
  ∀ script lends, t.readHeapPtr func.shared t.cfg.offSharedfunctioninfoScript = some script →
    t.readHeapPtr script t.cfg.offScriptLineEnds = some lends → WrappedBlock t lends →
      jsobjIsUndefined t lends = true

variable {t} {opts : JsfunctionsOpts} {func : FindFunc}

theorem strstr_iff {s needle : List UInt8} : strstr s needle = true ↔ needle <:+: s := by
  rw [strstr, List.any_eq_true, List.infix_iff_prefix_suffix]
  constructor
  · rintro ⟨tail, htail, hprefix⟩
    exact ⟨tail, List.isPrefixOf_iff_prefix.mp hprefix, (List.mem_tails _ _).mp htail⟩
  · rintro ⟨tail, hprefix, htail⟩
    exact ⟨tail, (List.mem_tails _ _).mpr htail, List.isPrefixOf_iff_prefix.mpr hprefix⟩

/-- What the comparisons with the two ends say, which are computed as addresses. -/
theorem instructionRange_iff {code ilen addr : ℕ} (hlen : ilen < 2 ^ t.cfg.bits) :
    (instructionRange t.cfg code ilen).1 ≤ addr ∧ addr < (instructionRange t.cfg code ilen).2 ↔
      InstructionsContain t.cfg code ilen addr := by
  have hend : (instructionRange t.cfg code ilen).2 =
      (t.cfg.add code t.cfg.offCodeInstructionStart + ilen) % 2 ^ t.cfg.bits := by
    rw [← t.cfg.add_natCast, t.cfg.add_add, Config.add, ← add_assoc]
    rfl
  have hstart : t.cfg.add code t.cfg.offCodeInstructionStart < 2 ^ t.cfg.bits := t.cfg.add_lt _ _
  rw [hend]
  unfold InstructionsContain instructionRange
  dsimp only
  generalize t.cfg.add code t.cfg.offCodeInstructionStart = start at hstart ⊢
  by_cases hfits : start + ilen < 2 ^ t.cfg.bits
  · rw [Nat.mod_eq_of_lt hfits]
    exact (and_iff_right hfits).symm
  · -- the end is in front of the start
    have hwrapped : (start + ilen) % 2 ^ t.cfg.bits = start + ilen - 2 ^ t.cfg.bits := by
      rw [Nat.mod_eq_sub_mod (by omega), Nat.mod_eq_of_lt (by omega)]
    rw [hwrapped]
    omega

theorem jsfunctionsCode_lt {code ilen : ℕ} (h : jsfunctionsCode t func = some (code, ilen)) :
    ilen < 2 ^ t.cfg.bits := by
  unfold jsfunctionsCode at h
  cases hcode : t.readHeapPtr func.shared t.cfg.offSharedfunctioninfoCode with
  | none =>
    rw [hcode] at h
    cases h
  | some code' =>
    rw [hcode] at h
    obtain ⟨n, hn, heq⟩ := Option.map_eq_some_iff.mp h
    obtain ⟨-, rfl⟩ := Prod.mk.inj heq
    exact Target.readPtr_lt hn

/-- **Which functions are left out**: those whose names do not meet the filters, and those that have
instructions and do not have the address among them. -/
theorem jsfunctionsSkips_eq_false_iff :
    jsfunctionsSkips t opts func = false ↔ func.MeetsNames opts ∧
      (opts.instr ≠ 0 → ∀ code ilen, jsfunctionsCode t func = some (code, ilen) → ilen ≠ 0 →
        InstructionsContain t.cfg code ilen opts.instr) := by
  unfold jsfunctionsSkips
  rw [Bool.or_eq_false_iff, Bool.or_eq_false_iff, Option.any_eq_false, Option.any_eq_false]
  constructor
  · -- what is not left out meets the three filters
    rintro ⟨⟨hname, hfilename⟩, hinstr⟩
    refine ⟨⟨fun name h => ?_, fun filename h => ?_⟩, fun hne code ilen hcode hlen => ?_⟩
    · exact strstr_iff.mp (by simpa using hname name h)
    · exact strstr_iff.mp (by simpa using hfilename filename h)
    · rw [hcode, Option.any_some] at hinstr
      refine (instructionRange_iff (jsfunctionsCode_lt hcode)).mp ?_
      simpa [hne, hlen] using hinstr
  · -- and what meets them is not left out
    rintro ⟨⟨hname, hfilename⟩, hinstr⟩
    refine ⟨⟨fun name h => ?_, fun filename h => ?_⟩, ?_⟩
    · simpa using strstr_iff.mpr (hname name h)
    · simpa using strstr_iff.mpr (hfilename filename h)
    · by_cases hne : opts.instr = 0
      · simp [hne]
      cases hcode : jsfunctionsCode t func with
      | none => simp
      | some r =>
        obtain ⟨code, ilen⟩ := r
        by_cases hlen : ilen = 0
        · simp [hlen]
        have hrange := (instructionRange_iff (jsfunctionsCode_lt hcode)).mpr
          (hinstr hne code ilen hcode hlen)
        simpa [hne, hlen] using hrange

/-- A function that has instructions, or of which they are not asked for, is listed if and only if it
meets the filters. -/
theorem jsfunctionsSkips_eq_false_iff_meets
    (hcode : opts.instr ≠ 0 → func.MeetsNames opts → func.HasCode t) :
    jsfunctionsSkips t opts func = false ↔ func.Meets t opts := by
  rw [jsfunctionsSkips_eq_false_iff]
  constructor
  · rintro ⟨hnames, hinstr⟩
    refine ⟨hnames, fun hne => ?_⟩
    obtain ⟨code, ilen, hread, hlen⟩ := hcode hne hnames
    exact ⟨code, ilen, hread, hinstr hne code ilen hread hlen⟩
  · intro hmeets
    refine ⟨hmeets.toMeetsNames, fun hne code ilen hread _ => ?_⟩
    obtain ⟨code', ilen', hread', hcontain⟩ := hmeets.instr hne
    obtain ⟨rfl, rfl⟩ := Prod.mk.inj (Option.some.inj (hread.symm.trans hread'))
    exact hcontain

/-! ### The loop -/

/-- Where a function is defined is found out, or not, if the table of the lines fits. -/
theorem jsfuncLineno_isSome {lends tokpos : ℕ}
    (h : WrappedBlock t lends → jsobjIsUndefined t lends = true) :
    (jsfuncLineno t lends tokpos).isSome := by
  rw [jsfuncLineno_eq_linenoTable]
  split
  · rfl
  next hdef =>
  cases htable : linenoTable t lends with
  | none => rfl
  | some table =>
    obtain ⟨size, data⟩ := table
    obtain ⟨-, hlen, hsize, bs, rfl, hbs⟩ := linenoTable_block htable
    -- the block is as long as its length says
    have hfits : size * t.cfg.ptrSize < 2 ^ t.cfg.bits := by
      by_contra hge
      exact hdef (h ⟨size, hlen, Nat.not_lt.mp hge, hsize, bs, hbs⟩)
    have hlength : (Target.wordsOf t.cfg.ptrSize bs).length = size := by
      rw [Target.wordsOf_length, Target.mdbVread_length hbs, Nat.mod_eq_of_lt hfits]
      exact Nat.mul_div_cancel _ t.cfg.model.ptrSize_pos
    have hdata : Target.wordsOf t.cfg.ptrSize bs ≠ [] := by
      rintro hnil
      rw [hnil, List.length_nil] at hlength
      exact hsize (by rw [← hlength, Nat.zero_mul, Nat.zero_mod])
    rw [Option.isSome_map, ← hlength]
    exact lineSearch_isSome hdata tokpos

theorem jsfunctionsLocation_isSome (h : func.LinesFit t) : (jsfunctionsLocation t func).isSome := by
  unfold jsfunctionsLocation
  dsimp only
  split
  · rfl
  split
  · next tokpos script _ hscript =>
    cases hlends : t.readHeapPtr script t.cfg.offScriptLineEnds with
    | none => rfl
    | some lends =>
      dsimp only
      rw [Option.isSome_map]
      exact jsfuncLineno_isSome (h script lends hscript hlends)
  · rfl

/-- One function of the loop leaves the others as they are, and its own entry too. -/
theorem entry_getD_set (nodes : List FindFunc) (p q : ℕ) (location : List UInt8) :
    ((nodes.set p { nodes.getD p default with location }).getD q default).entry =
      (nodes.getD q default).entry := by
  rw [List.getD_eq_getElem?_getD, List.getD_eq_getElem?_getD, List.getD_eq_getElem?_getD,
    List.getElem?_set]
  split
  · next heq =>
    subst heq
    split
    · next hlt =>
      rw [List.getElem?_eq_getElem hlt]
      rfl
    · next hge =>
      rw [List.getElem?_eq_none (Nat.not_lt.mp hge)]
  · rfl

variable (t opts) in
/-- **The loop** lists the functions that are not left out, in order. -/
theorem listedFunctions_jsfunctionsLoop (ps : List ℕ) (nodes : List FindFunc)
    (hfit : ∀ p ∈ ps, (nodes.getD p default).entry.LinesFit t) :
    ∃ lines nodes', jsfunctionsLoop t opts ps nodes = some (lines, nodes') ∧
      listedFunctions lines = ((ps.map fun p => (nodes.getD p default).entry).filter
        fun func => !jsfunctionsSkips t opts func).map FindFunc.representative := by
  induction ps generalizing nodes with
  | nil => exact ⟨[], nodes, rfl, rfl⟩
  | cons p ps ih =>
    obtain ⟨hp, hps⟩ := List.forall_mem_cons.mp hfit
    obtain ⟨location, hlocation⟩ := Option.isSome_iff_exists.mp
      (jsfunctionsLocation_isSome (show (nodes.getD p default).LinesFit t from hp))
    have hentry (q : ℕ) := entry_getD_set nodes p q location
    obtain ⟨lines, nodes', hloop, hlisted⟩ := ih _ fun q hq => by
      rw [hentry]
      exact hps q hq
    simp only [hentry] at hlisted
    unfold jsfunctionsLoop
    dsimp only
    rw [hlocation]
    dsimp only
    rw [hloop]
    refine ⟨_, nodes', rfl, ?_⟩
    rw [List.map_cons, List.filter_cons]
    -- where a function is defined plays no part in whether it is listed
    change listedFunctions (if jsfunctionsSkips t opts (nodes.getD p default).entry then lines
      else jsfunctionsLine t opts { nodes.getD p default with location } :: lines) = _
    cases hskips : jsfunctionsSkips t opts (nodes.getD p default).entry with
    | true =>
      rw [if_pos rfl, Bool.not_true, if_neg Bool.false_ne_true]
      exact hlisted
    | false =>
      have hline : (jsfunctionsLine t opts { nodes.getD p default with location }).listed =
          some (nodes.getD p default).representative := by
        unfold jsfunctionsLine
        dsimp only
        split <;> rfl
      rw [if_neg Bool.false_ne_true, Bool.not_false, if_pos rfl, List.map_cons, ← hlisted]
      unfold listedFunctions
      rw [List.filterMap_cons, hline]
      rfl

end Listing

/-! ### The command -/

section Command

variable (t : Target) (maps : List Prmap) {L : FindLib t.cfg}

/-- A command that succeeds lists some functions. -/
def FindResult.Lists {c : Config} {L : FindLib c} (result : FindResult L) (addrs : List ℕ) : Prop :=
  ∃ lines fjs, result = .returned .ok lines fjs ∧ listedFunctions lines = addrs

/-- A command that fails lists no function. -/
def FindResult.Refuses {c : Config} {L : FindLib c} (result : FindResult L) : Prop :=
  ∃ lines fjs, result = .returned .err lines fjs ∧ listedFunctions lines = []

/-- **The filters say what is listed**, with any of the columns: the functions of the cache that meet
them, in order. -/
def FiltersSelect (env : ScanEnv) (opts : JsfunctionsOpts) (fjs : FindState L) : Prop :=
  ∀ lines fjs', findjsobjectsRun t maps env fjs = some (.returned 0, lines, fjs') → fjs'.finished →
    ∃ keep : FindFunc → Bool, (∀ func ∈ fjs'.cache.functions, keep func = true ↔ func.Meets t opts) ∧
      ∀ listlike showrange,
        (dcmdJsfunctions t maps env none { opts with listlike, showrange } fjs).Lists
          ((fjs'.cache.functions.filter keep).map FindFunc.representative)

variable {t maps} {env : ScanEnv} {opts : JsfunctionsOpts} {fjs fjs' : FindState L}
  {lines : List FindLine}

theorem listedFunctions_append (lines lines' : List FindLine) :
    listedFunctions (lines ++ lines') = listedFunctions lines ++ listedFunctions lines' :=
  List.filterMap_append

/-- What is printed after a scan are statistics. -/
theorem listedFunctions_findjsobjectsRun
    (hrun : findjsobjectsRun t maps env fjs = some (.returned 0, lines, fjs')) :
    listedFunctions lines = [] := by
  unfold findjsobjectsRun findjsobjectsScan at hrun
  dsimp only at hrun
  split at hrun
  · cases houtcome : env.outcome with
    | completed =>
      rw [houtcome] at hrun
      obtain ⟨scan, -, heq⟩ := Option.map_eq_some_iff.mp hrun
      obtain ⟨hlines, -⟩ := Prod.mk.inj (Prod.mk.inj heq).2
      rw [← hlines]
      split <;> rfl
    | noHandle => simp [houtcome] at hrun
    | failed nmaps => simp [houtcome] at hrun
    | abandoned naddrs => simp [houtcome] at hrun
  · obtain ⟨rfl, -⟩ := by simpa using hrun
    rfl

/-- The body lists the functions that are not left out. -/
theorem lists_jsfunctionsBody (hfit : ∀ func ∈ fjs.cache.functions, func.LinesFit t) :
    (jsfunctionsBody t none opts fjs).Lists
      ((fjs.cache.functions.filter fun func => !jsfunctionsSkips t opts func).map
        FindFunc.representative) := by
  obtain ⟨lines, nodes', hloop, hlisted⟩ :=
    listedFunctions_jsfunctionsLoop t opts fjs.cache.funcs fjs.cache.funcNodes fun p hp =>
      hfit (fjs.cache.funcNodes.getD p default) (List.mem_map_of_mem hp)
  unfold jsfunctionsBody
  dsimp only
  rw [hloop]
  refine ⟨_, _, rfl, ?_⟩
  have hheader : listedFunctions (if opts.listlike then lines
      else .funcHeader opts.showrange :: lines) = listedFunctions lines := by
    split <;> rfl
  rw [hheader, hlisted, FindCache.functions]
  -- a function and its entry are listed alike
  rw [List.filter_map, List.map_map, List.filter_map, List.map_map]
  rfl

/-- The command goes on to its body, unless `-l` is given with a filter. -/
theorem dcmdJsfunctions_of_run (hvalid : opts.valid = true)
    (hrun : findjsobjectsRun t maps env fjs = some (.returned 0, lines, fjs'))
    (hfinished : fjs'.finished = true) :
    dcmdJsfunctions t maps env none opts fjs =
      if opts.listlike && opts.filters then .returned .err lines fjs'
      else (jsfunctionsBody t none opts fjs').after lines := by
  unfold dcmdJsfunctions JsfunctionsOpts.filters
  rw [hvalid, hrun]
  simp [hfinished]

theorem FindResult.Lists.after {result : FindResult L} {addrs : List ℕ} (h : result.Lists addrs)
    (hlines : listedFunctions lines = []) : (result.after lines).Lists addrs := by
  obtain ⟨lines', fjs₁, rfl, hlisted⟩ := h
  refine ⟨lines ++ lines', fjs₁, rfl, ?_⟩
  rw [listedFunctions_append, hlines, hlisted, List.nil_append]

/-- **The listing.** Of functions of which the instructions can be read, if they are asked for, those are
listed that meet the filters, with any of the columns; only `-l` is refused if there is a filter. -/
theorem jsfunctionsListing (hvalid : opts.valid = true)
    (hrun : findjsobjectsRun t maps env fjs = some (.returned 0, lines, fjs'))
    (hfinished : fjs'.finished = true) (hfit : ∀ func ∈ fjs'.cache.functions, func.LinesFit t) :
    ∃ keep : FindFunc → Bool,
      (∀ func ∈ fjs'.cache.functions, (opts.instr ≠ 0 → func.MeetsNames opts → func.HasCode t) →
        (keep func = true ↔ func.Meets t opts)) ∧
      ∀ listlike showrange,
        let result := dcmdJsfunctions t maps env none { opts with listlike, showrange } fjs
        if listlike && opts.filters then result.Refuses
        else result.Lists ((fjs'.cache.functions.filter keep).map FindFunc.representative) := by
  refine ⟨fun func => !jsfunctionsSkips t opts func, fun func _ hcode => ?_,
    fun listlike showrange => ?_⟩
  · rw [Bool.not_eq_true', jsfunctionsSkips_eq_false_iff_meets hcode]
  · have hlines := listedFunctions_findjsobjectsRun hrun
    dsimp only
    have hvalid' : ({ opts with listlike, showrange } : JsfunctionsOpts).valid = true := hvalid
    rw [dcmdJsfunctions_of_run hvalid' hrun hfinished]
    change if listlike && opts.filters then FindResult.Refuses (if listlike && opts.filters then _ else _)
      else FindResult.Lists (if listlike && opts.filters then _ else _) _
    -- with `-l`, the filters are refused
    by_cases hrefuse : (listlike && opts.filters) = true
    · rw [if_pos hrefuse, if_pos hrefuse]
      exact ⟨lines, fjs', rfl, hlines⟩
    · rw [if_neg hrefuse, if_neg hrefuse]
      exact (lists_jsfunctionsBody hfit).after hlines

end Command

/-! ### A function that cannot be read -/

/-- A target with a function that has instructions from `0x10520` to `0x10560`. -/
def listingTarget : Target :=
  .ofWords
    { Config.sample .ilp32 with
      offSharedfunctioninfoCode := 7
      offCodeInstructionSize := 3
      offCodeInstructionStart := 31 }
    [(0x10108, 0x10501), (0x10504, 0x40)]

/-- A cache with this function and one that cannot be read. -/
def listingCache : FindCache (.lists listingTarget.cfg) :=
  let unread : FindFunc := { closureFunc with shared := 0x10701, instances := [0x1041] }
  let objects := (FindCache.empty.enterObj (findjsobjectsAlloc 0x2001) 0x2001).2
  ((objects.enterFunc closureFunc 0x1001).2.enterFunc unread 0x1041).2

/-- The state after a scan that has found them. -/
def listingState : FindState (.lists listingTarget.cfg) :=
  { FindState.init (.lists listingTarget.cfg) with
    cache := listingCache
    initialized := true
    finished := true }

/-- A command that does not have to scan. -/
def listingEnv : ScanEnv := { outcome := .completed, outside := fun _ _ => 0, elapsed := 0 }

theorem listingState_run : findjsobjectsRun listingTarget [] listingEnv listingState =
    some (.returned 0, [], listingState) := findjsobjectsRun_cached _ _ (by decide)

theorem listingState_fits : ∀ func ∈ listingState.cache.functions, func.LinesFit listingTarget := by
  intro func hfunc script lends hscript
  have hnone : ∀ func ∈ listingState.cache.functions, listingTarget.readHeapPtr func.shared
      listingTarget.cfg.offSharedfunctioninfoScript = none := by decide
  rw [hnone func hfunc] at hscript
  cases hscript

theorem jsfunctionsListing_two : ∃ keep : FindFunc → Bool,
    (∀ func ∈ listingState.cache.functions,
      (0x10530 ≠ 0 → func.MeetsNames { instr := 0x10530 } → func.HasCode listingTarget) →
        (keep func = true ↔ func.Meets listingTarget { instr := 0x10530 })) ∧
      ∀ listlike showrange,
        let result := dcmdJsfunctions listingTarget [] listingEnv none
          { instr := 0x10530, listlike, showrange } listingState
        if listlike && JsfunctionsOpts.filters { instr := 0x10530 } then result.Refuses
        else result.Lists ((listingState.cache.functions.filter keep).map FindFunc.representative) :=
  jsfunctionsListing (show ({ instr := 0x10530 } : JsfunctionsOpts).valid = true from rfl)
    listingState_run rfl listingState_fits

/-- With a name, `-l` is refused; and with an address, the function that cannot be read is listed. -/
theorem not_filtersSelect :
    ¬ FiltersSelect listingTarget [] listingEnv { name := some [0x66] } listingState ∧
      ¬ FiltersSelect listingTarget [] listingEnv { instr := 0x10530 } listingState := by
  constructor
  · intro h
    obtain ⟨keep, -, hlists⟩ := h [] listingState listingState_run rfl
    obtain ⟨lines, fjs, hresult, -⟩ := hlists true false
    rw [dcmdJsfunctions_of_run rfl listingState_run rfl] at hresult
    cases hresult
  · intro h
    obtain ⟨keep, hkeep, hlists⟩ := h [] listingState listingState_run rfl
    obtain ⟨lines, fjs, hresult, hlisted⟩ := hlists false false
    -- both functions are listed
    have hbody : (jsfunctionsBody listingTarget none { instr := 0x10530 } listingState).Lists _ :=
      lists_jsfunctionsBody listingState_fits
    obtain ⟨lines', fjs', hresult', hlisted'⟩ := hbody.after (show listedFunctions [] = [] from rfl)
    rw [dcmdJsfunctions_of_run rfl listingState_run rfl] at hresult
    obtain ⟨-, rfl, rfl⟩ := FindResult.returned.inj (hresult'.symm.trans hresult)
    have hall : (listingState.cache.functions.filter keep).length =
        listingState.cache.functions.length := by
      rw [← List.length_map (f := FindFunc.representative), ← hlisted, hlisted']
      decide
    rw [List.length_filter_eq_length_iff] at hall
    -- and one of them cannot be read
    have hunread : ∃ func ∈ listingState.cache.functions,
        jsfunctionsCode listingTarget func = none := by decide
    obtain ⟨func, hfunc, hnone⟩ := hunread
    obtain ⟨code, ilen, hcode, -⟩ :=
      ((hkeep func hfunc).mp (hall func hfunc)).instr (show 0x10530 ≠ 0 by decide)
    rw [hnone] at hcode
    cases hcode

end MdbV8
