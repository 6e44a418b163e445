import MdbV8.Find.Collect
import MdbV8.Find.Rescan

/-!
# Marks over several commands

An object may be marked by one command (`-m`) and looked for by a later one (`-r`), which may also
name an object itself, or a group of objects (`-l`). A command that looks for references marks what
it names, prints the references to all that is marked, and takes the marks back.

To mark an address a second time is harmless for a command that marks. For a command that looks for
references it is not: it asserts that it is one that marks. And a command that is to look for
references and to list, without an address, lists.

`Apart` excludes these. In a run in which every command is so, no assertion fails, the tree and the
list of the marks agree after every command, and every search reports what is marked in order and
leaves no mark (`marksKept`).
-/

namespace MdbV8

/-- What a line reports references to. -/
def FindLine.about : FindLine → Option ℕ
  | .notReferred addr => some addr
  | .referred addr _ _ => some addr
  | _ => none

/-- **Reports in order**: the reports of an output are blocks, one for each of the addresses, and none
of them empty. -/
def ReportsInOrder (lines : List FindLine) (addrs : List ℕ) : Prop :=
  ∃ blocks : List (List FindLine), (lines.filter fun l => l.about.isSome) = blocks.flatten ∧
    List.Forall₂ (fun block addr => block ≠ [] ∧ ∀ l ∈ block, l.about = some addr) blocks addrs

/-- Neither a property name nor a constructor nor a kind of properties is asked for. -/
def FindOpts.plain (opts : FindOpts) : Prop :=
  opts.propname = none ∧ opts.constructor = none ∧ opts.propkind = none

section Marks

variable {c : Config} {L : FindLib c}

/-- The instances that a command names. -/
def FindState.named (fjs : FindState L) (addr : Option ℕ) (listlike : Bool) : List ℕ :=
  match addr with
  | none => []
  | some addr =>
    match findjsobjectsInstance fjs addr with
    | none => []
    | some obj => if listlike then obj.instances else [addr]

/-- **The condition on a command**, in the state after the scan: what a search names is not marked
already, and named once; and a search that lists has an address, unless there is no mark. -/
structure FindOpts.Apart (opts : FindOpts) (addr : Option ℕ) (fjs : FindState L) : Prop where
  apart : opts.references → opts.marking = false →
    (fjs.refs.addrs ++ fjs.named addr opts.listlike).Nodup
  listed : opts.references → opts.listlike → addr = none → fjs.refs.addrs = []

/-! ### Marking -/

/-- **Marking one address.** -/
theorem findjsobjectsReferent_eq {fjs : FindState L} (hmarks : fjs.refs.Marks) (addr : ℕ) :
    if addr ∈ fjs.refs.addrs then
      findjsobjectsReferent fjs addr = if fjs.marking then .ok ([], fjs) else .error .assertion
    else ∃ refs : FindRefs L, refs.Marks ∧ refs.list = fjs.refs.list ++ [({ addr } : FindReferent)] ∧
      findjsobjectsReferent fjs addr =
        .ok (if fjs.marking then [.marked addr] else [], { fjs with refs }) := by
  unfold findjsobjectsReferent
  have hfind := hmarks.find_isSome_iff addr
  cases hp : L.referents.find fjs.refs.tree addr with
  | some p =>
    rw [hp] at hfind
    rw [if_pos (hfind.mp rfl)]
  | none =>
    rw [hp] at hfind
    rw [if_neg (fun hmem => by simpa using hfind.mpr hmem)]
    refine ⟨_, ?_, rfl, rfl⟩
    unfold FindRefs.Marks FindRefs.addrs
    have hadd := Lib.Avl.Indexes.add hmarks hp
    rw [FindRefs.addrs, List.length_map] at hadd
    simpa using hadd

theorem findjsobjectsReferentAll_cons {fjs fjs' fjs'' : FindState L} {addr : ℕ} {addrs : List ℕ}
    {lines lines' : List FindLine} (hone : findjsobjectsReferent fjs addr = .ok (lines, fjs'))
    (hrest : findjsobjectsReferentAll addrs fjs' = .ok (lines', fjs'')) :
    findjsobjectsReferentAll (addr :: addrs) fjs = .ok (lines ++ lines', fjs'') := by
  unfold findjsobjectsReferentAll
  rw [hone]
  dsimp only
  rw [hrest]

/-- Marking some addresses is never a fault for a command that marks. -/
theorem findjsobjectsReferentAll_marking (addrs : List ℕ) {fjs : FindState L}
    (hmarks : fjs.refs.Marks) (hmarking : fjs.marking = true) :
    ∃ lines fjs', findjsobjectsReferentAll addrs fjs = .ok (lines, fjs') ∧ fjs'.refs.Marks ∧
      fjs'.initialized = fjs.initialized := by
  induction addrs generalizing fjs with
  | nil => exact ⟨[], fjs, rfl, hmarks, rfl⟩
  | cons addr addrs ih =>
    have hone := findjsobjectsReferent_eq hmarks addr
    by_cases hmem : addr ∈ fjs.refs.addrs
    · -- it is marked already
      rw [if_pos hmem, if_pos hmarking] at hone
      obtain ⟨lines, fjs', hrest, hmarks', hinit⟩ := ih hmarks hmarking
      exact ⟨_, _, findjsobjectsReferentAll_cons hone hrest, hmarks', hinit⟩
    · rw [if_neg hmem] at hone
      obtain ⟨refs, hrefs, -, heq⟩ := hone
      have hmarking' : ({ fjs with refs } : FindState L).marking = true := hmarking
      obtain ⟨lines, fjs', hrest, hmarks', hinit⟩ := ih hrefs hmarking'
      exact ⟨_, _, findjsobjectsReferentAll_cons heq hrest, hmarks', hinit⟩

/-- Addresses that are not marked yet are all marked by a search. -/
theorem findjsobjectsReferentAll_apart {addrs : List ℕ} {fjs : FindState L}
    (hmarks : fjs.refs.Marks) (hmarking : fjs.marking = false)
    (hnodup : (fjs.refs.addrs ++ addrs).Nodup) :
    ∃ refs : FindRefs L, findjsobjectsReferentAll addrs fjs = .ok ([], { fjs with refs }) ∧
      refs.Marks ∧ refs.addrs = fjs.refs.addrs ++ addrs := by
  induction addrs generalizing fjs with
  | nil => exact ⟨fjs.refs, rfl, hmarks, (List.append_nil _).symm⟩
  | cons addr addrs ih =>
    have hnotin : addr ∉ fjs.refs.addrs := fun hmem =>
      (List.nodup_append.mp hnodup).2.2 addr hmem addr List.mem_cons_self rfl
    have hone := findjsobjectsReferent_eq hmarks addr
    rw [if_neg hnotin] at hone
    -- the first one is marked, and the induction hypothesis is for the others
    obtain ⟨refs, hrefs, hlist, heq⟩ := hone
    have haddrs : refs.addrs = fjs.refs.addrs ++ [addr] := by
      rw [FindRefs.addrs, hlist, List.map_append]
      rfl
    have hsplit : refs.addrs ++ addrs = fjs.refs.addrs ++ addr :: addrs := by
      rw [haddrs, List.append_assoc]
      rfl
    have hmarking' : ({ fjs with refs } : FindState L).marking = false := hmarking
    have hnodup' : (({ fjs with refs } : FindState L).refs.addrs ++ addrs).Nodup := by
      rw [hsplit]
      exact hnodup
    obtain ⟨refs', hrest, hrefs', haddrs'⟩ := ih hrefs hmarking' hnodup'
    refine ⟨refs', ?_, hrefs', haddrs'.trans hsplit⟩
    rw [if_neg (by simp [hmarking])] at heq
    exact findjsobjectsReferentAll_cons heq hrest

end Marks

/-! ### Searching -/

section Search

variable (t : Target) {L : FindLib t.cfg}

theorem FindReferent.lines_ne_nil (r : FindReferent) : r.lines ≠ [] := by
  unfold FindReferent.lines
  split
  · simp
  · next hne => exact fun hnil => hne (List.map_eq_nil_iff.mp hnil)

theorem FindReferent.about_lines (r : FindReferent) : ∀ l ∈ r.lines, l.about = some r.addr := by
  unfold FindReferent.lines
  split
  · intro l hl
    obtain rfl := List.mem_singleton.mp hl
    rfl
  · intro l hl
    obtain ⟨reference, -, rfl⟩ := List.mem_map.mp hl
    rfl

/-- What is printed about some referents is in their order. -/
theorem reportsInOrder_lines (list : List FindReferent) :
    ReportsInOrder (list.flatMap FindReferent.lines) (list.map FindReferent.addr) := by
  refine ⟨list.map FindReferent.lines, ?_, ?_⟩
  · rw [← List.flatMap_def]
    refine List.filter_eq_self.mpr fun l hl => ?_
    obtain ⟨r, -, hl⟩ := List.mem_flatMap.mp hl
    rw [r.about_lines l hl]
    rfl
  · rw [List.forall₂_map_left_iff, List.forall₂_map_right_iff, List.forall₂_same]
    exact fun r _ => ⟨r.lines_ne_nil, r.about_lines⟩

/-- **A search** reports the marked addresses in their order, and leaves no mark. -/
theorem findjsobjectsReferences_reports {fjs fjs' : FindState L} {lines : List FindLine}
    (hmarks : fjs.refs.Marks) (h : findjsobjectsReferences t fjs = .ok (lines, fjs')) :
    ReportsInOrder lines fjs.refs.addrs ∧
      fjs' = { fjs with refs := { addr := 0, tree := L.referents.create, list := [] } } := by
  unfold findjsobjectsReferences at h
  cases hgroups : fjs.cache.groups.foldlM (findjsobjectsReferencesGroup t) fjs.refs with
  | error fault =>
    rw [hgroups] at h
    cases h
  | ok refs =>
    rw [hgroups] at h
    obtain ⟨rfl, rfl⟩ := Prod.mk.inj (Except.ok.inj h)
    refine ⟨?_, rfl⟩
    rw [← (collects_groups t hgroups).addrs_eq hmarks]
    exact reportsInOrder_lines refs.list

/-- A search fails only where an array does not fit its block. -/
theorem findjsobjectsReferences_fault {fjs : FindState L} {fault : FindFault}
    (h : findjsobjectsReferences t fjs = .error fault) : fault = .outOfBounds := by
  unfold findjsobjectsReferences at h
  cases hgroups : fjs.cache.groups.foldlM (findjsobjectsReferencesGroup t) fjs.refs with
  | error fault' =>
    rw [hgroups] at h
    obtain rfl : fault' = fault := Except.error.inj h
    exact groups_fault t hgroups
  | ok refs =>
    rw [hgroups] at h
    cases h

/-! ### The command -/

/-- What a command does to the marks after the scan. -/
structure MarksAfter (opts : FindOpts) (addr : Option ℕ) (fjs : FindState L)
    (result : FindResult L) : Prop where
  no_assertion : ∀ fault, result = .fault fault → fault = .outOfBounds
  marks : ∀ fjs', result.state? = some fjs' → fjs'.refs.Marks ∧ fjs'.initialized = fjs.initialized
  reports : ∀ lines fjs', result = .returned .ok lines fjs' → opts.references →
    ReportsInOrder lines (fjs.refs.addrs ++ fjs.named addr opts.listlike) ∧
      (fjs.refs.addrs ++ fjs.named addr opts.listlike).Nodup ∧ fjs'.refs.addrs = [] ∧
        ∀ a, L.referents.find fjs'.refs.tree a = none

namespace MarksAfter

variable {t} {opts : FindOpts} {addr : Option ℕ} {fjs : FindState L}

/-- A command that fails. -/
theorem err (hmarks : fjs.refs.Marks) {lines : List FindLine} :
    MarksAfter t opts addr fjs (.returned .err lines fjs) where
  no_assertion := nofun
  marks := by
    intro fjs' h
    obtain rfl : fjs = fjs' := Option.some.inj h
    exact ⟨hmarks, rfl⟩
  reports := by
    intro lines' fjs' h
    injection h with hstatus
    cases hstatus

/-- A command that is not to look for references. -/
theorem other {fjs' : FindState L} (hreferences : opts.references = false)
    (hmarks : fjs'.refs.Marks) (hinit : fjs'.initialized = fjs.initialized) {lines : List FindLine}
    {status : DcmdStatus} : MarksAfter t opts addr fjs (.returned status lines fjs') where
  no_assertion := nofun
  marks := by
    intro fjs'' h
    obtain rfl : fjs' = fjs'' := Option.some.inj h
    exact ⟨hmarks, hinit⟩
  reports := by
    intro _ _ _ h
    rw [hreferences] at h
    cases h

/-- A subscript outside of its block. -/
theorem fault : MarksAfter t opts addr fjs (.fault .outOfBounds) where
  no_assertion := by
    intro f h
    exact (FindResult.fault.inj h).symm
  marks := by
    intro fjs' h
    cases h
  reports := by
    intro lines fjs' h
    cases h

/-- A search. -/
theorem search (hreferences : opts.references = true) {refs : FindRefs L} (hrefs : refs.Marks)
    (haddrs : refs.addrs = fjs.refs.addrs ++ fjs.named addr opts.listlike) :
    MarksAfter t opts addr fjs (findjsobjectsLookup t opts [] { fjs with refs }) := by
  unfold findjsobjectsLookup
  rw [if_pos hreferences]
  cases hsearch : findjsobjectsReferences t { fjs with refs } with
  | error f =>
    obtain rfl : f = .outOfBounds := findjsobjectsReferences_fault t hsearch
    exact .fault
  | ok result =>
    obtain ⟨lines, fjs'⟩ := result
    obtain ⟨hreports, rfl⟩ := findjsobjectsReferences_reports t hrefs hsearch
    dsimp only
    refine ⟨nofun, ?_, ?_⟩
    · intro fjs' h
      obtain rfl := Option.some.inj h
      exact ⟨.nil 0, rfl⟩
    · intro lines' fjs' h _
      obtain ⟨-, rfl, rfl⟩ := FindResult.returned.inj h
      rw [← haddrs]
      exact ⟨hreports, hrefs.nodup, rfl, L.referents.find_create⟩

/-- What has been printed before the rest reports nothing. -/
theorem after {result : FindResult L} (h : MarksAfter t opts addr fjs result)
    {lines : List FindLine} (hlines : ∀ l ∈ lines, l.about = none) :
    MarksAfter t opts addr fjs (result.after lines) := by
  cases result with
  | returned status lines' fjs' =>
    refine ⟨nofun, h.marks, ?_⟩
    intro lines'' fjs'' heq hreferences
    obtain ⟨rfl, rfl, rfl⟩ := FindResult.returned.inj heq
    obtain ⟨⟨blocks, hblocks, hforall⟩, hrest⟩ := h.reports lines' fjs' rfl hreferences
    refine ⟨⟨blocks, ?_, hforall⟩, hrest⟩
    have hnone : (lines.filter fun l => l.about.isSome) = [] :=
      List.filter_eq_nil_iff.mpr fun l hl => by simp [hlines l hl]
    rw [List.filter_append, hnone, List.nil_append]
    exact hblocks
  | interrupted fjs' => exact h
  | fault f => exact h
  | hangs => exact h

end MarksAfter

theorem marksAfter_findjsobjectsMatch {opts : FindOpts} {addr : Option ℕ} {fjs : FindState L}
    (hmarks : fjs.refs.Marks) (hlist : opts.references → addr = none ∧ fjs.refs.addrs = [])
    (func : FindObj → Bool) : MarksAfter t opts addr fjs (findjsobjectsMatch fjs addr func) := by
  unfold findjsobjectsMatch
  cases addr with
  | none =>
    refine ⟨nofun, ?_, ?_⟩
    · intro fjs' h
      obtain rfl : fjs = fjs' := Option.some.inj h
      exact ⟨hmarks, rfl⟩
    · -- nothing is marked, and nothing is reported
      intro lines fjs' h hreferences
      obtain ⟨-, rfl, rfl⟩ := FindResult.returned.inj h
      obtain ⟨-, hnone⟩ := hlist hreferences
      refine ⟨⟨[], ?_, ?_⟩, ?_, hnone, fun a => ?_⟩
      · refine List.filter_eq_nil_iff.mpr fun l hl => ?_
        obtain ⟨obj, -, rfl⟩ := List.mem_map.mp hl
        simp [FindLine.about]
      · rw [hnone]
        exact .nil
      · rw [hnone]
        exact List.nodup_nil
      · by_contra hsome
        have hmem := (hmarks.find_isSome_iff a).mp (Option.isSome_iff_ne_none.mpr hsome)
        rw [hnone] at hmem
        cases hmem
  | some addr =>
    dsimp only
    split
    · exact .err hmarks
    · refine .other ?_ hmarks rfl
      by_contra hreferences
      exact nomatch (hlist (by simpa using hreferences)).1

/-- With an address. -/
theorem marksAfter_findjsobjectsAddr {opts : FindOpts} {addr : ℕ} {fjs : FindState L}
    (hmarks : fjs.refs.Marks) (hmarking : fjs.marking = opts.marking)
    (hboth : ¬ (opts.references = true ∧ opts.marking = true))
    (hapart : opts.Apart (some addr) fjs) :
    MarksAfter t opts (some addr) fjs (findjsobjectsAddr t addr opts fjs) := by
  unfold findjsobjectsAddr
  cases hobj : findjsobjectsInstance fjs addr with
  | none => exact .err hmarks
  | some obj =>
    have hnamed : fjs.named (some addr) opts.listlike =
        if opts.listlike then obj.instances else [addr] := by
      unfold FindState.named
      simp only [hobj]
    dsimp only
    rw [← hnamed]
    cases hreferences : opts.references with
    | false =>
      cases hm : fjs.marking with
      | false => exact .other hreferences hmarks rfl
      | true =>
        -- the command marks
        obtain ⟨lines, fjs', hall, hmarks', hinit⟩ :=
          findjsobjectsReferentAll_marking (fjs.named (some addr) opts.listlike) hmarks hm
        simp only [Bool.not_false, Bool.not_true, Bool.and_false, Bool.false_eq_true, if_false]
        rw [hall]
        unfold findjsobjectsLookup
        simp only [hreferences, Bool.false_eq_true, if_false]
        exact .other hreferences hmarks' hinit
    | true =>
      -- the command looks for references
      have hnomark : opts.marking = false := by
        by_contra hne
        exact hboth ⟨hreferences, by simpa using hne⟩
      obtain ⟨refs, hall, hrefs, haddrs⟩ := findjsobjectsReferentAll_apart hmarks
        (hmarking.trans hnomark) (hapart.apart hreferences hnomark)
      simp only [Bool.not_true, Bool.false_and, Bool.false_eq_true, if_false]
      rw [hall]
      exact .search hreferences hrefs haddrs

/-- **What a command does to the marks**, under the condition. -/
theorem marksAfter_findjsobjectsBody {opts : FindOpts} (hplain : opts.plain) {addr : Option ℕ}
    {fjs : FindState L} (hmarks : fjs.refs.Marks) (hmarking : fjs.marking = opts.marking)
    (hapart : opts.Apart addr fjs) :
    MarksAfter t opts addr fjs (findjsobjectsBody t addr opts fjs) := by
  obtain ⟨hpropname, hconstructor, hpropkind⟩ := hplain
  unfold findjsobjectsBody
  simp only [hpropname, hconstructor, hpropkind, Option.isSome_none, Bool.or_self, Bool.false_eq_true,
    if_false]
  split
  · next hlist =>
    -- it lists, whatever else it is to do
    obtain ⟨hlistlike, hnone⟩ : opts.listlike = true ∧ addr = none := by simpa using hlist
    exact marksAfter_findjsobjectsMatch t hmarks
      (fun hreferences => ⟨hnone, hapart.listed hreferences hlistlike hnone⟩) _
  · split
    · exact .err hmarks
    · split
      · exact .err hmarks
      · split
        · exact .err hmarks
        · next hboth =>
          cases addr with
          | some addr =>
            refine marksAfter_findjsobjectsAddr t hmarks hmarking ?_ hapart
            rintro ⟨hreferences, hmark⟩
            exact hboth (by simp [hreferences, hmarking, hmark])
          | none =>
            dsimp only
            cases hreferences : opts.references with
            | true =>
              rw [if_pos rfl]
              exact .search hreferences hmarks (List.append_nil _).symm
            | false => exact .other hreferences hmarks rfl

/-! ### Runs -/

variable (maps : List Prmap)

/-- The condition on a command, in the state that its scan leaves behind. -/
def FindCommand.MarksApart (env : ScanEnv) (fjs : FindState L) : FindCommand → Prop
  | findjsobjects addr opts => opts.valid → opts.plain → ∀ lines fjs',
      findjsobjectsRun t maps env (fjs.setOpts opts) = some (.returned 0, lines, fjs') →
      opts.Apart addr fjs'
  | jsfunctions _ _ => True

/-- **Marks are kept**, in a run of commands that are as a condition says: the tree and the list hold
the same addresses, none of them twice; no assertion fails; and a search that is carried out reports
everything that is marked or specified once, the marks in their order first, and leaves no mark. -/
def MarksKept (ok : ScanEnv → FindState L → FindCommand → Prop) : Prop :=
  ∀ fjs : FindState L, FindReach t maps ok fjs →
    ((∀ a, (L.referents.find fjs.refs.tree a).isSome ↔ a ∈ fjs.refs.addrs) ∧
      fjs.refs.addrs.Nodup) ∧
    ∀ (env : ScanEnv) (addr : Option ℕ) (opts : FindOpts),
      ok env fjs (.findjsobjects addr opts) → opts.plain →
      dcmdFindjsobjects t maps env addr opts fjs ≠ .fault .assertion ∧
      ∀ lines fjs', opts.references →
        dcmdFindjsobjects t maps env addr opts fjs = .returned .ok lines fjs' →
        (∃ rest, rest.Sublist (fjs'.named addr opts.listlike) ∧ (fjs.refs.addrs ++ rest).Nodup ∧
          (∀ a ∈ fjs'.named addr opts.listlike, a ∈ fjs.refs.addrs ++ rest) ∧
          ReportsInOrder lines (fjs.refs.addrs ++ rest)) ∧
        fjs'.refs.addrs = [] ∧ ∀ a, L.referents.find fjs'.refs.tree a = none

/-- What holds of the marks between two commands. -/
structure FindState.MarksInv {c : Config} {L : FindLib c} (fjs : FindState L) : Prop where
  marks : fjs.refs.Marks
  fresh : fjs.initialized = false → fjs.refs.list = []

variable {t maps} {env : ScanEnv} {fjs fjs' : FindState L} {e : RunEnd} {lines : List FindLine}

theorem FindState.MarksInv.makeTrees (h : fjs.MarksInv) :
    fjs.makeTrees.refs.Marks ∧ fjs.makeTrees.refs.addrs = fjs.refs.addrs := by
  unfold FindState.makeTrees
  split
  · exact ⟨h.marks, rfl⟩
  · next hfalse =>
    have hlist : fjs.refs.list = [] := h.fresh (by simpa using hfalse)
    refine ⟨?_, rfl⟩
    unfold FindRefs.Marks FindRefs.addrs
    dsimp only
    rw [hlist]
    exact .create

/-- The scan does nothing to the marks. -/
theorem refs_findjsobjectsRun (h : findjsobjectsRun t maps env fjs = some (e, lines, fjs')) :
    fjs'.refs = fjs.makeTrees.refs ∧ fjs'.marking = fjs.marking ∧ fjs'.initialized = true := by
  have hinit : fjs.makeTrees.initialized = true ∧ fjs.makeTrees.marking = fjs.marking := by
    unfold FindState.makeTrees
    split
    · exact ⟨by assumption, rfl⟩
    · exact ⟨rfl, rfl⟩
  rcases findjsobjectsRun_cases t maps h with ⟨-, hleaves⟩ | ⟨-, rfl⟩
  · exact ⟨hleaves.refs, hleaves.marking.trans hinit.2, hleaves.initialized.trans hinit.1⟩
  · exact ⟨rfl, hinit.2, hinit.1⟩

/-- The statistics report nothing. -/
theorem about_findjsobjectsRun (h : findjsobjectsRun t maps env fjs = some (e, lines, fjs')) :
    ∀ l ∈ lines, l.about = none := by
  have hstats : ∀ stats elapsed, ∀ l ∈ statLines stats elapsed, l.about = none := by
    intro stats elapsed l hl
    unfold statLines at hl
    simp only [List.mem_cons, List.not_mem_nil, or_false] at hl
    rcases hl with rfl | rfl | rfl | rfl | rfl | rfl | rfl | rfl | rfl | rfl | rfl | rfl <;> rfl
  -- whether the scan is completed, interrupted or given up, what is printed is the statistics
  have hscan : ∀ fjs : FindState L, findjsobjectsScan t maps env fjs = some (e, lines, fjs') →
      ∀ l ∈ lines, l.about = none := by
    intro fjs hscan
    unfold findjsobjectsScan at hscan
    dsimp only at hscan
    split at hscan
    · obtain ⟨-, rfl, -⟩ := by simpa using hscan
      exact nofun
    · obtain ⟨scan, -, heq⟩ := Option.map_eq_some_iff.mp hscan
      obtain ⟨-, rfl, -⟩ := by simpa using heq
      exact nofun
    · obtain ⟨scan, -, heq⟩ := Option.map_eq_some_iff.mp hscan
      obtain ⟨-, heq⟩ := Prod.mk.inj heq
      obtain ⟨rfl, -⟩ := Prod.mk.inj heq
      split
      · exact hstats _ _
      · exact nofun
    · obtain ⟨scan, -, heq⟩ := Option.map_eq_some_iff.mp hscan
      obtain ⟨-, rfl, -⟩ := by simpa using heq
      exact nofun
  unfold findjsobjectsRun at h
  dsimp only at h
  split at h
  · exact hscan _ h
  · obtain ⟨-, rfl, -⟩ := by simpa using h
    exact nofun

/-- Commands that list representatives leave the state as it is. -/
theorem state_findjsobjectsBody_of_not_plain {addr : Option ℕ} {opts : FindOpts}
    (hplain : ¬ opts.plain) (h : (findjsobjectsBody t addr opts fjs).state? = some fjs') :
    fjs' = fjs := by
  have hmatch : ∀ func, (findjsobjectsMatch fjs addr func).state? = some fjs := by
    intro func
    unfold findjsobjectsMatch
    split
    · rfl
    · dsimp only
      split <;> rfl
  have herr : (FindResult.returned .err [] fjs).state? = some fjs := rfl
  unfold findjsobjectsBody at h
  split at h
  · split at h
    · exact Option.some.inj (h.symm.trans herr)
    · exact Option.some.inj (h.symm.trans (hmatch _))
  · split at h
    · exact Option.some.inj (h.symm.trans (hmatch _))
    · exact Option.some.inj (h.symm.trans (hmatch _))
    · exact Option.some.inj (h.symm.trans (hmatch _))
    · next hpropname hconstructor hpropkind =>
      exact absurd ⟨hpropname, hconstructor, hpropkind⟩ hplain
    · exact Option.some.inj (h.symm.trans herr)

/-- So does listing functions, as far as the marks go. -/
theorem refs_body {cmd : FindCommand}
    (hplain : ∀ addr opts, cmd = .findjsobjects addr opts → ¬ opts.plain)
    (h : (cmd.body t fjs).state? = some fjs') :
    fjs'.refs = fjs.refs ∧ fjs'.initialized = fjs.initialized := by
  cases cmd with
  | findjsobjects addr opts =>
    obtain rfl := state_findjsobjectsBody_of_not_plain (hplain addr opts rfl) h
    exact ⟨rfl, rfl⟩
  | jsfunctions addr opts =>
    change (jsfunctionsBody t addr opts fjs).state? = some fjs' at h
    unfold jsfunctionsBody at h
    split at h
    · obtain rfl := Option.some.inj h
      exact ⟨rfl, rfl⟩
    · split at h
      · cases h
      · obtain rfl := Option.some.inj h
        exact ⟨rfl, rfl⟩

/-- **One command**, under the condition. -/
theorem marksAfter_dcmdFindjsobjects (hinv : fjs.MarksInv) {addr : Option ℕ} {opts : FindOpts}
    (hplain : opts.plain) (hok : FindCommand.MarksApart t maps env fjs (.findjsobjects addr opts)) :
    (∃ fjs₁ lines, fjs₁.refs.addrs = fjs.refs.addrs ∧ fjs₁.initialized = true ∧
      dcmdFindjsobjects t maps env addr opts fjs =
        (findjsobjectsBody t addr opts fjs₁).after lines ∧
      MarksAfter t opts addr fjs₁ (dcmdFindjsobjects t maps env addr opts fjs)) ∨
    (∃ status lines fjs', status ≠ .ok ∧
      dcmdFindjsobjects t maps env addr opts fjs = .returned status lines fjs' ∧ fjs'.MarksInv) ∨
    (∃ fjs', dcmdFindjsobjects t maps env addr opts fjs = .interrupted fjs' ∧ fjs'.MarksInv) ∨
    dcmdFindjsobjects t maps env addr opts fjs = .hangs := by
  have hset : (fjs.setOpts opts).MarksInv := ⟨hinv.marks, hinv.fresh⟩
  unfold dcmdFindjsobjects
  dsimp only
  cases hvalid : opts.valid with
  | false => exact .inr (.inl ⟨.usage, [], _, by simp, rfl, hset⟩)
  | true =>
    simp only [Bool.not_true, Bool.false_eq_true, if_false]
    -- the scan may hang, be interrupted, or leave a cache behind, which the body uses
    cases hrun : findjsobjectsRun t maps env (fjs.setOpts opts) with
    | none => exact .inr (.inr (.inr rfl))
    | some r =>
      obtain ⟨e, lines, fjs₁⟩ := r
      obtain ⟨hrefs, hmarking, hinit⟩ := refs_findjsobjectsRun hrun
      have hmarks : fjs₁.refs.Marks := by
        rw [hrefs]
        exact hset.makeTrees.1
      have hinv₁ : fjs₁.MarksInv := ⟨hmarks, by rw [hinit]; exact nofun⟩
      cases e with
      | interrupted => exact .inr (.inr (.inl ⟨fjs₁, rfl, hinv₁⟩))
      | returned rv =>
        dsimp only
        by_cases hrv : rv = 0
        · subst hrv
          rw [if_neg (by simp)]
          cases hfinished : fjs₁.finished with
          | false => exact .inr (.inl ⟨.err, lines, fjs₁, by simp, rfl, hinv₁⟩)
          | true =>
            have haddrs : fjs₁.refs.addrs = fjs.refs.addrs := by
              rw [hrefs, hset.makeTrees.2]
              rfl
            have hbody := marksAfter_findjsobjectsBody t hplain hmarks hmarking
              (hok hvalid hplain lines fjs₁ hrun)
            exact .inl ⟨fjs₁, lines, haddrs, hinit, rfl, hbody.after (about_findjsobjectsRun hrun)⟩
        · rw [if_pos hrv]
          exact .inr (.inl ⟨.err, lines, fjs₁, by simp, rfl, hinv₁⟩)

/-- The groups of a cache do not depend on the locations of the functions. -/
theorem groups_of_entries {c : Config} {L : FindLib c} {cache cache' : FindCache L}
    (h : cache'.entries = cache.entries) : cache'.groups = cache.groups :=
  show cache'.entries.groups = cache.entries.groups by rw [h]

theorem named_of_keepsCache (h : fjs.KeepsCache t fjs') (addr : Option ℕ) (listlike : Bool) :
    fjs'.named addr listlike = fjs.named addr listlike := by
  unfold FindState.named findjsobjectsInstance
  rw [groups_of_entries h.entries]

/-- **One command keeps the invariant.** -/
theorem FindState.MarksInv.step (hinv : fjs.MarksInv) {cmd : FindCommand}
    (hok : cmd.MarksApart t maps env fjs) (hrun : (cmd.run t maps env fjs).state? = some fjs') :
    fjs'.MarksInv := by
  have hof : ∀ fjs₁ : FindState L, fjs₁.refs.Marks → fjs₁.initialized = true → fjs₁.MarksInv :=
    fun fjs₁ hmarks hinit => ⟨hmarks, by rw [hinit]; exact nofun⟩
  have hprep : (cmd.prepare fjs).MarksInv := by
    cases cmd <;> exact ⟨hinv.marks, hinv.fresh⟩
  by_cases hplain : ∃ addr opts, cmd = .findjsobjects addr opts ∧ opts.plain
  · obtain ⟨addr, opts, rfl, hplain⟩ := hplain
    change (dcmdFindjsobjects t maps env addr opts fjs).state? = some fjs' at hrun
    rcases marksAfter_dcmdFindjsobjects hinv hplain hok with ⟨fjs₁, lines, -, hinit, -, hafter⟩ |
      ⟨status, lines, fjs₁, -, heq, hinv₁⟩ | ⟨fjs₁, heq, hinv₁⟩ | heq
    · obtain ⟨hmarks, hinit'⟩ := hafter.marks fjs' hrun
      exact hof fjs' hmarks (hinit'.trans hinit)
    · rw [heq] at hrun
      obtain rfl : fjs₁ = fjs' := Option.some.inj hrun
      exact hinv₁
    · rw [heq] at hrun
      obtain rfl : fjs₁ = fjs' := Option.some.inj hrun
      exact hinv₁
    · rw [heq] at hrun
      cases hrun
  · -- the other commands do nothing to the marks
    rcases run_cases hrun with ⟨-, rfl⟩ | ⟨e, lines, fjs₁, -, hscan, hbody⟩
    · exact hprep
    · obtain ⟨hrefs, -, hinit⟩ := refs_findjsobjectsRun hscan
      have hmarks : fjs₁.refs.Marks := by
        rw [hrefs]
        exact hprep.makeTrees.1
      obtain ⟨hrefs', hinit'⟩ : fjs'.refs = fjs₁.refs ∧ fjs'.initialized = fjs₁.initialized := by
        rcases hbody with rfl | hbody
        · exact ⟨rfl, rfl⟩
        · exact refs_body (fun addr opts heq hplain' => hplain ⟨addr, opts, heq, hplain'⟩) hbody
      exact hof fjs' (hrefs' ▸ hmarks) (hinit'.trans hinit)

/-- The invariant holds in every state of a run. -/
theorem FindReach.marksInv
    (hreach : FindReach t maps (fun env fjs cmd => cmd.MarksApart t maps env fjs) fjs) :
    fjs.MarksInv := by
  induction hreach with
  | init => exact ⟨.nil 0, fun _ => rfl⟩
  | step _ hok hrun ih => exact ih.step hok hrun

/-- **Marks are kept** in every run in which every command meets the condition. -/
theorem marksKept (L : FindLib t.cfg) :
    MarksKept t maps (L := L) fun env fjs cmd => cmd.MarksApart t maps env fjs := by
  intro fjs hreach
  have hinv := hreach.marksInv
  refine ⟨⟨hinv.marks.find_isSome_iff, hinv.marks.nodup⟩, ?_⟩
  intro env addr opts hok hplain
  rcases marksAfter_dcmdFindjsobjects hinv hplain hok with
    ⟨fjs₁, lines, haddrs, -, hcmd, hafter⟩ | ⟨status, lines, fjs₁, hstatus, heq, -⟩ |
      ⟨fjs₁, heq, -⟩ | heq
  · refine ⟨fun hfault => ?_, ?_⟩
    · cases hafter.no_assertion _ hfault
    · intro lines' fjs' hreferences hresult
      obtain ⟨hreports, hnodup, hnil, hnone⟩ := hafter.reports lines' fjs' hresult hreferences
      -- the command has not changed the groups
      have hkeeps : fjs₁.KeepsCache t fjs' := by
        refine keepsCache_findjsobjectsBody t addr opts fjs₁ fjs' ?_
        rw [← FindResult.state?_after lines, ← hcmd, hresult]
        rfl
      rw [named_of_keepsCache hkeeps, ← haddrs]
      exact ⟨⟨fjs₁.named addr opts.listlike, List.Sublist.refl _, hnodup,
        fun a ha => List.mem_append_right _ ha, hreports⟩, hnil, hnone⟩
  · rw [heq]
    refine ⟨fun h => (by cases h), fun lines' fjs' _ h => ?_⟩
    exact absurd (FindResult.returned.inj h).1 hstatus
  · rw [heq]
    exact ⟨fun h => (by cases h), fun lines' fjs' _ h => (by cases h)⟩
  · rw [heq]
    exact ⟨fun h => (by cases h), fun lines' fjs' _ h => (by cases h)⟩

end Search

/-! ### An address that is marked and specified -/

/-- A target with two arrays, at `0x2001` and at `0x2011`, both of the length one. The element of the
first is a number, with the second in the spare part of the block behind it; the element of the second
is the first. -/
def arraysTarget : Target :=
  .ofWordsAndZeros (.sample .ilp32)
    [(0x2000, 0x11001), (0x2008, 0x11101), (0x200c, 2), (0x2010, 0x11001), (0x2018, 0x11301),
      (0x201c, 2), (0x11008, 0xb2), (0x11100, 0x11201), (0x11104, 4), (0x11108, 0x0e),
      (0x1110c, 0x2011), (0x11208, 0xa3), (0x11300, 0x11201), (0x11304, 2), (0x11308, 0x2001)]

/-- The mapping with the arrays. -/
def arraysMapping : Prmap := { vaddr := 0x2000, size := 0x1000 }

/-- The object of one of the arrays. -/
def arraysObj (addr : ℕ) : FindObj :=
  { findjsobjectsAlloc addr with nprops := 1, constructor := bytesOf "Array" }

/-- The cache after a scan. -/
def arraysCache : FindCache (.lists arraysTarget.cfg) :=
  ((FindCache.empty.enterObj (arraysObj 0x2001) 0x2001).2.enterObj (arraysObj 0x2011) 0x2011).2

/-- A scan finds the two arrays. -/
theorem arraysTarget_finds {p : ScanParams} (hp : p.addr = 0) :
    MappingFinds arraysTarget p arraysMapping [0x2001, 0x2011] := by
  have hskips : p.skips arraysTarget.cfg arraysMapping = false := by
    simp [ScanParams.skips, hp, arraysMapping]
  exact mappingFinds_ofWordsAndZeros rfl rfl (fun addr => isHeapobject_sample rfl rfl rfl rfl rfl)
    (by decide) hskips (by decide) (by decide) (by decide) (by decide) (by decide +kernel)

theorem arraysTarget_kindItem : ∀ addr ∈ [0x2001, 0x2011],
    kindItem arraysTarget addr (typebyteKind arraysTarget addr) = some (.object (arraysObj addr)) := by
  decide +kernel

/-- **A scan of that target** from an empty cache. -/
theorem arraysTarget_scan {p : ScanParams} (hp : p.addr = 0)
    (fjs : FindScan (.lists arraysTarget.cfg)) (hcache : fjs.cache = .empty) :
    ∃ scan, findjsobjectsIter arraysTarget p [arraysMapping] fjs = some scan ∧
      scan.cache = arraysCache := by
  have hvisits : scanVisits arraysTarget p [arraysMapping] =
      mappingVisits arraysTarget p arraysMapping := by simp [scanVisits]
  have hscan := findjsobjectsVisits_cache arraysTarget (mappingVisits arraysTarget p arraysMapping) fjs
  rw [(arraysTarget_finds hp).enterItems_eq, List.foldlM_cons,
    arraysTarget_kindItem _ List.mem_cons_self, hcache, ← hvisits, ← findjsobjectsIter_eq] at hscan
  have hlast : [0x2011].foldlM (fun (cache : FindCache (.lists arraysTarget.cfg)) addr =>
      (kindItem arraysTarget addr (typebyteKind arraysTarget addr)).map (ScanItem.enter addr cache))
      (FindCache.empty.enterObj (arraysObj 0x2001) 0x2001).2 = some arraysCache := by
    rw [List.foldlM_cons, arraysTarget_kindItem _ (by simp)]
    rfl
  exact Option.map_eq_some_iff.mp (hscan.trans hlast)

/-- The two arrays are one group. -/
theorem arraysCache_groups : arraysCache.sort.groups =
    [{ arraysObj 0x2001 with instances := [0x2001, 0x2011], ninstances := 2 }] := by
  decide +kernel

theorem findjsobjectsInstance_arrays {fjs : FindState (.lists arraysTarget.cfg)}
    (hcache : fjs.cache = arraysCache.sort) (opts : FindOpts) :
    findjsobjectsInstance (fjs.setOpts opts) 0x2001 =
      some { arraysObj 0x2001 with instances := [0x2001, 0x2011], ninstances := 2 } := by
  have hsame : (fjs.setOpts opts).cache = arraysCache.sort := hcache
  unfold findjsobjectsInstance
  rw [hsame, arraysCache_groups]
  rfl

/-- **With an address, and the arrays in the cache**, a command looks at their group. -/
theorem dcmdFindjsobjects_arrays {env : ScanEnv} {fjs : FindState (.lists arraysTarget.cfg)}
    (hcache : fjs.cache = arraysCache.sort) (hinit : fjs.initialized = true)
    (hfinished : fjs.finished = true) {opts : FindOpts} (hvalid : opts.valid = true)
    (hplain : opts.plain) (hboth : (opts.references && opts.marking) = false) :
    dcmdFindjsobjects arraysTarget [arraysMapping] env (some 0x2001) opts fjs =
      (findjsobjectsAddr arraysTarget 0x2001 opts (fjs.setOpts opts)).after [] := by
  have hmakeTrees : (fjs.setOpts opts).makeTrees = fjs.setOpts opts := by
    unfold FindState.makeTrees
    exact if_pos hinit
  have hrun : findjsobjectsRun arraysTarget [arraysMapping] env (fjs.setOpts opts) =
      some (.returned 0, [], (fjs.setOpts opts).makeTrees) := by
    refine findjsobjectsRun_cached _ _ ?_
    rw [hmakeTrees, show (fjs.setOpts opts).cache = arraysCache.sort from hcache]
    decide +kernel
  rw [hmakeTrees] at hrun
  rw [dcmdFindjsobjects_of_run hvalid hrun hfinished]
  obtain ⟨hpropname, hconstructor, hpropkind⟩ := hplain
  have hmarking : (fjs.setOpts opts).marking = opts.marking := rfl
  unfold findjsobjectsBody
  simp [hpropname, hconstructor, hpropkind, hmarking, hboth]

/-- To look for an address that is marked is an assertion that fails. -/
theorem not_marksKept :
    ¬ MarksKept arraysTarget [arraysMapping] (L := .lists arraysTarget.cfg) fun _ _ _ => True := by
  intro h
  let env : ScanEnv := { outcome := .completed, outside := fun _ _ => 0, elapsed := 0 }
  let init : FindState (.lists arraysTarget.cfg) := .init _
  -- the scan
  obtain ⟨scan, hscan, hcache⟩ := arraysTarget_scan
    (p := (init.setOpts {}).makeTrees.params env) rfl (init.setOpts {}).makeTrees.toFindScan rfl
  let fjs₁ := (init.setOpts {}).makeTrees.finish scan
  have hrun₁ : findjsobjectsRun arraysTarget [arraysMapping] env (init.setOpts {}) =
      some (.returned 0, [], fjs₁) := findjsobjectsRun_completed _ _ rfl (by rfl) hscan
  have hcache₁ : fjs₁.cache = arraysCache.sort := congrArg FindCache.sort hcache
  have hreach₁ : FindReach arraysTarget [arraysMapping] (fun _ _ _ => True) fjs₁ := by
    have hstate : ((FindCommand.findjsobjects none {}).run arraysTarget [arraysMapping] env
        init).state? = some fjs₁ := by
      unfold FindCommand.run
      dsimp only
      rw [dcmdFindjsobjects_of_run rfl hrun₁ rfl]
      rfl
    exact .step .init trivial hstate
  -- the mark
  let refs : FindRefs (.lists arraysTarget.cfg) :=
    { addr := 0, tree := [(0x2001, 0)], list := [{ addr := 0x2001 }] }
  let fjs₂ : FindState (.lists arraysTarget.cfg) :=
    { fjs₁.setOpts { marking := true } with refs }
  have hreach₂ : FindReach arraysTarget [arraysMapping] (fun _ _ _ => True) fjs₂ := by
    have hstate : ((FindCommand.findjsobjects (some 0x2001) { marking := true }).run arraysTarget
        [arraysMapping] env fjs₁).state? = some fjs₂ := by
      unfold FindCommand.run
      dsimp only
      rw [dcmdFindjsobjects_arrays hcache₁ rfl rfl rfl ⟨rfl, rfl, rfl⟩ rfl]
      unfold findjsobjectsAddr
      rw [findjsobjectsInstance_arrays hcache₁]
      rfl
    exact .step hreach₁ trivial hstate
  -- the search
  refine ((h fjs₂ hreach₂).2 env (some 0x2001) { references := true } trivial ⟨rfl, rfl, rfl⟩).1 ?_
  have hcache₂ : fjs₂.cache = arraysCache.sort := hcache₁
  rw [dcmdFindjsobjects_arrays hcache₂ rfl rfl rfl ⟨rfl, rfl, rfl⟩ rfl]
  unfold findjsobjectsAddr
  rw [findjsobjectsInstance_arrays hcache₂]
  rfl

end MdbV8
