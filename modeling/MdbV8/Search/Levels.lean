import MdbV8.Search.Jsfindrefs

/-!
# How deep a search for references goes

Whether a search goes one level deeper depends on a word that it has found, on its depth and on its limit
(`fixedArrayAt`). The levels that are active at once are therefore the chains of `FixedArray`s, each of
which refers to the one before (`ArrayChain`), as far as the limit allows.

A limit of at least one bounds them. The limit zero does not.
-/

namespace MdbV8

section Levels

variable (t : Target)

/-! ### What becomes of a word -/

/-- The `FixedArray` from which the search goes on, if a word is in one. -/
def fixedArrayAt (maxoffset refaddr : ℕ) : Option ℕ :=
  match v8whatis t (maxoffset + 1) refaddr maxoffset with
  | some (.ok, whatis) =>
    let basetype := whatis.basetype.getD 0
    if !isJsValueType t.cfg basetype && Target.isType basetype t.cfg.typeFixedarray then
      some (whatis.baseaddr.getD 0)
    else none
  | _ => none

/-- The value that is printed for a word at a depth. -/
def valueAt (maxoffset curdepth refaddr : ℕ) : Option ℕ :=
  match v8whatis t (maxoffset + 1) refaddr maxoffset with
  | some (.ok, whatis) =>
    let baseaddr := whatis.baseaddr.getD 0
    let basetype := whatis.basetype.getD 0
    if (jsfindrefsGarbage t baseaddr basetype).1 then none
    else if Target.isType basetype t.cfg.typeJsfunction && curdepth > 1 then none
    else if isJsValueType t.cfg basetype then some baseaddr
    else none
  | _ => none

/-- What a search finds: a value that refers to the address, or a place from where it does not go on. -/
inductive SearchResult where
  | value (baseaddr : ℕ)
  | gaveUp
  deriving DecidableEq, Repr

/-- What a line tells of it. -/
def JsfindrefsLine.result : JsfindrefsLine → Option SearchResult
  | value baseaddr _ => some (.value baseaddr)
  | gaveUp _ _ => some .gaveUp
  | _ => none

variable {t} {maps : List Prmap} {jsfr : Jsfindrefs}

theorem filterMap_debugLine {line : JsfindrefsLine} (h : line.result = none) :
    (jsfr.debugLine line).filterMap JsfindrefsLine.result = [] := by
  unfold Jsfindrefs.debugLine
  split
  · rw [List.filterMap_cons_none h]
    rfl
  · rfl

/-- Garbage and functions are not taken for arrays. -/
theorem isJsValueType_of_garbage {baseaddr type : ℕ} (h : (jsfindrefsGarbage t baseaddr type).1 = true) :
    isJsValueType t.cfg type = true := by
  have hobject : Target.isType type t.cfg.typeJsobject = true := by
    unfold jsfindrefsGarbage at h
    exact (Bool.and_eq_true_iff.mp h).1
  unfold isJsValueType
  simp [hobject]

theorem isJsValueType_of_function {type : ℕ}
    (h : Target.isType type t.cfg.typeJsfunction = true) : isJsValueType t.cfg type = true := by
  unfold isJsValueType
  simp [h]

/-- **A word in a `FixedArray`.** -/
theorem jsfindrefsReference_array {refaddr baseaddr : ℕ}
    (h : fixedArrayAt t jsfr.maxoffset refaddr = some baseaddr) :
    ∃ lines, lines.filterMap JsfindrefsLine.result = [] ∧
      ∀ search out, jsfindrefsReference t search jsfr refaddr out =
        if (jsfr.curdepth : ℤ) = (jsfr.maxdepth : ℤ) - 1 then
          some (0, out ++ lines ++ [.gaveUp jsfr.origaddr jsfr.curdepth])
        else search (jsfr.sub baseaddr) (out ++ lines) := by
  unfold fixedArrayAt at h
  split at h
  · next whatis hwhatis =>
    dsimp only at h
    split at h
    · next harray =>
      obtain rfl := Option.some.inj h
      obtain ⟨hvalue, htype⟩ := Bool.and_eq_true_iff.mp harray
      rw [Bool.not_eq_true'] at hvalue
      refine ⟨jsfr.debugLine (.reference jsfr.curdepth jsfr.addr refaddr) ++
        jsfr.debugLine .intermediate, ?_, fun search out => ?_⟩
      · rw [List.filterMap_append, filterMap_debugLine rfl, filterMap_debugLine rfl]
        rfl
      · have hgarbage : (jsfindrefsGarbage t (whatis.baseaddr.getD 0) (whatis.basetype.getD 0)).1 =
            false := by
          by_contra hne
          rw [isJsValueType_of_garbage (by simpa using hne)] at hvalue
          cases hvalue
        have hfunction : Target.isType (whatis.basetype.getD 0) t.cfg.typeJsfunction = false := by
          by_contra hne
          rw [isJsValueType_of_function (by simpa using hne)] at hvalue
          cases hvalue
        unfold jsfindrefsReference
        dsimp only
        rw [hwhatis]
        dsimp only
        rw [hgarbage, hfunction, hvalue, htype]
        simp only [Bool.false_eq_true, Bool.false_and, if_false, if_true, List.append_assoc]
    · cases h
  · cases h

/-- **A word in anything else**: the search does not go on from there. -/
theorem jsfindrefsReference_other {refaddr : ℕ} (h : fixedArrayAt t jsfr.maxoffset refaddr = none)
    (hreturns : ∃ r, v8whatis t (jsfr.maxoffset + 1) refaddr jsfr.maxoffset = some r) :
    ∃ lines, lines.filterMap JsfindrefsLine.result =
        (valueAt t jsfr.maxoffset jsfr.curdepth refaddr).toList.map .value ∧
      ∀ search out, jsfindrefsReference t search jsfr refaddr out = some (0, out ++ lines) := by
  obtain ⟨⟨err, whatis⟩, hwhatis⟩ := hreturns
  unfold fixedArrayAt at h
  unfold valueAt jsfindrefsReference
  rw [hwhatis] at h ⊢
  -- the lines are those of the debugger and one more
  have hlines (line : List JsfindrefsLine) {value : Option ℕ}
      (hline : line.filterMap JsfindrefsLine.result = value.toList.map .value) :
      ∃ lines, lines.filterMap JsfindrefsLine.result = value.toList.map .value ∧
        ∀ (_ : Jsfindrefs → List JsfindrefsLine → Option (ℤ × List JsfindrefsLine))
          (out : List JsfindrefsLine),
          some ((0 : ℤ), out ++ jsfr.debugLine (.reference jsfr.curdepth jsfr.addr refaddr) ++ line) =
            some (0, out ++ lines) := by
    refine ⟨jsfr.debugLine (.reference jsfr.curdepth jsfr.addr refaddr) ++ line, ?_, fun _ out => ?_⟩
    · rw [List.filterMap_append, filterMap_debugLine rfl, hline]
      rfl
    · rw [List.append_assoc]
  cases err with
  | notfound => exact hlines _ (filterMap_debugLine rfl)
  | doesntcontain => exact hlines _ (filterMap_debugLine rfl)
  | ok =>
    dsimp only at h ⊢
    split
    · exact hlines _ (filterMap_debugLine rfl)
    · split
      · exact hlines _ (filterMap_debugLine rfl)
      · split
        · exact hlines _ rfl
        · next hvalue =>
          have htype : Target.isType (whatis.basetype.getD 0) t.cfg.typeFixedarray = false := by
            by_contra hne
            rw [if_pos (by simp [hvalue, hne])] at h
            cases h
          rw [htype]
          exact hlines _ (filterMap_debugLine rfl)

/-! ### A search goes through a list of words -/

/-- What is done for a word returns zero, if the searches do. -/
theorem returnsZero_reference
    {search : Jsfindrefs → List JsfindrefsLine → Option (ℤ × List JsfindrefsLine)}
    (hsearch : ∀ jsfr out rv out', search jsfr out = some (rv, out') → rv = 0) (jsfr : Jsfindrefs) :
    ReturnsZero (jsfindrefsReference t search jsfr) := by
  intro refaddr out rv out' h
  cases hwhatis : v8whatis t (jsfr.maxoffset + 1) refaddr jsfr.maxoffset with
  | none =>
    unfold jsfindrefsReference at h
    rw [hwhatis] at h
    cases h
  | some r =>
    -- a word that is not in an array makes no search
    cases harray : fixedArrayAt t jsfr.maxoffset refaddr with
    | none =>
      obtain ⟨lines, -, heq⟩ := jsfindrefsReference_other harray ⟨r, hwhatis⟩
      rw [heq] at h
      cases h
      rfl
    | some baseaddr =>
      obtain ⟨lines, -, heq⟩ := jsfindrefsReference_array harray
      rw [heq] at h
      split at h
      · cases h
        rfl
      · exact hsearch _ _ _ _ h

/-- **One level of a search**: the words that are found, one after the other. -/
theorem dbiUgrep_eq {σ : Type} {callback : ℕ → σ → Option (ℤ × σ)} (hzero : ReturnsZero callback)
    (addr : ℕ) (s : σ) :
    dbiUgrep t addr callback (some maps) s =
      (ugrepHits t addr maps).bind fun hits => (callEach callback hits s).map (0, ·) := by
  unfold dbiUgrep
  dsimp only
  rw [ugrepMappings_eq hzero]
  cases ugrepHits t addr maps with
  | none => rfl
  | some hits =>
    simp only [Option.bind_some]
    cases callEach callback hits s <;> rfl

/-- A search returns zero, if it returns: by induction on the levels. -/
theorem jsfindrefs_returns (levels : ℕ) (jsfr : Jsfindrefs) (out : List JsfindrefsLine) (rv : ℤ)
    (out' : List JsfindrefsLine) (h : jsfindrefs t (some maps) levels jsfr out = some (rv, out')) :
    rv = 0 := by
  induction levels generalizing jsfr out rv out' with
  | zero => cases h
  | succ levels ih =>
    unfold jsfindrefs at h
    rw [dbiUgrep_eq (returnsZero_reference ih jsfr)] at h
    obtain ⟨hits, -, hcalls⟩ := Option.bind_eq_some_iff.mp h
    obtain ⟨s, -, heq⟩ := Option.map_eq_some_iff.mp hcalls
    cases heq
    rfl

/-- **A search is a search through its words.** -/
theorem jsfindrefs_succ (levels : ℕ) (jsfr : Jsfindrefs) (out : List JsfindrefsLine) :
    jsfindrefs t (some maps) (levels + 1) jsfr out =
      (ugrepHits t jsfr.addr maps).bind fun hits =>
        (callEach (jsfindrefsReference t (jsfindrefs t (some maps) levels) jsfr) hits out).map (0, ·) :=
  dbiUgrep_eq (returnsZero_reference (jsfindrefs_returns levels) jsfr) jsfr.addr out

/-! ### The levels -/

/-- How far a search looks back is a word. -/
theorem maxoffset_le (c : Config) : 16384 + c.ptrSize ≤ 2 ^ c.bits := by
  rcases c.model.ptrSize_cases with ⟨-, hptr, hbits⟩ | ⟨-, hptr, hbits⟩
  · rw [Config.ptrSize, Config.bits, hptr, hbits]
    decide
  · rw [Config.ptrSize, Config.bits, hptr, hbits]
    decide

variable (t maps)

/-- A `FixedArray` refers to an address. -/
def ArrayRef (maxoffset addr baseaddr : ℕ) : Prop :=
  ∃ hits, ugrepHits t addr maps = some hits ∧
    ∃ refaddr ∈ hits, fixedArrayAt t maxoffset refaddr = some baseaddr

/-- **A chain of references** from `FixedArray` to `FixedArray`, of some length. -/
def ArrayChain (maxoffset : ℕ) : ℕ → ℕ → Prop
  | 0, _ => True
  | n + 1, addr => ∃ baseaddr, ArrayRef t maps maxoffset addr baseaddr ∧ ArrayChain maxoffset n baseaddr

/-- The states of the searches that a search starts, some levels deeper. -/
def SubSearch : ℕ → Jsfindrefs → Jsfindrefs → Prop
  | 0, jsfr, jsfr' => jsfr' = jsfr
  | n + 1, jsfr, jsfr' => ∃ baseaddr, ArrayRef t maps jsfr.maxoffset jsfr.addr baseaddr ∧
      (jsfr.curdepth : ℤ) ≠ (jsfr.maxdepth : ℤ) - 1 ∧ SubSearch n (jsfr.sub baseaddr) jsfr'

variable {t maps}

/-- What is done for a word returns if the search from there does. -/
theorem reference_isSome_iff (htags : t.cfg.V8Tags)
    (hoffset : jsfr.maxoffset + t.cfg.ptrSize ≤ 2 ^ t.cfg.bits) {refaddr : ℕ}
    (hrefaddr : refaddr < 2 ^ t.cfg.bits)
    {search : Jsfindrefs → List JsfindrefsLine → Option (ℤ × List JsfindrefsLine)}
    {Ends : Jsfindrefs → Prop} (hsearch : ∀ baseaddr out,
      (∃ r, search (jsfr.sub baseaddr) out = some r) ↔ Ends (jsfr.sub baseaddr))
    (out : List JsfindrefsLine) :
    (∃ r, jsfindrefsReference t search jsfr refaddr out = some r) ↔
      ∀ baseaddr, fixedArrayAt t jsfr.maxoffset refaddr = some baseaddr →
        (jsfr.curdepth : ℤ) ≠ (jsfr.maxdepth : ℤ) - 1 → Ends (jsfr.sub baseaddr) := by
  cases harray : fixedArrayAt t jsfr.maxoffset refaddr with
  | none =>
    obtain ⟨lines, -, heq⟩ := jsfindrefsReference_other harray
      (v8whatis_isSome htags hrefaddr hoffset)
    exact iff_of_true ⟨_, heq search out⟩ nofun
  | some baseaddr =>
    obtain ⟨lines, -, heq⟩ := jsfindrefsReference_array harray
    rw [heq]
    -- on the last level, nothing is searched for
    by_cases hlast : (jsfr.curdepth : ℤ) = (jsfr.maxdepth : ℤ) - 1
    · rw [if_pos hlast]
      exact iff_of_true ⟨_, rfl⟩ fun _ _ hne => absurd hlast hne
    · rw [if_neg hlast, hsearch]
      simp [hlast]

/-- **How many levels a search needs**: it ends within a number of them if and only if no search is that
much deeper. -/
theorem jsfindrefs_isSome_iff (htags : t.cfg.V8Tags)
    (hends : ∀ addr, ∃ hits, ugrepHits t addr maps = some hits) (levels : ℕ) {jsfr : Jsfindrefs}
    (hoffset : jsfr.maxoffset + t.cfg.ptrSize ≤ 2 ^ t.cfg.bits) (out : List JsfindrefsLine) :
    (∃ r, jsfindrefs t (some maps) levels jsfr out = some r) ↔
      ¬ ∃ jsfr', SubSearch t maps levels jsfr jsfr' := by
  induction levels generalizing jsfr out with
  | zero =>
    refine iff_of_false ?_ (not_not.mpr ⟨jsfr, rfl⟩)
    rintro ⟨r, h⟩
    cases h
  | succ levels ih =>
    obtain ⟨hits, hhits⟩ := hends jsfr.addr
    rw [jsfindrefs_succ, hhits, Option.bind_some]
    have hmap (o : Option (List JsfindrefsLine)) :
        (∃ r, o.map ((0 : ℤ), ·) = some r) ↔ ∃ s, o = some s := by
      cases o <;> simp
    rw [hmap]
    -- a word is searched from if it is in an array and the limit has not been met
    have hword : ∀ refaddr ∈ hits, ∀ out,
        (∃ r, jsfindrefsReference t (jsfindrefs t (some maps) levels) jsfr refaddr out = some r) ↔
          ∀ baseaddr, fixedArrayAt t jsfr.maxoffset refaddr = some baseaddr →
            (jsfr.curdepth : ℤ) ≠ (jsfr.maxdepth : ℤ) - 1 →
              ¬ ∃ jsfr', SubSearch t maps levels (jsfr.sub baseaddr) jsfr' := by
      intro refaddr hin out
      let Ends : Jsfindrefs → Prop := fun jsfr => ¬ ∃ jsfr', SubSearch t maps levels jsfr jsfr'
      have hsearch (baseaddr : ℕ) (out : List JsfindrefsLine) :
          (∃ r, jsfindrefs t (some maps) levels (jsfr.sub baseaddr) out = some r) ↔
            Ends (jsfr.sub baseaddr) := @ih (jsfr.sub baseaddr) hoffset out
      exact reference_isSome_iff htags hoffset (hit_lt hhits hin) hsearch out
    rw [callEach_isSome_iff hword]
    constructor
    · rintro hall ⟨jsfr', baseaddr, ⟨hits', hhits', refaddr, hin, harray⟩, hgoes, hsub⟩
      obtain rfl : hits = hits' := Option.some.inj (hhits.symm.trans hhits')
      exact hall refaddr hin baseaddr harray hgoes ⟨jsfr', hsub⟩
    · rintro hnone refaddr hin baseaddr harray hgoes ⟨jsfr', hsub⟩
      exact hnone ⟨jsfr', baseaddr, ⟨hits, hhits, refaddr, hin, harray⟩, hgoes, hsub⟩

/-! ### How deep it gets -/

/-- A level adds one to the depth at most. -/
theorem SubSearch.curdepth_le {n : ℕ} {jsfr' : Jsfindrefs} (h : SubSearch t maps n jsfr jsfr') :
    jsfr'.curdepth ≤ jsfr.curdepth + n := by
  induction n generalizing jsfr with
  | zero =>
    obtain rfl := h
    exact le_rfl
  | succ n ih =>
    obtain ⟨baseaddr, -, -, hsub⟩ := h
    have hle := ih hsub
    have hmod : (jsfr.sub baseaddr).curdepth ≤ jsfr.curdepth + 1 := Nat.mod_le _ _
    omega

/-- A search that is so much deeper has gone through all the levels before. -/
theorem SubSearch.of_le {n m : ℕ} {jsfr' : Jsfindrefs} (h : SubSearch t maps n jsfr jsfr')
    (hle : m ≤ n) : ∃ jsfr'', SubSearch t maps m jsfr jsfr'' := by
  induction m generalizing n jsfr with
  | zero => exact ⟨jsfr, rfl⟩
  | succ m ih =>
    obtain ⟨n, rfl⟩ : ∃ k, n = k + 1 := ⟨n - 1, by omega⟩
    obtain ⟨baseaddr, hrefers, hgoes, hsub⟩ := h
    obtain ⟨jsfr'', hsub'⟩ := ih hsub (by omega)
    exact ⟨jsfr'', baseaddr, hrefers, hgoes, hsub'⟩

/-- **Below its limit** a search counts its levels, and stays below it. -/
theorem SubSearch.curdepth_eq {n : ℕ} {jsfr' : Jsfindrefs} (h : SubSearch t maps n jsfr jsfr')
    (hbelow : jsfr.curdepth < jsfr.maxdepth) (hshort : jsfr.maxdepth < 2 ^ 16) :
    jsfr'.curdepth = jsfr.curdepth + n ∧ jsfr'.curdepth < jsfr.maxdepth := by
  induction n generalizing jsfr with
  | zero =>
    obtain rfl := h
    exact ⟨rfl, hbelow⟩
  | succ n ih =>
    obtain ⟨baseaddr, -, hgoes, hsub⟩ := h
    have hnext : (jsfr.sub baseaddr).curdepth = jsfr.curdepth + 1 :=
      Nat.mod_eq_of_lt (by omega)
    have hmax : (jsfr.sub baseaddr).maxdepth = jsfr.maxdepth := rfl
    obtain ⟨heq, hlt⟩ := ih hsub (by rw [hnext, hmax]; omega) hshort
    rw [hnext] at heq
    exact ⟨by omega, hlt⟩

/-- **The limit zero is never met**: the levels are those of the chains. -/
theorem exists_subSearch_iff (n : ℕ) (hzero : jsfr.maxdepth = 0) :
    (∃ jsfr', SubSearch t maps n jsfr jsfr') ↔ ArrayChain t maps jsfr.maxoffset n jsfr.addr := by
  induction n generalizing jsfr with
  | zero => exact iff_of_true ⟨jsfr, rfl⟩ trivial
  | succ n ih =>
    have hgoes : (jsfr.curdepth : ℤ) ≠ (jsfr.maxdepth : ℤ) - 1 := by
      rw [hzero]
      omega
    constructor
    · rintro ⟨jsfr', baseaddr, hrefers, -, hsub⟩
      exact ⟨baseaddr, hrefers, (@ih (jsfr.sub baseaddr) hzero).mp ⟨jsfr', hsub⟩⟩
    · rintro ⟨baseaddr, hrefers, hchain⟩
      obtain ⟨jsfr', hsub⟩ := (@ih (jsfr.sub baseaddr) hzero).mpr hchain
      exact ⟨jsfr', baseaddr, hrefers, hgoes, hsub⟩

variable (t maps)

/-- **A search keeps to its limit**, which is one at least: it ends, with not more levels active at once than
the limit, and the depth of all of them is below it. -/
structure BoundedSearch (addr : ℕ) (opts : List JsfindrefsOpt) : Prop where
  ends : ∃ r, jsfindrefs t (some maps) (max (JsfindrefsOpt.limit opts) 1)
    (dcmdJsfindrefsState t.cfg addr opts) [] = some r
  depth : ∀ n jsfr', SubSearch t maps n (dcmdJsfindrefsState t.cfg addr opts) jsfr' →
    jsfr'.curdepth < max (JsfindrefsOpt.limit opts) 1

variable {t maps}

/-- **When a search keeps to its limit**: the search through memory ends, and the limit is not stored as
zero, or there is no chain of so many `FixedArray`s. -/
theorem boundedSearch_iff (htags : t.cfg.V8Tags) (hwords : ∀ pmp ∈ maps, pmp.Words t.cfg) (addr : ℕ)
    (opts : List JsfindrefsOpt) :
    BoundedSearch t maps addr opts ↔ (∀ pmp ∈ maps, pmp.ChunksEnd t.cfg) ∧
      (JsfindrefsOpt.limit opts % 2 ^ 16 ≠ 0 ∨
        ¬ ArrayChain t maps 16384 (max (JsfindrefsOpt.limit opts) 1) addr) := by
  obtain ⟨haddr, -, hoffset, hcur, hmax⟩ := dcmdJsfindrefsState_starts t.cfg addr opts
  have hlimit : (dcmdJsfindrefsState t.cfg addr opts).maxoffset + t.cfg.ptrSize ≤ 2 ^ t.cfg.bits := by
    rw [hoffset]
    exact maxoffset_le t.cfg
  constructor
  · intro h
    -- a search that ends has come through the mappings
    have hchunks : ∀ pmp ∈ maps, pmp.ChunksEnd t.cfg := by
      obtain ⟨r, hr⟩ := h.ends
      obtain ⟨levels, hlevels⟩ : ∃ k, max (JsfindrefsOpt.limit opts) 1 = k + 1 :=
        ⟨max (JsfindrefsOpt.limit opts) 1 - 1, by omega⟩
      rw [hlevels, jsfindrefs_succ] at hr
      obtain ⟨hits, hhits, -⟩ := Option.bind_eq_some_iff.mp hr
      exact (ugrepHits_isSome_iff _ hwords).mp ⟨hits, hhits⟩
    refine ⟨hchunks, ?_⟩
    -- a limit that is stored as zero is never met, so that only the chains can end the search
    by_cases hzero : JsfindrefsOpt.limit opts % 2 ^ 16 = 0
    · refine .inr ?_
      have hsome := (jsfindrefs_isSome_iff htags
        (fun addr => (ugrepHits_isSome_iff addr hwords).mpr hchunks) _ hlimit []).mp h.ends
      rwa [exists_subSearch_iff _ (hmax.trans hzero), hoffset, haddr] at hsome
    · exact .inl hzero
  · rintro ⟨hchunks, hbound⟩
    have hends := jsfindrefs_isSome_iff htags
      (fun addr => (ugrepHits_isSome_iff addr hwords).mpr hchunks)
      (max (JsfindrefsOpt.limit opts) 1) hlimit []
    by_cases hzero : JsfindrefsOpt.limit opts % 2 ^ 16 = 0
    · have hchain := hbound.resolve_left (not_not.mpr hzero)
      have hnone : ¬ ∃ jsfr', SubSearch t maps (max (JsfindrefsOpt.limit opts) 1)
          (dcmdJsfindrefsState t.cfg addr opts) jsfr' := by
        rwa [exists_subSearch_iff _ (hmax.trans hzero), hoffset, haddr]
      refine ⟨hends.mpr hnone, fun n jsfr' hsub => ?_⟩
      -- no search is made on that level
      have hlt : n < max (JsfindrefsOpt.limit opts) 1 := by
        by_contra hge
        exact hnone (hsub.of_le (Nat.not_lt.mp hge))
      have hle := hsub.curdepth_le
      omega
    · -- with any other limit, the level stays below it
      have hbelow : (dcmdJsfindrefsState t.cfg addr opts).curdepth <
          (dcmdJsfindrefsState t.cfg addr opts).maxdepth := by
        rw [hcur, hmax]
        exact Nat.pos_of_ne_zero hzero
      have hshort : (dcmdJsfindrefsState t.cfg addr opts).maxdepth < 2 ^ 16 := by
        rw [hmax]
        exact Nat.mod_lt _ (by decide)
      have hle : (dcmdJsfindrefsState t.cfg addr opts).maxdepth ≤ JsfindrefsOpt.limit opts := by
        rw [hmax]
        exact Nat.mod_le _ _
      refine ⟨hends.mpr ?_, fun n jsfr' hsub => ?_⟩
      · rintro ⟨jsfr', hsub⟩
        have heq := hsub.curdepth_eq hbelow hshort
        omega
      · have heq := hsub.curdepth_eq hbelow hshort
        omega

end Levels

/-! ### An array that refers to itself -/

/-- A target with a `FixedArray` whose element is the array itself. -/
def cycleTarget : Target :=
  .ofWords (.sample .lp64)
    [(0x1000, 0x3001), (0x1008, 1 <<< 32), (0x1010, 0x1001), (0x2000, 0x2001), (0x2010, 0x81),
      (0x3000, 0x2001), (0x3008, 0x0003), (0x3010, 0xa3)]

/-- The mapping with the array. -/
def cycleMapping : Prmap := { vaddr := 0x1000, size := 0x18 }

theorem cycleMapping_words : ∀ pmp ∈ [cycleMapping], pmp.Words cycleTarget.cfg := by
  intro pmp hpmp
  obtain rfl := List.mem_singleton.mp hpmp
  exact ⟨by decide, by decide⟩

theorem boundedSearch_iff_cycle :
    BoundedSearch cycleTarget [cycleMapping] 0x1001 [.maxdepth 3] ↔
      (∀ pmp ∈ [cycleMapping], pmp.ChunksEnd cycleTarget.cfg) ∧
        (JsfindrefsOpt.limit [.maxdepth 3] % 2 ^ 16 ≠ 0 ∨
          ¬ ArrayChain cycleTarget [cycleMapping] 16384 (max (JsfindrefsOpt.limit [.maxdepth 3]) 1)
            0x1001) :=
  boundedSearch_iff (Config.v8Tags_sample .lp64) cycleMapping_words 0x1001 [.maxdepth 3]

/-- **Without a limit** a search does not end where the chains do not. -/
theorem jsfindrefs_endless {t : Target} {maps : List Prmap} (htags : t.cfg.V8Tags)
    (hwords : ∀ pmp ∈ maps, pmp.Words t.cfg) (hchunks : ∀ pmp ∈ maps, pmp.ChunksEnd t.cfg) {addr : ℕ}
    {opts : List JsfindrefsOpt} (hzero : JsfindrefsOpt.limit opts % 2 ^ 16 = 0)
    (hchain : ∀ n, ArrayChain t maps 16384 n addr) (levels : ℕ) :
    dcmdJsfindrefs t (some maps) levels (some addr) opts = none := by
  obtain ⟨haddr, -, hoffset, -, hmax⟩ := dcmdJsfindrefsState_starts t.cfg addr opts
  have hlimit : (dcmdJsfindrefsState t.cfg addr opts).maxoffset + t.cfg.ptrSize ≤ 2 ^ t.cfg.bits := by
    rw [hoffset]
    exact maxoffset_le t.cfg
  have hends := jsfindrefs_isSome_iff htags
    (fun addr => (ugrepHits_isSome_iff addr hwords).mpr hchunks) levels hlimit []
  rw [exists_subSearch_iff _ (hmax.trans hzero), hoffset, haddr] at hends
  unfold dcmdJsfindrefs
  dsimp only
  cases hsearch : jsfindrefs t (some maps) levels (dcmdJsfindrefsState t.cfg addr opts) [] with
  | none => rfl
  | some r => exact absurd (hchain levels) (hends.mp ⟨r, hsearch⟩)

/-- A `FixedArray` that refers to itself is a chain of any length. -/
theorem arrayChain_of_self {t : Target} {maps : List Prmap} {maxoffset addr : ℕ}
    (h : ArrayRef t maps maxoffset addr addr) (n : ℕ) : ArrayChain t maps maxoffset n addr := by
  induction n with
  | zero => trivial
  | succ n ih => exact ⟨addr, h, ih⟩

/-- The limit 65536 is stored as zero. -/
example (levels : ℕ) :
    dcmdJsfindrefs cycleTarget (some [cycleMapping]) levels (some 0x1001) [.maxdepth 65536] = none := by
  have hself : ArrayRef cycleTarget [cycleMapping] 16384 0x1001 0x1001 :=
    ⟨[0x1010], by decide +kernel, 0x1010, List.mem_singleton_self _, by decide +kernel⟩
  have hchunks : ∀ pmp ∈ [cycleMapping], pmp.ChunksEnd cycleTarget.cfg := by
    intro pmp hpmp
    obtain rfl := List.mem_singleton.mp hpmp
    exact .inr (.inr (by decide))
  exact jsfindrefs_endless (Config.v8Tags_sample .lp64) cycleMapping_words hchunks rfl
    (arrayChain_of_self hself) levels

end MdbV8
