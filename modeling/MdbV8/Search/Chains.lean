import MdbV8.Lib.Paths
import MdbV8.Search.Levels

/-!
# What a search for references prints

`dbi_ugrep` finds each aligned word of a readable chunk once (`ugrepExact_iff`). What `::jsfindrefs` prints
is told by the chains of references that lead to the address it has been given: a chain begins with a word
that has the address, the next word has the address of the object around the first, and so on. All the
objects but the last are `FixedArray`s.

The search visits these chains in the order of their words, and those that are longer in the midst of the
others. `printsChains_iff` compares it with a list of the chains by their lengths. A chain that ends with a
value prints it; one that ends with a `FixedArray` is only reported where the search gives up.
-/

namespace MdbV8

/-! ### The words of the mappings -/

section Words

variable (t : Target)

/-- The size of a chunk. -/
def Prmap.chunkSize (pmp : Prmap) (k : ℕ) : ℕ := min ugBufsz (pmp.size - k * ugBufsz)

/-- A chunk can be read. -/
def Prmap.chunkReadable (pmp : Prmap) (k : ℕ) : Bool :=
  (t.mdbVread (pmp.chunkSize k) (pmp.vaddr + k * ugBufsz)).isSome

/-- The aligned words of a chunk, if it can be read. -/
def Prmap.chunkWords (pmp : Prmap) (k : ℕ) : List ℕ :=
  if pmp.chunkReadable t k then
    (List.range (pmp.chunkSize k / t.cfg.ptrSize)).map fun i =>
      pmp.vaddr + k * ugBufsz + i * t.cfg.ptrSize
  else []

/-- The aligned words of the readable chunks of a mapping. -/
def readableWords (pmp : Prmap) : List ℕ := (List.range pmp.nchunks).flatMap (pmp.chunkWords t)

/-- Those that have a value. -/
def wordsWith (maps : List Prmap) (addr : ℕ) : List ℕ :=
  (maps.flatMap (readableWords t)).filter fun w => t.readPtr w = some addr

/-- A mapping of whole words that does not wrap around. -/
structure Prmap.Aligned (c : Config) (pmp : Prmap) : Prop where
  vaddr : c.ptrSize ∣ pmp.vaddr
  size : c.ptrSize ∣ pmp.size
  lt : pmp.vaddr + pmp.size < 2 ^ c.bits

/-- **The words are found exactly**: the function is called for the words that have the value, one after the
other, and the words of a mapping are all its aligned words in readable chunks, each of them once. -/
structure UgrepExact (maps : List Prmap) (addr : ℕ) : Prop where
  calls : ∀ {σ : Type} (callback : ℕ → σ → Option (ℤ × σ)), ReturnsZero callback → ∀ s,
    dbiUgrep t addr callback (some maps) s = (callEach callback (wordsWith t maps addr) s).map (0, ·)
  nodup : ∀ pmp ∈ maps, (readableWords t pmp).Nodup
  mem_iff : ∀ pmp ∈ maps, ∀ w, w ∈ readableWords t pmp ↔
    t.cfg.ptrSize ∣ w ∧ pmp.vaddr ≤ w ∧ w + t.cfg.ptrSize ≤ pmp.vaddr + pmp.size ∧
      pmp.chunkReadable t ((w - pmp.vaddr) / ugBufsz) = true

variable {t} {pmp : Prmap}

/-- A chunk of a mapping has as many bytes as `ugrep_mapping` reads. -/
theorem ugrepNtoread_eq {c : Config} (hlt : pmp.vaddr + pmp.size < 2 ^ c.bits) {k : ℕ}
    (hk : k < pmp.nchunks) : ugrepNtoread c pmp (pmp.vaddr + k * ugBufsz) = pmp.chunkSize k := by
  have hinside : k * ugBufsz < pmp.size := by
    unfold Prmap.nchunks at hk
    unfold ugBufsz at hk ⊢
    omega
  have hbase : c.wrap (((pmp.vaddr + k * ugBufsz : ℕ) : ℤ) - pmp.vaddr) = k * ugBufsz := by
    rw [Nat.cast_add, add_sub_cancel_left, Config.wrap_natCast c (by omega)]
  unfold ugrepNtoread Prmap.chunkSize
  rw [hbase, ← Nat.cast_sub (by omega), Config.wrap_natCast c (by omega)]

/-- The words that are found in a chunk. -/
theorem chunkHits_eq {addr : ℕ} (hlt : pmp.vaddr + pmp.size < 2 ^ t.cfg.bits) {k : ℕ}
    (hk : k < pmp.nchunks) :
    chunkHits t addr pmp (pmp.vaddr + k * ugBufsz) =
      (pmp.chunkWords t k).filter fun w => t.readPtr w = some addr := by
  have hinside : k * ugBufsz < pmp.size := by
    unfold Prmap.nchunks at hk
    unfold ugBufsz at hk ⊢
    omega
  unfold chunkHits Prmap.chunkWords Prmap.chunkReadable
  rw [ugrepNtoread_eq hlt hk]
  cases hbuf : t.mdbVread (pmp.chunkSize k) (pmp.vaddr + k * ugBufsz) with
  | none => rfl
  | some buf =>
    have hlength : buf.length = pmp.chunkSize k := Target.mdbVread_length hbuf
    have hpairs : (Target.wordsOf t.cfg.ptrSize buf).zipIdx =
        (List.range (pmp.chunkSize k / t.cfg.ptrSize)).map fun i =>
          (leNat ((buf.drop (i * t.cfg.ptrSize)).take t.cfg.ptrSize), i) := by
      refine List.ext_getElem (by simp [hlength]) fun i hi hi' => ?_
      simp [Target.wordsOf_getElem]
    -- the word at an index is the one at its address
    have hword (i : ℕ) (hi : i ∈ List.range (pmp.chunkSize k / t.cfg.ptrSize)) :
        t.cfg.add (pmp.vaddr + k * ugBufsz) (i * t.cfg.ptrSize : ℕ) =
            pmp.vaddr + k * ugBufsz + i * t.cfg.ptrSize ∧
          t.readPtr (pmp.vaddr + k * ugBufsz + i * t.cfg.ptrSize) =
            some (leNat ((buf.drop (i * t.cfg.ptrSize)).take t.cfg.ptrSize)) := by
      have hpos : 0 < t.cfg.ptrSize := t.cfg.model.ptrSize_pos
      have hle : (i + 1) * t.cfg.ptrSize ≤ pmp.chunkSize k :=
        (Nat.le_div_iff_mul_le hpos).mp (List.mem_range.mp hi)
      rw [Nat.succ_mul] at hle
      have hsize : pmp.chunkSize k ≤ pmp.size - k * ugBufsz := Nat.min_le_right _ _
      refine ⟨?_, ?_⟩
      · rw [Config.add_natCast, Nat.mod_eq_of_lt (by omega)]
      · unfold Target.readPtr
        rw [Target.mdbVread_sub hbuf hle, Option.map_some]
    dsimp only
    unfold bufHits
    have hsome : (some buf).isSome = true := rfl
    rw [hpairs, List.filter_map, List.map_map, if_pos hsome, List.filter_map]
    -- the words that are compared are those that can be read
    have hfilter : (List.range (pmp.chunkSize k / t.cfg.ptrSize)).filter
          ((fun e : ℕ × ℕ => decide (e.1 = addr)) ∘ fun i =>
            (leNat ((buf.drop (i * t.cfg.ptrSize)).take t.cfg.ptrSize), i)) =
        (List.range (pmp.chunkSize k / t.cfg.ptrSize)).filter
          ((fun w => decide (t.readPtr w = some addr)) ∘ fun i =>
            pmp.vaddr + k * ugBufsz + i * t.cfg.ptrSize) := by
      refine List.filter_congr fun i hi => ?_
      simp [(hword i hi).2]
    rw [hfilter]
    refine List.map_congr_left fun i hi => ?_
    exact (hword i (List.mem_of_mem_filter hi)).1

/-- **The words that are found in mappings** are those of the list. -/
theorem ugrepHits_eq {maps : List Prmap} (addr : ℕ)
    (hlt : ∀ pmp ∈ maps, pmp.vaddr + pmp.size < 2 ^ t.cfg.bits)
    (hends : ∀ pmp ∈ maps, pmp.ChunksEnd t.cfg) :
    ugrepHits t addr maps = some (wordsWith t maps addr) := by
  induction maps with
  | nil => rfl
  | cons pmp maps ih =>
    have hlt' := hlt pmp List.mem_cons_self
    -- the chunks are all below the limit of a word
    have hchunks : pmp.vaddr + pmp.nchunks * ugBufsz < 2 ^ t.cfg.bits := by
      rcases hends pmp List.mem_cons_self with hzero | hwrap | hend
      · have hnone : pmp.nchunks = 0 := by
          unfold Prmap.nchunks
          rw [hzero]
          rfl
        rw [hnone]
        omega
      · omega
      · exact hend
    -- what is found in the chunks is what is found in the mapping
    have hhits : ((List.range pmp.nchunks).map fun k => pmp.vaddr + k * ugBufsz).flatMap
        (chunkHits t addr pmp) = (readableWords t pmp).filter fun w => t.readPtr w = some addr := by
      unfold readableWords
      rw [List.flatMap_map, List.filter_flatMap]
      refine List.flatMap_congr fun k hk => ?_
      exact chunkHits_eq hlt' (List.mem_range.mp hk)
    have hcons : ugrepHits t addr (pmp :: maps) =
        (chunkBases t.cfg pmp (2 ^ t.cfg.bits + 1) pmp.vaddr).bind fun bases =>
          (ugrepHits t addr maps).map (bases.flatMap (chunkHits t addr pmp) ++ ·) := rfl
    rw [hcons, chunkBases_of_lt hlt' hchunks,
      ih (fun pmp' h => hlt pmp' (List.mem_cons_of_mem _ h))
        (fun pmp' h => hends pmp' (List.mem_cons_of_mem _ h)),
      Option.bind_some, Option.map_some, hhits]
    unfold wordsWith
    rw [List.flatMap_cons, List.filter_append]

/-- Every aligned word of a mapping is in the list, if it is in a chunk that can be read. -/
theorem mem_readableWords_iff (haligned : pmp.Aligned t.cfg) {w : ℕ} :
    w ∈ readableWords t pmp ↔ t.cfg.ptrSize ∣ w ∧ pmp.vaddr ≤ w ∧
      w + t.cfg.ptrSize ≤ pmp.vaddr + pmp.size ∧
      pmp.chunkReadable t ((w - pmp.vaddr) / ugBufsz) = true := by
  have hv := haligned.vaddr
  have hs := haligned.size
  -- the chunk and the index of a word
  have hindex : (∃ k < pmp.nchunks, ∃ i < pmp.chunkSize k / t.cfg.ptrSize,
      w = pmp.vaddr + k * ugBufsz + i * t.cfg.ptrSize ∧ pmp.chunkReadable t k = true) ↔
      t.cfg.ptrSize ∣ w ∧ pmp.vaddr ≤ w ∧ w + t.cfg.ptrSize ≤ pmp.vaddr + pmp.size ∧
        pmp.chunkReadable t ((w - pmp.vaddr) / ugBufsz) = true := by
    unfold Prmap.nchunks Prmap.chunkSize ugBufsz
    constructor
    · rintro ⟨k, hk, i, hi, rfl, hread⟩
      have hchunk : (pmp.vaddr + k * 4096 + i * t.cfg.ptrSize - pmp.vaddr) / 4096 = k := by
        rcases t.cfg.model.ptrSize_cases with ⟨-, hptr, -⟩ | ⟨-, hptr, -⟩ <;>
        · rw [Config.ptrSize, hptr] at hi ⊢
          omega
      rw [hchunk]
      refine ⟨?_, by omega, ?_, hread⟩ <;>
      · rcases t.cfg.model.ptrSize_cases with ⟨-, hptr, -⟩ | ⟨-, hptr, -⟩ <;>
        · rw [Config.ptrSize, hptr] at hv hs hi ⊢
          omega
    · rintro ⟨hw, hle, hend, hread⟩
      refine ⟨(w - pmp.vaddr) / 4096, ?_, (w - pmp.vaddr) % 4096 / t.cfg.ptrSize, ?_, ?_, hread⟩ <;>
      · rcases t.cfg.model.ptrSize_cases with ⟨-, hptr, -⟩ | ⟨-, hptr, -⟩ <;>
        · simp only [Config.ptrSize, hptr] at hv hs hw hend ⊢
          omega
  rw [← hindex]
  unfold readableWords Prmap.chunkWords
  simp only [List.mem_flatMap, List.mem_range]
  refine exists_congr fun k => and_congr_right fun _ => ?_
  by_cases hread : pmp.chunkReadable t k = true
  · simp only [hread, if_true, List.mem_map, List.mem_range, and_true]
    exact exists_congr fun i => and_congr_right fun _ => eq_comm
  · simp [hread]

/-- The words of a chunk are in it. -/
theorem mem_chunkWords {k w : ℕ} (h : w ∈ pmp.chunkWords t k) :
    pmp.vaddr + k * ugBufsz ≤ w ∧ w < pmp.vaddr + (k + 1) * ugBufsz := by
  have hpos : 0 < t.cfg.ptrSize := t.cfg.model.ptrSize_pos
  unfold Prmap.chunkWords at h
  split at h
  · obtain ⟨i, hi, rfl⟩ := List.mem_map.mp h
    have hle : (i + 1) * t.cfg.ptrSize ≤ pmp.chunkSize k :=
      (Nat.le_div_iff_mul_le hpos).mp (List.mem_range.mp hi)
    have hmin : pmp.chunkSize k ≤ ugBufsz := Nat.min_le_left _ _
    rw [Nat.succ_mul] at hle
    rw [Nat.succ_mul]
    omega
  · cases h

/-- Each of the words is there once. -/
theorem nodup_readableWords (t : Target) (pmp : Prmap) : (readableWords t pmp).Nodup := by
  have hpos : 0 < t.cfg.ptrSize := t.cfg.model.ptrSize_pos
  unfold readableWords
  rw [List.nodup_flatMap]
  constructor
  · intro k _
    unfold Prmap.chunkWords
    split
    · refine List.Nodup.map (fun i j hij => ?_) List.nodup_range
      exact Nat.eq_of_mul_eq_mul_right hpos (Nat.add_left_cancel hij)
    · exact List.nodup_nil
  · refine List.Pairwise.imp (fun {k k'} hlt => ?_) List.pairwise_lt_range
    intro w hw hw'
    have hchunk : (k + 1) * ugBufsz ≤ k' * ugBufsz := Nat.mul_le_mul_right _ hlt
    have hhigh := (mem_chunkWords hw).2
    have hlow := (mem_chunkWords hw').1
    omega

/-- **When the words are found exactly**: whenever the chunks of the mappings have an end. -/
theorem ugrepExact_iff {maps : List Prmap} (haligned : ∀ pmp ∈ maps, pmp.Aligned t.cfg) (addr : ℕ) :
    UgrepExact t maps addr ↔ ∀ pmp ∈ maps, pmp.ChunksEnd t.cfg := by
  have hlt : ∀ pmp ∈ maps, pmp.vaddr + pmp.size < 2 ^ t.cfg.bits := fun pmp h => (haligned pmp h).lt
  have hwords : ∀ pmp ∈ maps, pmp.Words t.cfg := fun pmp h =>
    ⟨by have := hlt pmp h; omega, by have := hlt pmp h; omega⟩
  constructor
  · intro h
    -- with a function that does nothing
    let noop : ℕ → Unit → Option (ℤ × Unit) := fun _ s => some (0, s)
    have hzero : ReturnsZero noop := by
      intro vaddr s rv s' heq
      cases heq
      rfl
    have hcalls := h.calls noop hzero ()
    rw [dbiUgrep_eq hzero] at hcalls
    refine (ugrepHits_isSome_iff addr hwords).mp ?_
    cases hhits : ugrepHits t addr maps with
    | some hits => exact ⟨hits, rfl⟩
    | none =>
      have hreturns : ∀ vaddr ∈ wordsWith t maps addr, ∀ s,
          (∃ r, noop vaddr s = some r) ↔ True :=
        fun _ _ s => iff_of_true ⟨(0, s), rfl⟩ trivial
      obtain ⟨s, hs⟩ := (callEach_isSome_iff hreturns ()).mpr fun _ _ => trivial
      rw [hhits, hs] at hcalls
      cases hcalls
  · intro hends
    refine ⟨fun callback hzero s => ?_, fun pmp _ => nodup_readableWords t pmp,
      fun pmp hpmp w => mem_readableWords_iff (haligned pmp hpmp)⟩
    rw [dbiUgrep_eq hzero, ugrepHits_eq addr hlt hends, Option.bind_some]

end Words

theorem cycleMapping_aligned : ∀ pmp ∈ [cycleMapping], pmp.Aligned cycleTarget.cfg := by
  intro pmp hpmp
  obtain rfl := List.mem_singleton.mp hpmp
  exact ⟨by decide, by decide, by decide⟩

theorem ugrepExact_iff_cycle :
    UgrepExact cycleTarget [cycleMapping] 0x1001 ↔
      ∀ pmp ∈ [cycleMapping], pmp.ChunksEnd cycleTarget.cfg :=
  ugrepExact_iff cycleMapping_aligned 0x1001

/-! ### The chains -/

section Chains

variable (t : Target)

/-- A reference: the object around a word. -/
structure Link where
  baseaddr : ℕ
  basetype : ℕ
  deriving DecidableEq, Repr

/-- The reference that a word is, if there is an object around it. -/
def linkAt (maxoffset refaddr : ℕ) : Option Link :=
  match v8whatis t (maxoffset + 1) refaddr maxoffset with
  | some (.ok, whatis) => some ⟨whatis.baseaddr.getD 0, whatis.basetype.getD 0⟩
  | _ => none

/-- The references to an address. -/
def linksTo (maps : List Prmap) (addr : ℕ) : List Link :=
  (wordsWith t maps addr).filterMap (linkAt t 16384)

/-- The `FixedArray` that a chain goes on from. -/
def Link.array? (c : Config) (l : Link) : Option ℕ :=
  if !isJsValueType c l.basetype && Target.isType l.basetype c.typeFixedarray then some l.baseaddr
  else none

/-- What a chain that ends with a reference prints, if anything: a function is too common to be worth it
behind two arrays. -/
def Link.printed (depth : ℕ) (l : Link) : List SearchResult :=
  if (jsfindrefsGarbage t l.baseaddr l.basetype).1 then []
  else if Target.isType l.basetype t.cfg.typeJsfunction && depth > 1 then []
  else if isJsValueType t.cfg l.basetype then [.value l.baseaddr]
  else []

/-- **What the chains to an address lead to**, by their lengths up to a limit. -/
def chainResults (maps : List Prmap) (maxdepth addr : ℕ) : List SearchResult :=
  Lib.byLength (linksTo t maps) (Link.array? t.cfg) (Link.printed t) (fun _ _ => [.gaveUp])
    (maxdepth - 1) 0 addr

/-- **The chains are printed**: the command returns, with all that the chains up to its limit lead to, each
of them once, and nothing else. -/
def PrintsChains (maps : List Prmap) (addr : ℕ) (opts : List JsfindrefsOpt) : Prop :=
  ∃ levels out, dcmdJsfindrefs t (some maps) levels (some addr) opts = some (.ok, out) ∧
    (out.filterMap JsfindrefsLine.result).Perm
      (chainResults t maps (JsfindrefsOpt.limit opts % 2 ^ 16) addr)

variable {t} {maps : List Prmap} {jsfr : Jsfindrefs}

theorem fixedArrayAt_eq (maxoffset refaddr : ℕ) :
    fixedArrayAt t maxoffset refaddr = (linkAt t maxoffset refaddr).bind (Link.array? t.cfg) := by
  unfold fixedArrayAt linkAt
  rcases v8whatis t (maxoffset + 1) refaddr maxoffset with _ | ⟨_ | _ | _, whatis⟩ <;> rfl

theorem valueAt_eq (maxoffset depth refaddr : ℕ) :
    (valueAt t maxoffset depth refaddr).toList.map SearchResult.value =
      (linkAt t maxoffset refaddr).toList.flatMap (Link.printed t depth) := by
  unfold valueAt linkAt
  rcases v8whatis t (maxoffset + 1) refaddr maxoffset with _ | ⟨_ | _ | _, whatis⟩
  case some.ok =>
    rw [Option.toList_some, List.flatMap_singleton]
    unfold Link.printed
    dsimp only
    split
    · rfl
    · split
      · rfl
      · split <;> rfl
  all_goals rfl

/-- Calls that each add lines to what has been printed. -/
theorem callEach_lines {callback : ℕ → List JsfindrefsLine → Option (ℤ × List JsfindrefsLine)}
    {results : ℕ → List SearchResult} {vaddrs : List ℕ}
    (hcall : ∀ vaddr ∈ vaddrs, ∀ out, ∃ lines, callback vaddr out = some (0, out ++ lines) ∧
      lines.filterMap JsfindrefsLine.result = results vaddr) (out : List JsfindrefsLine) :
    ∃ lines, callEach callback vaddrs out = some (out ++ lines) ∧
      lines.filterMap JsfindrefsLine.result = vaddrs.flatMap results := by
  induction vaddrs generalizing out with
  | nil => exact ⟨[], by rw [List.append_nil]; rfl, rfl⟩
  | cons vaddr vaddrs ih =>
    obtain ⟨lines, hfirst, hresults⟩ := hcall vaddr List.mem_cons_self out
    obtain ⟨lines', hrest, hresults'⟩ :=
      ih (fun v hv => hcall v (List.mem_cons_of_mem _ hv)) (out ++ lines)
    refine ⟨lines ++ lines', ?_, ?_⟩
    · unfold callEach at hrest ⊢
      rw [List.foldlM_cons, hfirst, Option.map_some, ← List.append_assoc]
      exact hrest
    · rw [List.filterMap_append, hresults, hresults', List.flatMap_cons]

/-- **What is printed for a word**, where the search goes on from an array or gives up. -/
theorem reference_lines (htags : t.cfg.V8Tags)
    (hoffset : jsfr.maxoffset + t.cfg.ptrSize ≤ 2 ^ t.cfg.bits) {refaddr : ℕ}
    (hrefaddr : refaddr < 2 ^ t.cfg.bits)
    {search : Jsfindrefs → List JsfindrefsLine → Option (ℤ × List JsfindrefsLine)}
    {results : ℕ → List SearchResult}
    (harray : ∀ baseaddr out, ∃ lines,
      (if (jsfr.curdepth : ℤ) = (jsfr.maxdepth : ℤ) - 1 then
        some (0, out ++ [.gaveUp jsfr.origaddr jsfr.curdepth])
      else search (jsfr.sub baseaddr) out) = some (0, out ++ lines) ∧
      lines.filterMap JsfindrefsLine.result = results baseaddr) (out : List JsfindrefsLine) :
    ∃ lines, jsfindrefsReference t search jsfr refaddr out = some (0, out ++ lines) ∧
      lines.filterMap JsfindrefsLine.result =
        (linkAt t jsfr.maxoffset refaddr).toList.flatMap fun l =>
          (l.array? t.cfg).elim (l.printed t jsfr.curdepth) results := by
  have harrayAt := fixedArrayAt_eq (t := t) jsfr.maxoffset refaddr
  have hvalueAt := valueAt_eq (t := t) jsfr.maxoffset jsfr.curdepth refaddr
  cases hat : fixedArrayAt t jsfr.maxoffset refaddr with
  | none =>
    obtain ⟨lines, hresults, heq⟩ := jsfindrefsReference_other hat (v8whatis_isSome htags hrefaddr hoffset)
    refine ⟨lines, heq search out, ?_⟩
    rw [hresults, hvalueAt]
    rw [hat] at harrayAt
    -- the word is not in an array, so that the search ends here
    cases hlink : linkAt t jsfr.maxoffset refaddr with
    | none => rfl
    | some l =>
      rw [hlink, Option.bind_some] at harrayAt
      rw [Option.toList_some, List.flatMap_singleton, List.flatMap_singleton, ← harrayAt, Option.elim_none]
  | some baseaddr =>
    obtain ⟨lines, hresults, heq⟩ := jsfindrefsReference_array hat
    -- the word is in an array, and the search goes on from there
    obtain ⟨lines', hgoes, hresults'⟩ := harray baseaddr (out ++ lines)
    refine ⟨lines ++ lines', ?_, ?_⟩
    · rw [heq, hgoes, List.append_assoc]
    · rw [List.filterMap_append, hresults, hresults', List.nil_append]
      rw [hat] at harrayAt
      cases hlink : linkAt t jsfr.maxoffset refaddr with
      | none =>
        rw [hlink] at harrayAt
        cases harrayAt
      | some l =>
        rw [hlink, Option.bind_some] at harrayAt
        rw [Option.toList_some, List.flatMap_singleton, ← harrayAt, Option.elim_some]

/-- **One level of a search** prints what the words that it finds lead to. -/
theorem jsfindrefs_lines (htags : t.cfg.V8Tags) (haligned : ∀ pmp ∈ maps, pmp.Aligned t.cfg)
    (hends : ∀ pmp ∈ maps, pmp.ChunksEnd t.cfg) {levels : ℕ} (hoffset : jsfr.maxoffset = 16384)
    {results : ℕ → List SearchResult}
    (harray : ∀ baseaddr out, ∃ lines,
      (if (jsfr.curdepth : ℤ) = (jsfr.maxdepth : ℤ) - 1 then
        some (0, out ++ [.gaveUp jsfr.origaddr jsfr.curdepth])
      else jsfindrefs t (some maps) levels (jsfr.sub baseaddr) out) = some (0, out ++ lines) ∧
      lines.filterMap JsfindrefsLine.result = results baseaddr) (out : List JsfindrefsLine) :
    ∃ lines, jsfindrefs t (some maps) (levels + 1) jsfr out = some (0, out ++ lines) ∧
      lines.filterMap JsfindrefsLine.result = (linksTo t maps jsfr.addr).flatMap fun l =>
        (l.array? t.cfg).elim (l.printed t jsfr.curdepth) results := by
  have hhits := ugrepHits_eq jsfr.addr (fun pmp h => (haligned pmp h).lt) hends
  -- the limit of the search for an object is far from a word
  have hlimit : jsfr.maxoffset + t.cfg.ptrSize ≤ 2 ^ t.cfg.bits := by
    rw [hoffset]
    exact maxoffset_le t.cfg
  -- the words are taken one after the other
  obtain ⟨lines, hcalls, hresults⟩ := callEach_lines
    (fun vaddr hin => reference_lines htags hlimit (hit_lt hhits hin) harray) out
  refine ⟨lines, ?_, ?_⟩
  · rw [jsfindrefs_succ, hhits, Option.bind_some, hcalls]
    rfl
  · rw [hresults, hoffset]
    unfold linksTo
    rw [List.filterMap_eq_flatMap_toList, List.flatMap_assoc]

/-- **A search explores the chains**, as many levels as its limit leaves: by induction on them. -/
theorem jsfindrefs_explore (htags : t.cfg.V8Tags) (haligned : ∀ pmp ∈ maps, pmp.Aligned t.cfg)
    (hends : ∀ pmp ∈ maps, pmp.ChunksEnd t.cfg) (room : ℕ) (hoffset : jsfr.maxoffset = 16384)
    (hroom : jsfr.curdepth + room + 1 = jsfr.maxdepth) (hshort : jsfr.maxdepth < 2 ^ 16)
    (out : List JsfindrefsLine) :
    ∃ lines, jsfindrefs t (some maps) (room + 1) jsfr out = some (0, out ++ lines) ∧
      lines.filterMap JsfindrefsLine.result =
        Lib.explore (linksTo t maps) (Link.array? t.cfg) (Link.printed t) (fun _ _ => [.gaveUp]) room
          jsfr.curdepth jsfr.addr := by
  induction room generalizing jsfr out with
  | zero =>
    refine @jsfindrefs_lines t maps jsfr htags haligned hends 0 hoffset (fun _ => [.gaveUp])
      (fun baseaddr out => ?_) out
    rw [if_pos (by omega)]
    exact ⟨_, rfl, rfl⟩
  | succ room ih =>
    have hnext : jsfr.curdepth + 1 < 2 ^ 16 := by omega
    refine @jsfindrefs_lines t maps jsfr htags haligned hends (room + 1) hoffset
      (Lib.explore (linksTo t maps) (Link.array? t.cfg) (Link.printed t) (fun _ _ => [.gaveUp]) room
        (jsfr.curdepth + 1)) (fun baseaddr out => ?_) out
    rw [if_neg (by omega)]
    -- the next level has a number that an `unsigned short` can hold
    have hcur : (jsfr.sub baseaddr).curdepth = jsfr.curdepth + 1 := Nat.mod_eq_of_lt hnext
    have hsub := @ih (jsfr.sub baseaddr) hoffset
      (by rw [hcur]; change _ = jsfr.maxdepth; omega) hshort out
    rw [hcur] at hsub
    exact hsub

/-- **When the chains are printed**, with a limit that is not stored as zero: whenever the search through
memory ends. -/
theorem printsChains_iff (htags : t.cfg.V8Tags) (haligned : ∀ pmp ∈ maps, pmp.Aligned t.cfg) (addr : ℕ)
    (opts : List JsfindrefsOpt) (hlimit : JsfindrefsOpt.limit opts % 2 ^ 16 ≠ 0) :
    PrintsChains t maps addr opts ↔ ∀ pmp ∈ maps, pmp.ChunksEnd t.cfg := by
  obtain ⟨haddr, -, hoffset, hcur, hmax⟩ := dcmdJsfindrefsState_starts t.cfg addr opts
  constructor
  · rintro ⟨levels, out, hout, -⟩
    -- a search that has returned has come through all of its mappings
    have hwords : ∀ pmp ∈ maps, pmp.Words t.cfg := by
      intro pmp hpmp
      have hlt := (haligned pmp hpmp).lt
      exact ⟨by omega, by omega⟩
    unfold dcmdJsfindrefs at hout
    cases levels with
    | zero => cases hout
    | succ levels =>
      dsimp only at hout
      rw [jsfindrefs_succ, haddr] at hout
      refine (ugrepHits_isSome_iff addr hwords).mp ?_
      cases hhits : ugrepHits t addr maps with
      | some hits => exact ⟨hits, rfl⟩
      | none =>
        rw [hhits] at hout
        cases hout
  · intro hends
    -- the limit that is stored is not zero
    obtain ⟨room, hroom⟩ : ∃ room, JsfindrefsOpt.limit opts % 2 ^ 16 = room + 1 :=
      Nat.exists_eq_succ_of_ne_zero hlimit
    obtain ⟨lines, hlines, hresults⟩ := jsfindrefs_explore htags haligned hends room hoffset
      (by rw [hcur, hmax, hroom]; omega) (by rw [hmax]; exact Nat.mod_lt _ (by decide)) []
    refine ⟨room + 1, lines, ?_, ?_⟩
    · unfold dcmdJsfindrefs
      dsimp only
      rw [hlines]
      rfl
    · rw [hresults, hcur, haddr]
      unfold chainResults
      rw [hroom]
      exact Lib.explore_perm ..

end Chains

theorem printsChains_iff_cycle :
    PrintsChains cycleTarget [cycleMapping] 0x1001 [.maxdepth 3] ↔
      ∀ pmp ∈ [cycleMapping], pmp.ChunksEnd cycleTarget.cfg :=
  printsChains_iff (Config.v8Tags_sample .lp64) cycleMapping_aligned 0x1001 [.maxdepth 3] (by decide)

end MdbV8
