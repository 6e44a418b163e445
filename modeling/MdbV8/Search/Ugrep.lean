import MdbV8.Find.Range
import MdbV8.Target.Tags

/-!
# The search for a word

`mdb_v8_dbi.c`. `dbi_ugrep` goes through the mappings of the target, and calls a function for each aligned
word that has a value. A mapping is read in chunks of 4096 bytes. A chunk that cannot be read is left out.

The address of the next chunk is a word. It wraps around behind a mapping whose last chunk comes to the
end of the address space, and then the loop over the chunks does not end
(`chunkBases_eq_none`). Otherwise the function is called for the words of a list (`ugrepMappings_eq`), as
long as it returns zero.
-/

namespace MdbV8

/-- `ug_bufsz`. -/
def ugBufsz : ℕ := 4096

section Ugrep

variable (t : Target) {σ : Type} (addr : ℕ) (callback : ℕ → σ → Option (ℤ × σ))

/-! ### The source -/

/-- The inner loop of `ugrep_mapping`, over the words of the buffer from one of them on. A callback may
fail to return. -/
def ugrepBuf (chunkbase : ℕ) : ℕ → List ℕ → σ → Option (ℤ × σ)
  | _, [], s => some (0, s)
  | i, w :: buf, s =>
    if w = addr then
      match callback (t.cfg.add chunkbase (i * t.cfg.ptrSize : ℕ)) s with
      | none => none
      | some (rv, s) => if rv ≠ 0 then some (rv, s) else ugrepBuf chunkbase (i + 1) buf s
    else ugrepBuf chunkbase (i + 1) buf s

/-- `ntoread`. -/
def ugrepNtoread (c : Config) (pmp : Prmap) (chunkbase : ℕ) : ℕ :=
  min ugBufsz (c.wrap ((pmp.size : ℤ) - c.wrap ((chunkbase : ℤ) - pmp.vaddr)))

/-- The loop of `ugrep_mapping` over the chunks. -/
def ugrepChunks (pmp : Prmap) : ℕ → ℕ → σ → Option (ℤ × σ)
  | 0, _, _ => none
  | fuel + 1, chunkbase, s =>
    if chunkbase < t.cfg.add pmp.vaddr pmp.size then
      match t.mdbVread (ugrepNtoread t.cfg pmp chunkbase) chunkbase with
      | none => ugrepChunks pmp fuel (t.cfg.add chunkbase ugBufsz) s
      | some buf =>
        match ugrepBuf t addr callback chunkbase 0 (Target.wordsOf t.cfg.ptrSize buf) s with
        | none => none
        | some (rv, s) =>
          if rv ≠ 0 then some (-1, s)
          else ugrepChunks pmp fuel (t.cfg.add chunkbase ugBufsz) s
    else some (0, s)

/-- `ugrep_mapping`. There are not more chunks than addresses. -/
def ugrepMapping (pmp : Prmap) (s : σ) : Option (ℤ × σ) :=
  ugrepChunks t addr callback pmp (2 ^ t.cfg.bits + 1) pmp.vaddr s

/-- The `Pmapping_iter` of `dbi_ugrep`. -/
def ugrepMappings : List Prmap → σ → Option (ℤ × σ)
  | [], s => some (0, s)
  | pmp :: maps, s =>
    match ugrepMapping t addr callback pmp s with
    | none => none
    | some (rv, s) => if rv ≠ 0 then some (rv, s) else ugrepMappings maps s

/-- `dbi_ugrep`, with the mappings of the process, if there is a handle of it. If the iteration has come to
its end, the last callback has returned zero. -/
def dbiUgrep (handle : Option (List Prmap)) (s : σ) : Option (ℤ × σ) :=
  match handle with
  | none => some (-1, s)
  | some maps =>
    match ugrepMappings t addr callback maps s with
    | none => none
    | some (err, s) => some (if err ≠ 0 then -1 else 0, s)

/-! ### The words that are found -/

/-- The chunks of a mapping. -/
def chunkBases (c : Config) (pmp : Prmap) : ℕ → ℕ → Option (List ℕ)
  | 0, _ => none
  | fuel + 1, chunkbase =>
    if chunkbase < c.add pmp.vaddr pmp.size then
      (chunkBases c pmp fuel (c.add chunkbase ugBufsz)).map (chunkbase :: ·)
    else some []

/-- The addresses of the words of a buffer that have the value, from one of them on. -/
def bufHits (chunkbase i : ℕ) (buf : List ℕ) : List ℕ :=
  ((buf.zipIdx i).filter fun e => e.1 = addr).map fun e =>
    t.cfg.add chunkbase (e.2 * t.cfg.ptrSize : ℕ)

/-- Those of a chunk. -/
def chunkHits (pmp : Prmap) (chunkbase : ℕ) : List ℕ :=
  match t.mdbVread (ugrepNtoread t.cfg pmp chunkbase) chunkbase with
  | none => []
  | some buf => bufHits t addr chunkbase 0 (Target.wordsOf t.cfg.ptrSize buf)

/-- Those of all the chunks of the mappings, if the chunks have an end. -/
def ugrepHits : List Prmap → Option (List ℕ)
  | [] => some []
  | pmp :: maps =>
    (chunkBases t.cfg pmp (2 ^ t.cfg.bits + 1) pmp.vaddr).bind fun bases =>
      (ugrepHits maps).map (bases.flatMap (chunkHits t addr pmp) ++ ·)

/-- Calling a function that returns zero for addresses one after the other. -/
def callEach (vaddrs : List ℕ) (s : σ) : Option σ :=
  vaddrs.foldlM (fun s vaddr => (callback vaddr s).map Prod.snd) s

/-- A function that returns zero, if it returns. -/
def ReturnsZero : Prop := ∀ vaddr s rv s', callback vaddr s = some (rv, s') → rv = 0

variable {t addr callback}

theorem callEach_append (vaddrs vaddrs' : List ℕ) (s : σ) :
    callEach callback (vaddrs ++ vaddrs') s =
      (callEach callback vaddrs s).bind (callEach callback vaddrs') :=
  List.foldlM_append

/-- A function that returns or does not, whatever the state is. -/
theorem callEach_isSome_iff {P : ℕ → Prop} {vaddrs : List ℕ}
    (hcall : ∀ vaddr ∈ vaddrs, ∀ s, (∃ r, callback vaddr s = some r) ↔ P vaddr) (s : σ) :
    (∃ s', callEach callback vaddrs s = some s') ↔ ∀ vaddr ∈ vaddrs, P vaddr := by
  induction vaddrs generalizing s with
  | nil => exact iff_of_true ⟨s, rfl⟩ (by simp)
  | cons vaddr vaddrs ih =>
    rw [List.forall_mem_cons, ← hcall vaddr List.mem_cons_self s]
    have hrest (s : σ) := ih (fun v hv => hcall v (List.mem_cons_of_mem _ hv)) s
    unfold callEach at hrest ⊢
    rw [List.foldlM_cons]
    cases callback vaddr s with
    | none => simp
    | some r => simpa using hrest r.2

/-- The words of a buffer. -/
theorem ugrepBuf_eq (hzero : ReturnsZero callback) (chunkbase i : ℕ) (buf : List ℕ) (s : σ) :
    ugrepBuf t addr callback chunkbase i buf s =
      (callEach callback (bufHits t addr chunkbase i buf) s).map (0, ·) := by
  induction buf generalizing i s with
  | nil => rfl
  | cons w buf ih =>
    unfold ugrepBuf bufHits
    rw [List.zipIdx_cons]
    by_cases hw : w = addr
    · rw [if_pos hw, List.filter_cons_of_pos (by simpa using hw), List.map_cons]
      unfold callEach
      rw [List.foldlM_cons]
      cases hcall : callback (t.cfg.add chunkbase (i * t.cfg.ptrSize : ℕ)) s with
      | none => rfl
      | some r =>
        obtain ⟨rv, s'⟩ := r
        obtain rfl := hzero _ _ _ _ hcall
        exact ih (i + 1) s'
    · rw [if_neg hw, List.filter_cons_of_neg (by simpa using hw)]
      exact ih (i + 1) s

/-- The chunks of a mapping. -/
theorem ugrepChunks_eq (hzero : ReturnsZero callback) (pmp : Prmap) (fuel chunkbase : ℕ) (s : σ) :
    ugrepChunks t addr callback pmp fuel chunkbase s =
      (chunkBases t.cfg pmp fuel chunkbase).bind fun bases =>
        (callEach callback (bases.flatMap (chunkHits t addr pmp)) s).map (0, ·) := by
  induction fuel generalizing chunkbase s with
  | zero => rfl
  | succ fuel ih =>
    unfold ugrepChunks chunkBases
    by_cases hlt : chunkbase < t.cfg.add pmp.vaddr pmp.size
    · rw [if_pos hlt, if_pos hlt]
      -- a chunk is read as a whole, or not at all
      have hhits : chunkHits t addr pmp chunkbase = match t.mdbVread (ugrepNtoread t.cfg pmp chunkbase)
          chunkbase with
        | none => []
        | some buf => bufHits t addr chunkbase 0 (Target.wordsOf t.cfg.ptrSize buf) := rfl
      -- and the chunks behind it may not have an end
      cases hbases : chunkBases t.cfg pmp fuel (t.cfg.add chunkbase ugBufsz) with
      | none =>
        -- the loop does not end, whatever the callback does
        have hnone (s : σ) : ugrepChunks t addr callback pmp fuel (t.cfg.add chunkbase ugBufsz) s =
            none := by
          rw [ih, hbases]
          rfl
        cases t.mdbVread (ugrepNtoread t.cfg pmp chunkbase) chunkbase with
        | none => exact hnone s
        | some buf =>
          dsimp only
          rw [ugrepBuf_eq hzero]
          cases callEach callback (bufHits t addr chunkbase 0 (Target.wordsOf t.cfg.ptrSize buf)) s with
          | none => rfl
          | some s' => exact hnone s'
      | some bases =>
        have hrest (s : σ) : ugrepChunks t addr callback pmp fuel (t.cfg.add chunkbase ugBufsz) s =
            (callEach callback (bases.flatMap (chunkHits t addr pmp)) s).map (0, ·) := by
          rw [ih, hbases]
          rfl
        rw [Option.map_some, Option.bind_some, List.flatMap_cons, callEach_append, hhits]
        cases t.mdbVread (ugrepNtoread t.cfg pmp chunkbase) chunkbase with
        | none => exact hrest s
        | some buf =>
          dsimp only
          rw [ugrepBuf_eq hzero]
          cases callEach callback (bufHits t addr chunkbase 0 (Target.wordsOf t.cfg.ptrSize buf)) s with
          | none => rfl
          | some s' => exact hrest s'
    · rw [if_neg hlt, if_neg hlt]
      rfl

/-- **What a search calls the function for**, if the function returns zero. -/
theorem ugrepMappings_eq (hzero : ReturnsZero callback) (maps : List Prmap) (s : σ) :
    ugrepMappings t addr callback maps s =
      (ugrepHits t addr maps).bind fun hits => (callEach callback hits s).map (0, ·) := by
  induction maps generalizing s with
  | nil => rfl
  | cons pmp maps ih =>
    unfold ugrepMappings ugrepHits ugrepMapping
    rw [ugrepChunks_eq hzero]
    cases chunkBases t.cfg pmp (2 ^ t.cfg.bits + 1) pmp.vaddr with
    | none => rfl
    | some bases =>
      simp only [Option.bind_some]
      -- the mappings behind it may not have an end
      cases hhits : ugrepHits t addr maps with
      | none =>
        cases callEach callback (bases.flatMap (chunkHits t addr pmp)) s with
        | none => rfl
        | some s' =>
          have hrest := ih s'
          rw [hhits] at hrest
          exact hrest
      | some hits =>
        simp only [Option.map_some, Option.bind_some]
        rw [callEach_append]
        cases callEach callback (bases.flatMap (chunkHits t addr pmp)) s with
        | none => rfl
        | some s' =>
          have hrest := ih s'
          rw [hhits] at hrest
          exact hrest

/-- The addresses of the words that are found are words. -/
theorem hit_lt {maps : List Prmap} {hits : List ℕ} (h : ugrepHits t addr maps = some hits) {vaddr : ℕ}
    (hvaddr : vaddr ∈ hits) : vaddr < 2 ^ t.cfg.bits := by
  induction maps generalizing hits with
  | nil =>
    obtain rfl : [] = hits := Option.some.inj h
    cases hvaddr
  | cons pmp maps ih =>
    obtain ⟨bases, -, hrest⟩ := Option.bind_eq_some_iff.mp h
    obtain ⟨hits', hhits', rfl⟩ := Option.map_eq_some_iff.mp hrest
    rcases List.mem_append.mp hvaddr with hin | hin
    · obtain ⟨base, -, hin⟩ := List.mem_flatMap.mp hin
      unfold chunkHits bufHits at hin
      split at hin
      · cases hin
      · obtain ⟨e, -, rfl⟩ := List.mem_map.mp hin
        exact Config.add_lt _ _ _
    · exact ih hhits' hin

end Ugrep

/-! ### When the chunks have an end -/

section Chunks

variable (c : Config)

/-- The number of the chunks of a mapping. -/
def Prmap.nchunks (pmp : Prmap) : ℕ := (pmp.size + (ugBufsz - 1)) / ugBufsz

/-- **The chunks have an end**: nothing is in the mapping, or it wraps around itself and is left out, or
its last chunk ends before the address space. -/
def Prmap.ChunksEnd (pmp : Prmap) : Prop :=
  pmp.size = 0 ∨ 2 ^ c.bits ≤ pmp.vaddr + pmp.size ∨ pmp.vaddr + pmp.nchunks * ugBufsz < 2 ^ c.bits

/-- The address and the size of a mapping are words. -/
structure Prmap.Words (pmp : Prmap) : Prop where
  vaddr : pmp.vaddr < 2 ^ c.bits
  size : pmp.size < 2 ^ c.bits

variable {c} {pmp : Prmap}

theorem four_thousand_dvd_bits (c : Config) : ∃ n, 2 ^ c.bits = ugBufsz * n := by
  rcases c.model.ptrSize_cases with ⟨-, -, hbits⟩ | ⟨-, -, hbits⟩
  · exact ⟨2 ^ 20, by rw [Config.bits, hbits]; rfl⟩
  · exact ⟨2 ^ 52, by rw [Config.bits, hbits]; rfl⟩

/-- A mapping that does not wrap around, and whose last chunk ends before the address space. -/
theorem chunkBases_of_lt (hlt : pmp.vaddr + pmp.size < 2 ^ c.bits)
    (hend : pmp.vaddr + pmp.nchunks * ugBufsz < 2 ^ c.bits) :
    chunkBases c pmp (2 ^ c.bits + 1) pmp.vaddr =
      some ((List.range pmp.nchunks).map fun k => pmp.vaddr + k * ugBufsz) := by
  have hlimit : c.add pmp.vaddr pmp.size = pmp.vaddr + pmp.size := by
    rw [Config.add_natCast, Nat.mod_eq_of_lt hlt]
  -- from any of the chunks on, by induction on the number of those that follow
  have hfrom : ∀ m j fuel, j + m = pmp.nchunks → m < fuel →
      chunkBases c pmp fuel (pmp.vaddr + j * ugBufsz) =
        some ((List.range' j m).map fun k => pmp.vaddr + k * ugBufsz) := by
    intro m
    induction m with
    | zero =>
      intro j fuel hj hfuel
      obtain ⟨fuel, rfl⟩ := Nat.exists_eq_succ_of_ne_zero (Nat.ne_of_gt hfuel)
      unfold chunkBases
      rw [hlimit, if_neg]
      · rfl
      · unfold Prmap.nchunks at hj
        unfold ugBufsz at hj ⊢
        omega
    | succ m ih =>
      intro j fuel hj hfuel
      obtain ⟨fuel, rfl⟩ := Nat.exists_eq_succ_of_ne_zero (Nat.ne_of_gt (Nat.zero_lt_of_lt hfuel))
      have hnext : c.add (pmp.vaddr + j * ugBufsz) ugBufsz = pmp.vaddr + (j + 1) * ugBufsz := by
        have hle : (j + 1) * ugBufsz ≤ pmp.nchunks * ugBufsz := Nat.mul_le_mul_right _ (by omega)
        rw [Config.add_natCast, Nat.mod_eq_of_lt (by rw [Nat.succ_mul] at hle; omega), Nat.succ_mul,
          Nat.add_assoc]
      unfold chunkBases
      rw [hlimit, if_pos, hnext, ih (j + 1) fuel (by omega) (by omega), List.range'_succ]
      · rfl
      · unfold Prmap.nchunks at hj
        unfold ugBufsz at hj ⊢
        omega
  have hall := hfrom pmp.nchunks 0 (2 ^ c.bits + 1) (Nat.zero_add _) ?_
  · have hbase : pmp.vaddr + 0 * ugBufsz = pmp.vaddr := by rw [Nat.zero_mul, Nat.add_zero]
    rw [hbase] at hall
    rw [hall, List.range_eq_range']
  · have hle : pmp.nchunks ≤ pmp.nchunks * ugBufsz := Nat.le_mul_of_pos_right _ (by decide)
    omega

/-- **The chunks have no end** if the last one comes to the end of the address space: the addresses are
those of the mapping again and again, and of everything before it. -/
theorem chunkBases_eq_none (hlt : pmp.vaddr + pmp.size < 2 ^ c.bits)
    (hover : 2 ^ c.bits ≤ pmp.vaddr + pmp.nchunks * ugBufsz) (fuel : ℕ) {chunkbase : ℕ}
    (hbase : chunkbase < 2 ^ c.bits) (hmod : chunkbase % ugBufsz = pmp.vaddr % ugBufsz) :
    chunkBases c pmp fuel chunkbase = none := by
  have hlimit : c.add pmp.vaddr pmp.size = pmp.vaddr + pmp.size := by
    rw [Config.add_natCast, Nat.mod_eq_of_lt hlt]
  obtain ⟨n, hn⟩ := four_thousand_dvd_bits c
  induction fuel generalizing chunkbase with
  | zero => rfl
  | succ fuel ih =>
    unfold chunkBases
    have hnext : c.add chunkbase ugBufsz = (chunkbase + ugBufsz) % 2 ^ c.bits := Config.add_natCast ..
    rw [hlimit, if_pos, hnext, ih (Nat.mod_lt _ (Nat.two_pow_pos _))]
    · rfl
    · rw [hn, Nat.mod_mul_right_mod, Nat.add_mod_right, hmod]
    · -- the last chunk of the mapping is the last one of all with this distance
      unfold Prmap.nchunks at hover
      unfold ugBufsz at hover hmod hn
      omega

/-- **When the chunks have an end.** -/
theorem chunkBases_isSome_iff (hwords : pmp.Words c) :
    (∃ bases, chunkBases c pmp (2 ^ c.bits + 1) pmp.vaddr = some bases) ↔ pmp.ChunksEnd c := by
  constructor
  · rintro ⟨bases, hbases⟩
    by_contra hnot
    unfold Prmap.ChunksEnd at hnot
    push Not at hnot
    obtain ⟨-, hlt, hover⟩ := hnot
    rw [chunkBases_eq_none hlt hover _ hwords.vaddr rfl] at hbases
    cases hbases
  · -- a mapping that ends in front of its start has no chunks
    have hnone (hle : c.add pmp.vaddr pmp.size ≤ pmp.vaddr) :
        chunkBases c pmp (2 ^ c.bits + 1) pmp.vaddr = some [] := by
      unfold chunkBases
      rw [if_neg (Nat.not_lt.mpr hle)]
    have hv := hwords.vaddr
    have hs := hwords.size
    rintro (hzero | hwrap | hend)
    · refine ⟨[], hnone ?_⟩
      rw [Config.add_natCast, hzero, Nat.add_zero]
      exact Nat.mod_le _ _
    · refine ⟨[], hnone ?_⟩
      rw [Config.add_natCast, Nat.mod_eq_sub_mod hwrap, Nat.mod_eq_of_lt (by omega)]
      omega
    · by_cases hlt : pmp.vaddr + pmp.size < 2 ^ c.bits
      · exact ⟨_, chunkBases_of_lt hlt hend⟩
      · refine ⟨[], hnone ?_⟩
        rw [Config.add_natCast, Nat.mod_eq_sub_mod (by omega), Nat.mod_eq_of_lt (by omega)]
        omega

end Chunks

/-- **When a search comes to its end**, apart from what its function does. -/
theorem ugrepHits_isSome_iff {t : Target} {maps : List Prmap} (addr : ℕ)
    (hwords : ∀ pmp ∈ maps, pmp.Words t.cfg) :
    (∃ hits, ugrepHits t addr maps = some hits) ↔ ∀ pmp ∈ maps, pmp.ChunksEnd t.cfg := by
  induction maps with
  | nil => exact iff_of_true ⟨[], rfl⟩ (by simp)
  | cons pmp maps ih =>
    rw [List.forall_mem_cons, ← chunkBases_isSome_iff (hwords pmp List.mem_cons_self),
      ← ih fun pmp' h => hwords pmp' (List.mem_cons_of_mem _ h)]
    have hcons : ugrepHits t addr (pmp :: maps) =
        (chunkBases t.cfg pmp (2 ^ t.cfg.bits + 1) pmp.vaddr).bind fun bases =>
          (ugrepHits t addr maps).map (bases.flatMap (chunkHits t addr pmp) ++ ·) := rfl
    rw [hcons]
    cases chunkBases t.cfg pmp (2 ^ t.cfg.bits + 1) pmp.vaddr with
    | none => simp
    | some bases => cases ugrepHits t addr maps <;> simp

end MdbV8
