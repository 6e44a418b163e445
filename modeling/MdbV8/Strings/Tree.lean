import MdbV8.Strings.Leaf

/-!
# Trees of strings

A string that V8 has put together from others is a tree: its inner nodes are concatenations, and its
leaves are sequential strings, or slices of them. `StringTree` says of the string at an address that
it is such a tree, that all of it can be read, and what the characters of its leaves are.

The leaves are written one after the other, each as if it were alone (`v8stringWrite_tree`).
-/

namespace MdbV8

/-! ### Characters in the target -/

/-- The address of the characters of a sequential string. -/
def charsAddr (c : Config) (addr : ℕ) (ascii : Bool) : ℕ :=
  c.add addr (if ascii then c.offSeqasciistrChars else c.offSeqtwobytestrChars)

/-- Of the sequential string at an address, `n` characters from the `off`-th on can be read, and
they are `cs`. -/
def ReadsChars (t : Target) (addr : ℕ) (ascii : Bool) (off n : ℕ) (cs : List ℕ) : Prop :=
  ∃ bs, t.mdbVread (bytesPerChar ascii * n)
      (t.cfg.add (charsAddr t.cfg addr ascii) ((off * bytesPerChar ascii : ℕ) : ℤ)) = some bs ∧
    cs = decodeChars ascii bs

/-- The string at `addr` is a tree with the given nesting depth of concatenations, and `leaves` are
the characters of its leaves from left to right. The representation of a string is the first one
that `v8string_write` finds in its type. -/
inductive StringTree (t : Target) : ℕ → ℕ → List (List ℕ) → Prop
  | seq {addr : ℕ} {strp : V8String} {cs : List ℕ} (hload : v8stringLoad t addr = some strp)
      (hseq : t.cfg.strrepSeq strp.type = true)
      (hread : ReadsChars t addr (t.cfg.strencAscii strp.type) 0 strp.len cs) :
      StringTree t addr 0 [cs]
  /-- A slice of a sequential string of the same encoding, inside its parent. -/
  | sliced {addr : ℕ} {strp pstrp : V8String} {cs : List ℕ}
      (hload : v8stringLoad t addr = some strp)
      (hseq : t.cfg.strrepSeq strp.type = false) (hcons : t.cfg.strrepCons strp.type = false)
      (hext : t.cfg.strrepExt strp.type = false) (hsliced : t.cfg.strrepSliced strp.type = true)
      (hparent : v8stringLoad t strp.slicedParent = some pstrp)
      (hpseq : t.cfg.strrepSeq pstrp.type = true)
      (henc : t.cfg.strencAscii pstrp.type = t.cfg.strencAscii strp.type)
      (hle : strp.slicedOffset + strp.len ≤ pstrp.len)
      (hread : ReadsChars t strp.slicedParent (t.cfg.strencAscii strp.type) strp.slicedOffset
        strp.len cs) :
      StringTree t addr 0 [cs]
  | cons {addr d₁ d₂ : ℕ} {strp : V8String} {ls₁ ls₂ : List (List ℕ)}
      (hload : v8stringLoad t addr = some strp)
      (hseq : t.cfg.strrepSeq strp.type = false) (hcons : t.cfg.strrepCons strp.type = true)
      (h₁ : StringTree t strp.consP1 d₁ ls₁) (h₂ : StringTree t strp.consP2 d₂ ls₂) :
      StringTree t addr (max d₁ d₂ + 1) (ls₁ ++ ls₂)

/-- A tree can be loaded. -/
theorem StringTree.exists_load {t : Target} {addr d : ℕ} {leaves : List (List ℕ)}
    (h : StringTree t addr d leaves) : ∃ strp, v8stringLoad t addr = some strp := by
  cases h <;> exact ⟨_, ‹_›⟩

section Load

variable {t : Target} {addr : ℕ} {strp : V8String}

/-- What loading a string gives: its address, and a length that fits a word. -/
theorem v8stringLoad_spec (h : v8stringLoad t addr = some strp) :
    strp.addr = addr ∧ strp.len < 2 ^ t.cfg.bits := by
  unfold v8stringLoad at h
  cases htype : t.readTypebyte addr with
  | none => simp [htype] at h
  | some type =>
    simp only [htype] at h
    split_ifs at h
    all_goals
      -- the length is checked before anything else of the string is read
      cases hlen : t.readHeapSmi addr t.cfg.offStringLength with
      | none => simp [hlen] at h
      | some len =>
        have hlt : len < 2 ^ t.cfg.bits := by
          unfold Target.readHeapSmi at hlen
          cases hw : t.readHeapPtr addr t.cfg.offStringLength with
          | none => simp [hw] at hlen
          | some w =>
            have hwlt := Target.readPtr_lt hw
            simp only [hw] at hlen
            split_ifs at hlen
            rw [← Option.some.inj hlen, Config.smiValue, Nat.shiftRight_eq_div_pow]
            exact lt_of_le_of_lt (Nat.div_le_self _ _) hwlt
        simp only [hlen] at h
        repeat' split at h
        all_goals first | (obtain rfl := Option.some.inj h; exact ⟨rfl, hlt⟩) | exact absurd h (by simp)

end Load

/-! ### Writing a tree -/

/-- Writing the leaves of a tree one after the other. -/
def treeOut (bits strflags : ℕ) (leaves : List (List ℕ)) (s : Strbuf) : Strbuf :=
  leaves.foldl (fun s cs => leafOut bits strflags cs s) s

section Write

variable (t : Target)

/-- A part of a sequential string that can be read is written as in one chunk. -/
theorem v8stringWriteSeq_eq_leafOut {strp : V8String} {v8flags off : ℕ} {len : ℤ} {ascii : Bool}
    (hascii : (v8flags &&& jsstrIsascii != 0) = ascii) {o n : ℕ}
    (hslice : sliceOf t strp.len off len = (o, n)) {cs : List ℕ}
    (hread : ReadsChars t strp.addr ascii o n cs) (strb : Strbuf) (strflags : ℕ) :
    v8stringWriteSeq t strp strb strflags v8flags off len =
      (0, leafOut t.cfg.bits strflags cs strb) := by
  obtain ⟨bs, hbs, rfl⟩ := hread
  have hwf := seqWriter_wf t strp strb strflags v8flags (o, n)
  have hread : (seqWriter t strp strb strflags v8flags (o, n)).Readable t bs := by
    unfold V8StringWrite.Readable V8StringWrite.chunkAddr seqWriter
    dsimp only
    rw [hascii]
    exact hbs
  have hrem : (seqWriter t strp strb strflags v8flags (o, n)).remaining = n := rfl
  -- the chunks do not show
  have hrun := hwf.writeChunks_eq hrem.le rfl
    (fun h0 => by
      rw [hrem] at h0
      subst h0
      rfl)
    hread
    (fun hpos => by
      rw [hrem] at hpos
      exact beq_eq_false_iff_ne.mpr hpos.ne')
  have hw : (seqWriter t strp strb strflags v8flags (o, n)).ascii = ascii := hascii
  rw [v8stringWriteSeq_eq, hslice, hrun, hw]
  rfl

/-- The whole of a string is a slice of it. -/
theorem sliceOf_all (len : ℕ) : sliceOf t len 0 (-1) = (0, len) := by
  simp [sliceOf]

/-- A slice inside its parent is not cut. -/
theorem sliceOf_of_le {plen off len : ℕ} (hle : off + len ≤ plen) (hlt : plen < 2 ^ t.cfg.bits) :
    sliceOf t plen off (t.cfg.toSigned len) = (off, len) := by
  have hoff : min off plen = off := by omega
  have hcast : (2 : ℤ) ^ t.cfg.bits = ((2 ^ t.cfg.bits : ℕ) : ℤ) := by push_cast; rfl
  have hwrap : t.cfg.wrap (t.cfg.toSigned len) = len := by
    unfold Config.toSigned
    split
    · exact t.cfg.wrap_natCast (by omega)
    · rw [Config.wrap, Int.sub_emod_right, hcast, ← Int.natCast_mod, Int.toNat_natCast]
      exact Nat.mod_eq_of_lt (by omega)
  unfold sliceOf
  dsimp only
  rw [hoff, hwrap]
  split
  · next h =>
    -- a length of all ones, which stands for the rest of the string, is the rest here
    have : len = 2 ^ t.cfg.bits - 1 := by
      have hpos := Nat.two_pow_pos t.cfg.bits
      unfold Config.toSigned at h
      split at h <;> omega
    exact Prod.ext_iff.mpr ⟨rfl, show plen - off = len by omega⟩
  · exact Prod.ext_iff.mpr ⟨rfl, min_eq_left (by omega)⟩

/-- **Writing a tree.** Between its quotes, a tree is written leaf by leaf. The induction is on the
tree; every concatenation takes two from the depth that the flags may count. -/
theorem writeRep_tree {addr d : ℕ} {leaves : List (List ℕ)} (h : StringTree t addr d leaves)
    {strp : V8String} (hload : v8stringLoad t addr = some strp) {f fuel : ℕ}
    (hdepth : jsstrDepth f + 2 * d ≤ jsstrMaxdepth) (hfuel : d ≤ fuel) (strb : Strbuf)
    (strflags : ℕ) :
    writeRep t (v8stringWriteN t fuel) strp strb strflags (innerFlags t.cfg strp.type f) =
      (0, treeOut t.cfg.bits strflags leaves strb) := by
  have hmax : jsstrMaxdepth = 512 := rfl
  induction h generalizing strp f fuel strb with
  | @seq addr strp' cs hload' hseq hread =>
    -- a leaf
    obtain rfl : strp' = strp := Option.some.inj (hload'.symm.trans hload)
    have hascii := ascii_innerFlags t.cfg strp'.type f (by omega)
    rw [← (v8stringLoad_spec hload).1] at hread
    unfold writeRep
    rw [if_pos hseq]
    exact v8stringWriteSeq_eq_leafOut t hascii (sliceOf_all t _) hread strb strflags
  | @sliced addr strp' pstrp cs hload' hseq hcons hext hsliced hparent hpseq henc hle hread =>
    -- a slice of a leaf
    obtain rfl : strp' = strp := Option.some.inj (hload'.symm.trans hload)
    have hd := jsstrDepth_innerFlags t.cfg strp'.type f (by omega)
    have hascii : (jsstrBumpdepth (innerFlags t.cfg strp'.type f) &&& jsstrIsascii != 0) =
        t.cfg.strencAscii strp'.type := by
      rw [jsstrBumpdepth_and _ (by decide) (by omega)]
      exact ascii_innerFlags t.cfg strp'.type f (by omega)
    obtain ⟨haddr, hlt⟩ := v8stringLoad_spec hparent
    rw [← haddr] at hread
    have hwrite := v8stringWriteSeq_eq_leafOut t hascii (sliceOf_of_le t hle hlt) hread strb strflags
    unfold writeRep v8stringWriteSliced
    simp only [hseq, hcons, hext, hsliced, hparent, hpseq, Bool.false_eq_true, if_false,
      Bool.not_true]
    exact hwrite
  | @cons addr d₁ d₂ strp' ls₁ ls₂ hload' hseq hcons h₁ h₂ ih₁ ih₂ =>
    -- a concatenation
    obtain rfl : strp' = strp := Option.some.inj (hload'.symm.trans hload)
    have hd := jsstrDepth_innerFlags t.cfg strp'.type f (by omega)
    have hbump := jsstrDepth_bump (innerFlags t.cfg strp'.type f) (by omega)
    have hq := quotedFlag_bump_innerFlags t.cfg strp'.type f (by omega)
    obtain ⟨fuel, rfl⟩ : ∃ k, fuel = k + 1 := ⟨fuel - 1, by omega⟩
    -- both parts are trees, so both of them can be loaded
    obtain ⟨str1p, hload₁⟩ := h₁.exists_load
    obtain ⟨str2p, hload₂⟩ := h₂.exists_load
    have hshallow : ¬ jsstrMaxdepth < jsstrDepth (jsstrBumpdepth (innerFlags t.cfg strp'.type f)) := by
      omega
    have hw₁ := @v8stringWriteN_nude t fuel _ hshallow hq str1p
    have hw₂ := @v8stringWriteN_nude t fuel _ hshallow hq str2p
    unfold writeRep v8stringWriteCons
    simp only [hseq, hcons, hload₁, hload₂, Bool.false_eq_true, if_false, if_true]
    rw [hw₁, ih₁ hload₁ (by omega) (by omega)]
    simp only [if_true]
    rw [hw₂, ih₂ hload₂ (by omega) (by omega)]
    unfold treeOut
    rw [List.foldl_append]

end Write

end MdbV8
