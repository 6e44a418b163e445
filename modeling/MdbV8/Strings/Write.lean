import MdbV8.Strings.Chunks

/-!
# Writing a string

A string that is not quoted is only ever appended to the buffer, whatever the memory of the target
looks like, and a quoted one is appended between two quotes, with a byte held back for the second
(`v8stringWrite_appends`). None of the assertions on the way fails, and the recursion of `v8stringWriteN`
never runs out of fuel: its depth is what the flags count.

`jsstrPrint` prints a string into the rest of an output buffer, and so it also only grows it
(`jsstrPrint_grows`).
-/

namespace MdbV8

/-! ### Flags -/

section Flags

variable (f : ℕ)

theorem jsstrDepth_eq : jsstrDepth f = f % 2 ^ 16 := Nat.and_two_pow_sub_one_eq_mod f 16

/-- Setting a flag does not change the depth. -/
theorem jsstrDepth_or {m : ℕ} (hm : m % 2 ^ 16 = 0) : jsstrDepth (f ||| m) = jsstrDepth f := by
  rw [jsstrDepth_eq, jsstrDepth_eq, Nat.or_mod_two_pow, hm, Nat.or_zero]

/-- Clearing a flag does not change the depth. -/
theorem jsstrDepth_clearFlag {m : ℕ} (hm : (0xffffffff ^^^ m) % 2 ^ 16 = 2 ^ 16 - 1) :
    jsstrDepth (clearFlag f m) = jsstrDepth f := by
  rw [clearFlag, jsstrDepth_eq, jsstrDepth_eq, Nat.and_mod_two_pow, hm,
    Nat.and_two_pow_sub_one_eq_mod, Nat.mod_mod]

theorem jsstrDepth_bump (h : jsstrDepth f < 2 ^ 16 - 1) :
    jsstrDepth (jsstrBumpdepth f) = jsstrDepth f + 1 := by
  rw [jsstrDepth_eq] at *
  rw [jsstrBumpdepth, jsstrDepth_eq]
  omega

/-- Counting the depth does not change a flag. -/
theorem jsstrBumpdepth_and {m : ℕ} (hm : m % 2 ^ 16 = 0) (h : jsstrDepth f < 2 ^ 16 - 1) :
    jsstrBumpdepth f &&& m = f &&& m := by
  rw [jsstrDepth_eq] at h
  apply Nat.eq_of_testBit_eq
  intro i
  rw [Nat.testBit_and, Nat.testBit_and]
  by_cases hi : i < 16
  · have : m.testBit i = false := by
      have hbit := Nat.testBit_mod_two_pow m 16 i
      rw [hm, Nat.zero_testBit] at hbit
      simpa [hi] using hbit.symm
    simp [this]
  · obtain ⟨j, rfl⟩ : ∃ j, i = 16 + j := ⟨i - 16, by omega⟩
    have hdiv : jsstrBumpdepth f / 2 ^ 16 = f / 2 ^ 16 := by
      rw [jsstrBumpdepth]
      omega
    have hhigh : ∀ x : ℕ, x.testBit (16 + j) = (x / 2 ^ 16).testBit j := fun x => by
      rw [Nat.testBit_div_two_pow, Nat.add_comm]
    rw [hhigh, hhigh f, hhigh m, hdiv]

theorem clearFlag_and_self {m : ℕ} (hm : (0xffffffff ^^^ m) &&& m = 0) : clearFlag f m &&& m = 0 := by
  rw [clearFlag, Nat.and_assoc, hm, Nat.and_zero]

theorem clearFlag_and_of_disjoint {m k : ℕ} (hm : (0xffffffff ^^^ m) &&& k = k) :
    clearFlag f m &&& k = f &&& k := by
  rw [clearFlag, Nat.and_assoc, hm]

theorem or_and_of_disjoint {m k : ℕ} (hm : m &&& k = 0) : (f ||| m) &&& k = f &&& k := by
  rw [Nat.and_or_distrib_right, hm, Nat.or_zero]

theorem or_and_self (m : ℕ) : (f ||| m) &&& m = m := by
  rw [Nat.and_or_distrib_right, Nat.and_self]
  apply Nat.eq_of_testBit_eq
  intro i
  cases hm : m.testBit i <;> simp [hm]

end Flags

/-- The flags that `v8string_write` passes on, for a string of a type. -/
def innerFlags (c : Config) (type v8flags : ℕ) : ℕ :=
  let v8flags :=
    if c.strencAscii type then v8flags ||| jsstrIsascii else clearFlag v8flags jsstrIsascii
  let v8flags := if v8flags &&& jsstrQuoted != 0 then clearFlag v8flags jsstrQuoted else v8flags
  clearFlag (jsstrBumpdepth v8flags) jsstrQuoted

/-- The string is to be quoted. -/
def quotedFlag (v8flags : ℕ) : Bool := v8flags &&& jsstrQuoted != 0

section InnerFlags

variable (c : Config) (type f : ℕ)

/-- Whether a string is quoted does not depend on its encoding. -/
theorem quotedFlag_encoding :
    ((if c.strencAscii type then f ||| jsstrIsascii else clearFlag f jsstrIsascii) &&& jsstrQuoted
      != 0) = quotedFlag f := by
  unfold quotedFlag
  split
  · rw [or_and_of_disjoint _ (by decide)]
  · rw [clearFlag_and_of_disjoint _ (by decide)]

theorem jsstrDepth_innerFlags (h : jsstrDepth f < 2 ^ 16 - 1) :
    jsstrDepth (innerFlags c type f) = jsstrDepth f + 1 := by
  have henc : jsstrDepth (if c.strencAscii type then f ||| jsstrIsascii
      else clearFlag f jsstrIsascii) = jsstrDepth f := by
    split
    · exact jsstrDepth_or f (by decide)
    · exact jsstrDepth_clearFlag f (by decide)
  unfold innerFlags
  dsimp only
  generalize (if c.strencAscii type then f ||| jsstrIsascii else clearFlag f jsstrIsascii) = g at henc
  have hq : jsstrDepth (if g &&& jsstrQuoted != 0 then clearFlag g jsstrQuoted else g) =
      jsstrDepth f := by
    split
    · rw [jsstrDepth_clearFlag g (by decide), henc]
    · exact henc
  rw [jsstrDepth_clearFlag _ (by decide), jsstrDepth_bump _ (by omega), hq]

theorem quotedFlag_innerFlags : quotedFlag (innerFlags c type f) = false := by
  unfold innerFlags quotedFlag
  dsimp only
  rw [clearFlag_and_self _ (by decide)]
  rfl

/-- The parts of a string are written without quotes. -/
theorem quotedFlag_bump_innerFlags (h : jsstrDepth f < 2 ^ 16 - 2) :
    quotedFlag (jsstrBumpdepth (innerFlags c type f)) = false := by
  have hq := quotedFlag_innerFlags c type f
  have hd := jsstrDepth_innerFlags c type f (by omega)
  unfold quotedFlag at *
  rwa [jsstrBumpdepth_and _ (by decide) (by omega)]

/-- The flags say how the string that is being written is encoded. -/
theorem ascii_innerFlags (h : jsstrDepth f < 2 ^ 16 - 1) :
    (innerFlags c type f &&& jsstrIsascii != 0) = c.strencAscii type := by
  -- the encoding of the string is set first
  have henc : ∀ g, g = (if c.strencAscii type then f ||| jsstrIsascii
      else clearFlag f jsstrIsascii) → (g &&& jsstrIsascii != 0) = c.strencAscii type ∧
        jsstrDepth g = jsstrDepth f := by
    rintro g rfl
    split
    · next ht => rw [or_and_self, jsstrDepth_or f (by decide), ht]; exact ⟨by decide, rfl⟩
    · next ht =>
      rw [clearFlag_and_self _ (by decide), jsstrDepth_clearFlag f (by decide)]
      exact ⟨by simpa using ht, rfl⟩
  unfold innerFlags
  dsimp only
  generalize (if c.strencAscii type then f ||| jsstrIsascii else clearFlag f jsstrIsascii) = g at henc
  obtain ⟨hg, hdepth⟩ := henc g rfl
  -- a quote is taken off, which is another bit
  have hq : (if g &&& jsstrQuoted != 0 then clearFlag g jsstrQuoted else g) &&& jsstrIsascii =
      g &&& jsstrIsascii ∧
      jsstrDepth (if g &&& jsstrQuoted != 0 then clearFlag g jsstrQuoted else g) = jsstrDepth f := by
    split
    · exact ⟨clearFlag_and_of_disjoint _ (by decide),
        (jsstrDepth_clearFlag g (by decide)).trans hdepth⟩
    · exact ⟨rfl, hdepth⟩
  rw [clearFlag_and_of_disjoint _ (by decide), jsstrBumpdepth_and _ (by decide) (by omega), hq.1]
  exact hg

end InnerFlags

/-! ### The representations -/

/-- The part of `v8string_write` between the quotes: writing a string by its representation. -/
def writeRep (t : Target) (write : V8String → Strbuf → ℕ → ℕ → ℤ × Strbuf) (strp : V8String)
    (strb : Strbuf) (strflags v8flags : ℕ) : ℤ × Strbuf :=
  if t.cfg.strrepSeq strp.type then v8stringWriteSeq t strp strb strflags v8flags 0 (-1)
  else if t.cfg.strrepCons strp.type then v8stringWriteCons write t strp strb strflags v8flags
  else if t.cfg.strrepExt strp.type then v8stringWriteExt t strp strb strflags v8flags
  else if !t.cfg.strrepSliced strp.type then (0, { strb with mem := strb.mem.trap })
  else v8stringWriteSliced t strp strb strflags v8flags

section Rep

variable (t : Target)

theorem v8stringWriteN_of_deep {fuel f : ℕ} (hf : jsstrMaxdepth < jsstrDepth f) (strp : V8String)
    (strb : Strbuf) (strflags : ℕ) :
    v8stringWriteN t (fuel + 1) strp strb strflags f =
      (-1, mdbv8StrbufSprintf strb (bytesOf "<maximum depth exceeded>")) := by
  rw [v8stringWriteN, if_pos hf]

/-- Writing a string without quotes. -/
theorem v8stringWriteN_nude {fuel f : ℕ} (hf : ¬ jsstrMaxdepth < jsstrDepth f)
    (hq : quotedFlag f = false) (strp : V8String) (strb : Strbuf) (strflags : ℕ) :
    v8stringWriteN t (fuel + 1) strp strb strflags f =
      writeRep t (v8stringWriteN t fuel) strp strb strflags (innerFlags t.cfg strp.type f) := by
  have henc := quotedFlag_encoding t.cfg strp.type f
  rw [hq] at henc
  rw [v8stringWriteN, if_neg hf]
  simp only [innerFlags, henc, Bool.false_eq_true, if_false]
  rfl

/-- Writing a string between quotes. -/
theorem v8stringWriteN_quoted {fuel f : ℕ} (hf : ¬ jsstrMaxdepth < jsstrDepth f)
    (hq : quotedFlag f = true) (strp : V8String) (strb : Strbuf) (strflags : ℕ)
    {rv : ℤ} {strb' : Strbuf}
    (h : writeRep t (v8stringWriteN t fuel) strp
      (mdbv8StrbufReserve t.cfg.bits (mdbv8StrbufAppendc strb 34 strflags) 1) strflags
      (innerFlags t.cfg strp.type f) = (rv, strb')) :
    v8stringWriteN t (fuel + 1) strp strb strflags f =
      (rv, mdbv8StrbufAppendc (mdbv8StrbufReserve t.cfg.bits strb' (-1)) 34 strflags) := by
  have henc := quotedFlag_encoding t.cfg strp.type f
  rw [hq] at henc
  rw [v8stringWriteN, if_neg hf]
  simp only [innerFlags, henc, if_true] at h ⊢
  unfold writeRep at h
  rw [h]

/-! The state that a writer starts in. -/

/-- The characters of a sequential string that `v8string_write_seq` is to write: the offset of the
first one and their number. -/
def sliceOf (t : Target) (nstrchrs usliceoffset : ℕ) (uslicelen : ℤ) : ℕ × ℕ :=
  let off := min usliceoffset nstrchrs
  (off, if uslicelen = -1 then nstrchrs - off else min (t.cfg.wrap uslicelen) (nstrchrs - off))

/-- The writer of a part of a sequential string. -/
def seqWriter (t : Target) (strp : V8String) (strb : Strbuf) (strflags v8flags : ℕ)
    (slice : ℕ × ℕ) : V8StringWrite :=
  let ascii := v8flags &&& jsstrIsascii != 0
  { v8flags
    charsp :=
      t.cfg.add strp.addr (if ascii then t.cfg.offSeqasciistrChars else t.cfg.offSeqtwobytestrChars)
    readoff := slice.1 * bytesPerChar ascii
    inbytesperchar := bytesPerChar ascii
    slicelen := slice.2
    strb
    strflags
    done := slice.2 == 0
    asciicheck := false }

/-- The writer of an external string. -/
def extWriter (strp : V8String) (strb : Strbuf) (strflags v8flags : ℕ) : V8StringWrite :=
  { v8flags
    charsp := strp.externalNodedata
    readoff := 0
    inbytesperchar := 1
    slicelen := strp.len
    strb
    strflags
    done := strp.len == 0
    asciicheck := true }

theorem seqWriter_wf (strp : V8String) (strb : Strbuf) (strflags v8flags : ℕ) (slice : ℕ × ℕ) :
    (seqWriter t strp strb strflags v8flags slice).Wf where
  inb_eq := rfl
  chunksz_eq := rfl
  le := Nat.zero_le _
  undone h := Nat.pos_of_ne_zero (by simpa [seqWriter] using h)

theorem extWriter_wf (strp : V8String) (strb : Strbuf) (strflags : ℕ) {v8flags : ℕ}
    (h : (v8flags &&& jsstrIsascii == 0) = false) : (extWriter strp strb strflags v8flags).Wf where
  inb_eq := by
    have : (extWriter strp strb strflags v8flags).ascii = true := by
      simpa [extWriter, V8StringWrite.ascii] using h
    rw [this]
    rfl
  chunksz_eq := rfl
  le := Nat.zero_le _
  undone h := Nat.pos_of_ne_zero (by simpa [extWriter] using h)

/-- The offset and the length that were asked for are cut to what the string has, so that the
assertions of `v8string_write_seq` hold. -/
theorem v8stringWriteSeq_eq (strp : V8String) (strb : Strbuf) (strflags v8flags off : ℕ)
    (len : ℤ) :
    v8stringWriteSeq t strp strb strflags v8flags off len =
      v8stringWriteChunks t (sliceOf t strp.len off len).2
        (seqWriter t strp strb strflags v8flags (sliceOf t strp.len off len)) := by
  have hoff : (if off > strp.len then strp.len else off) = min off strp.len := by
    rw [Nat.min_def]
    split_ifs <;> omega
  have hlen : (if len = -1 then strp.len - min off strp.len
      else if t.cfg.wrap len > strp.len - min off strp.len then strp.len - min off strp.len
      else t.cfg.wrap len) = (sliceOf t strp.len off len).2 := by
    unfold sliceOf
    dsimp only
    rw [Nat.min_def]
    split_ifs <;> omega
  have hle : (sliceOf t strp.len off len).2 ≤ strp.len - min off strp.len := by
    rw [← hlen]
    split_ifs <;> omega
  unfold v8stringWriteSeq
  dsimp only
  rw [hoff, hlen, if_neg (not_not.mpr ⟨by omega, by omega, by omega⟩)]
  rfl

theorem v8stringWriteSeq_appends (strp : V8String) (strb : Strbuf) (strflags v8flags off : ℕ)
    (len : ℤ) :
    (v8stringWriteSeq t strp strb strflags v8flags off len).1 = 0 ∧
      strb.Appends (v8stringWriteSeq t strp strb strflags v8flags off len).2 := by
  rw [v8stringWriteSeq_eq]
  exact (seqWriter_wf t strp strb strflags v8flags _).writeChunks t (Nat.sub_le _ _)

theorem v8stringWriteExt_appends (strp : V8String) (strb : Strbuf) (strflags v8flags : ℕ) :
    (v8stringWriteExt t strp strb strflags v8flags).1 = 0 ∧
      strb.Appends (v8stringWriteExt t strp strb strflags v8flags).2 := by
  unfold v8stringWriteExt
  extract_lets strb'
  have hverb : strb.Appends strb' := by
    unfold strb'
    split
    · exact .sprintf _ _
    · exact .refl _
  cases hascii : (v8flags &&& jsstrIsascii == 0) with
  | true => exact ⟨rfl, hverb.trans (.sprintf _ _)⟩
  | false =>
    have hrun := (extWriter_wf strp strb' strflags hascii).writeChunks t
      (show (extWriter strp strb' strflags v8flags).remaining ≤ strp.len from Nat.sub_le _ _)
    exact ⟨hrun.1, hverb.trans hrun.2⟩

theorem v8stringWriteSliced_appends (strp : V8String) (strb : Strbuf) (strflags v8flags : ℕ) :
    (v8stringWriteSliced t strp strb strflags v8flags).1 = 0 ∧
      strb.Appends (v8stringWriteSliced t strp strb strflags v8flags).2 := by
  unfold v8stringWriteSliced
  split
  · exact ⟨rfl, .sprintf _ _⟩
  · split
    · exact ⟨rfl, .sprintf _ _⟩
    · exact v8stringWriteSeq_appends t _ _ _ _ _ _

end Rep

/-- A string type that `v8string_load` lets through: one of the four representations. -/
def KnownRep (c : Config) (type : ℕ) : Prop :=
  c.strrepSeq type = true ∨ c.strrepCons type = true ∨ c.strrepExt type = true ∨
    c.strrepSliced type = true

theorem knownRep_of_load {t : Target} {addr : ℕ} {strp : V8String}
    (h : v8stringLoad t addr = some strp) : KnownRep t.cfg strp.type := by
  unfold v8stringLoad at h
  cases htype : t.readTypebyte addr with
  | none => simp [htype] at h
  | some type =>
    simp only [htype] at h
    split_ifs at h with hstr hrep
    all_goals
      have hknown : KnownRep t.cfg type := by
        by_contra hno
        unfold KnownRep at hno
        push Not at hno
        simp [hno] at hrep
    all_goals
      cases hlen : t.readHeapSmi addr t.cfg.offStringLength with
      | none => simp [hlen] at h
      | some len =>
        simp only [hlen] at h
        suffices strp.type = type by rwa [this]
        repeat' split at h
        all_goals first | exact (Option.some.inj h ▸ rfl) | exact absurd h (by simp)

section Write

variable (t : Target)

/-- Writing by the representation only appends, if writing the parts of a concatenation does. -/
theorem writeRep_appends {write : V8String → Strbuf → ℕ → ℕ → ℤ × Strbuf} {strp : V8String}
    (hrep : KnownRep t.cfg strp.type) (strb : Strbuf) (strflags v8flags : ℕ)
    (hwrite : ∀ addr part, v8stringLoad t addr = some part → ∀ s : Strbuf,
      s.Appends (write part s strflags (jsstrBumpdepth v8flags)).2) :
    strb.Appends (writeRep t write strp strb strflags v8flags).2 := by
  unfold writeRep
  by_cases hseq : t.cfg.strrepSeq strp.type = true
  · rw [if_pos hseq]
    exact (v8stringWriteSeq_appends t _ _ _ _ _ _).2
  rw [if_neg hseq]
  -- both parts of a concatenation append, or the first one alone
  by_cases hcons : t.cfg.strrepCons strp.type = true
  · rw [if_pos hcons]
    unfold v8stringWriteCons
    split
    · next str1p str2p h1 h2 =>
      have ha1 := hwrite _ _ h1 strb
      generalize hr : write str1p strb strflags (jsstrBumpdepth v8flags) = r at ha1
      obtain ⟨rv, strb'⟩ := r
      dsimp only
      rw [hr]
      dsimp only
      split
      · exact ha1.trans (hwrite _ _ h2 strb')
      · exact ha1
    · exact .sprintf _ _
  rw [if_neg hcons]
  by_cases hext : t.cfg.strrepExt strp.type = true
  · rw [if_pos hext]
    exact (v8stringWriteExt_appends t _ _ _ _).2
  rw [if_neg hext]
  -- nothing is left but a slice
  have hsliced : t.cfg.strrepSliced strp.type = true := by
    rcases hrep with h | h | h | h
    · exact absurd h hseq
    · exact absurd h hcons
    · exact absurd h hext
    · exact h
  rw [hsliced]
  exact (v8stringWriteSliced_appends t _ _ _ _).2

/-- The fuel is enough for a string at this depth. -/
def EnoughFuel (fuel v8flags : ℕ) : Prop :=
  0 < fuel ∧ jsstrMaxdepth < jsstrDepth v8flags + 2 * (fuel - 1)

theorem EnoughFuel.inner {fuel type f : ℕ} (h : EnoughFuel (fuel + 1) f)
    (hf : ¬ jsstrMaxdepth < jsstrDepth f) (c : Config) :
    EnoughFuel fuel (jsstrBumpdepth (innerFlags c type f)) := by
  have hmax : jsstrMaxdepth = 512 := rfl
  have hd := jsstrDepth_innerFlags c type f (by omega)
  have hb := jsstrDepth_bump (innerFlags c type f) (by omega)
  obtain ⟨-, h⟩ := h
  constructor <;> omega

/-- **A string without quotes** is only appended to the buffer. -/
theorem v8stringWriteN_appends {fuel f : ℕ} (hfuel : EnoughFuel fuel f) (hq : quotedFlag f = false)
    {strp : V8String} (hrep : KnownRep t.cfg strp.type) (strb : Strbuf) (strflags : ℕ) :
    strb.Appends (v8stringWriteN t fuel strp strb strflags f).2 := by
  induction fuel generalizing f strp strb with
  | zero => exact absurd hfuel.1 (lt_irrefl 0)
  | succ fuel ih =>
    by_cases hf : jsstrMaxdepth < jsstrDepth f
    · rw [v8stringWriteN_of_deep t hf]
      exact .sprintf _ _
    · have hmax : jsstrMaxdepth = 512 := rfl
      rw [v8stringWriteN_nude t hf hq]
      exact writeRep_appends t hrep strb strflags _ fun addr part hpart s =>
        ih (hfuel.inner hf t.cfg) (quotedFlag_bump_innerFlags _ _ _ (by omega))
          (knownRep_of_load hpart) s

theorem writeRep_inner_appends {fuel f : ℕ} (type : ℕ) (hfuel : EnoughFuel (fuel + 1) f)
    (hf : ¬ jsstrMaxdepth < jsstrDepth f) {strp : V8String} (hrep : KnownRep t.cfg strp.type)
    (strb : Strbuf) (strflags : ℕ) :
    strb.Appends
      (writeRep t (v8stringWriteN t fuel) strp strb strflags (innerFlags t.cfg type f)).2 :=
  have hmax : jsstrMaxdepth = 512 := rfl
  writeRep_appends t hrep strb strflags _ fun _ _ hpart s =>
    v8stringWriteN_appends t (hfuel.inner hf t.cfg) (quotedFlag_bump_innerFlags _ _ _ (by omega))
      (knownRep_of_load hpart) s strflags

theorem enoughFuel_start (v8flags : ℕ) : EnoughFuel (jsstrMaxdepth + 2) v8flags := by
  have hmax : jsstrMaxdepth = 512 := rfl
  constructor <;> omega

/-- **Writing a string grows the buffer**, and no assertion fails. -/
theorem v8stringWrite_grows {strp : V8String} (hrep : KnownRep t.cfg strp.type) (strb : Strbuf)
    (strflags v8flags : ℕ) :
    strb.Grows (v8stringWrite t strp strb strflags v8flags).2 ∧
      (v8stringWrite t strp strb strflags v8flags).2.mem.fault = strb.mem.fault := by
  have hfuel := enoughFuel_start v8flags
  unfold v8stringWrite
  by_cases hf : jsstrMaxdepth < jsstrDepth v8flags
  · rw [v8stringWriteN_of_deep t hf]
    exact ⟨Strbuf.grows_sprintf _ _, Strbuf.sprintf_fault _ _⟩
  cases hq : quotedFlag v8flags with
  | false =>
    have happ := v8stringWriteN_appends t hfuel hq hrep strb strflags
    exact ⟨happ.grows, happ.fault_eq⟩
  | true =>
    -- between the quotes, the buffer only grows
    have happ := writeRep_inner_appends t strp.type hfuel hf hrep
      (mdbv8StrbufReserve t.cfg.bits (mdbv8StrbufAppendc strb 34 strflags) 1) strflags
    generalize hr : writeRep t (v8stringWriteN t (jsstrMaxdepth + 1)) strp
      (mdbv8StrbufReserve t.cfg.bits (mdbv8StrbufAppendc strb 34 strflags) 1) strflags
      (innerFlags t.cfg strp.type v8flags) = r at happ
    obtain ⟨rv, strb'⟩ := r
    rw [v8stringWriteN_quoted t hf hq _ _ _ hr]
    refine ⟨?_, ?_⟩
    · exact (Strbuf.grows_appendc _ _ _).trans ((Strbuf.grows_reserve _ _ _).trans
        (happ.grows.trans ((Strbuf.grows_reserve _ _ _).trans (Strbuf.grows_appendc _ _ _))))
    · rw [mdbv8StrbufAppendc_eq, Strbuf.sprintf_fault]
      refine happ.fault_eq.trans ?_
      rw [mdbv8StrbufAppendc_eq]
      exact Strbuf.sprintf_fault _ _

/-- **Printing a string** into an output buffer. The string buffer is laid over the rest of it. -/
theorem jsstrPrint_grows (addr flags : ℕ) (o : OutBuf) :
    ∃ strb : Strbuf, o.toStrbuf.Grows strb ∧ strb.mem.fault = o.mem.fault ∧
      (jsstrPrint t addr flags o).2 = mdbv8StrbufLegacyUpdate strb := by
  unfold jsstrPrint
  cases hload : v8stringLoad t addr with
  | none =>
    exact ⟨_, Strbuf.grows_appends _ _ _, (Strbuf.Appends.appends _ _ _).fault_eq, rfl⟩
  | some strp =>
    obtain ⟨hgrows, hfault⟩ :=
      v8stringWrite_grows t (knownRep_of_load hload) o.toStrbuf msfAsciionly flags
    exact ⟨_, hgrows, hfault, rfl⟩

end Write

end MdbV8
