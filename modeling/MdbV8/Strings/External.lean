import MdbV8.Strings.Depth
import MdbV8.Strings.Flat

/-!
# External strings and verbose output

The characters of an external string are outside of the heap, and `v8string_write_ext` sets up the writer
for them by itself. It asks for a check of the first one; if that is an ASCII character or a NUL, the
writer goes on as it does for a sequential string (`writeChunks_recast`).

Of the flags of a string, the writers look at the encoding, at the depth, at the quotes, and at
`JSSTR_VERBOSE`. With the latter, they print a line of details, with `mdb_printf`; but the one of
`v8string_write_ext` goes to the buffer, before the characters. So the flag does not matter for the
strings in which no external string is reached (`verboseInert_of_noExternal`), and does for the others:
`writesExternal_iff`.
-/

namespace MdbV8

/-! ### The writer without its flags -/

namespace V8StringWrite

/-- A writer with other flags, and another state of the check. -/
def recast (w : V8StringWrite) (v8flags : ℕ) (asciicheck : Bool) : V8StringWrite :=
  { w with v8flags, asciicheck }

variable {t : Target} {w : V8StringWrite} {v8flags : ℕ}

theorem Wf.recast (hw : w.Wf) (hascii : (v8flags &&& jsstrIsascii != 0) = w.ascii)
    (asciicheck : Bool) : (w.recast v8flags asciicheck).Wf where
  inb_eq := hw.inb_eq.trans (congrArg bytesPerChar hascii.symm)
  chunksz_eq := hw.chunksz_eq
  le := hw.le
  undone := hw.undone

/-- **Recasting.** Of its flags, a writer looks at the encoding only, and at the check of the first
character only if that fails. The induction is on the fuel, a chunk at a time. -/
theorem writeChunks_recast (hw : w.Wf) (hascii : (v8flags &&& jsstrIsascii != 0) = w.ascii)
    {asciicheck : Bool} (hlooks : ∀ chunk, t.mdbVread w.chunkBytes (w.chunkAddr t) = some chunk →
      (w.recast v8flags asciicheck).looksInvalid chunk = w.looksInvalid chunk) (fuel : ℕ) :
    v8stringWriteChunks t fuel (w.recast v8flags asciicheck) = v8stringWriteChunks t fuel w := by
  induction fuel generalizing w asciicheck with
  | zero =>
    rw [v8stringWriteChunks, v8stringWriteChunks]
    rfl
  | succ fuel ih =>
    have hstop : ∀ x : V8StringWrite, x.done = true → v8stringWriteChunks t fuel x = (0, x.strb) := by
      intro x hx
      cases fuel <;> simp [v8stringWriteChunks, hx]
    have hdone : (w.recast v8flags asciicheck).done = w.done := rfl
    rw [v8stringWriteChunks, v8stringWriteChunks, hdone]
    cases hd : w.done with
    | true => rfl
    | false =>
      simp only [Bool.false_eq_true, if_false]
      have hread' : t.mdbVread (w.recast v8flags asciicheck).chunkBytes
          ((w.recast v8flags asciicheck).chunkAddr t) =
            t.mdbVread w.chunkBytes (w.chunkAddr t) := rfl
      cases hread : t.mdbVread w.chunkBytes (w.chunkAddr t) with
      | none =>
        -- what cannot be read ends the string
        rw [seqChunk_eq, seqChunk_eq, hread', hread]
        simp only [ne_eq, not_true, if_false]
        rw [hstop _ rfl, hstop _ rfl]
        rfl
      | some chunk =>
        have hlook := hlooks chunk hread
        cases hinv : w.looksInvalid chunk with
        | true =>
          rw [hinv] at hlook
          rw [seqChunk_eq, seqChunk_eq, hread', hread]
          simp only [hlook, hinv, if_true, ne_eq, not_true, if_false]
          rw [hstop _ rfl, hstop _ rfl]
          rfl
        | false =>
          rw [hinv] at hlook
          have hasciieq : (w.recast v8flags asciicheck).ascii = w.ascii := hascii
          obtain ⟨r, hr⟩ : ∃ r, chunkOut t.cfg.bits w.strflags w.lastChunk
              (decodeChars w.ascii chunk) w.strb = r := ⟨_, rfl⟩
          have hstep := hw.seqChunk_of_some t hread hinv hr
          have hr' : chunkOut t.cfg.bits w.strflags w.lastChunk
              (decodeChars (w.recast v8flags asciicheck).ascii chunk) w.strb = r := by
            rw [hasciieq]
            exact hr
          have hstep' := (hw.recast hascii asciicheck).seqChunk_of_some t (hread'.trans hread) hlook
            hr'
          have hwf := (hw.seqChunk t hd).2.1
          rw [hstep] at hwf ⊢
          rw [hstep']
          simp only [ne_eq, not_true, if_false]
          -- the rest is written by a writer that has been recast too
          obtain ⟨e, n, s⟩ := r
          have hagain := ih hwf (hascii.trans (by cases e <;> rfl)) fun _ _ => rfl
          rw [← hagain]
          cases e <;> rfl

end V8StringWrite

/-! ### The operations without their flags -/

/-- Of some flags, the encoding alone. -/
def encodingFlag (v8flags : ℕ) : ℕ := if v8flags &&& jsstrIsascii != 0 then jsstrIsascii else jsstrNone

theorem encodingFlag_ascii (f : ℕ) :
    (encodingFlag f &&& jsstrIsascii != 0) = (f &&& jsstrIsascii != 0) := by
  unfold encodingFlag
  cases hf : (f &&& jsstrIsascii != 0) <;> rfl

namespace StringOp

/-- An operation of whose flags only the encoding is kept. -/
def forget : StringOp → StringOp
  | .seq strp v8flags off len => .seq strp (encodingFlag v8flags) off len
  | .ext strp v8flags => .ext strp (encodingFlag v8flags)
  | .message what => .message what
  | .maxDepth => .maxDepth

/-- The operation writes an external string. -/
def isExt : StringOp → Bool
  | .ext _ _ => true
  | _ => false

theorem isExt_forget (op : StringOp) : op.forget.isExt = op.isExt := by
  cases op <;> rfl

/-- Of the flags, only the encoding matters, unless the string is an external one. -/
theorem run_forget (t : Target) (strflags : ℕ) (strb : Strbuf) {op : StringOp}
    (h : op.isExt = false) : op.forget.run t strflags strb = op.run t strflags strb := by
  cases op with
  | seq strp v8flags off len =>
    have hascii := encodingFlag_ascii v8flags
    set slice := sliceOf t strp.len off len with hslice
    have hwriter : seqWriter t strp strb strflags (encodingFlag v8flags) slice =
        (seqWriter t strp strb strflags v8flags slice).recast (encodingFlag v8flags) false := by
      unfold seqWriter
      rw [hascii]
      rfl
    change (v8stringWriteSeq t strp strb strflags (encodingFlag v8flags) off len).2 =
      (v8stringWriteSeq t strp strb strflags v8flags off len).2
    rw [v8stringWriteSeq_eq, v8stringWriteSeq_eq, ← hslice, hwriter,
      V8StringWrite.writeChunks_recast (seqWriter_wf t strp strb strflags v8flags slice) hascii
        fun _ _ => rfl]
  | ext strp v8flags => exact absurd h (by simp [isExt])
  | message text => rfl
  | maxDepth => rfl

end StringOp

/-- Two calls return the same, and do the same operations but for the flags. -/
def SameOps (r r' : ℤ × List StringOp) : Prop :=
  r.1 = r'.1 ∧ r.2.map StringOp.forget = r'.2.map StringOp.forget

/-- No external string is reached when a string is written. -/
def NoExternal (t : Target) (strp : V8String) (v8flags : ℕ) : Prop :=
  ∀ op ∈ (stringOps t (jsstrMaxdepth + 2) strp v8flags).2, op.isExt = false

section Ops

variable (t : Target) {f f' : ℕ}

theorem encodingFlag_innerFlags {c : Config} {type : ℕ} (hf : ¬ jsstrMaxdepth < jsstrDepth f)
    (hdepth : jsstrDepth f = jsstrDepth f') :
    encodingFlag (innerFlags c type f) = encodingFlag (innerFlags c type f') := by
  have hmax : jsstrMaxdepth = 512 := rfl
  unfold encodingFlag
  rw [ascii_innerFlags c type f (by omega), ascii_innerFlags c type f' (by omega)]

theorem encodingFlag_bump (hf : jsstrDepth f < 2 ^ 16 - 1) :
    encodingFlag (jsstrBumpdepth f) = encodingFlag f := by
  unfold encodingFlag
  rw [jsstrBumpdepth_and _ (by decide) hf]

/-- **Forgetting the flags.** The operations of a string depend on the flags by the depth only. -/
theorem sameOps_stringOps (fuel : ℕ) (strp : V8String) (hdepth : jsstrDepth f = jsstrDepth f') :
    SameOps (stringOps t fuel strp f) (stringOps t fuel strp f') := by
  induction fuel generalizing f f' strp with
  | zero => exact ⟨rfl, rfl⟩
  | succ fuel ih =>
    have hmax : jsstrMaxdepth = 512 := rfl
    rw [stringOps, stringOps, ← hdepth]
    -- where the string is too deep, both write the same message
    by_cases hf : jsstrDepth f > jsstrMaxdepth
    · rw [if_pos hf, if_pos hf]
      exact ⟨rfl, rfl⟩
    rw [if_neg hf, if_neg hf]
    have henc : encodingFlag (innerFlags t.cfg strp.type f) =
        encodingFlag (innerFlags t.cfg strp.type f') := encodingFlag_innerFlags hf hdepth
    have hinner := jsstrDepth_innerFlags t.cfg strp.type f (by omega)
    have hinner' := jsstrDepth_innerFlags t.cfg strp.type f' (by omega)
    -- the flags inside have the same encoding and the same depth
    generalize innerFlags t.cfg strp.type f = g at henc hinner
    generalize innerFlags t.cfg strp.type f' = g' at henc hinner'
    have hbump : jsstrDepth (jsstrBumpdepth g) = jsstrDepth (jsstrBumpdepth g') := by
      rw [jsstrDepth_bump g (by omega), jsstrDepth_bump g' (by omega), hinner, hinner', hdepth]
    unfold repOps
    split
    · exact ⟨rfl, by simp [StringOp.forget, henc]⟩
    split
    · split
      · next str1p str2p _ _ =>
        obtain ⟨hrv₁, hops₁⟩ := ih str1p hbump
        obtain ⟨hrv₂, hops₂⟩ := ih str2p hbump
        dsimp only
        rw [← hrv₁]
        split
        · exact ⟨hrv₂, by rw [List.map_append, List.map_append, hops₁, hops₂]⟩
        · exact ⟨hrv₁, hops₁⟩
      · exact ⟨rfl, rfl⟩
    split
    · exact ⟨rfl, by simp [StringOp.forget, henc]⟩
    split
    · exact ⟨rfl, rfl⟩
    · split
      · exact ⟨rfl, rfl⟩
      · refine ⟨rfl, ?_⟩
        simp only [List.map_cons, List.map_nil, StringOp.forget]
        rw [encodingFlag_bump (by omega), encodingFlag_bump (by omega), henc]

/-- Operations that reach no external string leave the same buffer without their flags. -/
theorem foldl_run_forget (strflags : ℕ) {ops : List StringOp} (h : ∀ op ∈ ops, op.isExt = false)
    (strb : Strbuf) :
    (ops.map StringOp.forget).foldl (StringOp.run t strflags) strb =
      ops.foldl (StringOp.run t strflags) strb := by
  induction ops generalizing strb with
  | nil => rfl
  | cons op ops ih =>
    rw [List.map_cons, List.foldl_cons, List.foldl_cons,
      StringOp.run_forget t strflags strb (h op List.mem_cons_self)]
    exact ih (fun op' hop' => h op' (List.mem_cons_of_mem op hop')) _

/-- Whether an external string is reached depends on the flags by the depth only. -/
theorem NoExternal.congr {strp : V8String} (h : NoExternal t strp f)
    (hdepth : jsstrDepth f = jsstrDepth f') : NoExternal t strp f' := by
  obtain ⟨-, hops⟩ := sameOps_stringOps t (jsstrMaxdepth + 2) strp hdepth
  intro op hop
  have hmem : op.forget ∈ (stringOps t (jsstrMaxdepth + 2) strp f).2.map StringOp.forget :=
    hops ▸ List.mem_map_of_mem hop
  obtain ⟨op', hop', heq⟩ := List.mem_map.mp hmem
  rw [← op.isExt_forget, ← heq, op'.isExt_forget]
  exact h op' hop'

/-- **Writing a string without external ones** depends on the flags by the depth and the quotes only. -/
theorem v8stringWrite_congr {strp : V8String} (hrep : KnownRep t.cfg strp.type)
    (hno : NoExternal t strp f) (hdepth : jsstrDepth f = jsstrDepth f')
    (hquoted : quotedFlag f = quotedFlag f') (strb : Strbuf) (strflags : ℕ) :
    v8stringWrite t strp strb strflags f = v8stringWrite t strp strb strflags f' := by
  unfold v8stringWrite
  by_cases hf : jsstrMaxdepth < jsstrDepth f
  · rw [v8stringWriteN_of_deep t hf, v8stringWriteN_of_deep t (hdepth ▸ hf)]
  · obtain ⟨hrv, hops⟩ := sameOps_stringOps t (jsstrMaxdepth + 2) strp hdepth
    have hbody : ∀ s : Strbuf,
        (stringOps t (jsstrMaxdepth + 2) strp f).2.foldl (StringOp.run t strflags) s =
          (stringOps t (jsstrMaxdepth + 2) strp f').2.foldl (StringOp.run t strflags) s := by
      intro s
      rw [← foldl_run_forget t strflags hno, hops,
        foldl_run_forget t strflags (NoExternal.congr t hno hdepth)]
    rw [v8stringWriteN_eq_withQuotes t (enoughFuel_start f) hf hrep,
      v8stringWriteN_eq_withQuotes t (enoughFuel_start f') (hdepth ▸ hf) hrep, hrv, hquoted]
    simp only [hbody]

end Ops

/-! ### What is claimed -/

/-- The external one-byte string at an address can be read, `cs` are its characters, and the first one is
a NUL or an ASCII character. -/
structure ExternalString (t : Target) (addr : ℕ) (strp : V8String) (cs : List ℕ) : Prop where
  load : v8stringLoad t addr = some strp
  not_seq : t.cfg.strrepSeq strp.type = false
  not_cons : t.cfg.strrepCons strp.type = false
  ext : t.cfg.strrepExt strp.type = true
  ascii : t.cfg.strencAscii strp.type = true
  read : ∃ bs, t.mdbVread strp.len strp.externalNodedata = some bs ∧ cs = decodeChars true bs
  first : ∀ c, cs.head? = some c → c = 0 ∨ isascii c = true

/-- Two strings leave the same bytes in any fresh buffer of at least eight bytes. -/
def WrittenAlike (t : Target) (strp strp' : V8String) (strflags v8flags : ℕ) : Prop :=
  ∀ mem buf n, 8 ≤ n → n < 2 ^ t.cfg.bits →
    (v8stringWrite t strp (mdbv8StrbufInit mem buf n) strflags v8flags).2.mem.bytes =
      (v8stringWrite t strp' (mdbv8StrbufInit mem buf n) strflags v8flags).2.mem.bytes

/-- `JSSTR_VERBOSE` changes neither what is left in a buffer nor what is returned. -/
def VerboseInert (t : Target) (strp : V8String) (strflags v8flags : ℕ) : Prop :=
  ∀ strb, (v8stringWrite t strp strb strflags (v8flags ||| jsstrVerbose)).1 =
      (v8stringWrite t strp strb strflags v8flags).1 ∧
    (v8stringWrite t strp strb strflags (v8flags ||| jsstrVerbose)).2.mem.bytes =
      (v8stringWrite t strp strb strflags v8flags).2.mem.bytes

/-! ### Verbose output -/

section Verbose

variable {t : Target} {f : ℕ}

theorem quotedFlag_verbose (f : ℕ) : quotedFlag (f ||| jsstrVerbose) = quotedFlag f := by
  unfold quotedFlag
  rw [or_and_of_disjoint f (by decide)]

theorem jsstrDepth_verbose (f : ℕ) : jsstrDepth (f ||| jsstrVerbose) = jsstrDepth f :=
  jsstrDepth_or f (by decide)

/-- Setting the flag where it is set already. -/
theorem or_verbose_of_set (h : f &&& jsstrVerbose ≠ 0) : f ||| jsstrVerbose = f := by
  have hbit : f.testBit 16 = true := by
    rw [show jsstrVerbose = 2 ^ 16 from rfl, Nat.and_two_pow] at h
    by_contra hno
    rw [Bool.not_eq_true] at hno
    exact h (by rw [hno]; rfl)
  apply Nat.eq_of_testBit_eq
  intro i
  rw [Nat.testBit_or, show jsstrVerbose = 2 ^ 16 from rfl, Nat.testBit_two_pow]
  by_cases hi : 16 = i
  · rw [← hi, hbit, Bool.true_or]
  · simp [hi]

/-- The flag is passed on. -/
theorem verbose_innerFlags {c : Config} {type : ℕ} (hf : ¬ jsstrMaxdepth < jsstrDepth f) :
    innerFlags c type f &&& jsstrVerbose = f &&& jsstrVerbose := by
  have hmax : jsstrMaxdepth = 512 := rfl
  have henc : (if c.strencAscii type then f ||| jsstrIsascii else clearFlag f jsstrIsascii) &&&
      jsstrVerbose = f &&& jsstrVerbose := by
    split
    · exact or_and_of_disjoint f (by decide)
    · exact clearFlag_and_of_disjoint f (by decide)
  have hdepth : jsstrDepth (if c.strencAscii type then f ||| jsstrIsascii
      else clearFlag f jsstrIsascii) = jsstrDepth f := by
    split
    · exact jsstrDepth_or f (by decide)
    · exact jsstrDepth_clearFlag f (by decide)
  unfold innerFlags
  dsimp only
  generalize (if c.strencAscii type then f ||| jsstrIsascii else clearFlag f jsstrIsascii) = g
    at henc hdepth
  rw [clearFlag_and_of_disjoint _ (by decide)]
  split
  · rw [jsstrBumpdepth_and _ (by decide) (by rw [jsstrDepth_clearFlag g (by decide)]; omega),
      clearFlag_and_of_disjoint g (by decide), henc]
  · rw [jsstrBumpdepth_and _ (by decide) (by omega), henc]

/-- **Where verbose output changes nothing**: it has been asked for already, or the string is too deep, or
no external string is reached. -/
theorem verboseInert_of_noExternal {addr : ℕ} {strp : V8String}
    (hload : v8stringLoad t addr = some strp) (strflags : ℕ)
    (h : f &&& jsstrVerbose ≠ 0 ∨ jsstrMaxdepth < jsstrDepth f ∨ NoExternal t strp f) :
    VerboseInert t strp strflags f := by
  intro strb
  have hsame : v8stringWrite t strp strb strflags (f ||| jsstrVerbose) =
      v8stringWrite t strp strb strflags f := by
    rcases h with hset | hdeep | hno
    · rw [or_verbose_of_set hset]
    · unfold v8stringWrite
      rw [v8stringWriteN_of_deep t hdeep,
        v8stringWriteN_of_deep t (by rwa [jsstrDepth_verbose])]
    · exact (v8stringWrite_congr t (knownRep_of_load hload) hno (jsstrDepth_verbose f).symm
        (quotedFlag_verbose f).symm strb strflags).symm
  rw [hsame]
  exact ⟨rfl, rfl⟩

end Verbose

/-! ### External strings -/

/-- The line of details. -/
def verboseText (strp : V8String) : List UInt8 :=
  bytesOf "external string: " ++ fmtP strp.addr ++
    bytesOf " (assuming node.js string (length " ++ fmtD strp.len ++ bytesOf "))\n"

section External

variable {t : Target} {addr addr' : ℕ} {strp strp' : V8String} {cs : List ℕ} {strflags v8flags : ℕ}

/-- The first byte of the string looks like text. -/
theorem ExternalString.looks (hext : ExternalString t addr strp cs) {bs : List UInt8}
    (hcs : cs = decodeChars true bs) : ((bs.getD 0 0 != 0) && !isascii (bs.getD 0 0).toNat) = false := by
  cases bs with
  | nil => rfl
  | cons b bs =>
    have hhead : cs.head? = some (charToUint16 b) := by
      have hlen : 0 < (decodeChars true (b :: bs)).length := by simp [bytesPerChar]
      rw [hcs, List.head?_eq_getElem?, List.getElem?_eq_getElem hlen, decodeChars_getElem]
      rfl
    have hascii : isascii b.toNat = true := by
      have hfirst := hext.first _ hhead
      unfold charToUint16 isascii at hfirst
      simp only [isascii, decide_eq_true_eq]
      split at hfirst
      · next hlt => exact hlt
      · simp only [Nat.add_eq_zero_iff, decide_eq_true_eq] at hfirst
        omega
    simp [hascii]

/-- An external string is written as in one chunk, behind the line of details. -/
theorem ExternalString.write (hext : ExternalString t addr strp cs) {f : ℕ}
    (hascii : (f &&& jsstrIsascii != 0) = true) (strb : Strbuf) :
    v8stringWriteExt t strp strb strflags f =
      (0, leafOut t.cfg.bits strflags cs
        (if f &&& jsstrVerbose != 0 then mdbv8StrbufSprintf strb (verboseText strp) else strb)) := by
  obtain ⟨bs, hread, hcs⟩ := hext.read
  have hone : (f &&& jsstrIsascii == 0) = false := by simpa using hascii
  set s := if f &&& jsstrVerbose != 0 then mdbv8StrbufSprintf strb (verboseText strp) else strb
    with hs
  set w := extWriter strp s strflags f with hw
  have hwrite : v8stringWriteExt t strp strb strflags f = v8stringWriteChunks t strp.len w := by
    unfold v8stringWriteExt
    rw [hone]
    rfl
  have hlen := Target.mdbVread_length hread
  have hwf : w.Wf := extWriter_wf strp s strflags hone
  have hrem : w.remaining = strp.len := rfl
  have hwascii : w.ascii = true := hascii
  have hsame : (f &&& jsstrIsascii != 0) = w.ascii := rfl
  have hinb : w.inbytesperchar = 1 := rfl
  rw [hwrite, hcs]
  rcases Nat.eq_zero_or_pos strp.len with hzero | hpos
  · -- there is nothing to write
    have hdone : w.done = true := beq_iff_eq.mpr hzero
    have hnil : bs = [] := List.eq_nil_of_length_eq_zero (hlen.trans hzero)
    rw [hzero, v8stringWriteChunks, hdone, hnil, decodeChars_nil]
    rfl
  · have haddr : w.chunkAddr t = strp.externalNodedata := by
      have hfit := (Target.mdbVread_eq_some_iff.mp hread).1
      change t.cfg.add strp.externalNodedata ((0 : ℕ) : ℤ) = _
      rw [Config.add_natCast, Nat.add_zero, Nat.mod_eq_of_lt (by omega)]
    have hreadable : (w.recast f false).Readable t bs := by
      change t.mdbVread (1 * strp.len) (w.chunkAddr t) = some bs
      rw [haddr, Nat.one_mul]
      exact hread
    -- the first chunk begins as the string does, so that the check does not fail
    have hlooks : ∀ chunk, t.mdbVread w.chunkBytes (w.chunkAddr t) = some chunk →
        (w.recast f false).looksInvalid chunk = w.looksInvalid chunk := by
      intro chunk hchunk
      have hbytes : w.chunkBytes ≤ strp.len := by
        have hle : w.chunkBytes ≤ w.inbytesperchar * w.remaining := min_le_right _ _
        rwa [hinb, hrem, Nat.one_mul] at hle
      have hchunkpos : 0 < w.chunkBytes := by
        change 0 < min chunkSize (1 * strp.len)
        rw [Nat.one_mul]
        exact lt_min (by decide) hpos
      have hsub := Target.mdbVread_sub hread (show 0 + w.chunkBytes ≤ strp.len by omega)
      rw [haddr] at hchunk
      obtain rfl : (bs.drop 0).take w.chunkBytes = chunk := Option.some.inj (hsub.symm.trans hchunk)
      have hfirst : ((bs.drop 0).take w.chunkBytes).getD 0 0 = bs.getD 0 0 := by
        rw [List.drop_zero, List.getD_eq_getElem?_getD, List.getD_eq_getElem?_getD,
          List.getElem?_take_of_lt hchunkpos]
      unfold V8StringWrite.looksInvalid
      rw [hfirst, hext.looks hcs, Bool.and_false, Bool.and_false]
    have hrecast := V8StringWrite.writeChunks_recast hwf hsame hlooks strp.len
    rw [← hrecast, (hwf.recast hsame false).writeChunks_eq hrem.le rfl (fun h => by
      change strp.len = 0 at h
      omega) hreadable fun _ => beq_eq_false_iff_ne.mpr hpos.ne']
    change (0, leafOut t.cfg.bits strflags (decodeChars w.ascii bs) s) = _
    rw [hwascii]

/-- An external string, by its representation. -/
theorem ExternalString.writeRep (hext : ExternalString t addr strp cs)
    (hdepth : ¬ jsstrMaxdepth < jsstrDepth v8flags) (fuel : ℕ) (strb : Strbuf) :
    MdbV8.writeRep t (v8stringWriteN t fuel) strp strb strflags
        (innerFlags t.cfg strp.type v8flags) =
      (0, leafOut t.cfg.bits strflags cs
        (if v8flags &&& jsstrVerbose != 0 then mdbv8StrbufSprintf strb (verboseText strp)
          else strb)) := by
  have hmax : jsstrMaxdepth = 512 := rfl
  have hascii := ascii_innerFlags t.cfg strp.type v8flags (by omega)
  rw [hext.ascii] at hascii
  unfold MdbV8.writeRep
  rw [hext.not_seq, hext.not_cons, hext.ext, ← verbose_innerFlags hdepth]
  exact hext.write hascii strb

/-- A sequential string, by its representation. -/
theorem FlatString.writeRep (hflat : FlatString t addr strp cs)
    (hdepth : ¬ jsstrMaxdepth < jsstrDepth v8flags) (fuel : ℕ) (strb : Strbuf) :
    MdbV8.writeRep t (v8stringWriteN t fuel) strp strb strflags
        (innerFlags t.cfg strp.type v8flags) = (0, leafOut t.cfg.bits strflags cs strb) :=
  writeRep_tree t (.seq hflat.load hflat.seq hflat.read) hflat.load (not_lt.mp hdepth)
    (Nat.zero_le _) strb strflags

/-- **Without the line of details**, an external string is written as the sequential one with the same
characters, into any buffer. -/
theorem ExternalString.write_eq (hext : ExternalString t addr strp cs)
    (hflat : FlatString t addr' strp' cs)
    (h : v8flags &&& jsstrVerbose = 0 ∨ jsstrMaxdepth < jsstrDepth v8flags) (strb : Strbuf) :
    v8stringWrite t strp strb strflags v8flags = v8stringWrite t strp' strb strflags v8flags := by
  unfold v8stringWrite
  by_cases hdeep : jsstrMaxdepth < jsstrDepth v8flags
  · rw [v8stringWriteN_of_deep t hdeep, v8stringWriteN_of_deep t hdeep]
  have hnone : (v8flags &&& jsstrVerbose != 0) = false := by
    simpa using h.resolve_right hdeep
  have hrep : ∀ s, MdbV8.writeRep t (v8stringWriteN t (jsstrMaxdepth + 1)) strp s strflags
      (innerFlags t.cfg strp.type v8flags) = (0, leafOut t.cfg.bits strflags cs s) := fun s => by
    rw [hext.writeRep hdeep, hnone]
    rfl
  have hrep' : ∀ s, MdbV8.writeRep t (v8stringWriteN t (jsstrMaxdepth + 1)) strp' s strflags
      (innerFlags t.cfg strp'.type v8flags) = (0, leafOut t.cfg.bits strflags cs s) := fun s =>
    hflat.writeRep hdeep _ s
  cases hq : quotedFlag v8flags with
  | false => rw [v8stringWriteN_nude t hdeep hq, v8stringWriteN_nude t hdeep hq, hrep, hrep']
  | true =>
    rw [v8stringWriteN_quoted t hdeep hq _ _ _ (hrep _),
      v8stringWriteN_quoted t hdeep hq _ _ _ (hrep' _)]

/-- The line of details begins like this, which is longer than what a buffer of nine bytes can hold. -/
theorem verboseText_eq (strp : V8String) :
    ∃ rest, verboseText strp = bytesOf "external" ++ rest := by
  refine ⟨bytesOf " string: " ++ (fmtP strp.addr ++ (bytesOf " (assuming node.js string (length " ++
    (fmtD strp.len ++ bytesOf "))\n"))), ?_⟩
  unfold verboseText
  rw [show bytesOf "external string: " = bytesOf "external" ++ bytesOf " string: " by decide]
  simp only [List.append_assoc]

theorem length_external : (bytesOf "external").length = 8 := by simp [bytesOf]

theorem not_mem_external {b : UInt8} (h : b ∈ bytesOf "external") : b ≠ 0 ∧ b ≠ 34 ∧ b ≠ 93 := by
  rw [show bytesOf "external" = [101, 120, 116, 101, 114, 110, 97, 108] by decide] at h
  simp only [List.mem_cons, List.not_mem_nil, or_false] at h
  rcases h with rfl | rfl | rfl | rfl | rfl | rfl | rfl | rfl <;> simp

/-- **With the line of details**, in a small buffer, the line is all that there is room for. -/
theorem ExternalString.text_verbose (hext : ExternalString t addr strp cs)
    (hverbose : v8flags &&& jsstrVerbose ≠ 0) (hdepth : jsstrDepth v8flags ≤ jsstrMaxdepth)
    (mem : CharMem) (buf : ℕ) {n : ℕ} (h8 : 8 ≤ n) (h9 : n ≤ 9) (hn : n < 2 ^ t.cfg.bits) :
    ∃ s', v8stringWrite t strp (mdbv8StrbufInit mem buf n) strflags v8flags = (0, s') ∧
      (mdbv8StrbufInit mem buf n).Grows s' ∧
      s'.text = (mdbv8StrbufInit mem buf n).text ++ (quoteText v8flags ++
        (bytesOf "external").take (freshRoom n v8flags) ++ quoteText v8flags) := by
  have hset : (v8flags &&& jsstrVerbose != 0) = true := by simpa using hverbose
  -- what is written by the representation, in any buffer
  set T : ℕ → List UInt8 := fun left => (verboseText strp).take left ++
    leafText strflags cs (left - (verboseText strp).length) with hT
  have hlen : ∀ left, (T left).length ≤ left := by
    intro left
    have hleaf := leafText_length_le strflags cs (left - (verboseText strp).length)
    rw [hT]
    dsimp only
    rw [List.length_append, List.length_take]
    omega
  have hrep : ∀ s : Strbuf, s.Sized t.cfg.bits → ∃ s',
      MdbV8.writeRep t (v8stringWriteN t (jsstrMaxdepth + 1)) strp s strflags
        (innerFlags t.cfg strp.type v8flags) = (0, s') ∧ s.Appends s' ∧
        s'.text = s.text ++ T s.room := by
    intro s hs
    obtain ⟨htext, -⟩ :=
      leafOut_text strflags cs (hs.of_grows (Strbuf.grows_sprintf s (verboseText strp)))
    have hwrite := @ExternalString.writeRep t addr strp cs strflags v8flags hext (not_lt.mpr hdepth)
      (jsstrMaxdepth + 1) s
    rw [hset, if_pos rfl] at hwrite
    refine ⟨_, hwrite, ?_, ?_⟩
    · exact (Strbuf.Appends.sprintf s _).trans (chunkOut_appends t.cfg.bits strflags true cs _)
    · rw [htext, Strbuf.sprintf_text, Strbuf.sprintf_room, List.append_assoc]
  obtain ⟨s', hrun, hgrows, htext⟩ :=
    v8stringWrite_fresh t strflags hdepth hlen hrep mem buf (by omega) hn
  refine ⟨s', hrun, hgrows, htext.trans ?_⟩
  -- there is no room for more than the beginning of the line
  have hsmall : freshRoom n v8flags ≤ 8 := by
    unfold freshRoom
    split <;> omega
  obtain ⟨rest, hrest⟩ := verboseText_eq strp
  have hlong : 8 ≤ (verboseText strp).length := by
    rw [hrest, List.length_append]
    exact Nat.le_add_right 8 _
  have hnil : leafText strflags cs (freshRoom n v8flags - (verboseText strp).length) = [] := by
    rw [Nat.sub_eq_zero_of_le (hsmall.trans hlong)]
    exact List.eq_nil_of_length_eq_zero (Nat.le_zero.mp (leafText_length_le strflags cs 0))
  have htake : T (freshRoom n v8flags) = (bytesOf "external").take (freshRoom n v8flags) := by
    rw [hT]
    dsimp only
    rw [hnil, List.append_nil, hrest, List.take_append_of_le_length hsmall]
  rw [htake]

/-- A sequential string in a fresh buffer. -/
theorem FlatString.text_fresh (hflat : FlatString t addr strp cs)
    (hdepth : jsstrDepth v8flags ≤ jsstrMaxdepth) (mem : CharMem) (buf : ℕ) {n : ℕ} (h3 : 3 ≤ n)
    (hn : n < 2 ^ t.cfg.bits) :
    ∃ s', v8stringWrite t strp (mdbv8StrbufInit mem buf n) strflags v8flags = (0, s') ∧
      (mdbv8StrbufInit mem buf n).Grows s' ∧
      s'.text = (mdbv8StrbufInit mem buf n).text ++ (quoteText v8flags ++
        leafText strflags cs (freshRoom n v8flags) ++ quoteText v8flags) :=
  v8stringWrite_fresh t strflags hdepth (leafText_length_le strflags cs)
    (fun s hs => ⟨_, hflat.writeRep (not_lt.mpr hdepth) _ s,
      chunkOut_appends t.cfg.bits strflags true cs s, (leafOut_text strflags cs hs).1⟩) mem buf h3 hn

/-- Two texts are the same if they leave the same array, the one that is not shorter has neither a NUL nor
a quote in it, and nothing follows but a quote. -/
theorem eq_of_overwrite {bytes : ℕ → UInt8} {i : ℕ} {X Y q : List UInt8} (hq : q = [] ∨ q = [34])
    (hlen : X.length ≤ Y.length) (hY : ∀ b ∈ Y, b ≠ 0 ∧ b ≠ 34)
    (h : overwrite bytes i (q ++ Y ++ q) = overwrite bytes i (q ++ X ++ q)) : X = Y := by
  have hget := getD_of_overwrite h
  have hsame : X.length = Y.length := by
    by_contra hne
    have hlt : X.length < Y.length := by omega
    -- behind the shorter one, there is a quote or a NUL
    have hend := hget (X.length + 0)
    rw [getD_append_add, Nat.add_zero, List.getD_append _ _ _ _ hlt,
      List.getD_eq_getElem _ _ hlt] at hend
    obtain ⟨h0, h34⟩ := hY _ (List.getElem_mem hlt)
    rcases hq with rfl | rfl
    · exact h0 hend
    · exact h34 hend
  apply List.ext_getElem hsame
  intro m hm hm'
  have hchar := hget m
  rw [List.getD_append _ _ _ _ hm', List.getD_append _ _ _ _ hm, List.getD_eq_getElem _ _ hm',
    List.getD_eq_getElem _ _ hm] at hchar
  exact hchar.symm

/-- **When an external string is written as a sequential one**: verbose output has not been asked for, or
the string is too deep. -/
theorem writtenAlike_iff (hext : ExternalString t addr strp cs)
    (hflat : FlatString t addr' strp' cs) :
    WrittenAlike t strp strp' strflags v8flags ↔
      v8flags &&& jsstrVerbose = 0 ∨ jsstrMaxdepth < jsstrDepth v8flags := by
  refine ⟨fun halike => ?_, fun h mem buf n _ _ => by rw [hext.write_eq hflat h]⟩
  by_contra hno
  push Not at hno
  obtain ⟨hverbose, hdepth⟩ := hno
  have hq : quoteText v8flags = [] ∨ quoteText v8flags = [34] := by
    unfold quoteText
    split
    · exact .inr rfl
    · exact .inl rfl
  have hbits : 9 < 2 ^ t.cfg.bits := by
    cases hm : t.cfg.model <;> simp [Config.bits, hm, DataModel.bits]
  -- in small buffers, the characters would have to read as the line of details
  have hread : ∀ n, 8 ≤ n → n ≤ 9 →
      leafText strflags cs (freshRoom n v8flags) = (bytesOf "external").take (freshRoom n v8flags) := by
    intro n h8 h9
    have hsmall : freshRoom n v8flags ≤ 8 := by
      unfold freshRoom
      split <;> omega
    obtain ⟨s, hrun, hgrows, htext⟩ := @ExternalString.text_verbose t addr strp cs strflags v8flags
      hext hverbose hdepth { bytes := fun _ => 0 } 0 n h8 h9 (by omega)
    obtain ⟨s', hrun', hgrows', htext'⟩ := @FlatString.text_fresh t addr' strp' cs strflags v8flags
      hflat hdepth { bytes := fun _ => 0 } 0 n (by omega) (by omega)
    have hbytes := halike { bytes := fun _ => 0 } 0 n h8 (by omega)
    rw [hrun, hrun'] at hbytes
    change s.mem.bytes = s'.mem.bytes at hbytes
    rw [hgrows.bytes_eq rfl htext, hgrows'.bytes_eq rfl htext'] at hbytes
    refine eq_of_overwrite hq ?_ (fun b hb => ?_) hbytes
    · have hle := leafText_length_le strflags cs (freshRoom n v8flags)
      rw [List.length_take, length_external, min_eq_left hsmall]
      exact hle
    · obtain ⟨h0, h34, -⟩ := not_mem_external (List.mem_of_mem_take hb)
      exact ⟨h0, h34⟩
  -- they are not cut off, since there is no bracket in the line
  have hwhole : ∀ n, 8 ≤ n → n ≤ 9 →
      (charsText strflags cs).length = freshRoom n v8flags := by
    intro n h8 h9
    have hsmall : freshRoom n v8flags ≤ 8 := by
      unfold freshRoom
      split <;> omega
    rcases leafText_shape strflags cs (freshRoom_ge h8 v8flags) with hall | ⟨k, hcut⟩
    · rw [← hall, hread n h8 h9, List.length_take, length_external,
        min_eq_left hsmall]
    · have hmem : (93 : UInt8) ∈ (bytesOf "external").take (freshRoom n v8flags) := by
        rw [← hread n h8 h9, hcut]
        exact List.mem_append_right _ (by decide)
      exact absurd rfl (not_mem_external (List.mem_of_mem_take hmem)).2.2
  -- but the same string cannot have two lengths
  have h8 := hwhole 8 le_rfl (by norm_num)
  have h9 := hwhole 9 (by norm_num) le_rfl
  unfold freshRoom at h8 h9
  split at h9 <;> simp_all

/-- **When verbose output changes nothing for an external string.** -/
theorem verboseInert_iff (hext : ExternalString t addr strp cs) (hflat : FlatString t addr' strp' cs) :
    VerboseInert t strp strflags v8flags ↔
      v8flags &&& jsstrVerbose ≠ 0 ∨ jsstrMaxdepth < jsstrDepth v8flags := by
  constructor
  · intro hinert
    by_contra hno
    push Not at hno
    obtain ⟨hnone, hdepth⟩ := hno
    have hno' : NoExternal t strp' v8flags := by
      intro op hop
      rw [stringOps, if_neg (not_lt.mpr hdepth), repOps, if_pos hflat.seq] at hop
      rw [List.mem_singleton.mp hop]
      rfl
    -- the sequential string is left as it is, so that the two would be written alike
    have hinert' := verboseInert_of_noExternal hflat.load strflags (.inr (.inr hno'))
    have halike : WrittenAlike t strp strp' strflags (v8flags ||| jsstrVerbose) := by
      intro mem buf n _ _
      rw [(hinert _).2, (hinert' _).2, hext.write_eq hflat (.inl hnone)]
    rcases (writtenAlike_iff hext hflat).mp halike with hzero | hdeep
    · rw [or_and_self] at hzero
      exact absurd hzero (by decide)
    · rw [jsstrDepth_verbose] at hdeep
      omega
  · rintro (hset | hdeep)
    · exact verboseInert_of_noExternal hext.load strflags (.inl hset)
    · exact verboseInert_of_noExternal hext.load strflags (.inr (.inl hdeep))

/-- **External strings and verbose output**: an external string is written as the sequential one with the
same characters if verbose output has not been asked for, or if it is too deep; asking for it changes
nothing for the external string if it has been asked for already, or again if the string is too deep. Apart
from that, it changes nothing for any string in which no external string is reached. -/
theorem writesExternal_iff :
    (∀ addr addr' strp strp' cs, ExternalString t addr strp cs → FlatString t addr' strp' cs →
      (WrittenAlike t strp strp' strflags v8flags ↔
        v8flags &&& jsstrVerbose = 0 ∨ jsstrMaxdepth < jsstrDepth v8flags) ∧
      (VerboseInert t strp strflags v8flags ↔
        v8flags &&& jsstrVerbose ≠ 0 ∨ jsstrMaxdepth < jsstrDepth v8flags)) ∧
    ∀ addr strp, v8stringLoad t addr = some strp → v8flags &&& jsstrVerbose ≠ 0 ∨
      jsstrMaxdepth < jsstrDepth v8flags ∨ NoExternal t strp v8flags →
        VerboseInert t strp strflags v8flags :=
  ⟨fun _ _ _ _ _ hext hflat => ⟨writtenAlike_iff hext hflat, verboseInert_iff hext hflat⟩,
    fun _ _ hload h => verboseInert_of_noExternal hload strflags h⟩

end External

/-- A target with an external string `"ab"` at `0x1001`, and a sequential one at `0x3001`. -/
def externalTarget : Target :=
  .ofWords (.sample .lp64)
    [(0x1000, 0x4001), (0x1008, 2 <<< 32), (0x1018, 0x2000), (0x2008, 0x6000), (0x6000, 0x6261),
      (0x3000, 0x5001), (0x3008, 2 <<< 32), (0x3018, 0x6261), (0x4010, 6), (0x5010, 4)]

/-- The external string. -/
def externalSample : V8String := { addr := 0x1001, len := 2, type := 6, externalNodedata := 0x6000 }

/-- The sequential string. -/
def externalTwin : V8String := { addr := 0x3001, len := 2, type := 4 }

theorem externalTarget_ext : ExternalString externalTarget 0x1001 externalSample [97, 98] where
  load := by decide
  not_seq := by decide
  not_cons := by decide
  ext := by decide
  ascii := by decide
  read := ⟨[97, 98], by decide, by decide⟩
  first c hc := by
    obtain rfl : 97 = c := Option.some.inj hc
    exact .inr rfl

theorem externalTarget_flat : FlatString externalTarget 0x3001 externalTwin [97, 98] :=
  ⟨by decide, by decide, ⟨[97, 98], by decide, by decide⟩⟩

/-- In quotes and without details, the two strings are written alike. -/
theorem writesExternal_sample :
    WrittenAlike externalTarget externalSample externalTwin msfJson jsstrQuoted ∧
      VerboseInert externalTarget externalTwin msfJson jsstrQuoted := by
  obtain ⟨halike, hinert⟩ := @writesExternal_iff externalTarget msfJson jsstrQuoted
  refine ⟨(halike _ _ _ _ _ externalTarget_ext externalTarget_flat).1.mpr (.inl rfl),
    hinert 0x3001 _ (by decide) (.inr (.inr ?_))⟩
  intro op hop
  have hops : (stringOps externalTarget (jsstrMaxdepth + 2) externalTwin jsstrQuoted).2 =
      [.seq externalTwin 0x40001 0 (-1)] := by decide
  rw [hops] at hop
  rw [List.mem_singleton.mp hop]
  rfl

/-- With details, the external string is left as `externa` in a buffer of eight bytes. -/
theorem not_writesExternal_sample :
    ExternalString externalTarget 0x1001 externalSample [97, 98] ∧
      FlatString externalTarget 0x3001 externalTwin [97, 98] ∧
      (v8stringWrite externalTarget externalSample (zeroBuffer 8) msfJson jsstrVerbose).2.mem.cstring
        0 8 = bytesOf "externa" ∧
      (v8stringWrite externalTarget externalTwin (zeroBuffer 8) msfJson jsstrVerbose).2.mem.cstring
        0 8 = bytesOf "ab" ∧
      ¬ WrittenAlike externalTarget externalSample externalTwin msfJson jsstrVerbose ∧
      ¬ VerboseInert externalTarget externalSample msfJson jsstrNone := by
  have hmax : ¬ jsstrMaxdepth < jsstrDepth jsstrVerbose := by decide
  have hmax' : ¬ jsstrMaxdepth < jsstrDepth jsstrNone := by decide
  refine ⟨externalTarget_ext, externalTarget_flat, by decide +kernel, by decide +kernel, ?_, ?_⟩
  · intro halike
    rcases (writtenAlike_iff externalTarget_ext externalTarget_flat).mp halike with hnone | hdeep
    · exact absurd hnone (by decide)
    · exact hmax hdeep
  · intro hinert
    rcases (verboseInert_iff externalTarget_ext externalTarget_flat).mp hinert with hset | hdeep
    · exact hset rfl
    · exact hmax' hdeep

end MdbV8
