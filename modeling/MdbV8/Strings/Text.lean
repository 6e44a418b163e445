import MdbV8.Strings.Emit

/-!
# The text of a string

`jsstrText` is what `jsstrPrint` prints where nothing has to be cut off: the text of any string in any
memory, and the messages that stand in the place of what cannot be read. It follows
`v8stringWriteN` representation by representation, with the text in the place of the buffer.

* `emits_v8stringWriteN`: a string without quotes emits its text;
* `Strbuf.emits_quoted`: so does one between quotes, though a byte is held back for the second one;
* `emits_jsstrPrint`: and so does `jsstrPrint`, which returns what `jsstrText` says.
-/

namespace MdbV8

open Lib

/-! ### Texts -/

section Text

variable (t : Target)

/-- The text of a part of a sequential string. -/
def seqText (strp : V8String) (strflags v8flags usliceoffset : ℕ) (uslicelen : ℤ) : List UInt8 :=
  let ascii := v8flags &&& jsstrIsascii != 0
  let slice := sliceOf t strp.len usliceoffset uslicelen
  restText t strflags ascii (charsAddr t.cfg strp.addr ascii) slice.2 false
    (slice.1 * bytesPerChar ascii) slice.2

/-- The text of an external string. -/
def extText (strp : V8String) (strflags v8flags : ℕ) : List UInt8 :=
  (if v8flags &&& jsstrVerbose != 0 then
    bytesOf "external string: " ++ fmtP strp.addr ++
      bytesOf " (assuming node.js string (length " ++ fmtD strp.len ++ bytesOf "))\n"
  else []) ++
  if v8flags &&& jsstrIsascii == 0 then bytesOf "<external two-byte string>"
  else restText t strflags true strp.externalNodedata strp.len true 0 strp.len

/-- The text of a slice. -/
def slicedText (strp : V8String) (strflags v8flags : ℕ) : List UInt8 :=
  match v8stringLoad t strp.slicedParent with
  | none => bytesOf "<sliced string (failed to load parent)>"
  | some pstrp =>
    if !t.cfg.strrepSeq pstrp.type then
      bytesOf "<sliced string (parent is not a sequential string)>"
    else
      seqText t pstrp strflags (jsstrBumpdepth v8flags) strp.slicedOffset (t.cfg.toSigned strp.len)

/-- The text of a concatenation, with the function that gives those of the two parts. -/
def consText (text : V8String → ℕ → ℕ → ℤ × List UInt8) (strp : V8String) (strflags v8flags : ℕ) :
    ℤ × List UInt8 :=
  match v8stringLoad t strp.consP1, v8stringLoad t strp.consP2 with
  | some str1p, some str2p =>
    let flags := jsstrBumpdepth v8flags
    let (rv, T) := text str1p strflags flags
    if rv = 0 then
      let (rv, U) := text str2p strflags flags
      (rv, T ++ U)
    else (rv, T)
  | _, _ => (0, bytesOf "<string (failed to read cons ptrs)>")

/-- The text of a string by its representation. -/
def repText (text : V8String → ℕ → ℕ → ℤ × List UInt8) (strp : V8String) (strflags v8flags : ℕ) :
    ℤ × List UInt8 :=
  if t.cfg.strrepSeq strp.type then (0, seqText t strp strflags v8flags 0 (-1))
  else if t.cfg.strrepCons strp.type then consText t text strp strflags v8flags
  else if t.cfg.strrepExt strp.type then (0, extText t strp strflags v8flags)
  else (0, slicedText t strp strflags v8flags)

/-- A text between quotes, or as it stands. -/
def quotedText (strflags : ℕ) (quoted : Bool) (T : List UInt8) : List UInt8 :=
  if quoted then charBytes 34 strflags ++ T ++ charBytes 34 strflags else T

/-- What `v8stringWriteN` returns, and the text it writes. -/
def stringTextN : ℕ → V8String → ℕ → ℕ → ℤ × List UInt8
  | 0, _, _, _ => (-1, [])
  | fuel + 1, strp, strflags, v8flags =>
    if jsstrDepth v8flags > jsstrMaxdepth then (-1, bytesOf "<maximum depth exceeded>")
    else
      let (rv, T) := repText t (stringTextN fuel) strp strflags (innerFlags t.cfg strp.type v8flags)
      (rv, quotedText strflags (quotedFlag v8flags) T)

/-- **The text of a string**, with what `jsstrPrint` returns. -/
def jsstrText (addr flags : ℕ) : ℤ × List UInt8 :=
  match v8stringLoad t addr with
  | none =>
    (-1, (bytesOf "<string (failed to load string)>").flatMap fun b =>
      charBytes (charToUint16 b) flags)
  | some strp => stringTextN t (jsstrMaxdepth + 2) strp msfAsciionly flags

end Text

/-! ### Emitting without quotes -/

/-- What writing returns is what comes with the text, and a buffer that has a byte left has the text
emitted into it. -/
def EmitsResult (bits : ℕ) (T : ℤ × List UInt8) (s : Strbuf) (r : ℤ × Strbuf) : Prop :=
  r.1 = T.1 ∧ (s.Sized bits → strbufSink.Emits T.2 s r.2)

section Emit

variable (t : Target) {strflags : ℕ} (hjson : strflags &&& msfJson ≠ msfJson)

include hjson

theorem emits_v8stringWriteSeq (strp : V8String) (strb : Strbuf) (v8flags off : ℕ) (len : ℤ) :
    EmitsResult t.cfg.bits (0, seqText t strp strflags v8flags off len) strb
      (v8stringWriteSeq t strp strb strflags v8flags off len) := by
  refine ⟨(v8stringWriteSeq_appends t strp strb strflags v8flags off len).1, fun hs => ?_⟩
  rw [v8stringWriteSeq_eq]
  set slice := sliceOf t strp.len off len with hslice
  have hrem : (seqWriter t strp strb strflags v8flags slice).remaining = slice.2 := rfl
  refine (seqWriter_wf t strp strb strflags v8flags slice).emits_writeChunks t hjson hs
    (fun h0 => ?_) (fun hpos => ?_) hrem.le
  · exact beq_iff_eq.mpr (hrem ▸ h0)
  · exact beq_eq_false_iff_ne.mpr (hrem ▸ hpos).ne'

theorem emits_v8stringWriteExt (strp : V8String) (strb : Strbuf) (v8flags : ℕ) :
    EmitsResult t.cfg.bits (0, extText t strp strflags v8flags) strb
      (v8stringWriteExt t strp strb strflags v8flags) := by
  refine ⟨(v8stringWriteExt_appends t strp strb strflags v8flags).1, fun hs => ?_⟩
  unfold v8stringWriteExt extText
  extract_lets strb'
  set V := if v8flags &&& jsstrVerbose != 0 then bytesOf "external string: " ++ fmtP strp.addr ++
    bytesOf " (assuming node.js string (length " ++ fmtD strp.len ++ bytesOf "))\n" else [] with hV
  -- the introduction of a verbose print
  have hverb : strbufSink.Emits V strb strb' ∧ strb'.Sized t.cfg.bits := by
    unfold strb'
    rw [hV]
    split
    · exact ⟨Strbuf.emits_sprintf _ _, hs.of_grows (Strbuf.grows_sprintf _ _)⟩
    · exact ⟨Sink.Emits.refl _, hs⟩
  cases hascii : (v8flags &&& jsstrIsascii == 0) with
  | true =>
    simp only [if_true]
    exact hverb.1.trans (Strbuf.emits_sprintf _ _)
  | false =>
    simp only [Bool.false_eq_true, if_false]
    have hone : (extWriter strp strb' strflags v8flags).ascii = true := by
      simpa [extWriter, V8StringWrite.ascii] using hascii
    have hrem : (extWriter strp strb' strflags v8flags).remaining = strp.len := rfl
    have hrun := (extWriter_wf strp strb' strflags hascii).emits_writeChunks t hjson hverb.2
      (fun h0 => beq_iff_eq.mpr (hrem ▸ h0))
      (fun hpos => beq_eq_false_iff_ne.mpr (hrem ▸ hpos).ne') hrem.le
    unfold V8StringWrite.text at hrun
    rw [hone] at hrun
    exact hverb.1.trans hrun

theorem emits_v8stringWriteSliced (strp : V8String) (strb : Strbuf) (v8flags : ℕ) :
    EmitsResult t.cfg.bits (0, slicedText t strp strflags v8flags) strb
      (v8stringWriteSliced t strp strb strflags v8flags) := by
  unfold v8stringWriteSliced slicedText
  cases hparent : v8stringLoad t strp.slicedParent with
  | none => exact ⟨rfl, fun _ => Strbuf.emits_sprintf _ _⟩
  | some pstrp =>
    cases hseq : t.cfg.strrepSeq pstrp.type with
    | false =>
      simp only [hseq, Bool.not_false, if_true]
      exact ⟨rfl, fun _ => Strbuf.emits_sprintf _ _⟩
    | true =>
      simp only [hseq, Bool.not_true, Bool.false_eq_true, if_false]
      exact emits_v8stringWriteSeq t hjson _ _ _ _ _

/-- A string is written by its representation, if the parts of a concatenation are written. -/
theorem emits_writeRep {write : V8String → Strbuf → ℕ → ℕ → ℤ × Strbuf}
    {text : V8String → ℕ → ℕ → ℤ × List UInt8} {strp : V8String}
    (hrep : KnownRep t.cfg strp.type) (strb : Strbuf) (v8flags : ℕ)
    (hwrite : ∀ addr part, v8stringLoad t addr = some part → ∀ s : Strbuf,
      EmitsResult t.cfg.bits (text part strflags (jsstrBumpdepth v8flags)) s
        (write part s strflags (jsstrBumpdepth v8flags)) ∧
      s.Grows (write part s strflags (jsstrBumpdepth v8flags)).2) :
    EmitsResult t.cfg.bits (repText t text strp strflags v8flags) strb
      (writeRep t write strp strb strflags v8flags) := by
  unfold writeRep repText
  -- by the representation, in the order in which it is looked at
  by_cases hseq : t.cfg.strrepSeq strp.type = true
  · rw [if_pos hseq, if_pos hseq]
    exact emits_v8stringWriteSeq t hjson strp _ _ _ _
  rw [if_neg hseq, if_neg hseq]
  -- the parts of a concatenation, one after the other
  by_cases hcons : t.cfg.strrepCons strp.type = true
  · rw [if_pos hcons, if_pos hcons]
    unfold v8stringWriteCons consText
    cases h1 : v8stringLoad t strp.consP1 with
    | none => exact ⟨rfl, fun _ => Strbuf.emits_sprintf _ _⟩
    | some str1p =>
      cases h2 : v8stringLoad t strp.consP2 with
      | none => exact ⟨rfl, fun _ => Strbuf.emits_sprintf _ _⟩
      | some str2p =>
        obtain ⟨⟨hrv1, hemit1⟩, hgrows1⟩ := hwrite _ _ h1 strb
        dsimp only
        -- both parts, or the first one alone
        generalize write str1p strb strflags (jsstrBumpdepth v8flags) = r1 at hrv1 hemit1 hgrows1
        generalize text str1p strflags (jsstrBumpdepth v8flags) = T1 at hrv1 hemit1
        obtain ⟨rv1, strb1⟩ := r1
        obtain ⟨trv1, T1⟩ := T1
        dsimp only at hrv1 hemit1 hgrows1 ⊢
        rw [hrv1]
        split
        · obtain ⟨⟨hrv2, hemit2⟩, -⟩ := hwrite _ _ h2 strb1
          exact ⟨hrv2, fun hs => (hemit1 hs).trans (hemit2 (hs.of_grows hgrows1))⟩
        · exact ⟨rfl, hemit1⟩
  rw [if_neg hcons, if_neg hcons]
  by_cases hext : t.cfg.strrepExt strp.type = true
  · rw [if_pos hext, if_pos hext]
    exact emits_v8stringWriteExt t hjson strp _ _
  rw [if_neg hext, if_neg hext]
  -- nothing is left but a slice
  have hsliced : t.cfg.strrepSliced strp.type = true := by
    rcases hrep with h | h | h | h
    · exact absurd h hseq
    · exact absurd h hcons
    · exact absurd h hext
    · exact h
  rw [hsliced]
  exact emits_v8stringWriteSliced t hjson strp _ _

/-- **A string without quotes** emits its text. The induction is on the fuel, that is on the
recursion over concatenations. -/
theorem emits_v8stringWriteN {fuel f : ℕ} (hfuel : EnoughFuel fuel f) (hq : quotedFlag f = false)
    {strp : V8String} (hrep : KnownRep t.cfg strp.type) (strb : Strbuf) :
    EmitsResult t.cfg.bits (stringTextN t fuel strp strflags f) strb
      (v8stringWriteN t fuel strp strb strflags f) := by
  induction fuel generalizing f strp strb with
  | zero => exact absurd hfuel.1 (lt_irrefl 0)
  | succ fuel ih =>
    rw [stringTextN]
    by_cases hf : jsstrMaxdepth < jsstrDepth f
    · rw [v8stringWriteN_of_deep t hf, if_pos hf]
      exact ⟨rfl, fun _ => Strbuf.emits_sprintf _ _⟩
    · have hmax : jsstrMaxdepth = 512 := rfl
      have hq' := quotedFlag_bump_innerFlags t.cfg strp.type f (by omega)
      rw [v8stringWriteN_nude t hf hq, if_neg hf, hq]
      exact emits_writeRep t hjson hrep strb _ fun addr part hpart s =>
        ⟨ih (hfuel.inner hf t.cfg) hq' (knownRep_of_load hpart) s,
          (v8stringWriteN_appends t (hfuel.inner hf t.cfg) hq' (knownRep_of_load hpart) s
            strflags).grows⟩

end Emit

/-! ### Quotes -/

namespace Strbuf

theorem room_of_reservesz_zero {s : Strbuf} (h : s.reservesz = 0) : s.room = s.curbufsz - 1 := by
  rw [room, h, Nat.sub_zero]

/-- Holding back one byte, and giving it back. -/
theorem reserve_one {bits : ℕ} {s : Strbuf} (hbits : 1 < 2 ^ bits) (h : s.reservesz = 0) :
    (mdbv8StrbufReserve bits s 1).reservesz = 1 := by
  have hcast : (2 : ℤ) ^ bits = ((2 ^ bits : ℕ) : ℤ) := by push_cast; rfl
  simp only [mdbv8StrbufReserve, h]
  rw [hcast, Int.emod_eq_of_lt (by norm_num) (by push_cast; omega)]
  rfl

theorem reserve_neg_one {bits : ℕ} {s : Strbuf} (h : s.reservesz = 1) :
    (mdbv8StrbufReserve bits s (-1)).reservesz = 0 := by
  simp [mdbv8StrbufReserve, h]

/-- **A string between quotes.** The second quote has the byte that was held back for it, unless the
first one has not been written either. -/
theorem emits_quoted {bits strflags : ℕ} (hbits : 1 < 2 ^ bits)
    (hjson : strflags &&& msfJson ≠ msfJson) {s s' : Strbuf} {T : List UInt8}
    (hres : s.reservesz = 0)
    (h : strbufSink.Emits T (mdbv8StrbufReserve bits (mdbv8StrbufAppendc s 34 strflags) 1) s')
    (hres' : s'.reservesz = (mdbv8StrbufReserve bits (mdbv8StrbufAppendc s 34 strflags) 1).reservesz) :
    strbufSink.Emits (quotedText strflags true T) s
      (mdbv8StrbufAppendc (mdbv8StrbufReserve bits s' (-1)) 34 strflags) := by
  have hqlen := charBytes_length_of_not_json hjson 34
  set q := charBytes 34 strflags with hq
  set s₁ := mdbv8StrbufAppendc s 34 strflags with hs₁
  set s₃ := mdbv8StrbufReserve bits s' (-1) with hs₃
  have hres₁ : s₁.reservesz = 0 := by
    rw [hs₁, mdbv8StrbufAppendc_eq, sprintf_reservesz, hres]
  have hres₂ := reserve_one hbits hres₁
  rw [hres₂] at hres'
  have hres₃ : s₃.reservesz = 0 := reserve_neg_one hres'
  have hfirst : strbufSink.Emits q s s₁ := emits_appendc strflags s 34
  -- the second quote is emitted behind the byte that has been given back
  have hlast : strbufSink.Emits q s₃ (mdbv8StrbufAppendc s₃ 34 strflags) :=
    emits_appendc strflags s₃ 34
  -- the byte held back is the difference between the room before and after the inner text
  have hroom₂ : (mdbv8StrbufReserve bits s₁ 1).room = s₁.room - 1 := by
    rw [room, hres₂, room_of_reservesz_zero hres₁]
    rfl
  have hroom₃ : s'.room = s₃.room - 1 := by
    rw [room, hres', room_of_reservesz_zero hres₃]
    rfl
  -- if all three have been written, the texts and the rooms add up
  have hwrote : strbufSink.Wrote q s s₁ →
      strbufSink.Wrote T (mdbv8StrbufReserve bits s₁ 1) s' →
      strbufSink.Wrote q s₃ (mdbv8StrbufAppendc s₃ 34 strflags) → 0 < s₁.room → 0 < s₃.room →
      strbufSink.Wrote (quotedText strflags true T) s (mdbv8StrbufAppendc s₃ 34 strflags) := by
    rintro ⟨ht₁, hr₁⟩ ⟨ht₂, hr₂⟩ ⟨ht₃, hr₃⟩ hpos₁ hpos₃
    change s'.room + T.length = (mdbv8StrbufReserve bits s₁ 1).room at hr₂
    change s₁.room + _ = s.room at hr₁
    change (mdbv8StrbufAppendc s₃ 34 strflags).room + _ = s₃.room at hr₃
    rw [show quotedText strflags true T = q ++ T ++ q from rfl]
    refine ⟨?_, ?_⟩
    · have ht₃' : strbufSink.text s₃ = strbufSink.text s' := rfl
      have ht₂' : strbufSink.text (mdbv8StrbufReserve bits s₁ 1) = strbufSink.text s₁ := rfl
      rw [ht₃, ht₃', ht₂, ht₂', ht₁, List.append_assoc, List.append_assoc]
      simp
    · change (mdbv8StrbufAppendc s₃ 34 strflags).room + _ = s.room
      rw [List.length_append, List.length_append]
      omega
  have hslack : strbufSink.slack = 6 := rfl
  -- the text is complete if there is still room, and if there is room for all of it
  refine ⟨fun hroom => ?_, fun hfits => ?_⟩
  · have hw₃ := hlast.of_room hroom
    have hr₃ : (mdbv8StrbufAppendc s₃ 34 strflags).room + q.length = s₃.room := hw₃.2
    change 0 < (mdbv8StrbufAppendc s₃ 34 strflags).room at hroom
    have hw₂ := h.of_room (show 0 < s'.room by omega)
    have hr₂ : s'.room + T.length = (mdbv8StrbufReserve bits s₁ 1).room := hw₂.2
    exact hwrote (hfirst.of_room (show 0 < s₁.room by omega)) hw₂ hw₃ (by omega) (by omega)
  · have hlen : (quotedText strflags true T).length = T.length + 2 := by
      rw [show quotedText strflags true T = q ++ T ++ q from rfl, List.length_append,
        List.length_append]
      omega
    change _ + 6 ≤ s.room at hfits
    have hw₁ := hfirst.of_fits (show q.length + 6 ≤ s.room by omega)
    have hr₁ : s₁.room + q.length = s.room := hw₁.2
    have hw₂ := h.of_fits (show T.length + 6 ≤ (mdbv8StrbufReserve bits s₁ 1).room by omega)
    have hr₂ : s'.room + T.length = (mdbv8StrbufReserve bits s₁ 1).room := hw₂.2
    exact hwrote hw₁ hw₂ (hlast.of_fits (show q.length + 6 ≤ s₃.room by omega)) (by omega) (by omega)

end Strbuf

/-! ### Printing into an output buffer -/

/-- Going from `s` to `s'` prints `T` into a buffer with nothing held back: the text is emitted if the
buffer has a byte left, and the buffer only grows. -/
structure Strbuf.Prints (bits : ℕ) (T : List UInt8) (s s' : Strbuf) : Prop where
  reservesz_eq : s'.reservesz = 0
  grows : s.Grows s'
  emits : s.Sized bits → strbufSink.Emits T s s'

namespace Strbuf.Prints

variable {bits : ℕ}

theorem refl {s : Strbuf} (h : s.reservesz = 0) : Prints bits [] s s :=
  ⟨h, Grows.refl s, fun _ => Sink.Emits.refl s⟩

theorem trans {T₁ T₂ : List UInt8} {s₁ s₂ s₃ : Strbuf} (h₁ : Prints bits T₁ s₁ s₂)
    (h₂ : Prints bits T₂ s₂ s₃) : Prints bits (T₁ ++ T₂) s₁ s₃ :=
  ⟨h₂.reservesz_eq, h₁.grows.trans h₂.grows,
    fun hs => (h₁.emits hs).trans (h₂.emits (hs.of_grows h₁.grows))⟩

theorem sprintf {s : Strbuf} (h : s.reservesz = 0) (T : List UInt8) :
    Prints bits T s (mdbv8StrbufSprintf s T) :=
  ⟨(Strbuf.sprintf_reservesz s T).trans h, grows_sprintf s T, fun _ => emits_sprintf s T⟩

/-- **Laid over an output buffer.** What is printed into the rest of an output buffer is emitted into
the output buffer. If that has no byte left, it stays so. -/
theorem legacyUpdate {o : OutBuf} {T : List UInt8} {s : Strbuf} (h : Prints bits T o.toStrbuf s)
    (ho : o.len ≤ 2 ^ bits) :
    outSink.Emits T o (mdbv8StrbufLegacyUpdate s) ∧ (mdbv8StrbufLegacyUpdate s).len ≤ o.len := by
  have hend := h.grows.end_eq
  have hle := h.grows.curbuf_le
  have hcur : o.toStrbuf.curbufsz = o.len := rfl
  have hlen : (mdbv8StrbufLegacyUpdate s).len = s.curbufsz := rfl
  refine ⟨?_, by omega⟩
  by_cases h0 : o.len = 0
  · refine Sink.Emits.of_full (show o.len - 1 < T.length + outputSlack from ?_) ?_
    · rw [show outputSlack = 6 from rfl]
      omega
    · change (mdbv8StrbufLegacyUpdate s).len - 1 = 0
      omega
  · exact Strbuf.emits_legacyUpdate (h.emits ⟨Nat.pos_of_ne_zero h0, ho⟩) h.reservesz_eq

end Strbuf.Prints

section Print

variable (t : Target)

/-- **Writing a string** prints its text, and returns what comes with it. -/
theorem prints_v8stringWrite {strp : V8String} (hrep : KnownRep t.cfg strp.type) {strflags : ℕ}
    (hjson : strflags &&& msfJson ≠ msfJson) {strb : Strbuf} (hres : strb.reservesz = 0)
    (v8flags : ℕ) :
    (v8stringWrite t strp strb strflags v8flags).1 =
        (stringTextN t (jsstrMaxdepth + 2) strp strflags v8flags).1 ∧
      strb.Prints t.cfg.bits (stringTextN t (jsstrMaxdepth + 2) strp strflags v8flags).2
        (v8stringWrite t strp strb strflags v8flags).2 := by
  have hgrows := (v8stringWrite_grows t hrep strb strflags v8flags).1
  suffices h : EmitsResult t.cfg.bits (stringTextN t (jsstrMaxdepth + 2) strp strflags v8flags) strb
      (v8stringWrite t strp strb strflags v8flags) ∧
        (v8stringWrite t strp strb strflags v8flags).2.reservesz = 0 from
    ⟨h.1.1, h.2, hgrows, h.1.2⟩
  clear hgrows
  have hfuel := enoughFuel_start v8flags
  unfold v8stringWrite
  cases hq : quotedFlag v8flags with
  | false =>
    exact ⟨emits_v8stringWriteN t hjson hfuel hq hrep strb,
      (v8stringWriteN_appends t hfuel hq hrep strb strflags).reservesz_eq.trans hres⟩
  | true =>
    rw [stringTextN]
    -- a string that is too deep is a message without quotes
    by_cases hf : jsstrMaxdepth < jsstrDepth v8flags
    · rw [v8stringWriteN_of_deep t hf, if_pos hf]
      exact ⟨⟨rfl, fun _ => Strbuf.emits_sprintf _ _⟩, (Strbuf.sprintf_reservesz _ _).trans hres⟩
    · rw [if_neg hf, hq]
      -- the text between the quotes is written with one byte held back
      set s₂ := mdbv8StrbufReserve t.cfg.bits (mdbv8StrbufAppendc strb 34 strflags) 1 with hs₂
      have hmax : jsstrMaxdepth = 512 := rfl
      have hq' := quotedFlag_bump_innerFlags t.cfg strp.type v8flags (by omega)
      have hinner := emits_writeRep t hjson hrep s₂ (innerFlags t.cfg strp.type v8flags)
        fun addr part hpart s =>
          ⟨emits_v8stringWriteN t hjson (hfuel.inner hf t.cfg) hq' (knownRep_of_load hpart) s,
            (v8stringWriteN_appends t (hfuel.inner hf t.cfg) hq' (knownRep_of_load hpart) s
              strflags).grows⟩
      have happ := writeRep_inner_appends t strp.type hfuel hf hrep s₂ strflags
      generalize hr : writeRep t (v8stringWriteN t (jsstrMaxdepth + 1)) strp s₂ strflags
        (innerFlags t.cfg strp.type v8flags) = r at hinner happ
      obtain ⟨rv, strb'⟩ := r
      rw [v8stringWriteN_quoted t hf hq _ _ _ hr]
      have hbits : 1 < 2 ^ t.cfg.bits := by
        unfold Config.bits
        cases t.cfg.model <;> decide
      have hres₁ : (mdbv8StrbufAppendc strb 34 strflags).reservesz = 0 := by
        rw [mdbv8StrbufAppendc_eq, Strbuf.sprintf_reservesz, hres]
      have hres' : strb'.reservesz = 1 := happ.reservesz_eq.trans (Strbuf.reserve_one hbits hres₁)
      refine ⟨⟨hinner.1, fun hs => ?_⟩, ?_⟩
      · have hsized : s₂.Sized t.cfg.bits :=
          (hs.of_grows (Strbuf.grows_appendc _ _ _)).of_grows (Strbuf.grows_reserve _ _ _)
        exact Strbuf.emits_quoted hbits hjson hres (hinner.2 hsized) happ.reservesz_eq
      · rw [mdbv8StrbufAppendc_eq, Strbuf.sprintf_reservesz]
        exact Strbuf.reserve_neg_one hres'

/-- What `jsstr_print` and its like pass to `v8string_write` is not JSON. -/
theorem msfAsciionly_ne_json : msfAsciionly &&& msfJson ≠ msfJson := by decide

/-- **Printing a string** emits its text, whatever there is in memory. -/
theorem emits_jsstrPrint (addr flags : ℕ) {o : OutBuf} (ho : o.len ≤ 2 ^ t.cfg.bits) :
    (jsstrPrint t addr flags o).1 = (jsstrText t addr flags).1 ∧
      outSink.Emits (jsstrText t addr flags).2 o (jsstrPrint t addr flags o).2 ∧
      (jsstrPrint t addr flags o).2.len ≤ o.len := by
  unfold jsstrPrint jsstrText
  cases hload : v8stringLoad t addr with
  | none =>
    refine ⟨rfl, Strbuf.Prints.legacyUpdate ⟨(Strbuf.Appends.appends _ _ _).reservesz_eq,
      Strbuf.grows_appends _ _ _, fun _ => ?_⟩ ho⟩
    exact Sink.Emits.foldl (fun s b => emits_appendc flags s (charToUint16 b)) _ _
  | some strp =>
    obtain ⟨hrv, hprints⟩ := prints_v8stringWrite t (knownRep_of_load hload) msfAsciionly_ne_json
      (show o.toStrbuf.reservesz = 0 from rfl) flags
    exact ⟨hrv, hprints.legacyUpdate ho⟩

end Print

/-! ### Trees -/

section Tree

variable (t : Target)

/-- The text of a part of a sequential string that can be read. -/
theorem seqText_of_reads {strp : V8String} {v8flags off : ℕ} {len : ℤ} {ascii : Bool}
    (hascii : (v8flags &&& jsstrIsascii != 0) = ascii) {o n : ℕ}
    (hslice : sliceOf t strp.len off len = (o, n)) {cs : List ℕ}
    (hread : ReadsChars t strp.addr ascii o n cs) (strflags : ℕ) :
    seqText t strp strflags v8flags off len = charsText strflags cs := by
  obtain ⟨bs, hbs, rfl⟩ := hread
  unfold seqText
  simp only [hascii, hslice]
  exact restText_of_read hbs (le_refl n)

/-- The text of a tree is that of its leaves. The induction is on the tree, as in `writeRep_tree`. -/
theorem repText_tree {addr d : ℕ} {leaves : List (List ℕ)} (h : StringTree t addr d leaves)
    {strp : V8String} (hload : v8stringLoad t addr = some strp) {f fuel : ℕ}
    (hdepth : jsstrDepth f + 2 * d ≤ jsstrMaxdepth) (hfuel : d ≤ fuel) (strflags : ℕ) :
    repText t (stringTextN t fuel) strp strflags (innerFlags t.cfg strp.type f) =
      (0, charsText strflags leaves.flatten) := by
  have hmax : jsstrMaxdepth = 512 := rfl
  induction h generalizing strp f fuel with
  | @seq addr strp' cs hload' hseq hread =>
    -- a leaf is one text
    obtain rfl : strp' = strp := Option.some.inj (hload'.symm.trans hload)
    have hascii := ascii_innerFlags t.cfg strp'.type f (by omega)
    rw [← (v8stringLoad_spec hload).1] at hread
    unfold repText
    rw [if_pos hseq, seqText_of_reads t hascii (sliceOf_all t _) hread strflags, List.flatten_singleton]
  | @sliced addr strp' pstrp cs hload' hseq hcons hext hsliced hparent hpseq henc hle hread =>
    -- so is a slice of one
    obtain rfl : strp' = strp := Option.some.inj (hload'.symm.trans hload)
    have hd := jsstrDepth_innerFlags t.cfg strp'.type f (by omega)
    have hascii : (jsstrBumpdepth (innerFlags t.cfg strp'.type f) &&& jsstrIsascii != 0) =
        t.cfg.strencAscii strp'.type := by
      rw [jsstrBumpdepth_and _ (by decide) (by omega)]
      exact ascii_innerFlags t.cfg strp'.type f (by omega)
    obtain ⟨haddr, hlt⟩ := v8stringLoad_spec hparent
    rw [← haddr] at hread
    have htext := seqText_of_reads t hascii (sliceOf_of_le t hle hlt) hread strflags
    unfold repText slicedText
    simp only [hseq, hcons, hext, hparent, hpseq, Bool.false_eq_true, if_false, Bool.not_true, htext,
      List.flatten_singleton]
  | @cons addr d₁ d₂ strp' ls₁ ls₂ hload' hseq hcons h₁ h₂ ih₁ ih₂ =>
    -- a concatenation is the texts of its parts, by the induction hypotheses
    obtain rfl : strp' = strp := Option.some.inj (hload'.symm.trans hload)
    have hd := jsstrDepth_innerFlags t.cfg strp'.type f (by omega)
    have hbump := jsstrDepth_bump (innerFlags t.cfg strp'.type f) (by omega)
    have hq := quotedFlag_bump_innerFlags t.cfg strp'.type f (by omega)
    obtain ⟨fuel, rfl⟩ : ∃ k, fuel = k + 1 := ⟨fuel - 1, by omega⟩
    obtain ⟨str1p, hload₁⟩ := h₁.exists_load
    obtain ⟨str2p, hload₂⟩ := h₂.exists_load
    -- a part is not quoted, and not too deep
    have hpart : ∀ part, stringTextN t (fuel + 1) part strflags
        (jsstrBumpdepth (innerFlags t.cfg strp'.type f)) =
        repText t (stringTextN t fuel) part strflags
          (innerFlags t.cfg part.type (jsstrBumpdepth (innerFlags t.cfg strp'.type f))) := by
      intro part
      rw [stringTextN, if_neg (by omega), hq]
      rfl
    unfold repText consText
    simp only [hseq, hcons, hload₁, hload₂, Bool.false_eq_true, if_false, if_true, hpart]
    rw [ih₁ hload₁ (by omega) (by omega), ih₂ hload₂ (by omega) (by omega)]
    simp only [if_true, List.flatten_append, charsText_append]

/-- **The text of a string that can be read**: its characters, between quotes if these were asked
for. -/
theorem jsstrText_tree {addr d : ℕ} {leaves : List (List ℕ)} (h : StringTree t addr d leaves)
    {flags : ℕ} (hdepth : jsstrDepth flags + 2 * d ≤ jsstrMaxdepth) :
    jsstrText t addr flags =
      (0, quotedText msfAsciionly (quotedFlag flags) (charsText msfAsciionly leaves.flatten)) := by
  obtain ⟨strp, hload⟩ := h.exists_load
  have hmax : jsstrMaxdepth = 512 := rfl
  unfold jsstrText
  simp only [hload]
  rw [stringTextN, if_neg (by omega), repText_tree t h hload hdepth (by omega)]

end Tree

end MdbV8
