import MdbV8.Strings.Tree

/-!
# Printing a string emits its text

Outside JSON every character takes one byte, and a string that is cut off leaves no room in the
buffer. So writing a string *emits* a text: the one that it would have in a buffer that is large
enough. This is true of any string in any memory. The text of a string that cannot be read, or that
is not a string at all, is the message that the module prints in its place.

`jsstrText` is the text that `jsstrPrint` emits (`emits_jsstrPrint`).
-/

namespace MdbV8

open Lib

/-! ### Characters -/

theorem emits_appendc (strflags : ℕ) (s : Strbuf) (c : ℕ) :
    strbufSink.Emits (charBytes c strflags) s (mdbv8StrbufAppendc s c strflags) := by
  rw [mdbv8StrbufAppendc_eq]
  exact Strbuf.emits_sprintf s _

section Chars

variable {strflags : ℕ} (hjson : strflags &&& msfJson ≠ msfJson)

include hjson

theorem outBytes_of_not_json (cs : List ℕ) : outBytes strflags cs = cs.length := by
  induction cs with
  | nil => rfl
  | cons c cs ih =>
    rw [outBytes_cons, mdbv8StrbufNbytesforchar_of_not_json hjson, ih, List.length_cons,
      Nat.add_comm]

theorem charsText_length_of_not_json (cs : List ℕ) :
    (charsText strflags cs).length = cs.length := by
  induction cs with
  | nil => rfl
  | cons c cs ih =>
    rw [charsText_cons, List.length_append, charBytes_length_of_not_json hjson, ih,
      List.length_cons, Nat.add_comm]

/-- A character for which there is room is stored. -/
theorem wrote_appendc {s : Strbuf} (c : ℕ) (hroom : 1 ≤ s.room) :
    strbufSink.Wrote (charBytes c strflags) s (mdbv8StrbufAppendc s c strflags) := by
  rw [mdbv8StrbufAppendc_eq]
  refine Strbuf.wrote_sprintf s _ ?_
  rwa [charBytes_length_of_not_json hjson]

/-- What the loop over a chunk adds to the buffer, by how it ends. -/
theorem chunkOut_spec {bits : ℕ} (last : Bool) (cs : List ℕ) {s : Strbuf} (hs : s.Sized bits) :
    match chunkOut bits strflags last cs s with
    | (.complete, _, s') => strbufSink.Wrote (charsText strflags cs) s s'
    | (.cut, _, s') => s'.room = 0 ∧ s.room < cs.length
    | (.again, n, s') =>
      strbufSink.Wrote (charsText strflags (cs.take n)) s s' ∧ n < cs.length ∧
        cs.length ≤ s.room ∧ s'.room ≤ 5 := by
  induction cs generalizing s with
  | nil => exact Sink.Wrote.refl s
  | cons c cs ih =>
    have hout : outBytes strflags (c :: cs) = cs.length + 1 := by
      rw [outBytes_of_not_json hjson, List.length_cons]
    have hndiff : NoDanger strflags s.room c ↔ 6 ≤ s.room := by
      unfold NoDanger
      rw [mdbv8StrbufNbytesforchar_of_not_json hjson c]
      exact Iff.rfl
    have ihs := ih (hs.of_grows (Strbuf.grows_appendc s c strflags))
    -- the character is written, and the induction hypothesis speaks of the rest
    have hgo : 1 ≤ s.room →
        match chunkOut bits strflags last cs (mdbv8StrbufAppendc s c strflags) with
        | (.complete, _, s') => strbufSink.Wrote (charsText strflags (c :: cs)) s s'
        | (.cut, _, s') => s'.room = 0 ∧ s.room < cs.length + 1
        | (.again, n, s') =>
          strbufSink.Wrote (charsText strflags ((c :: cs).take (n + 1))) s s' ∧
            n + 1 < cs.length + 1 ∧ cs.length + 1 ≤ s.room ∧ s'.room ≤ 5 := by
      intro hpos
      have hwrote := wrote_appendc hjson c hpos
      have hroom : (mdbv8StrbufAppendc s c strflags).room + 1 = s.room := by
        have := hwrote.2
        rwa [charBytes_length_of_not_json hjson c] at this
      generalize chunkOut bits strflags last cs (mdbv8StrbufAppendc s c strflags) = r at ihs
      obtain ⟨e, n, s'⟩ := r
      cases e with
      | complete =>
        rw [charsText_cons]
        exact hwrote.trans ihs
      | cut =>
        obtain ⟨h0, hlen⟩ := ihs
        exact ⟨h0, by omega⟩
      | again =>
        obtain ⟨htail, hn, hfit, h5⟩ := ihs
        refine ⟨?_, by omega, by omega, h5⟩
        rw [List.take_succ_cons, charsText_cons]
        exact hwrote.trans htail
    rw [chunkOut, hs.bytesleft_eq, sizecheckOf]
    -- there is no danger, or the size check has to look at the rest
    by_cases hnd : NoDanger strflags s.room c
    · simp only [if_pos hnd]
      have h := hgo (by rw [hndiff] at hnd; omega)
      generalize chunkOut bits strflags last cs (mdbv8StrbufAppendc s c strflags) = r at h
      obtain ⟨e, n, s'⟩ := r
      cases e <;> exact h
    · by_cases hcut : s.room < outBytes strflags (c :: cs)
      · -- the marker takes up what is left
        simp only [if_neg hnd, if_pos hcut]
        rw [hndiff] at hnd
        refine ⟨?_, by rw [List.length_cons]; omega⟩
        rw [Strbuf.appends_eq_foldl, (Strbuf.foldl_sprintf_text _ s).2, marker_flatMap,
          show v8sTruncateMarker.length = 5 from rfl]
        omega
      · simp only [if_neg hnd, if_neg hcut]
        rw [hndiff] at hnd
        cases last with
        | true =>
          simp only [if_true]
          have h := hgo (by omega)
          generalize chunkOut bits strflags true cs (mdbv8StrbufAppendc s c strflags) = r at h
          obtain ⟨e, n, s'⟩ := r
          cases e <;> exact h
        | false =>
          simp only [Bool.false_eq_true, if_false]
          exact ⟨Sink.Wrote.refl s, Nat.succ_pos _, by rw [List.length_cons]; omega, by omega⟩

end Chars

/-! ### The rest of a sequential string -/

/-- What `v8string_write_seq` prints in the place of characters that cannot be read. -/
def failedToRead : List UInt8 := bytesOf "<string (failed to read data)>"

/-- What `v8string_write_ext` prints in the place of characters that do not look like text. -/
def contentsInvalid : List UInt8 := bytesOf "<string (contents looks invalid)>"

/-- The text of what is left of a sequential string: its characters, chunk by chunk, up to a chunk
that cannot be read. `check` says that the first character is still to be checked. -/
def restText (t : Target) (strflags : ℕ) (ascii : Bool) (charsp : ℕ) :
    ℕ → Bool → ℕ → ℕ → List UInt8
  | 0, _, _, _ => []
  | fuel + 1, check, readoff, remaining =>
    if remaining = 0 then []
    else
      let nbytes := min chunkSize (bytesPerChar ascii * remaining)
      match t.mdbVread nbytes (t.cfg.add charsp readoff) with
      | none => failedToRead
      | some chunk =>
        if check && (chunk.getD 0 0 != 0 && !isascii (chunk.getD 0 0).toNat) then contentsInvalid
        else
          charsText strflags (decodeChars ascii chunk) ++
            restText t strflags ascii charsp fuel false (readoff + nbytes)
              (remaining - nbytes / bytesPerChar ascii)

theorem failedToRead_length : failedToRead.length = 30 := by decide

section Rest

variable (t : Target) {strflags : ℕ} {ascii : Bool} {charsp : ℕ}

@[simp] theorem restText_zero (fuel : ℕ) (check : Bool) (readoff : ℕ) :
    restText t strflags ascii charsp fuel check readoff 0 = [] := by
  cases fuel <;> simp [restText]

/-- The number of characters in a chunk. -/
theorem chunkChars_spec (remaining : ℕ) :
    ∃ n, min chunkSize (bytesPerChar ascii * remaining) = bytesPerChar ascii * n ∧ n ≤ remaining ∧
      (0 < remaining → 0 < n) := by
  have hsize : chunkSize = 8192 := rfl
  cases ascii with
  | true => exact ⟨min chunkSize remaining, by simp [bytesPerChar], min_le_right _ _, by omega⟩
  | false =>
    refine ⟨min (chunkSize / 2) remaining, ?_, min_le_right _ _, by omega⟩
    simp only [bytesPerChar, Bool.false_eq_true, if_false]
    omega

end Rest

/-- The text of a string that can be read is that of its characters. The induction is on the fuel, a
chunk at a time. -/
theorem restText_of_read {t : Target} {strflags : ℕ} {ascii : Bool} {charsp fuel readoff remaining : ℕ}
    {bs : List UInt8}
    (h : t.mdbVread (bytesPerChar ascii * remaining) (t.cfg.add charsp readoff) = some bs)
    (hfuel : remaining ≤ fuel) :
    restText t strflags ascii charsp fuel false readoff remaining =
      charsText strflags (decodeChars ascii bs) := by
  have hlen := Target.mdbVread_length h
  induction fuel generalizing readoff remaining bs with
  | zero =>
    obtain rfl : remaining = 0 := by omega
    obtain rfl : bs = [] := List.eq_nil_of_length_eq_zero hlen
    rw [restText_zero, decodeChars_nil, charsText_nil]
  | succ fuel ih =>
    by_cases h0 : remaining = 0
    · subst h0
      obtain rfl : bs = [] := List.eq_nil_of_length_eq_zero hlen
      rw [restText_zero, decodeChars_nil, charsText_nil]
    · obtain ⟨n, hn, hle, hpos⟩ := @chunkChars_spec ascii remaining
      have hdiv : bytesPerChar ascii * n / bytesPerChar ascii = n :=
        Nat.mul_div_cancel_left _ (bytesPerChar_pos ascii)
      have hmul : bytesPerChar ascii * n + bytesPerChar ascii * (remaining - n) =
          bytesPerChar ascii * remaining := by
        rw [← Nat.mul_add, Nat.add_sub_cancel' hle]
      -- what is read is the beginning of what can be read at once
      have hchunk := Target.mdbVread_sub h
        (show 0 + bytesPerChar ascii * n ≤ bytesPerChar ascii * remaining by omega)
      rw [Nat.add_zero, List.drop_zero] at hchunk
      rw [restText, if_neg h0, hn]
      simp only [hchunk, hdiv, Bool.false_and, Bool.false_eq_true, if_false]
      have hdec := decodeChars_take ascii bs n (by omega)
      have hdrop := decodeChars_drop ascii bs n (by omega)
      rw [hdec]
      conv_rhs => rw [← List.take_append_drop n (decodeChars ascii bs), charsText_append, ← hdrop]
      congr 1
      by_cases hall : n = remaining
      · -- that was the last chunk
        rw [show remaining - n = 0 by omega, restText_zero, List.drop_of_length_le (by
          rw [hlen, hall]), decodeChars_nil, charsText_nil]
      · -- there is more behind this chunk, for the induction hypothesis
        have hfit := (Target.mdbVread_eq_some_iff.mp h).1
        have hbig : 0 < bytesPerChar ascii * (remaining - n) :=
          Nat.mul_pos (bytesPerChar_pos ascii) (by omega)
        have haddr : t.cfg.add charsp (readoff + bytesPerChar ascii * n : ℕ) =
            t.cfg.add charsp readoff + bytesPerChar ascii * n := by
          rw [Config.add_natCast] at hfit ⊢
          rw [Config.add_natCast, ← Nat.add_assoc, ← Nat.mod_add_mod]
          exact Nat.mod_eq_of_lt (by omega)
        have hrest := Target.mdbVread_sub h (show bytesPerChar ascii * n +
          bytesPerChar ascii * (remaining - n) ≤ bytesPerChar ascii * remaining by omega)
        rw [List.take_of_length_le (by rw [List.length_drop]; omega), ← haddr] at hrest
        exact ih hrest (by have := hpos (by omega); omega) (Target.mdbVread_length hrest)

namespace V8StringWrite

variable (t : Target) {w : V8StringWrite}

/-- The text of what a writer has still to write. -/
def text (w : V8StringWrite) (t : Target) (fuel : ℕ) : List UInt8 :=
  restText t w.strflags w.ascii w.charsp fuel w.asciicheck w.readoff w.remaining

/-- A writer that is done writes nothing more. -/
theorem writeChunks_done (fuel : ℕ) (hd : w.done = true) :
    v8stringWriteChunks t fuel w = (0, w.strb) := by
  cases fuel <;> simp [v8stringWriteChunks, hd]

/-- The end of the buffer, at the start of a chunk: where no more than five bytes are left, either
the rest of the string can be read and is written, or nothing more fits. -/
theorem Wf.writeChunks_small {fuel : ℕ} (hw : w.Wf) (hjson : w.strflags &&& msfJson ≠ msfJson)
    (hs : w.strb.Sized t.cfg.bits) (hd : w.done = false) (hcheck : w.asciicheck = false)
    (h5 : w.strb.room ≤ 5) :
    (∃ bs, w.Readable t bs ∧ strbufSink.Wrote (charsText w.strflags (decodeChars w.ascii bs)) w.strb
        (v8stringWriteChunks t (fuel + 1) w).2) ∨
      (v8stringWriteChunks t (fuel + 1) w).2.room = 0 := by
  have hinv : ∀ chunk, w.looksInvalid chunk = false := fun chunk => by simp [looksInvalid, hcheck]
  have hle := hw.chunkChars_le
  rw [v8stringWriteChunks, if_neg (by simp [hd])]
  cases hread : t.mdbVread w.chunkBytes (w.chunkAddr t) with
  | none =>
    -- the message does not fit
    right
    rw [V8StringWrite.seqChunk_eq, hread]
    simp only [ne_eq, not_true, if_false]
    rw [writeChunks_done t fuel rfl]
    change (mdbv8StrbufSprintf w.strb failedToRead).room = 0
    rw [Strbuf.sprintf_room, failedToRead_length]
    omega
  | some chunk =>
    have hdec := length_decodeChars (Target.mdbVread_length hread)
    have hspec := chunkOut_spec hjson w.lastChunk (decodeChars w.ascii chunk) hs
    have hcomplete := chunkOut_complete t.cfg.bits w.strflags w.lastChunk (decodeChars w.ascii chunk)
      w.strb
    have hne := chunkOut_last_ne_again t.cfg.bits w.strflags (decodeChars w.ascii chunk) w.strb
    rw [hw.seqChunk_of_some t hread (hinv chunk) rfl]
    simp only [ne_eq, not_true, if_false]
    generalize hr : chunkOut t.cfg.bits w.strflags w.lastChunk (decodeChars w.ascii chunk) w.strb = r
      at hspec hcomplete
    obtain ⟨e, n, s⟩ := r
    cases hl : w.lastChunk with
    | false =>
      -- a full chunk is longer than what is left
      have hfull := (hw.chunkChars_of_not_last hl).1
      right
      cases e with
      | cut =>
        rw [writeChunks_done t fuel rfl]
        exact hspec.1
      | complete =>
        have hroom := hspec.2
        rw [charsText_length_of_not_json hjson, hdec] at hroom
        change s.room + _ = w.strb.room at hroom
        omega
      | again =>
        have hfit := hspec.2.2.1
        omega
    | true =>
      cases e with
      | cut =>
        right
        rw [writeChunks_done t fuel rfl]
        exact hspec.1
      | again =>
        rw [hl] at hr
        exact absurd (by rw [hr]) hne
      | complete =>
        -- the last chunk is all that was left
        have hcc := hw.chunkChars_of_last hl
        have hn : n = w.remaining := (hcomplete rfl).trans (hdec.trans hcc)
        have hslice : w.remaining = w.slicelen - w.nreadchars := rfl
        have hlen := hw.le
        rw [lastChunk_eq_true hl] at hread
        refine .inl ⟨chunk, hread, ?_⟩
        rw [writeChunks_done t fuel (if_pos (show w.nreadchars + n = w.slicelen by omega))]
        exact hspec

/-- What has been read up to somewhere in a chunk and what can be read from there on make the whole
rest of the string. -/
theorem Wf.readable_again (hw : w.Wf) {chunk : List UInt8}
    (hread : t.mdbVread w.chunkBytes (w.chunkAddr t) = some chunk) {n : ℕ} (hn : n < w.chunkChars)
    {w' : V8StringWrite} (hinb : w'.inbytesperchar = w.inbytesperchar)
    (hcharsp : w'.charsp = w.charsp) (hreadoff : w'.readoff = w.readoff + w.inbytesperchar * n)
    (hrem : w'.remaining = w.remaining - n) {bs : List UInt8} (hbs : w'.Readable t bs) :
    t.mdbVread (bytesPerChar w.ascii * w.remaining) (w.chunkAddr t) =
      some (chunk.take (bytesPerChar w.ascii * n) ++ bs) := by
  have hmul := hw.mul_chunkChars
  have hle := hw.chunkChars_le
  have hfit := (Target.mdbVread_eq_some_iff.mp hread).1
  have hlt : bytesPerChar w.ascii * n < bytesPerChar w.ascii * w.chunkChars :=
    Nat.mul_lt_mul_of_pos_left hn (bytesPerChar_pos _)
  -- the address of the rest is inside the chunk, so it does not wrap
  have haddr : w'.chunkAddr t = w.chunkAddr t + bytesPerChar w.ascii * n := by
    unfold chunkAddr at hfit ⊢
    rw [hcharsp, hreadoff, hw.inb_eq]
    rw [Config.add_natCast] at hfit ⊢
    rw [Config.add_natCast, ← Nat.add_assoc, ← Nat.mod_add_mod]
    exact Nat.mod_eq_of_lt (by omega)
  unfold Readable at hbs
  rw [hinb, hw.inb_eq, hrem, haddr] at hbs
  have hfront := Target.mdbVread_sub hread
    (show 0 + bytesPerChar w.ascii * n ≤ w.chunkBytes by omega)
  rw [Nat.add_zero, List.drop_zero] at hfront
  have hall := Target.mdbVread_append hfront hbs
  rwa [← Nat.mul_add, Nat.add_sub_cancel' (by omega)] at hall

/-- **A writer emits the text of what it has still to write.** The induction is on the fuel. Where a
chunk leaves the question open whether the string fits, what is left is read again, which is the case
of `Wf.writeChunks_small`. -/
theorem Wf.emits_writeChunks {fuel : ℕ} (hw : w.Wf) (hjson : w.strflags &&& msfJson ≠ msfJson)
    (hs : w.strb.Sized t.cfg.bits) (hdone : w.remaining = 0 → w.done = true)
    (hundone : 0 < w.remaining → w.done = false) (hfuel : w.remaining ≤ fuel) :
    strbufSink.Emits (w.text t fuel) w.strb (v8stringWriteChunks t fuel w).2 := by
  induction fuel generalizing w with
  | zero =>
    -- without fuel there is nothing left to write
    rw [v8stringWriteChunks, if_pos (hdone (by omega))]
    exact Sink.Emits.refl _
  | succ fuel ih =>
    cases hd : w.done with
    | true =>
      have h0 : w.remaining = 0 := by
        by_contra hne
        rw [hundone (by omega)] at hd
        exact absurd hd (by simp)
      rw [v8stringWriteChunks, if_pos hd, text, h0, restText_zero]
      exact Sink.Emits.refl _
    | false =>
      have hpos := hw.remaining_pos hd
      have hle := hw.chunkChars_le
      have hmul := hw.mul_chunkChars
      have hbytes : min chunkSize (bytesPerChar w.ascii * w.remaining) = w.chunkBytes := by
        rw [chunkBytes, hw.chunksz_eq, hw.inb_eq]
      have hslice : w.remaining = w.slicelen - w.nreadchars := rfl
      have hlen := hw.le
      -- both sides read the next chunk
      rw [v8stringWriteChunks, if_neg (by simp [hd]), text, restText, if_neg (by omega)]
      simp only [hbytes]
      rw [show t.cfg.add w.charsp w.readoff = w.chunkAddr t from rfl,
        show w.chunkBytes / bytesPerChar w.ascii = w.chunkChars from rfl]
      cases hread : t.mdbVread w.chunkBytes (w.chunkAddr t) with
      | none =>
        -- a read that fails leaves a message
        rw [V8StringWrite.seqChunk_eq, hread]
        simp only [ne_eq, not_true, if_false]
        rw [writeChunks_done t fuel rfl]
        exact Strbuf.emits_sprintf _ _
      | some chunk =>
        dsimp only
        cases hinv : w.looksInvalid chunk with
        | true =>
          -- so does a chunk that looks invalid
          rw [V8StringWrite.seqChunk_eq, hread]
          simp only [hinv, if_true, ne_eq, not_true, if_false]
          rw [writeChunks_done t fuel rfl, if_pos (show (w.asciicheck && (chunk.getD 0 0 != 0 &&
            !isascii (chunk.getD 0 0).toNat)) = true from hinv)]
          exact Strbuf.emits_sprintf _ _
        | false =>
          rw [if_neg (show ¬ (w.asciicheck && (chunk.getD 0 0 != 0 &&
            !isascii (chunk.getD 0 0).toNat)) = true by rw [Bool.not_eq_true]; exact hinv)]
          have hdec := length_decodeChars (Target.mdbVread_length hread)
          -- what the loop over the chunk adds, and what it leaves behind
          have hspec := chunkOut_spec hjson w.lastChunk (decodeChars w.ascii chunk) hs
          have hcomplete := chunkOut_complete t.cfg.bits w.strflags w.lastChunk
            (decodeChars w.ascii chunk) w.strb
          have hgrows := (chunkOut_appends t.cfg.bits w.strflags w.lastChunk
            (decodeChars w.ascii chunk) w.strb).grows
          have hwf := hw.seqChunk t hd
          have hne := chunkOut_last_ne_again t.cfg.bits w.strflags (decodeChars w.ascii chunk) w.strb
          rw [hw.seqChunk_of_some t hread hinv rfl] at hwf ⊢
          simp only [ne_eq, not_true, if_false]
          generalize hr : chunkOut t.cfg.bits w.strflags w.lastChunk (decodeChars w.ascii chunk)
            w.strb = r at hspec hcomplete hgrows hwf
          obtain ⟨e, n, s⟩ := r
          dsimp only at hcomplete hgrows hwf ⊢
          -- where no room is left, the characters of this chunk alone did not easily fit
          have hfull : ∀ s' : Strbuf, s'.room = 0 →
              w.strb.room < (decodeChars w.ascii chunk).length + outputSlack → strbufSink.Emits
                (charsText w.strflags (decodeChars w.ascii chunk) ++
                  restText t w.strflags w.ascii w.charsp fuel false (w.readoff + w.chunkBytes)
                    (w.remaining - w.chunkChars)) w.strb s' := by
            intro s' hs' hshort
            refine Sink.Emits.of_full (show w.strb.room < _ + outputSlack from ?_) hs'
            rw [List.length_append, charsText_length_of_not_json hjson]
            omega
          cases e with
          | cut =>
            -- the marker has used up the room
            obtain ⟨h0, hlt⟩ := hspec
            rw [writeChunks_done t fuel rfl]
            exact hfull s h0 (by omega)
          | complete =>
            -- the chunk has been written, and the induction hypothesis is for the next one
            have hn : n = w.chunkChars := (hcomplete rfl).trans hdec
            set w' := (w.reading chunk).afterSeqChunk .complete n s with hw'
            have hrem : w'.remaining = w.remaining - w.chunkChars := by
              rw [← hn]
              exact Nat.sub_add_eq _ _ _
            have hdone' : w'.remaining = 0 → w'.done = true := fun h0 =>
              if_pos (show w.nreadchars + n = w.slicelen by omega)
            have hundone' : 0 < w'.remaining → w'.done = false := fun h0 =>
              (if_neg (show w.nreadchars + n ≠ w.slicelen by omega)).trans hd
            have hchars := hw.chunkChars_pos hd
            have htail := ih hwf.2.1 hjson (hs.of_grows hgrows) hdone' hundone' (by omega)
            have htext : w'.text t fuel = restText t w.strflags w.ascii w.charsp fuel false
                (w.readoff + w.chunkBytes) (w.remaining - w.chunkChars) := by
              rw [text, hrem, ← hmul, ← hw.inb_eq, ← hn]
              rfl
            rw [htext] at htail
            exact hspec.emits.trans htail
          | again =>
            -- the chunk ends early, and the rest is read once more from its first character on
            obtain ⟨hwrote, hn, hfit, h5⟩ := hspec
            have hl : w.lastChunk = false := by
              by_contra hl
              rw [Bool.not_eq_false] at hl
              rw [hl] at hr
              exact hne (by rw [hr])
            -- this is not the last chunk, and what is left has room in the buffer or does not
            have hmore := (hw.chunkChars_of_not_last hl).2
            set w' := (w.reading chunk).afterSeqChunk .again n s with hw'
            have hrem : w'.remaining = w.remaining - n := Nat.sub_add_eq _ _ _
            obtain ⟨fuel, rfl⟩ : ∃ f, fuel = f + 1 := ⟨fuel - 1, by omega⟩
            have hroom := hwrote.2
            rw [charsText_length_of_not_json hjson, List.length_take, min_eq_left hn.le] at hroom
            change s.room + n = w.strb.room at hroom
            rcases @Wf.writeChunks_small t _ fuel hwf.2.1 hjson (hs.of_grows hgrows) hd rfl h5 with
              ⟨bs, hbs, hrest⟩ | h0
            · -- the string could have been read in one piece
              have hall := hw.readable_again t hread (by omega) (show w'.inbytesperchar = _ from rfl)
                rfl rfl hrem hbs
              -- both readings are of the same text
              have hone : restText t w.strflags w.ascii w.charsp (fuel + 1 + 1) false w.readoff
                  w.remaining = charsText w.strflags (decodeChars w.ascii chunk) ++
                    restText t w.strflags w.ascii w.charsp (fuel + 1) false (w.readoff + w.chunkBytes)
                      (w.remaining - w.chunkChars) := by
                rw [restText, if_neg (by omega)]
                simp only [hbytes]
                rw [show t.cfg.add w.charsp w.readoff = w.chunkAddr t from rfl, hread]
                rfl
              have hbytesle : bytesPerChar w.ascii * n ≤ chunk.length := by
                rw [Target.mdbVread_length hread, ← hmul]
                exact Nat.mul_le_mul_left _ (by omega)
              rw [← hone, restText_of_read hall hfuel, decodeChars_append _ _ _
                ⟨n, by rw [List.length_take, min_eq_left hbytesle]⟩, decodeChars_take _ _ _ hbytesle,
                charsText_append]
              exact (hwrote.trans hrest).emits
            · exact hfull _ h0 (by rw [show outputSlack = 6 from rfl]; omega)

end V8StringWrite

end MdbV8
