import MdbV8.Strings.Write

/-!
# Sequential strings that can be read

When all the characters of a sequential string can be read, it makes no difference that they are
read in chunks: the writer does what it would do if the whole string were the last chunk
(`leafOut`). What that adds to the buffer is a function of the characters and of the bytes left:

* a character is written where the truncation marker would still fit after it, or where all the rest
  of the string fits;
* where neither is so, as much of the marker is written as fits, and the rest of the string is
  dropped.

`leafText` is that function.
-/

namespace MdbV8

/-! ### No chunks -/

/-- Writing the characters of a sequential string in one chunk. -/
def leafOut (bits strflags : ℕ) (cs : List ℕ) (s : Strbuf) : Strbuf :=
  (chunkOut bits strflags true cs s).2.2

section ChunkOut

variable (bits strflags : ℕ)

/-- A chunk that is not the last one is written as a part of the string that it begins. -/
theorem leafOut_append (cs ds : List ℕ) (s : Strbuf) :
    leafOut bits strflags (cs ++ ds) s =
      match chunkOut bits strflags false cs s with
      | (.complete, _, s') => leafOut bits strflags ds s'
      | (.cut, _, s') => s'
      | (.again, n, s') => leafOut bits strflags (cs.drop n ++ ds) s' := by
  unfold leafOut
  induction cs generalizing s with
  | nil => rfl
  | cons c cs ih =>
    rw [List.cons_append, chunkOut, chunkOut]
    generalize hleft : mdbv8StrbufBytesleft bits s = left
    have hfold : outBytes strflags (c :: (cs ++ ds)) =
        outBytes strflags (c :: cs) + outBytes strflags ds := outBytes_append strflags (c :: cs) ds
    unfold sizecheckOf
    by_cases hnd : NoDanger strflags left c
    · -- the marker would still fit, whatever follows
      simp only [if_pos hnd]
      rw [ih]
      generalize chunkOut bits strflags false cs (mdbv8StrbufAppendc s c strflags) = r
      obtain ⟨e, n, s'⟩ := r
      cases e <;> rfl
    · by_cases hout : left < outBytes strflags (c :: cs)
      · -- too long already without the rest
        have hout' : left < outBytes strflags (c :: (cs ++ ds)) := by omega
        simp only [if_neg hnd, if_pos hout, if_pos hout']
      · simp only [if_neg hnd, if_neg hout, Bool.false_eq_true, if_false, List.drop_zero]
        rw [List.cons_append, chunkOut, hleft]
        simp only [sizecheckOf, if_neg hnd]

end ChunkOut

namespace V8StringWrite

variable {t : Target} {w : V8StringWrite}

/-- What is left of the string can be read, and its bytes are `bs`. -/
def Readable (t : Target) (w : V8StringWrite) (bs : List UInt8) : Prop :=
  t.mdbVread (w.inbytesperchar * w.remaining) (w.chunkAddr t) = some bs

/-- After some characters, the rest of the string can still be read. -/
theorem Readable.advance {bs : List UInt8} (h : w.Readable t bs) {n : ℕ} (hn : n < w.remaining)
    (w' : V8StringWrite) (hinb : w'.inbytesperchar = w.inbytesperchar)
    (hcharsp : w'.charsp = w.charsp) (hpos : 0 < w.inbytesperchar)
    (hreadoff : w'.readoff = w.readoff + w.inbytesperchar * n)
    (hrem : w'.remaining = w.remaining - n) :
    w'.Readable t (bs.drop (w.inbytesperchar * n)) := by
  have hlen := Target.mdbVread_length h
  have hfit := (Target.mdbVread_eq_some_iff.mp h).1
  have hmul : w.inbytesperchar * n + w.inbytesperchar * (w.remaining - n) =
      w.inbytesperchar * w.remaining := by
    rw [← Nat.mul_add]
    congr 1
    omega
  have hlt : w.inbytesperchar * n < w.inbytesperchar * w.remaining :=
    Nat.mul_lt_mul_of_pos_left hn hpos
  -- the address of the rest is inside the address space, so it does not wrap
  have haddr : w'.chunkAddr t = w.chunkAddr t + w.inbytesperchar * n := by
    unfold chunkAddr at hfit ⊢
    rw [hcharsp, hreadoff]
    rw [Config.add_natCast] at hfit ⊢
    rw [Config.add_natCast, ← Nat.add_assoc, ← Nat.mod_add_mod]
    exact Nat.mod_eq_of_lt (by omega)
  unfold Readable
  rw [hinb, hrem, haddr]
  have hsub := Target.mdbVread_sub h (show w.inbytesperchar * n +
    w.inbytesperchar * (w.remaining - n) ≤ w.inbytesperchar * w.remaining by omega)
  rwa [List.take_of_length_le (by rw [List.length_drop]; omega)] at hsub

/-- **No chunks.** A string that can be read is written as in one chunk. -/
theorem Wf.writeChunks_eq {fuel : ℕ} (hw : w.Wf) (hfuel : w.remaining ≤ fuel)
    (hcheck : w.asciicheck = false) (hdone : w.remaining = 0 → w.done = true)
    {bs : List UInt8} (h : w.Readable t bs) (hnd : 0 < w.remaining → w.done = false) :
    v8stringWriteChunks t fuel w =
      (0, leafOut t.cfg.bits w.strflags (decodeChars w.ascii bs) w.strb) := by
  have hlen := Target.mdbVread_length h
  -- the induction is on the fuel: a chunk is written, or what fits of it, and the rest is readable
  induction fuel generalizing w bs with
  | zero =>
    have hrem : w.remaining = 0 := by omega
    have hnil : bs = [] := List.eq_nil_of_length_eq_zero (by rw [hlen, hrem, Nat.mul_zero])
    rw [v8stringWriteChunks, if_pos (hdone hrem), hnil, decodeChars_nil]
    rfl
  | succ fuel ih =>
    cases hd : w.done with
    | true =>
      have hrem : w.remaining = 0 := by
        by_contra hne
        rw [hnd (by omega)] at hd
        exact absurd hd (by simp)
      have hnil : bs = [] := List.eq_nil_of_length_eq_zero (by rw [hlen, hrem, Nat.mul_zero])
      rw [v8stringWriteChunks, if_pos hd, hnil, decodeChars_nil]
      rfl
    | false =>
      have hinv : ∀ chunk, w.looksInvalid chunk = false := fun chunk => by
        simp [looksInvalid, hcheck]
      have hpos : 0 < w.inbytesperchar := by rw [hw.inb_eq]; exact bytesPerChar_pos _
      have hmul := hw.mul_chunkChars
      rw [← hw.inb_eq] at hmul
      have hchunkle : w.chunkBytes ≤ w.inbytesperchar * w.remaining := min_le_right _ _
      -- what the next chunk is, and what is decoded of it
      have hchunk : t.mdbVread w.chunkBytes (w.chunkAddr t) = some (bs.take w.chunkBytes) := by
        have := Target.mdbVread_sub h (show 0 + w.chunkBytes ≤ w.inbytesperchar * w.remaining by omega)
        simpa using this
      have hdec : decodeChars w.ascii (bs.take w.chunkBytes) =
          (decodeChars w.ascii bs).take w.chunkChars := by
        have := decodeChars_take w.ascii bs w.chunkChars
          (by rw [← hw.inb_eq, hmul, hlen]; exact hchunkle)
        rwa [← hw.inb_eq, hmul] at this
      -- what is left to write after a number of characters
      have hrest : ∀ n s, 0 < n → n < w.remaining →
          v8stringWriteChunks t fuel ((w.reading (bs.take w.chunkBytes)).advance n s) =
            (0, leafOut t.cfg.bits w.strflags ((decodeChars w.ascii bs).drop n) s) := by
        intro n s hn0 hn
        have hrem : ((w.reading (bs.take w.chunkBytes)).advance n s).remaining = w.remaining - n :=
          Nat.sub_add_eq _ _ _
        have hslice : w.remaining = w.slicelen - w.nreadchars := rfl
        have hread := h.advance hn ((w.reading (bs.take w.chunkBytes)).advance n s) rfl rfl hpos rfl
          hrem
        have hwf : ((w.reading (bs.take w.chunkBytes)).advance n s).Wf :=
          ⟨hw.inb_eq, hw.chunksz_eq, show w.nreadchars + n ≤ w.slicelen by omega,
            fun _ => show w.nreadchars + n < w.slicelen by omega⟩
        rw [ih hwf (by omega) rfl (by omega) hread (fun _ => hd) (Target.mdbVread_length hread),
          ← decodeChars_drop w.ascii bs n (by
            rw [← hw.inb_eq, hlen]
            exact Nat.mul_le_mul_left _ hn.le), ← hw.inb_eq]
        rfl
      have hchars := hw.chunkChars_pos hd
      have hstep := hw.seqChunk_of_some t hchunk (hinv _) rfl
      rw [v8stringWriteChunks, if_neg (by simp [hd]), hstep]
      simp only [ne_eq, not_true, if_false]
      have hcslen := length_decodeChars (Target.mdbVread_length hchunk)
      have hcomplete := chunkOut_complete t.cfg.bits w.strflags w.lastChunk
        (decodeChars w.ascii (bs.take w.chunkBytes)) w.strb
      have hagain := chunkOut_again t.cfg.bits w.strflags w.lastChunk
        (decodeChars w.ascii (bs.take w.chunkBytes)) w.strb
      have hagain0 := chunkOut_again_pos t.cfg.bits w.strflags w.lastChunk
        (decodeChars w.ascii (bs.take w.chunkBytes)) w.strb
      -- a writer that is done does nothing
      have hstop : ∀ w' : V8StringWrite, w'.done = true →
          v8stringWriteChunks t fuel w' = (0, w'.strb) := by
        intro w' hd'
        cases fuel <;> simp [v8stringWriteChunks, hd']
      have hslice : w.remaining = w.slicelen - w.nreadchars := rfl
      have hle := hw.le
      cases hl : w.lastChunk with
      | true =>
        -- the last chunk is all that there is
        have hall := lastChunk_eq_true hl
        have hcc := hw.chunkChars_of_last hl
        have hne := chunkOut_last_ne_again t.cfg.bits w.strflags
          (decodeChars w.ascii (bs.take w.chunkBytes)) w.strb
        have htake : bs.take w.chunkBytes = bs := List.take_of_length_le (by omega)
        rw [hl] at hcomplete
        rw [htake] at hne hcomplete hcslen ⊢
        unfold leafOut
        generalize chunkOut t.cfg.bits w.strflags true (decodeChars w.ascii bs) w.strb = r at *
        obtain ⟨e, n, s⟩ := r
        cases e with
        | again => exact absurd rfl hne
        | cut => exact hstop _ rfl
        | complete =>
          have hn := hcomplete rfl
          dsimp only at hn
          refine hstop _ ?_
          simp only [afterSeqChunk]
          exact if_pos (show w.nreadchars + n = w.slicelen by omega)
      | false =>
        -- there is more behind this chunk, and the two are written one after the other
        have hcc := hw.chunkChars_of_not_last hl
        have hsplit := List.take_append_drop w.chunkChars (decodeChars w.ascii bs)
        have happ := leafOut_append t.cfg.bits w.strflags ((decodeChars w.ascii bs).take w.chunkChars)
          ((decodeChars w.ascii bs).drop w.chunkChars) w.strb
        rw [hsplit] at happ
        rw [hl] at hcomplete hagain hagain0
        rw [happ, ← hdec]
        generalize chunkOut t.cfg.bits w.strflags false
          (decodeChars w.ascii (bs.take w.chunkBytes)) w.strb = r at *
        obtain ⟨e, n, s⟩ := r
        dsimp only at hcomplete hagain hagain0 ⊢
        cases e with
        | cut => exact hstop _ rfl
        | complete =>
          have hn := hcomplete rfl
          have hne : w.nreadchars + n ≠ w.slicelen := by omega
          have hw' : (w.reading (bs.take w.chunkBytes)).afterSeqChunk .complete n s =
              (w.reading (bs.take w.chunkBytes)).advance n s := by
            have hne' : (w.reading (bs.take w.chunkBytes)).nreadchars + n ≠
                (w.reading (bs.take w.chunkBytes)).slicelen := hne
            simp only [afterSeqChunk, if_neg hne']
            rfl
          rw [hw', hrest n s (by omega) (by omega), show n = w.chunkChars by omega]
        | again =>
          have hn := hagain rfl
          have hn0 := hagain0 (by omega) rfl
          -- the rest of this chunk and what follows it
          have hdrop : (decodeChars w.ascii (bs.take w.chunkBytes)).drop n ++
              (decodeChars w.ascii bs).drop w.chunkChars = (decodeChars w.ascii bs).drop n := by
            rw [hdec, ← List.drop_append_of_le_length (by rw [← hdec]; omega), hsplit]
          simp only [hdrop]
          exact hrest n s hn0 (by omega)

end V8StringWrite

/-! ### What is added to the buffer -/

namespace Strbuf

/-- The buffer has a byte left, and no more than a `size_t` can count. -/
def Sized (bits : ℕ) (s : Strbuf) : Prop := 0 < s.curbufsz ∧ s.curbufsz ≤ 2 ^ bits

variable {bits : ℕ} {s s' : Strbuf}

theorem Sized.of_grows (h : s.Sized bits) (hg : s.Grows s') : s'.Sized bits := by
  have hend := hg.end_eq
  have hle := hg.curbuf_le
  exact ⟨hg.pos h.1, by have := h.2; omega⟩

/-- Where the subtractions do not wrap, the bytes left are the room. -/
theorem Sized.bytesleft_eq (h : s.Sized bits) : mdbv8StrbufBytesleft bits s = s.room := by
  obtain ⟨h0, hle⟩ := h
  have hwrap : (s.curbufsz + (2 ^ bits - 1)) % 2 ^ bits = s.curbufsz - 1 := by
    have hpos : 0 < 2 ^ bits := Nat.two_pow_pos bits
    rw [show s.curbufsz + (2 ^ bits - 1) = (s.curbufsz - 1) + 2 ^ bits by omega, Nat.add_mod_right]
    exact Nat.mod_eq_of_lt (by omega)
  unfold mdbv8StrbufBytesleft room
  dsimp only
  rw [hwrap]
  split <;> omega

theorem foldl_sprintf_text (Ts : List (List UInt8)) (s : Strbuf) :
    (Ts.foldl mdbv8StrbufSprintf s).text = s.text ++ Ts.flatten.take s.room ∧
      (Ts.foldl mdbv8StrbufSprintf s).room = s.room - Ts.flatten.length := by
  induction Ts generalizing s with
  | nil => simp
  | cons T Ts ih =>
    obtain ⟨htext, hroom⟩ := ih (mdbv8StrbufSprintf s T)
    rw [List.foldl_cons, htext, hroom, sprintf_text, sprintf_room, List.flatten_cons,
      List.take_append, List.length_append, List.append_assoc]
    exact ⟨rfl, by omega⟩

theorem appends_eq_foldl (s : Strbuf) (src : List UInt8) (flags : ℕ) :
    mdbv8StrbufAppends s src flags =
      (src.map fun b => charBytes (charToUint16 b) flags).foldl mdbv8StrbufSprintf s := by
  unfold mdbv8StrbufAppends
  rw [List.foldl_map]
  congr 1
  funext s b
  exact mdbv8StrbufAppendc_eq s _ flags

end Strbuf

/-- The truncation marker is written as it stands, whatever the flags. -/
theorem marker_flatMap (flags : ℕ) :
    (v8sTruncateMarker.map fun b => charBytes (charToUint16 b) flags).flatten =
      v8sTruncateMarker := by
  have hascii : ∀ c < 128, sanitized c flags = c := fun c hc => by
    simp [sanitized, isascii, hc]
  have hmarker : v8sTruncateMarker = [91, 46, 46, 46, 93] := by decide
  have h91 : charBytes 91 flags = [91] := by
    unfold charBytes
    rw [hascii 91 (by norm_num)]
    split <;> rfl
  have h46 : charBytes 46 flags = [46] := by
    unfold charBytes
    rw [hascii 46 (by norm_num)]
    split <;> rfl
  have h93 : charBytes 93 flags = [93] := by
    unfold charBytes
    rw [hascii 93 (by norm_num)]
    split <;> rfl
  rw [hmarker]
  simp only [List.map_cons, List.map_nil]
  rw [show charToUint16 91 = 91 from rfl, show charToUint16 46 = 46 from rfl,
    show charToUint16 93 = 93 from rfl, h91, h46, h93]
  rfl

/-- The bytes of characters that are all written. -/
def charsText (strflags : ℕ) (cs : List ℕ) : List UInt8 :=
  (cs.map fun c => charBytes c strflags).flatten

section CharsText

variable (strflags : ℕ)

@[simp] theorem charsText_nil : charsText strflags [] = [] := rfl

@[simp] theorem charsText_cons (c : ℕ) (cs : List ℕ) :
    charsText strflags (c :: cs) = charBytes c strflags ++ charsText strflags cs := by
  simp [charsText]

@[simp] theorem charsText_append (cs ds : List ℕ) :
    charsText strflags (cs ++ ds) = charsText strflags cs ++ charsText strflags ds := by
  simp [charsText]

theorem charsText_length_le (cs : List ℕ) : (charsText strflags cs).length ≤ outBytes strflags cs := by
  induction cs with
  | nil => exact le_refl _
  | cons c cs ih =>
    have := charBytes_length_le c strflags
    rw [charsText_cons, List.length_append, outBytes_cons]
    omega

end CharsText

/-- What writing the characters of a sequential string adds to a buffer with room for `left`
bytes. -/
def leafText (strflags : ℕ) : List ℕ → ℕ → List UInt8
  | [], _ => []
  | c :: cs, left =>
    if NoDanger strflags left c ∨ outBytes strflags (c :: cs) ≤ left then
      charBytes c strflags ++ leafText strflags cs (left - (charBytes c strflags).length)
    else v8sTruncateMarker.take left

theorem leafText_length_le (strflags : ℕ) (cs : List ℕ) (left : ℕ) :
    (leafText strflags cs left).length ≤ left := by
  induction cs generalizing left with
  | nil => exact Nat.zero_le _
  | cons c cs ih =>
    have hc := charBytes_length_le c strflags
    rw [leafText]
    split
    · next hfit =>
      have := ih (left - (charBytes c strflags).length)
      have hle : mdbv8StrbufNbytesforchar c strflags ≤ left := by
        rw [outBytes_cons] at hfit
        unfold NoDanger at hfit
        omega
      rw [List.length_append]
      omega
    · rw [List.length_take]
      exact min_le_left _ _

/-- **What a sequential string adds to a buffer.** -/
theorem leafOut_text {bits : ℕ} (strflags : ℕ) (cs : List ℕ) {s : Strbuf} (hs : s.Sized bits) :
    (leafOut bits strflags cs s).text = s.text ++ leafText strflags cs s.room ∧
      (leafOut bits strflags cs s).room = s.room - (leafText strflags cs s.room).length := by
  unfold leafOut
  induction cs generalizing s with
  | nil => simp [chunkOut, leafText]
  | cons c cs ih =>
    -- one character is written, and the induction hypothesis is for the others
    have hgo : mdbv8StrbufNbytesforchar c strflags ≤ s.room →
        ((chunkOut bits strflags true cs (mdbv8StrbufAppendc s c strflags)).2.2).text =
            s.text ++ (charBytes c strflags ++
              leafText strflags cs (s.room - (charBytes c strflags).length)) ∧
          ((chunkOut bits strflags true cs (mdbv8StrbufAppendc s c strflags)).2.2).room =
            s.room - (charBytes c strflags ++
              leafText strflags cs (s.room - (charBytes c strflags).length)).length := by
      intro hfit
      have hc := charBytes_length_le c strflags
      obtain ⟨htext, hroom⟩ := ih (hs.of_grows (Strbuf.grows_appendc s c strflags))
      rw [htext, hroom, mdbv8StrbufAppendc_eq, Strbuf.sprintf_text, Strbuf.sprintf_room,
        List.take_of_length_le (by omega), List.append_assoc, List.length_append]
      exact ⟨rfl, by omega⟩
    rw [chunkOut, hs.bytesleft_eq, sizecheckOf, leafText]
    -- the three cases of the size check
    by_cases hnd : NoDanger strflags s.room c
    · have hfit : mdbv8StrbufNbytesforchar c strflags ≤ s.room := by
        unfold NoDanger at hnd
        omega
      simp only [if_pos hnd, if_pos (show NoDanger strflags s.room c ∨ _ from .inl hnd)]
      exact hgo hfit
    · by_cases hout : s.room < outBytes strflags (c :: cs)
      · have hno : ¬ (NoDanger strflags s.room c ∨ outBytes strflags (c :: cs) ≤ s.room) := by
          rintro (h | h)
          · exact hnd h
          · omega
        simp only [if_neg hnd, if_pos hout, if_neg hno]
        rw [Strbuf.appends_eq_foldl, (Strbuf.foldl_sprintf_text _ s).1,
          (Strbuf.foldl_sprintf_text _ s).2, marker_flatMap, List.length_take]
        exact ⟨rfl, by omega⟩
      · have hyes : NoDanger strflags s.room c ∨ outBytes strflags (c :: cs) ≤ s.room :=
          .inr (by omega)
        have hfit : mdbv8StrbufNbytesforchar c strflags ≤ s.room := by
          rw [outBytes_cons] at hout
          omega
        simp only [if_neg hnd, if_neg hout, if_true, if_pos hyes]
        exact hgo hfit

end MdbV8
