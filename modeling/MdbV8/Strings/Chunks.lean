import MdbV8.Strings.V8String

/-!
# Writing a sequential string, chunk by chunk

What the writer of a sequential string does is a function of the characters it has still to write
and of the bytes left in the buffer. This module takes the state of the writer out of the picture:

* `decodeChars` turns the bytes of a chunk into characters;
* `sizecheckOf` and `chunkOut` are the size check and the loop over a chunk as functions of a list
  of characters, and `v8stringWriteSeqChunkLoop_eq` says that the loop of the writer computes them;
* `leafOut` is the same for a whole string, without chunks, and `v8stringWriteChunks_eq_leafOut`
  says that the division into chunks makes no difference when all of the string can be read.
-/

namespace MdbV8

/-! ### Decoding -/

/-- The bytes that a character takes in a sequential string. -/
def bytesPerChar (ascii : Bool) : ℕ := if ascii then 1 else 2

/-- The character at index `i` of a block of bytes. -/
def charAt (ascii : Bool) (bs : List UInt8) (i : ℕ) : ℕ :=
  if ascii then charToUint16 (bs.getD i 0)
  else (bs.getD i 0).toNat + 256 * (bs.getD (i + 1) 0).toNat

/-- The characters in a block of bytes. -/
def decodeChars (ascii : Bool) (bs : List UInt8) : List ℕ :=
  (List.range (bs.length / bytesPerChar ascii)).map fun k => charAt ascii bs (k * bytesPerChar ascii)

section Decode

variable (ascii : Bool) (bs cs : List UInt8)

theorem bytesPerChar_pos : 0 < bytesPerChar ascii := by cases ascii <;> decide

theorem bytesPerChar_le : bytesPerChar ascii ≤ 2 := by cases ascii <;> decide

@[simp] theorem decodeChars_length :
    (decodeChars ascii bs).length = bs.length / bytesPerChar ascii := by
  simp [decodeChars]

theorem decodeChars_getElem {k : ℕ} (hk : k < (decodeChars ascii bs).length) :
    (decodeChars ascii bs)[k] = charAt ascii bs (k * bytesPerChar ascii) := by
  simp [decodeChars]

@[simp] theorem decodeChars_nil : decodeChars ascii [] = [] := by simp [decodeChars]

theorem charAt_append_left {i : ℕ} (hi : i + bytesPerChar ascii ≤ bs.length) :
    charAt ascii (bs ++ cs) i = charAt ascii bs i := by
  cases ascii with
  | true =>
    have hi' : i < bs.length := hi
    simp [charAt, List.getElem?_append_left hi']
  | false =>
    have hi' : i + 2 ≤ bs.length := hi
    simp [charAt, List.getElem?_append_left (show i < bs.length by omega),
      List.getElem?_append_left (show i + 1 < bs.length by omega)]

theorem charAt_append_right (i : ℕ) :
    charAt ascii (bs ++ cs) (bs.length + i) = charAt ascii cs i := by
  simp [charAt, List.getElem?_append_right, Nat.add_assoc]

/-- Blocks that end between two characters are decoded one after the other. -/
theorem decodeChars_append (h : bytesPerChar ascii ∣ bs.length) :
    decodeChars ascii (bs ++ cs) = decodeChars ascii bs ++ decodeChars ascii cs := by
  obtain ⟨m, hm⟩ := h
  have hpos := bytesPerChar_pos ascii
  have hlen : (decodeChars ascii bs).length = m := by
    rw [decodeChars_length, hm, Nat.mul_div_cancel_left _ hpos]
  have htotal : (bs ++ cs).length / bytesPerChar ascii = m + cs.length / bytesPerChar ascii := by
    rw [List.length_append, hm, Nat.mul_add_div hpos]
  apply List.ext_getElem
  · rw [decodeChars_length, htotal, List.length_append, hlen, decodeChars_length]
  · intro k hk _
    rw [decodeChars_getElem]
    -- a character is in the first block or in the second one
    by_cases hkm : k < m
    · rw [List.getElem_append_left (by omega), decodeChars_getElem]
      refine charAt_append_left ascii bs cs ?_
      calc k * bytesPerChar ascii + bytesPerChar ascii
          = bytesPerChar ascii * (k + 1) := by ring
        _ ≤ bytesPerChar ascii * m := Nat.mul_le_mul_left _ hkm
        _ = bs.length := hm.symm
    · obtain ⟨d, rfl⟩ : ∃ d, k = m + d := ⟨k - m, by omega⟩
      rw [List.getElem_append_right (by omega), decodeChars_getElem]
      rw [show (m + d) * bytesPerChar ascii = bs.length + d * bytesPerChar ascii by
        rw [hm]; ring, charAt_append_right]
      congr 2
      omega

/-- Dropping the bytes of `k` characters drops `k` characters. -/
theorem decodeChars_drop (k : ℕ) (hk : bytesPerChar ascii * k ≤ bs.length) :
    decodeChars ascii (bs.drop (bytesPerChar ascii * k)) = (decodeChars ascii bs).drop k := by
  have htake : (bs.take (bytesPerChar ascii * k)).length = bytesPerChar ascii * k := by
    rw [List.length_take, min_eq_left hk]
  have happ := decodeChars_append ascii (bs.take (bytesPerChar ascii * k))
    (bs.drop (bytesPerChar ascii * k)) ⟨k, htake⟩
  rw [List.take_append_drop] at happ
  rw [happ, List.drop_left']
  rw [decodeChars_length, htake, Nat.mul_div_cancel_left _ (bytesPerChar_pos ascii)]

/-- Keeping the bytes of `k` characters keeps `k` characters. -/
theorem decodeChars_take (k : ℕ) (hk : bytesPerChar ascii * k ≤ bs.length) :
    decodeChars ascii (bs.take (bytesPerChar ascii * k)) = (decodeChars ascii bs).take k := by
  have htake : (bs.take (bytesPerChar ascii * k)).length = bytesPerChar ascii * k := by
    rw [List.length_take, min_eq_left hk]
  have happ := decodeChars_append ascii (bs.take (bytesPerChar ascii * k))
    (bs.drop (bytesPerChar ascii * k)) ⟨k, htake⟩
  rw [List.take_append_drop] at happ
  rw [happ, List.take_left']
  rw [decodeChars_length, htake, Nat.mul_div_cancel_left _ (bytesPerChar_pos ascii)]

end Decode

/-! ### The size check -/

/-- The bytes that `mdbv8_strbuf_nbytesforchar` announces for a list of characters. -/
def outBytes (strflags : ℕ) (cs : List ℕ) : ℕ :=
  (cs.map fun c => mdbv8StrbufNbytesforchar c strflags).sum

@[simp] theorem outBytes_nil (strflags : ℕ) : outBytes strflags [] = 0 := rfl

@[simp] theorem outBytes_cons (strflags c : ℕ) (cs : List ℕ) :
    outBytes strflags (c :: cs) = mdbv8StrbufNbytesforchar c strflags + outBytes strflags cs := by
  simp [outBytes]

@[simp] theorem outBytes_append (strflags : ℕ) (cs ds : List ℕ) :
    outBytes strflags (cs ++ ds) = outBytes strflags cs + outBytes strflags ds := by
  simp [outBytes]

theorem length_le_outBytes (strflags : ℕ) (cs : List ℕ) : cs.length ≤ outBytes strflags cs := by
  induction cs with
  | nil => rfl
  | cons c cs ih =>
    have := mdbv8StrbufNbytesforchar_pos c strflags
    rw [List.length_cons, outBytes_cons]
    omega

/-- Writing one more character still leaves room for the truncation marker. -/
def NoDanger (strflags left c : ℕ) : Prop :=
  v8sTruncateMarkerBytes + mdbv8StrbufNbytesforchar c strflags ≤ left

instance (strflags left c : ℕ) : Decidable (NoDanger strflags left c) := Nat.decLe _ _

/-- `v8string_write_sizecheck` with `left` bytes left in the buffer and the characters `c :: cs`
left in a chunk. -/
def sizecheckOf (strflags left : ℕ) (last : Bool) (c : ℕ) (cs : List ℕ) : V8StringSizecheck :=
  if NoDanger strflags left c then .nodanger
  else if left < outBytes strflags (c :: cs) then .wontfit
  else if last then .willfit else .dontknow

namespace V8StringWrite

/-- From index `i` of the chunk on, with `nr` characters of the string read, the rest of the chunk
is `cs`. It ends either where the string ends or where the chunk buffer does. -/
def Rest (w : V8StringWrite) (nbytestoread : ℕ) : ℕ → ℕ → List ℕ → Prop
  | i, nr, [] =>
    if w.chunklast then nr = w.slicelen else i = w.chunksz ∧ nbytestoread = w.chunksz
  | i, nr, c :: cs =>
    (i < nbytestoread ∧ nr < w.slicelen ∧ (w.ascii = false → i % 2 = 0) ∧ w.chrval i = c) ∧
      w.Rest nbytestoread (i + w.inbytesperchar) (nr + 1) cs

variable {w : V8StringWrite} {nb : ℕ}

theorem Rest.end_of_last (hlast : w.chunklast = true) :
    ∀ {i nr : ℕ} {cs : List ℕ}, w.Rest nb i nr cs → nr + cs.length = w.slicelen
  | _, _, [], h => by simpa [Rest, hlast] using h
  | _, _, _ :: _, ⟨_, h⟩ => by
    have := h.end_of_last hlast
    rw [List.length_cons]
    omega

theorem Rest.end_of_not_last (hlast : w.chunklast = false) :
    ∀ {i nr : ℕ} {cs : List ℕ}, w.Rest nb i nr cs → i + w.inbytesperchar * cs.length = w.chunksz
  | _, _, [], h => by
    simp only [Rest, hlast, Bool.false_eq_true, if_false] at h
    simpa using h.1
  | _, _, _ :: _, ⟨_, h⟩ => by
    have := h.end_of_not_last hlast
    rw [List.length_cons, Nat.mul_succ]
    omega

theorem Rest.length_lt (hpos : 0 < w.inbytesperchar) :
    ∀ {i nr c : ℕ} {cs : List ℕ}, w.Rest nb i nr (c :: cs) → i + cs.length < nb
  | _, _, _, [], ⟨h, _⟩ => h.1
  | _, _, _, _ :: _, ⟨_, h⟩ => by
    have := h.length_lt hpos
    rw [List.length_cons]
    omega

/-- The loop of the size check past the first character. -/
theorem sizecheckLoop_tail (hsz : nb ≤ w.chunksz) :
    ∀ {cs : List ℕ} {i nr : ℕ}, w.Rest nb i (w.nreadchars + nr) cs → w.chunki < i →
      0 < w.inbytesperchar → ∀ {fuel}, cs.length ≤ fuel → ∀ n first,
      v8stringWriteSizecheckLoop w fuel i n nr first =
        (i + w.inbytesperchar * cs.length, n + outBytes w.strflags cs, first)
  | [], i, nr, h, _, _, fuel, _, n, first => by
    have hstop : ¬ (i < w.chunksz ∧ w.nreadchars + nr < w.slicelen) := by
      cases hl : w.chunklast <;> simp [Rest, hl] at h <;> omega
    cases fuel with
    | zero => simp [v8stringWriteSizecheckLoop]
    | succ fuel => simp [v8stringWriteSizecheckLoop, if_neg hstop]
  -- one more character is counted, and the induction hypothesis counts the rest
  | c :: cs, i, nr, ⟨⟨hi, hnr, _, hc⟩, h⟩, hlt, hpos, fuel, hfuel, n, first => by
    obtain ⟨fuel, rfl⟩ : ∃ f, fuel = f + 1 := ⟨fuel - 1, by simp at hfuel; omega⟩
    have hgo : i < w.chunksz ∧ w.nreadchars + nr < w.slicelen := ⟨by omega, hnr⟩
    have hrest : w.Rest nb (i + w.inbytesperchar) (w.nreadchars + (nr + 1)) cs := by
      rwa [← Nat.add_assoc]
    have hfuel' : cs.length ≤ fuel := by simpa using hfuel
    have ih := sizecheckLoop_tail hsz hrest (by omega) hpos hfuel'
      (n + mdbv8StrbufNbytesforchar c w.strflags) first
    rw [v8stringWriteSizecheckLoop, if_pos hgo, hc]
    simp only [if_neg (show i ≠ w.chunki by omega), ih, outBytes_cons, List.length_cons]
    refine Prod.ext_iff.mpr ⟨?_, Prod.ext_iff.mpr ⟨?_, rfl⟩⟩
    · dsimp only
      rw [Nat.mul_succ]
      omega
    · dsimp only
      omega

/-- The size check looks at the bytes left and at the rest of the chunk, and at nothing else. -/
theorem sizecheck_eq (bits : ℕ) (hsz : nb ≤ w.chunksz) {c : ℕ} {cs : List ℕ}
    (h : w.Rest nb w.chunki w.nreadchars (c :: cs)) (hpos : 0 < w.inbytesperchar) :
    v8stringWriteSizecheck bits w =
      some (sizecheckOf w.strflags (mdbv8StrbufBytesleft bits w.strb) w.chunklast c cs) := by
  have hlen := h.length_lt hpos
  obtain ⟨⟨hi, hnr, _, hc⟩, hrest⟩ := h
  obtain ⟨fuel, hfuel'⟩ : ∃ f, w.chunksz = f + 1 := ⟨w.chunksz - 1, by omega⟩
  have hgo : w.chunki < w.chunksz ∧ w.nreadchars < w.slicelen := ⟨by omega, hnr⟩
  -- the first round of the loop is the character itself, the others are `sizecheckLoop_tail`
  have hloop : v8stringWriteSizecheckLoop w w.chunksz w.chunki 0 0 0 =
      (w.chunki + w.inbytesperchar * (c :: cs).length, outBytes w.strflags (c :: cs),
        mdbv8StrbufNbytesforchar c w.strflags) := by
    conv_lhs => rw [hfuel']
    rw [v8stringWriteSizecheckLoop, if_pos (by simpa using hgo), hc]
    simp only [Nat.zero_add, if_true]
    rw [sizecheckLoop_tail hsz (by simpa using hrest) (by omega) hpos (by omega)]
    refine Prod.ext_iff.mpr ⟨?_, by simp⟩
    dsimp only
    rw [List.length_cons, Nat.mul_succ]
    omega
  have h2 := mdbv8StrbufNbytesforchar_le c w.strflags
  have h1 := mdbv8StrbufNbytesforchar_pos c w.strflags
  have hend : w.chunklast = false →
      w.chunki + w.inbytesperchar * (c :: cs).length = w.chunksz := fun hl =>
    Rest.end_of_not_last hl
      (show w.Rest nb w.chunki w.nreadchars (c :: cs) from ⟨⟨hi, hnr, ‹_›, hc⟩, hrest⟩)
  unfold v8stringWriteSizecheck
  simp only [hloop, if_neg (not_not.mpr hgo)]
  generalize mdbv8StrbufBytesleft bits w.strb = left
  generalize hn : outBytes w.strflags (c :: cs) = n
  unfold sizecheckOf NoDanger
  simp only [show v8sTruncateMarkerBytes = 5 from rfl, hn]
  -- there is no danger where the marker and the first character fit
  by_cases hfirst : 5 + mdbv8StrbufNbytesforchar c w.strflags ≤ left
  · rw [if_pos hfirst]
    by_cases hbig : left > 2 ∧ left - 2 ≥ 5
    · rw [if_pos hbig]
    · rw [if_neg hbig, if_pos ⟨by omega, by omega⟩]
  · -- otherwise it depends on the rest of the chunk
    have hsmall : ¬ (left > 2 ∧ left - 2 ≥ 5) := by omega
    have hdanger : ¬ (left > 5 ∧ mdbv8StrbufNbytesforchar c w.strflags ≤ left - 5) := by omega
    rw [if_neg hfirst, if_neg hsmall, if_neg hdanger]
    by_cases hout : n > left
    · rw [if_pos hout, if_pos hout]
    · rw [if_neg hout, if_neg hout]
      cases hl : w.chunklast with
      | true => simp
      | false => simpa using hend hl

end V8StringWrite

/-! ### The loop over a chunk -/

/-- How the loop over a chunk ends. -/
inductive ChunkEnd where
  /-- All the characters of the chunk have been written. -/
  | complete
  /-- The truncation marker has been written. -/
  | cut
  /-- It takes another chunk to decide. -/
  | again
  deriving DecidableEq, Repr

/-- The loop of `v8string_write_seq_chunk` over the characters of a chunk: how it ends, after how
many characters, and with which buffer. -/
def chunkOut (bits strflags : ℕ) (last : Bool) : List ℕ → Strbuf → ChunkEnd × ℕ × Strbuf
  | [], s => (.complete, 0, s)
  | c :: cs, s =>
    match sizecheckOf strflags (mdbv8StrbufBytesleft bits s) last c cs with
    | .wontfit => (.cut, 0, mdbv8StrbufAppends s v8sTruncateMarker strflags)
    | .dontknow => (.again, 0, s)
    | .willfit | .nodanger =>
      let (e, n, s) := chunkOut bits strflags last cs (mdbv8StrbufAppendc s c strflags)
      (e, n + 1, s)

namespace V8StringWrite

/-- The state of the writer after `n` more characters. -/
def advance (w : V8StringWrite) (n : ℕ) (s : Strbuf) : V8StringWrite :=
  { w with
    readoff := w.readoff + w.inbytesperchar * n
    strb := s
    nreadchars := w.nreadchars + n
    chunki := w.chunki + w.inbytesperchar * n }

variable (w : V8StringWrite)

theorem advance_zero : w.advance 0 w.strb = w := by simp [advance]

/-- What the loop over a chunk returns, and the state it leaves. -/
def afterChunk (e : ChunkEnd) (n : ℕ) (s : Strbuf) : Bool × V8StringWrite :=
  match e with
  | .complete => (false, w.advance n s)
  | .cut => (true, { w.advance n s with done := true })
  | .again => (true, w.advance n s)

/-- A writer that has written a character is where the next one has to be written. -/
theorem afterChunk_succ (e : ChunkEnd) (n : ℕ) (s s' : Strbuf) :
    (w.advance 1 s').afterChunk e n s = w.afterChunk e (n + 1) s := by
  have hmul : w.inbytesperchar * 1 + w.inbytesperchar * n = w.inbytesperchar * (n + 1) := by ring
  cases e <;>
    simp only [afterChunk, advance, Nat.add_assoc, hmul, Nat.add_comm 1 n]

variable {w} {nb : ℕ}

/-- The whole chunk is never in doubt: where the size check has to look at it, there are no more
than six bytes left. -/
theorem sizecheckOf_ne_dontknow (strflags left : ℕ) (last : Bool) {c : ℕ} {cs : List ℕ}
    (hlen : 7 ≤ (c :: cs).length) : sizecheckOf strflags left last c cs ≠ .dontknow := by
  have hout := length_le_outBytes strflags (c :: cs)
  have hc := mdbv8StrbufNbytesforchar_le c strflags
  unfold sizecheckOf NoDanger
  simp only [show v8sTruncateMarkerBytes = 5 from rfl]
  by_cases hnd : 5 + mdbv8StrbufNbytesforchar c strflags ≤ left
  · simp [hnd]
  · rw [if_neg hnd, if_pos (by omega)]
    simp

theorem rest_advance (n : ℕ) (s : Strbuf) {i nr : ℕ} {cs : List ℕ} :
    (w.advance n s).Rest nb i nr cs ↔ w.Rest nb i nr cs := by
  induction cs generalizing i nr with
  | nil => exact Iff.rfl
  | cons c cs ih => exact and_congr Iff.rfl ih

/-- Writing a character, where the characters are aligned in the chunk. -/
theorem writeChar_eq (hal : w.ascii = false → w.chunki % 2 = 0) :
    v8stringWriteChar w =
      w.advance 1 (mdbv8StrbufAppendc w.strb (w.chrval w.chunki) w.strflags) := by
  unfold v8stringWriteChar advance
  cases ha : w.ascii with
  | true => simp
  | false => simp [hal ha]

/-- **The loop over a chunk** computes `chunkOut`, and none of its assertions fails. -/
theorem seqChunkLoop_eq (bits : ℕ) {cs : List ℕ} {fuel : ℕ} (hfuel : cs.length ≤ fuel)
    (hsz : nb ≤ w.chunksz) (hbig : 14 ≤ w.chunksz) (hinb : w.inbytesperchar = bytesPerChar w.ascii)
    (h : w.Rest nb w.chunki w.nreadchars cs) :
    v8stringWriteSeqChunkLoop bits nb fuel w =
      w.afterChunk (chunkOut bits w.strflags w.chunklast cs w.strb).1
        (chunkOut bits w.strflags w.chunklast cs w.strb).2.1
        (chunkOut bits w.strflags w.chunklast cs w.strb).2.2 := by
  induction cs generalizing fuel w with
  | nil =>
    -- the loop stops at the end of the chunk, or of the string
    have hstop : ¬ (w.nreadchars < w.slicelen ∧ w.chunki < nb) := by
      cases hl : w.chunklast <;> simp [Rest, hl] at h <;> omega
    have hloop : v8stringWriteSeqChunkLoop bits nb fuel w = (false, w) := by
      cases fuel with
      | zero => rfl
      | succ fuel => rw [v8stringWriteSeqChunkLoop, if_neg hstop]
    rw [hloop]
    exact congrArg _ w.advance_zero.symm
  | cons c cs ih =>
    have hpos : 0 < w.inbytesperchar := by rw [hinb]; exact bytesPerChar_pos _
    have hend := h.end_of_not_last
    have hcheck := sizecheck_eq bits hsz h hpos
    obtain ⟨⟨hi, hnr, hal, hc⟩, hrest⟩ := h
    obtain ⟨fuel, rfl⟩ : ∃ f, fuel = f + 1 := ⟨fuel - 1, by simp at hfuel; omega⟩
    -- the rest of the loop, after a character has been written
    have hgo := @ih (v8stringWriteChar w) fuel
    rw [writeChar_eq hal, hc] at hgo
    replace hgo := hgo (by simpa using hfuel) hsz hbig hinb
      ((rest_advance _ _).mpr (by simpa [advance] using hrest))
    rw [v8stringWriteSeqChunkLoop, if_pos ⟨hnr, hi⟩, hcheck, chunkOut]
    -- what the size check says decides how the loop goes on
    cases hsc : sizecheckOf w.strflags (mdbv8StrbufBytesleft bits w.strb) w.chunklast c cs with
    | wontfit => simp [afterChunk, advance]
    | dontknow =>
      have hlast : w.chunklast = false := by
        by_contra hl
        unfold sizecheckOf at hsc
        rw [if_pos (show w.chunklast = true by simpa using hl)] at hsc
        split_ifs at hsc
      have hne : w.chunki ≠ 0 := fun h0 => by
        have hle := bytesPerChar_le w.ascii
        have := hend hlast
        rw [h0, Nat.zero_add] at this
        refine sizecheckOf_ne_dontknow _ _ _ ?_ hsc
        by_contra hlt
        have : w.inbytesperchar * (c :: cs).length ≤ 2 * 6 :=
          Nat.mul_le_mul (by omega) (by omega)
        omega
      simp only [if_neg hne, afterChunk, w.advance_zero]
    | willfit =>
      rw [writeChar_eq hal, hc, hgo]
      exact afterChunk_succ _ _ _ _ _
    | nodanger =>
      rw [writeChar_eq hal, hc, hgo]
      exact afterChunk_succ _ _ _ _ _

end V8StringWrite

/-! ### A chunk -/

section ChunkOut

variable (bits strflags : ℕ) (last : Bool)

theorem chunkOut_complete (cs : List ℕ) (s : Strbuf)
    (h : (chunkOut bits strflags last cs s).1 = .complete) :
    (chunkOut bits strflags last cs s).2.1 = cs.length := by
  induction cs generalizing s with
  | nil => rfl
  | cons c cs ih =>
    rw [chunkOut] at h ⊢
    cases hsc : sizecheckOf strflags (mdbv8StrbufBytesleft bits s) last c cs <;>
      simp only [hsc, reduceCtorEq] at h ⊢ <;> exact congrArg (· + 1) (ih _ h)

theorem chunkOut_le (cs : List ℕ) (s : Strbuf) :
    (chunkOut bits strflags last cs s).2.1 ≤ cs.length := by
  induction cs generalizing s with
  | nil => exact le_refl _
  | cons c cs ih =>
    rw [chunkOut]
    cases sizecheckOf strflags (mdbv8StrbufBytesleft bits s) last c cs <;>
      simp only [List.length_cons] <;> first | exact Nat.zero_le _ | exact Nat.succ_le_succ (ih _)

theorem chunkOut_again (cs : List ℕ) (s : Strbuf)
    (h : (chunkOut bits strflags last cs s).1 = .again) :
    (chunkOut bits strflags last cs s).2.1 < cs.length := by
  induction cs generalizing s with
  | nil => simp [chunkOut] at h
  | cons c cs ih =>
    rw [chunkOut] at h ⊢
    cases hsc : sizecheckOf strflags (mdbv8StrbufBytesleft bits s) last c cs <;>
      simp only [hsc, reduceCtorEq] at h ⊢
    · simp
    · simpa using ih _ h
    · simpa using ih _ h

/-- The first character of a long chunk is written, or the string is cut off there. -/
theorem chunkOut_again_pos (cs : List ℕ) (s : Strbuf) (hlen : 7 ≤ cs.length)
    (h : (chunkOut bits strflags last cs s).1 = .again) :
    0 < (chunkOut bits strflags last cs s).2.1 := by
  cases cs with
  | nil => simp at hlen
  | cons c cs =>
    rw [chunkOut] at h ⊢
    have hne := V8StringWrite.sizecheckOf_ne_dontknow strflags (mdbv8StrbufBytesleft bits s) last
      hlen
    cases hsc : sizecheckOf strflags (mdbv8StrbufBytesleft bits s) last c cs <;>
      simp only [hsc, reduceCtorEq] at h ⊢ <;> first | exact absurd hsc hne | omega

/-- Only where the string goes on behind the chunk is there something to decide later. -/
theorem chunkOut_last_ne_again (cs : List ℕ) (s : Strbuf) :
    (chunkOut bits strflags true cs s).1 ≠ .again := by
  induction cs generalizing s with
  | nil => simp [chunkOut]
  | cons c cs ih =>
    have hne : sizecheckOf strflags (mdbv8StrbufBytesleft bits s) true c cs ≠ .dontknow := by
      unfold sizecheckOf
      rw [if_pos rfl]
      split_ifs <;> simp
    rw [chunkOut]
    cases hsc : sizecheckOf strflags (mdbv8StrbufBytesleft bits s) true c cs <;>
      simp only [ne_eq, reduceCtorEq, not_false_eq_true]
    · exact absurd hsc hne
    · exact ih _
    · exact ih _

end ChunkOut

namespace V8StringWrite

/-- What a writer keeps true between two chunks. -/
structure Wf (w : V8StringWrite) : Prop where
  inb_eq : w.inbytesperchar = bytesPerChar w.ascii
  chunksz_eq : w.chunksz = chunkSize
  le : w.nreadchars ≤ w.slicelen
  undone : w.done = false → w.nreadchars < w.slicelen

/-- The characters that remain to be written. -/
def remaining (w : V8StringWrite) : ℕ := w.slicelen - w.nreadchars

/-- The number of bytes that the next chunk is read with. -/
def chunkBytes (w : V8StringWrite) : ℕ := min w.chunksz (w.inbytesperchar * w.remaining)

/-- The next chunk is the last one. -/
def lastChunk (w : V8StringWrite) : Bool := !decide (w.chunksz < w.inbytesperchar * w.remaining)

/-- The state of the writer that has read a chunk. -/
def reading (w : V8StringWrite) (chunk : List UInt8) : V8StringWrite :=
  { w with chunklast := w.lastChunk, chunk, asciicheck := false, chunki := 0 }

/-- The first character of a chunk does not look like text. -/
def looksInvalid (w : V8StringWrite) (chunk : List UInt8) : Bool :=
  w.asciicheck && (chunk.getD 0 0 != 0 && !isascii (chunk.getD 0 0).toNat)

/-- The state of the writer after a chunk with the characters `cs`. -/
def afterSeqChunk (w : V8StringWrite) (e : ChunkEnd) (n : ℕ) (s : Strbuf) : V8StringWrite :=
  match e with
  | .complete =>
    { w.advance n s with done := if w.nreadchars + n = w.slicelen then true else w.done }
  | .cut => { w.advance n s with done := true }
  | .again => w.advance n s

variable {w : V8StringWrite}

/-- A chunk holds whole characters. -/
theorem Wf.dvd_chunkBytes (h : w.Wf) : bytesPerChar w.ascii ∣ w.chunkBytes := by
  rw [chunkBytes, h.chunksz_eq, h.inb_eq]
  rcases min_choice chunkSize (bytesPerChar w.ascii * w.remaining) with hm | hm <;> rw [hm]
  · cases w.ascii <;> decide
  · exact Nat.dvd_mul_right _ _

theorem Wf.remaining_pos (h : w.Wf) (hd : w.done = false) : 0 < w.remaining :=
  Nat.sub_pos_of_lt (h.undone hd)

theorem lastChunk_eq_true (hl : w.lastChunk = true) :
    w.chunkBytes = w.inbytesperchar * w.remaining := by
  have : ¬ w.chunksz < w.inbytesperchar * w.remaining := by simpa [lastChunk] using hl
  exact min_eq_right (by omega)

theorem lastChunk_eq_false (hl : w.lastChunk = false) :
    w.chunkBytes = w.chunksz ∧ w.chunksz < w.inbytesperchar * w.remaining := by
  have : w.chunksz < w.inbytesperchar * w.remaining := by simpa [lastChunk] using hl
  exact ⟨min_eq_left (by omega), this⟩

/-- The number of characters in the next chunk. -/
def chunkChars (w : V8StringWrite) : ℕ := w.chunkBytes / bytesPerChar w.ascii

theorem Wf.mul_chunkChars (h : w.Wf) : bytesPerChar w.ascii * w.chunkChars = w.chunkBytes :=
  Nat.mul_div_cancel' h.dvd_chunkBytes

theorem Wf.chunkChars_of_last (h : w.Wf) (hl : w.lastChunk = true) :
    w.chunkChars = w.remaining := by
  rw [chunkChars, lastChunk_eq_true hl, h.inb_eq, Nat.mul_div_cancel_left _ (bytesPerChar_pos _)]

theorem Wf.chunkChars_of_not_last (h : w.Wf) (hl : w.lastChunk = false) :
    7 ≤ w.chunkChars ∧ w.chunkChars < w.remaining := by
  obtain ⟨hb, hlt⟩ := lastChunk_eq_false hl
  have hmul := h.mul_chunkChars
  have hle := bytesPerChar_le w.ascii
  rw [hb, h.chunksz_eq] at hmul
  rw [h.chunksz_eq, h.inb_eq, ← hmul] at hlt
  refine ⟨?_, Nat.lt_of_mul_lt_mul_left hlt⟩
  by_contra hsmall
  have : bytesPerChar w.ascii * w.chunkChars ≤ 2 * 6 := Nat.mul_le_mul hle (by omega)
  have : chunkSize = 8192 := rfl
  omega

theorem Wf.chunkChars_le (h : w.Wf) : w.chunkChars ≤ w.remaining := by
  cases hl : w.lastChunk with
  | true => exact (h.chunkChars_of_last hl).le
  | false => exact (h.chunkChars_of_not_last hl).2.le

theorem Wf.chunkChars_pos (h : w.Wf) (hd : w.done = false) : 0 < w.chunkChars := by
  cases hl : w.lastChunk with
  | true => rw [h.chunkChars_of_last hl]; exact h.remaining_pos hd
  | false => have := (h.chunkChars_of_not_last hl).1; omega

theorem length_decodeChars {chunk : List UInt8} (hlen : chunk.length = w.chunkBytes) :
    (decodeChars w.ascii chunk).length = w.chunkChars := by
  rw [decodeChars_length, hlen, chunkChars]

/-- The characters from the `k`-th on, in a chunk that has just been read. -/
theorem Wf.rest_drop (h : w.Wf) {chunk : List UInt8} (hlen : chunk.length = w.chunkBytes) {k : ℕ}
    (hk : k ≤ w.chunkChars) :
    (w.reading chunk).Rest w.chunkBytes (bytesPerChar w.ascii * k) (w.nreadchars + k)
      ((decodeChars w.ascii chunk).drop k) := by
  have hdec := length_decodeChars hlen
  have hrem := h.le
  induction hk using Nat.decreasingInduction with
  | self =>
    -- behind the last character, the chunk or the string is at its end
    rw [List.drop_of_length_le (by omega)]
    cases hl : w.lastChunk with
    | true =>
      have := h.chunkChars_of_last hl
      have : w.remaining = w.slicelen - w.nreadchars := rfl
      simp only [Rest, reading, hl, if_true]
      omega
    | false =>
      obtain ⟨hb, -⟩ := lastChunk_eq_false hl
      simp only [Rest, reading, hl, Bool.false_eq_true, if_false]
      exact ⟨h.mul_chunkChars.trans hb, hb⟩
  | of_succ k hk ih =>
    have hmul := h.mul_chunkChars
    have hchars := h.chunkChars_le
    have hlt : bytesPerChar w.ascii * k < bytesPerChar w.ascii * w.chunkChars :=
      Nat.mul_lt_mul_of_pos_left hk (bytesPerChar_pos _)
    have hslice : w.nreadchars + k < w.slicelen := by
      have : w.remaining = w.slicelen - w.nreadchars := rfl
      omega
    rw [List.drop_eq_getElem_cons (by omega)]
    -- before that, the `k`-th character is the next one
    refine ⟨⟨by omega, hslice, fun ha => ?_, ?_⟩, ?_⟩
    · have ha' : w.ascii = false := ha
      simp [ha', bytesPerChar]
    · rw [decodeChars_getElem, Nat.mul_comm k]
      rfl
    · rw [show (w.reading chunk).inbytesperchar = bytesPerChar w.ascii from h.inb_eq,
        show bytesPerChar w.ascii * k + bytesPerChar w.ascii = bytesPerChar w.ascii * (k + 1) by ring,
        Nat.add_assoc]
      exact ih

section SeqChunk

variable (t : Target)

/-- The address of the next chunk. -/
def chunkAddr (w : V8StringWrite) (t : Target) : ℕ := t.cfg.add w.charsp w.readoff

theorem seqChunk_eq : v8stringWriteSeqChunk t w =
    match t.mdbVread w.chunkBytes (w.chunkAddr t) with
    | none =>
      (0, { w with
        chunklast := w.lastChunk
        strb := mdbv8StrbufSprintf w.strb (bytesOf "<string (failed to read data)>")
        done := true })
    | some chunk =>
      if w.looksInvalid chunk then
        (0, { w with
          chunklast := w.lastChunk
          chunk
          strb := mdbv8StrbufSprintf w.strb (bytesOf "<string (contents looks invalid)>")
          done := true })
      else
        let (returned, w') :=
          v8stringWriteSeqChunkLoop t.cfg.bits w.chunkBytes w.slicelen (w.reading chunk)
        if returned then (0, w')
        else if ¬ w'.nreadchars ≤ w'.slicelen then (0, w'.trap)
        else if w'.nreadchars = w'.slicelen then (0, { w' with done := true })
        else (0, w') := by
  have hb : (if w.chunksz < w.inbytesperchar * (w.slicelen - w.nreadchars) then w.chunksz
      else w.inbytesperchar * (w.slicelen - w.nreadchars)) = w.chunkBytes := by
    rw [chunkBytes, remaining, Nat.min_def]
    split_ifs <;> omega
  unfold v8stringWriteSeqChunk
  simp only [hb]
  rfl

/-- **One chunk.** The characters of a chunk are written as `chunkOut` says. -/
theorem Wf.seqChunk_of_some (hw : w.Wf) {chunk : List UInt8}
    (h : t.mdbVread w.chunkBytes (w.chunkAddr t) = some chunk)
    (hinv : w.looksInvalid chunk = false) {r : ChunkEnd × ℕ × Strbuf}
    (hr : chunkOut t.cfg.bits w.strflags w.lastChunk (decodeChars w.ascii chunk) w.strb = r) :
    v8stringWriteSeqChunk t w = (0, (w.reading chunk).afterSeqChunk r.1 r.2.1 r.2.2) := by
  have hlen := Target.mdbVread_length h
  have hdec := length_decodeChars hlen
  have hrem := hw.chunkChars_le
  have hrest := hw.rest_drop hlen (Nat.zero_le _)
  have hloop := seqChunkLoop_eq t.cfg.bits
    (show (decodeChars w.ascii chunk).length ≤ w.slicelen from
      hdec.trans_le (hrem.trans (Nat.sub_le _ _)))
    (show w.chunkBytes ≤ (w.reading chunk).chunksz from min_le_left _ _)
    (show 14 ≤ w.chunksz by rw [hw.chunksz_eq]; decide) hw.inb_eq hrest
  rw [show (w.reading chunk).strb = w.strb from rfl,
    show (w.reading chunk).strflags = w.strflags from rfl,
    show (w.reading chunk).chunklast = w.lastChunk from rfl, hr] at hloop
  rw [seqChunk_eq, h]
  simp only [hinv, Bool.false_eq_true, if_false, hloop]
  obtain ⟨e, n, s⟩ := r
  -- only a chunk that is written completely can end the string
  cases e with
  | cut => rfl
  | again => rfl
  | complete =>
    have hn : n = w.chunkChars := by
      have := chunkOut_complete t.cfg.bits w.strflags w.lastChunk (decodeChars w.ascii chunk)
        w.strb (by rw [hr])
      rw [hr] at this
      exact this.trans hdec
    have hle : w.nreadchars + n ≤ w.slicelen := by
      have := hw.le
      have : w.remaining = w.slicelen - w.nreadchars := rfl
      omega
    simp only [afterChunk, afterSeqChunk, advance, reading, Bool.false_eq_true, if_false, hle,
      not_true_eq_false]
    by_cases heq : w.nreadchars + n = w.slicelen <;> simp [heq]

/-- The buffer, at the end of a chunk. -/
theorem afterSeqChunk_strb (e : ChunkEnd) (n : ℕ) (s : Strbuf) : (w.afterSeqChunk e n s).strb = s := by
  cases e <;> rfl

/-- **A step of the writer.** A chunk leaves a writer that is done or has made progress. -/
theorem Wf.seqChunk (hw : w.Wf) (hd : w.done = false) :
    (v8stringWriteSeqChunk t w).1 = 0 ∧ (v8stringWriteSeqChunk t w).2.Wf ∧
      ((v8stringWriteSeqChunk t w).2.done = true ∨
        (v8stringWriteSeqChunk t w).2.remaining < w.remaining) := by
  have hpos := hw.remaining_pos hd
  cases hread : t.mdbVread w.chunkBytes (w.chunkAddr t) with
  | none =>
    -- a read that fails ends the writer
    rw [seqChunk_eq, hread]
    exact ⟨rfl, ⟨hw.inb_eq, hw.chunksz_eq, hw.le, fun h => by simp at h⟩, .inl rfl⟩
  | some chunk =>
    cases hinv : w.looksInvalid chunk with
    | true =>
      -- so does a chunk that looks invalid
      rw [seqChunk_eq, hread]
      simp only [hinv, if_true]
      exact ⟨trivial, ⟨hw.inb_eq, hw.chunksz_eq, hw.le, fun h => by simp at h⟩, .inl trivial⟩
    | false =>
      have hdec := length_decodeChars (Target.mdbVread_length hread)
      have hle := hw.chunkChars_le
      have hle' := hw.le
      have hrem : w.remaining = w.slicelen - w.nreadchars := rfl
      rw [hw.seqChunk_of_some t hread hinv rfl]
      -- otherwise it is the loop that decides
      generalize hr : chunkOut t.cfg.bits w.strflags w.lastChunk (decodeChars w.ascii chunk) w.strb = r
      have hn := chunkOut_le t.cfg.bits w.strflags w.lastChunk (decodeChars w.ascii chunk) w.strb
      have hcomplete := chunkOut_complete t.cfg.bits w.strflags w.lastChunk (decodeChars w.ascii chunk)
        w.strb
      have hagain := chunkOut_again_pos t.cfg.bits w.strflags w.lastChunk (decodeChars w.ascii chunk)
        w.strb
      have hchars := hw.chunkChars_pos hd
      have hlast := chunkOut_last_ne_again t.cfg.bits w.strflags (decodeChars w.ascii chunk) w.strb
      have hlt := chunkOut_again t.cfg.bits w.strflags w.lastChunk (decodeChars w.ascii chunk)
        w.strb
      rw [hr] at hn hcomplete hagain hlt
      obtain ⟨e, n, s⟩ := r
      dsimp only at hn hcomplete hagain hlt ⊢
      cases e with
      | cut =>
        exact ⟨rfl, ⟨hw.inb_eq, hw.chunksz_eq, show w.nreadchars + n ≤ w.slicelen by omega,
          fun h => by simp [afterSeqChunk] at h⟩, .inl rfl⟩
      | again =>
        -- a chunk that leaves the question open is not the last one, so it is a full one
        have hnl : w.lastChunk = false := by
          by_contra hl
          rw [Bool.not_eq_false] at hl
          rw [hl] at hr
          exact hlast (by rw [hr])
        have hpos' := hagain (by rw [hdec]; exact (hw.chunkChars_of_not_last hnl).1) rfl
        have hlt' := hlt rfl
        refine ⟨rfl, ⟨hw.inb_eq, hw.chunksz_eq, ?_, fun _ => ?_⟩, .inr ?_⟩
        · exact show w.nreadchars + n ≤ w.slicelen by omega
        · exact show w.nreadchars + n < w.slicelen by omega
        · exact show w.slicelen - (w.nreadchars + n) < w.slicelen - w.nreadchars by omega
      | complete =>
        have hn' := hcomplete rfl
        refine ⟨rfl, ⟨hw.inb_eq, hw.chunksz_eq, ?_, fun hdone => ?_⟩, .inr ?_⟩
        · exact show w.nreadchars + n ≤ w.slicelen by omega
        · have hne : w.nreadchars + n ≠ w.slicelen := fun heq => by
            simp [afterSeqChunk, advance, reading, heq] at hdone
          exact show w.nreadchars + n < w.slicelen by omega
        · exact show w.slicelen - (w.nreadchars + n) < w.slicelen - w.nreadchars by omega

end SeqChunk

end V8StringWrite

/-! ### Only appending -/

/-- `s'` is `s` after some texts have been appended. -/
def Strbuf.Appends (s s' : Strbuf) : Prop :=
  ∃ Ts : List (List UInt8), s' = Ts.foldl mdbv8StrbufSprintf s

namespace Strbuf.Appends

theorem refl (s : Strbuf) : Appends s s := ⟨[], rfl⟩

theorem trans {s₁ s₂ s₃ : Strbuf} (h₁ : Appends s₁ s₂) (h₂ : Appends s₂ s₃) : Appends s₁ s₃ := by
  obtain ⟨Ts, rfl⟩ := h₁
  obtain ⟨Us, rfl⟩ := h₂
  exact ⟨Ts ++ Us, List.foldl_append.symm⟩

theorem sprintf (s : Strbuf) (T : List UInt8) : Appends s (mdbv8StrbufSprintf s T) := ⟨[T], rfl⟩

theorem appendc (s : Strbuf) (c flags : ℕ) : Appends s (mdbv8StrbufAppendc s c flags) := by
  rw [mdbv8StrbufAppendc_eq]
  exact sprintf s _

theorem appends (s : Strbuf) (src : List UInt8) (flags : ℕ) :
    Appends s (mdbv8StrbufAppends s src flags) := by
  induction src generalizing s with
  | nil => exact refl s
  | cons b src ih => exact (appendc s _ flags).trans (ih _)

variable {s s' : Strbuf}

/-- What holds of a buffer and is kept by appending holds after any number of texts. -/
theorem induction {P : Strbuf → Prop} (h : Appends s s') (h0 : P s)
    (hstep : ∀ s T, P s → P (mdbv8StrbufSprintf s T)) : P s' := by
  obtain ⟨Ts, rfl⟩ := h
  induction Ts generalizing s with
  | nil => exact h0
  | cons T Ts ih => exact ih (hstep s T h0)

theorem grows (h : Appends s s') : Grows s s' :=
  h.induction (P := Grows s) (Grows.refl s) fun s' T hs => hs.trans (grows_sprintf s' T)

theorem fault_eq (h : Appends s s') : s'.mem.fault = s.mem.fault :=
  h.induction (P := fun x => x.mem.fault = s.mem.fault) rfl fun s' T hs =>
    (sprintf_fault s' T).trans hs

theorem reservesz_eq (h : Appends s s') : s'.reservesz = s.reservesz :=
  h.induction (P := fun x => x.reservesz = s.reservesz) rfl fun s' T hs =>
    (sprintf_reservesz s' T).trans hs

end Strbuf.Appends

theorem chunkOut_appends (bits strflags : ℕ) (last : Bool) (cs : List ℕ) (s : Strbuf) :
    s.Appends (chunkOut bits strflags last cs s).2.2 := by
  induction cs generalizing s with
  | nil => exact .refl s
  | cons c cs ih =>
    rw [chunkOut]
    cases sizecheckOf strflags (mdbv8StrbufBytesleft bits s) last c cs with
    | wontfit => exact .appends s _ _
    | dontknow => exact .refl s
    | willfit => exact (Strbuf.Appends.appendc s c strflags).trans (ih _)
    | nodanger => exact (Strbuf.Appends.appendc s c strflags).trans (ih _)

namespace V8StringWrite

variable (t : Target) {w : V8StringWrite}

theorem Wf.seqChunk_appends (hw : w.Wf) : w.strb.Appends (v8stringWriteSeqChunk t w).2.strb := by
  cases hread : t.mdbVread w.chunkBytes (w.chunkAddr t) with
  | none =>
    rw [seqChunk_eq, hread]
    exact .sprintf _ _
  | some chunk =>
    cases hinv : w.looksInvalid chunk with
    | true =>
      rw [seqChunk_eq, hread]
      simp only [hinv, if_true]
      exact .sprintf _ _
    | false =>
      rw [hw.seqChunk_of_some t hread hinv rfl, afterSeqChunk_strb]
      exact chunkOut_appends _ _ _ _ _

/-- **A run of the writer** returns zero and appends to the buffer. As many chunks as there are
characters are enough, so that none of its assertions fails. -/
theorem Wf.writeChunks {fuel : ℕ} (hw : w.Wf) (hfuel : w.remaining ≤ fuel) :
    (v8stringWriteChunks t fuel w).1 = 0 ∧ w.strb.Appends (v8stringWriteChunks t fuel w).2 := by
  induction fuel generalizing w with
  | zero =>
    have hd : w.done = true := by
      by_contra hd
      have := hw.remaining_pos (by simpa using hd)
      omega
    rw [v8stringWriteChunks, if_pos hd]
    exact ⟨rfl, .refl _⟩
  | succ fuel ih =>
    rw [v8stringWriteChunks]
    cases hd : w.done with
    | true => exact ⟨rfl, .refl _⟩
    | false =>
      obtain ⟨herr, hw', hprog⟩ := hw.seqChunk t hd
      have happ := hw.seqChunk_appends t
      generalize hr : v8stringWriteSeqChunk t w = r at herr hw' hprog happ
      obtain ⟨err, w'⟩ := r
      dsimp only at herr hw' hprog happ
      simp only [Bool.false_eq_true, if_false, herr, ne_eq, not_true]
      -- the writer is done, or the induction hypothesis is for what is left
      rcases hprog with hdone | hlt
      · cases fuel with
        | zero => simpa [v8stringWriteChunks, hdone] using happ
        | succ fuel => simpa [v8stringWriteChunks, hdone] using happ
      · obtain ⟨h0, happ'⟩ := ih hw' (by omega)
        exact ⟨h0, happ.trans happ'⟩

end V8StringWrite

end MdbV8
