import MdbV8.Output.Strbuf

/-!
# Formatted output

Most of the module prints into a buffer through a pointer to a cursor and a pointer to the number of
bytes left, `(char **bufp, size_t *lenp)`, by means of `bsnprintf`. `OutBuf` is such a pair with the
array it points into.

The two kinds of buffer end differently. A `Strbuf` always keeps the byte for the terminating NUL.
`bsnprintf` counts that byte as used once a text has been cut off, so that the number of bytes left
drops to zero exactly when some text did not fit.
-/

namespace MdbV8

open Lib

/-! ### Conversions -/

/-- The digits of a natural number in a base. -/
def fmtNat (base n : ℕ) : List UInt8 := (Nat.toDigits base n).map fun c => UInt8.ofNat c.toNat

/-- A signed integer in decimal. -/
def fmtInt (x : ℤ) : List UInt8 :=
  if x < 0 then 45 :: fmtNat 10 x.natAbs else fmtNat 10 x.natAbs

/-- The `int` that a `%d` conversion takes a word for. -/
def toInt32 (w : ℕ) : ℤ :=
  if w % 2 ^ 32 < 2 ^ 31 then (w % 2 ^ 32 : ℕ) else ((w % 2 ^ 32 : ℕ) : ℤ) - 2 ^ 32

/-- An `int` that is not negative is printed as it is. -/
theorem toInt32_of_lt {w : ℕ} (h : w < 2 ^ 31) : toInt32 w = w := by
  unfold toInt32
  rw [Nat.mod_eq_of_lt (h.trans (by decide)), if_pos h]

/-- No other one is. -/
theorem toInt32_eq_iff {w : ℕ} : toInt32 w = w ↔ w < 2 ^ 31 := by
  refine ⟨fun h => ?_, toInt32_of_lt⟩
  unfold toInt32 at h
  split at h
  · omega
  · omega

/-- `+=` of an `int`. The largest one is followed by the least one. -/
def addInt (m n : ℤ) : ℤ := toInt32 ((m + n) % 2 ^ 32).toNat

/-- A sum that is an `int` is the sum. -/
theorem addInt_of_lt {m n : ℤ} (h0 : 0 ≤ m + n) (h : m + n < 2 ^ 31) : addInt m n = m + n := by
  have hword : ((m + n) % 2 ^ 32).toNat = (m + n).toNat := by omega
  unfold addInt
  rw [hword, toInt32_of_lt (by omega)]
  omega

/-- `++` of an `int`. -/
def incrInt (n : ℤ) : ℤ := addInt n 1

/-- A counter that starts at zero. -/
theorem incrInt_toInt32 (w : ℕ) : incrInt (toInt32 w) = toInt32 (w + 1) := by
  have hmod : ((toInt32 w + 1) % 2 ^ 32).toNat % 2 ^ 32 = (w + 1) % 2 ^ 32 := by
    unfold toInt32
    split <;> omega
  unfold incrInt addInt
  unfold toInt32 at hmod ⊢
  rw [hmod]

theorem incrInt_of_lt {n : ℤ} (h0 : 0 ≤ n) (h : n + 1 < 2 ^ 31) : incrInt n = n + 1 :=
  addInt_of_lt (by omega) h

/-- `%d`, of an argument that was passed as a word. -/
def fmtD (w : ℕ) : List UInt8 := fmtInt (toInt32 w)

/-- `%p`. -/
def fmtP (w : ℕ) : List UInt8 := fmtNat 16 w

/-- `%*s` of an empty string: as many blanks as the width says. -/
def fmtBlanks (width : ℤ) : List UInt8 := List.replicate width.natAbs 32

/-! ### The cursor and the bytes left -/

/-- A pair `(bufp, lenp)`, with the array the cursor points into. The cursor is an index. -/
structure OutBuf where
  mem : CharMem
  bufp : ℕ
  len : ℕ

/-- A buffer of `n` bytes that nothing has been written to. -/
def OutBuf.fresh (bytes : ℕ → UInt8) (n : ℕ) : OutBuf := { mem := { bytes }, bufp := 0, len := n }

/-- `bvsnprintf`, of a formatted text. -/
def bvsnprintf (o : OutBuf) (text : List UInt8) : ℕ × OutBuf :=
  if o.len = 0 then (text.length, o)
  else
    let (mem, rv) := vsnprintf o.mem o.bufp o.len text
    let len := min rv o.len
    (len, { mem, bufp := o.bufp + len, len := o.len - len })

/-- `bsnprintf`; no caller looks at what it returns. -/
def bsnprintf (o : OutBuf) (text : List UInt8) : OutBuf := (bvsnprintf o text).2

/-- `mdbv8_strbuf_init` on the rest of a buffer. -/
def OutBuf.toStrbuf (o : OutBuf) : Strbuf := mdbv8StrbufInit o.mem o.bufp o.len

/-- `mdbv8_strbuf_legacy_update`. -/
def mdbv8StrbufLegacyUpdate (s : Strbuf) : OutBuf :=
  { mem := s.mem, bufp := s.curbuf, len := s.curbufsz }

namespace OutBuf

/-- The text from the start of the array to the cursor. -/
def text (o : OutBuf) : List UInt8 := o.mem.upTo o.bufp

/-- The bytes that can be written before the terminating NUL. -/
def room (o : OutBuf) : ℕ := o.len - 1

/-- The C string in a local array of `n` bytes that the module has printed into. -/
def str (o : OutBuf) (n : ℕ) : List UInt8 := o.mem.cstring 0 n

end OutBuf

/-- An output buffer as a bounded sink. -/
def outSink : Sink OutBuf UInt8 := ⟨OutBuf.text, OutBuf.room, outputSlack⟩

namespace OutBuf

variable (o : OutBuf) (T : List UInt8)

theorem bsnprintf_len : (bsnprintf o T).len = o.len - T.length := by
  unfold bsnprintf bvsnprintf
  split
  · next h => dsimp only; omega
  · next h => simp only [vsnprintf]; omega

theorem bsnprintf_text_of_lt (h : T.length < o.len) : (bsnprintf o T).text = o.text ++ T := by
  have hlen : o.len ≠ 0 := by omega
  unfold bsnprintf bvsnprintf
  simp only [if_neg hlen, vsnprintf, text, min_eq_left h.le,
    List.take_of_length_le (show T.length ≤ o.len - 1 by omega)]
  exact CharMem.upTo_storeList _ _ _ _

/-- A text that fits is terminated. -/
theorem bsnprintf_nul_of_lt (h : T.length < o.len) :
    (bsnprintf o T).mem.bytes (bsnprintf o T).bufp = 0 := by
  have hlen : o.len ≠ 0 := by omega
  unfold bsnprintf bvsnprintf
  simp only [if_neg hlen, vsnprintf, min_eq_left h.le,
    List.take_of_length_le (show T.length ≤ o.len - 1 by omega)]
  rw [CharMem.storeList_bytes_of_mem _ _ (show T.length < (T ++ [0]).length by simp)]
  simp

/-- `bsnprintf` emits its text. -/
theorem emits_bsnprintf : outSink.Emits T o (bsnprintf o T) := by
  have hlen := bsnprintf_len o T
  by_cases hfit : T.length < o.len
  · refine Sink.Wrote.emits ⟨bsnprintf_text_of_lt o T hfit, ?_⟩
    change (bsnprintf o T).len - 1 + T.length = o.len - 1
    omega
  · refine Sink.Emits.of_full (show o.len - 1 < T.length + outputSlack from ?_) ?_
    · rw [show outputSlack = 6 from rfl]
      omega
    · change (bsnprintf o T).len - 1 = 0
      omega

/-- What has been written is the string in the buffer, up to the first NUL in it. -/
theorem str_eq {n : ℕ} (hnul : o.mem.bytes o.bufp = 0) (hlt : o.bufp < n) :
    o.str n = o.text.takeWhile (· != 0) := by
  have hlength : o.text.length = o.bufp := CharMem.upTo_length _ _
  refine CharMem.cstring_of_nul _ (fun j hj => ?_) ?_ (hlength ▸ hlt)
  · simp [text, CharMem.upTo]
  · rwa [hlength, Nat.zero_add]

theorem toStrbuf_text : o.toStrbuf.text = o.text :=
  CharMem.upTo_congr fun _ hj => Function.update_of_ne (Nat.ne_of_lt hj) _ _

end OutBuf

/-- **Printing through a string buffer.** What is emitted into the string buffer that is laid over
the rest of an output buffer is emitted into the output buffer. -/
theorem Strbuf.emits_legacyUpdate {o : OutBuf} {T : List UInt8} {s : Strbuf}
    (h : strbufSink.Emits T o.toStrbuf s) (hres : s.reservesz = 0) :
    outSink.Emits T o (mdbv8StrbufLegacyUpdate s) := by
  have hroom : (mdbv8StrbufLegacyUpdate s).room = s.room := by
    change s.curbufsz - 1 = s.curbufsz - 1 - s.reservesz
    rw [hres, Nat.sub_zero]
  have hwrote : strbufSink.Wrote T o.toStrbuf s → outSink.Wrote T o (mdbv8StrbufLegacyUpdate s) := by
    rintro ⟨htext, hsize⟩
    have htext' : s.text = o.toStrbuf.text ++ T := htext
    rw [o.toStrbuf_text] at htext'
    refine ⟨htext', ?_⟩
    change (mdbv8StrbufLegacyUpdate s).room + T.length = o.room
    rw [hroom]
    exact hsize
  refine ⟨fun hpos => hwrote (h.of_room ?_), fun hfits => hwrote (h.of_fits hfits)⟩
  have hpos' : 0 < (mdbv8StrbufLegacyUpdate s).room := hpos
  rw [hroom] at hpos'
  exact hpos'

end MdbV8
