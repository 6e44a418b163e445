import MdbV8.Lib.Sink
import MdbV8.Target.Config

/-!
# String buffers

`mdb_v8_strbuf.c`: a cursor into an array of characters, with the number of bytes from the cursor
to the end of the array and a number of bytes held back for later.

The array lives in the module's own memory. `CharMem` is that memory as far as one array goes: the
bytes by their index from the start of the array, which C does not keep inside the array, together
with two records of what happened to it. `hi` is one more than the largest index ever stored to, so
that the array is only written inside its first `n` bytes exactly when `hi ≤ n`; `fault` says that
an assertion has failed.

A text that is appended is cut to what fits before the bytes held back and the terminating NUL.
`Strbuf.room` is that number of bytes, and `strbufSink` is the buffer as a bounded sink.
-/

namespace MdbV8

open Lib

/-- The bytes of a string constant of the source. -/
def bytesOf (s : String) : List UInt8 := s.toList.map fun c => UInt8.ofNat c.toNat

/-- The memory of the module around one array of `char`. -/
structure CharMem where
  bytes : ℕ → UInt8
  /-- One more than the largest index that has been stored to. -/
  hi : ℕ := 0
  /-- An assertion has failed. -/
  fault : Bool := false

namespace CharMem

/-- Store one byte. -/
def store (m : CharMem) (i : ℕ) (b : UInt8) : CharMem :=
  { m with bytes := Function.update m.bytes i b, hi := max m.hi (i + 1) }

/-- Store bytes one after the other. -/
def storeList (m : CharMem) (i : ℕ) : List UInt8 → CharMem
  | [] => m
  | b :: bs => (m.store i b).storeList (i + 1) bs

/-- The first `k` bytes of the array. -/
def upTo (m : CharMem) (k : ℕ) : List UInt8 := (List.range k).map m.bytes

/-- The C string at index `i`: the bytes before the first NUL, of the `n` bytes looked at. -/
def cstring (m : CharMem) (i n : ℕ) : List UInt8 :=
  ((List.range n).map fun k => m.bytes (i + k)).takeWhile (· != 0)

/-- What remains of the module when an assertion fails. -/
def trap (m : CharMem) : CharMem := { m with fault := true }

@[simp] theorem store_fault (m : CharMem) (i : ℕ) (b : UInt8) : (m.store i b).fault = m.fault :=
  rfl

@[simp] theorem storeList_fault (m : CharMem) (i : ℕ) (bs : List UInt8) :
    (m.storeList i bs).fault = m.fault := by
  induction bs generalizing m i with
  | nil => rfl
  | cons b bs ih => rw [storeList, ih, store_fault]

theorem storeList_bytes_of_lt (m : CharMem) {i j : ℕ} (bs : List UInt8) (h : j < i) :
    (m.storeList i bs).bytes j = m.bytes j := by
  induction bs generalizing m i with
  | nil => rfl
  | cons b bs ih =>
    rw [storeList, ih _ (by omega)]
    exact Function.update_of_ne (by omega) _ _

theorem storeList_bytes_of_ge (m : CharMem) {i j : ℕ} (bs : List UInt8) (h : i + bs.length ≤ j) :
    (m.storeList i bs).bytes j = m.bytes j := by
  induction bs generalizing m i with
  | nil => rfl
  | cons b bs ih =>
    rw [List.length_cons] at h
    rw [storeList, ih _ (by omega)]
    exact Function.update_of_ne (by omega) _ _

theorem storeList_bytes_of_mem (m : CharMem) (i : ℕ) {j : ℕ} {bs : List UInt8}
    (hj : j < bs.length) :
    (m.storeList i bs).bytes (i + j) = bs[j] := by
  induction bs generalizing m i j with
  | nil => simp at hj
  | cons b bs ih =>
    cases j with
    | zero =>
      rw [storeList, storeList_bytes_of_lt _ _ (by omega)]
      exact Function.update_self i b m.bytes
    | succ j =>
      rw [storeList, show i + (j + 1) = i + 1 + j by omega]
      exact ih (m.store i b) (i + 1) (by simpa using hj)

theorem storeList_hi (m : CharMem) (i : ℕ) (bs : List UInt8) :
    (m.storeList i bs).hi ≤ max m.hi (i + bs.length) := by
  induction bs generalizing m i with
  | nil => exact le_max_left _ _
  | cons b bs ih =>
    have := ih (m.store i b) (i + 1)
    have hstore : (m.store i b).hi = max m.hi (i + 1) := rfl
    rw [storeList, List.length_cons]
    omega

@[simp] theorem upTo_length (m : CharMem) (k : ℕ) : (m.upTo k).length = k := by simp [upTo]

theorem upTo_congr {m m' : CharMem} {k : ℕ} (h : ∀ j < k, m'.bytes j = m.bytes j) :
    m'.upTo k = m.upTo k :=
  List.map_congr_left fun j hj => h j (List.mem_range.mp hj)

/-- The bytes up to the end of a text that has just been stored. -/
theorem upTo_storeList (m : CharMem) (i : ℕ) (bs cs : List UInt8) :
    (m.storeList i (bs ++ cs)).upTo (i + bs.length) = m.upTo i ++ bs := by
  apply List.ext_getElem
  · simp
  · intro j hj _
    simp only [upTo_length] at hj
    by_cases hji : j < i
    · simp [upTo, hji, storeList_bytes_of_lt _ _ hji]
    · obtain ⟨d, rfl⟩ : ∃ d, j = i + d := ⟨j - i, by omega⟩
      have hd : d < bs.length := by omega
      have hget := storeList_bytes_of_mem m i (show d < (bs ++ cs).length by simp; omega)
      simp [upTo, hd, hget]

/-- A text that is followed by a NUL is the string there, up to the first NUL in it. -/
theorem cstring_of_nul (m : CharMem) {i n : ℕ} {T : List UInt8}
    (hT : ∀ (j : ℕ) (hj : j < T.length), m.bytes (i + j) = T[j]) (hnul : m.bytes (i + T.length) = 0)
    (hlt : T.length < n) : m.cstring i n = T.takeWhile (· != 0) := by
  obtain ⟨k, rfl⟩ := Nat.exists_eq_add_of_lt hlt
  have hfirst : (List.range T.length).map (fun j => m.bytes (i + j)) = T := by
    apply List.ext_getElem
    · simp
    · intro j hj hj'
      rw [List.getElem_map, List.getElem_range]
      exact hT j hj'
  unfold cstring
  rw [Nat.add_assoc, List.range_add, List.map_append, hfirst, List.takeWhile_append]
  split
  · next hall =>
    -- no NUL in the text, and one behind it
    rw [List.range_succ_eq_map, List.map_cons, List.map_cons, Nat.add_zero,
      List.takeWhile_cons_of_neg (by simpa using hnul), List.append_nil]
    exact ((List.takeWhile_prefix _).eq_of_length hall).symm
  · rfl

end CharMem

/-- `vsnprintf`: of the formatted text, as much as fits before a terminating NUL; returns the
length of the text. Nothing is stored when the size is zero. -/
def vsnprintf (m : CharMem) (buf size : ℕ) (text : List UInt8) : CharMem × ℕ :=
  (if size = 0 then m else m.storeList buf (text.take (size - 1) ++ [0]), text.length)

/-- `mdbv8_strbuf_t`. The pointers are indexes into the array. -/
structure Strbuf where
  mem : CharMem
  buf : ℕ
  bufsz : ℕ
  curbuf : ℕ
  curbufsz : ℕ
  reservesz : ℕ

/-- `MSF_ASCIIONLY`. -/
def msfAsciionly : ℕ := 0x1

/-- `MSF_JSON`. -/
def msfJson : ℕ := msfAsciionly ||| 0x2

/-- `isascii`. -/
def isascii (c : ℕ) : Bool := c < 128

/-- `iscntrl`, of an ASCII character. -/
def iscntrl (c : ℕ) : Bool := c < 32 || c == 127

/-- A `char` as the `uint16_t` it is converted to: `char` is signed. -/
def charToUint16 (b : UInt8) : ℕ := if b < 128 then b.toNat else 0xff00 + b.toNat

/-- `mdbv8_strbuf_rewind`. -/
def mdbv8StrbufRewind (s : Strbuf) : Strbuf :=
  { s with curbuf := s.buf, curbufsz := s.bufsz, mem := s.mem.store s.buf 0 }

/-- `mdbv8_strbuf_init`, on the array that starts at `buf`. -/
def mdbv8StrbufInit (mem : CharMem) (buf bufsz : ℕ) : Strbuf :=
  mdbv8StrbufRewind { mem, buf, bufsz, curbuf := 0, curbufsz := 0, reservesz := 0 }

/-- `mdbv8_strbuf_bytesleft`, where a `size_t` has the given number of bits: the subtractions are
those of unsigned integers. -/
def mdbv8StrbufBytesleft (bits : ℕ) (s : Strbuf) : ℕ :=
  let left := (s.curbufsz + (2 ^ bits - 1)) % 2 ^ bits
  if left < s.reservesz then 0 else left - s.reservesz

/-- `mdbv8_strbuf_reserve`, where a `size_t` has the given number of bits. -/
def mdbv8StrbufReserve (bits : ℕ) (s : Strbuf) (nbytes : ℤ) : Strbuf :=
  { s with reservesz := ((s.reservesz + nbytes) % 2 ^ bits).toNat }

/-- `mdbv8_strbuf_vsprintf` of a formatted text, and so also `mdbv8_strbuf_sprintf`. -/
def mdbv8StrbufSprintf (s : Strbuf) (text : List UInt8) : Strbuf :=
  if s.curbufsz ≤ s.reservesz then s
  else
    let (mem, rv) := vsnprintf s.mem s.curbuf (s.curbufsz - s.reservesz) text
    let len := min rv (s.curbufsz - s.reservesz - 1)
    { s with mem, curbufsz := s.curbufsz - len, curbuf := s.curbuf + len }

/-- The first statement of `mdbv8_strbuf_appendc`: the character that is written for `c`, which is a
question mark if `c` must not appear. -/
def sanitized (c flags : ℕ) : ℕ := if flags &&& msfAsciionly != 0 && !isascii c then 63 else c

/-- `mdbv8_strbuf_appendc`. In a C string constant the source's `"\""` is the quote alone. -/
def mdbv8StrbufAppendc (s : Strbuf) (c flags : ℕ) : Strbuf :=
  let c := sanitized c flags
  if flags &&& msfJson == msfJson then
    if c = 8 then mdbv8StrbufSprintf s [92, 98]
    else if c = 10 then mdbv8StrbufSprintf s [92, 110]
    else if c = 13 then mdbv8StrbufSprintf s [92, 114]
    else if c = 92 then mdbv8StrbufSprintf s [92, 92]
    else if c = 34 then mdbv8StrbufSprintf s [34]
    else if iscntrl c then mdbv8StrbufSprintf s [63]
    else mdbv8StrbufSprintf s [UInt8.ofNat c]
  else mdbv8StrbufSprintf s [UInt8.ofNat c]

/-- `mdbv8_strbuf_nbytesforchar`. -/
def mdbv8StrbufNbytesforchar (c flags : ℕ) : ℕ :=
  if flags &&& msfJson == msfJson then
    if c = 8 ∨ c = 10 ∨ c = 13 ∨ c = 92 ∨ c = 34 then 2 else 1
  else 1

/-- `mdbv8_strbuf_appends`. -/
def mdbv8StrbufAppends (s : Strbuf) (src : List UInt8) (flags : ℕ) : Strbuf :=
  src.foldl (fun s b => mdbv8StrbufAppendc s (charToUint16 b) flags) s

/-! ### What a buffer holds -/

namespace Strbuf

/-- The text from the start of the array to the cursor. -/
def text (s : Strbuf) : List UInt8 := s.mem.upTo s.curbuf

/-- The bytes that can be appended. -/
def room (s : Strbuf) : ℕ := s.curbufsz - 1 - s.reservesz

end Strbuf

/-- The number of bytes that may be left unused by a string: there is a truncation marker to be
written, and a character. -/
def outputSlack : ℕ := 6

/-- A string buffer as a bounded sink. -/
def strbufSink : Sink Strbuf UInt8 := ⟨Strbuf.text, Strbuf.room, outputSlack⟩

/-- The bytes of a character in JSON output. -/
def jsonBytes (c : ℕ) : List UInt8 :=
  if c = 8 then [92, 98]
  else if c = 10 then [92, 110]
  else if c = 13 then [92, 114]
  else if c = 92 then [92, 92]
  else if c = 34 then [34]
  else if iscntrl c then [63]
  else [UInt8.ofNat c]

/-- The bytes that `mdbv8_strbuf_appendc` appends for a character. -/
def charBytes (c flags : ℕ) : List UInt8 :=
  if flags &&& msfJson == msfJson then jsonBytes (sanitized c flags)
  else [UInt8.ofNat (sanitized c flags)]

theorem mdbv8StrbufAppendc_eq (s : Strbuf) (c flags : ℕ) :
    mdbv8StrbufAppendc s c flags = mdbv8StrbufSprintf s (charBytes c flags) := by
  unfold mdbv8StrbufAppendc charBytes jsonBytes
  dsimp only
  generalize sanitized c flags = c'
  split_ifs <;> rfl

theorem jsonBytes_length_pos (c : ℕ) : 0 < (jsonBytes c).length := by
  unfold jsonBytes
  split_ifs <;> simp

theorem charBytes_length_pos (c flags : ℕ) : 0 < (charBytes c flags).length := by
  unfold charBytes
  split
  · exact jsonBytes_length_pos _
  · simp

/-- A character never takes more bytes than `mdbv8_strbuf_nbytesforchar` announces. -/
theorem charBytes_length_le (c flags : ℕ) :
    (charBytes c flags).length ≤ mdbv8StrbufNbytesforchar c flags := by
  unfold charBytes mdbv8StrbufNbytesforchar
  split
  · split
    · next hc =>
      -- a character that is escaped is an ASCII one, so it is not replaced
      have hsan : sanitized c flags = c := by
        rcases hc with rfl | rfl | rfl | rfl | rfl <;> simp [sanitized, isascii]
      rw [hsan]
      unfold jsonBytes
      split_ifs <;> simp
    · next hc =>
      push Not at hc
      have hsan : sanitized c flags = 63 ∨ sanitized c flags = c := by
        unfold sanitized
        split <;> simp
      rcases hsan with h | h <;> rw [h]
      · decide
      · unfold jsonBytes
        rw [if_neg hc.1, if_neg hc.2.1, if_neg hc.2.2.1, if_neg hc.2.2.2.1, if_neg hc.2.2.2.2]
        split <;> simp
  · simp

theorem mdbv8StrbufNbytesforchar_pos (c flags : ℕ) : 0 < mdbv8StrbufNbytesforchar c flags := by
  unfold mdbv8StrbufNbytesforchar
  split_ifs <;> decide

theorem mdbv8StrbufNbytesforchar_le (c flags : ℕ) : mdbv8StrbufNbytesforchar c flags ≤ 2 := by
  unfold mdbv8StrbufNbytesforchar
  split_ifs <;> decide

/-- Outside JSON every character takes one byte, and one byte is announced. -/
theorem mdbv8StrbufNbytesforchar_of_not_json {flags : ℕ} (h : flags &&& msfJson ≠ msfJson) (c : ℕ) :
    mdbv8StrbufNbytesforchar c flags = 1 := by
  simp [mdbv8StrbufNbytesforchar, h]

theorem charBytes_length_of_not_json {flags : ℕ} (h : flags &&& msfJson ≠ msfJson) (c : ℕ) :
    (charBytes c flags).length = 1 := by
  simp [charBytes, h]

/-! ### Appending -/

namespace Strbuf

variable (s : Strbuf) (T : List UInt8)

/-- Appending stores as much of the text as there is room for. -/
theorem sprintf_text : (mdbv8StrbufSprintf s T).text = s.text ++ T.take s.room := by
  unfold mdbv8StrbufSprintf
  split
  · next h =>
    have : s.room = 0 := by unfold room; omega
    simp [this]
  · next h =>
    have hroom : s.curbufsz - s.reservesz - 1 = s.room := by unfold room; omega
    have hlen : min T.length s.room = (T.take s.room).length := by simp [Nat.min_comm]
    simp only [vsnprintf, text, hroom, if_neg (show ¬ s.curbufsz - s.reservesz = 0 by omega), hlen]
    exact CharMem.upTo_storeList _ _ _ _

theorem sprintf_room : (mdbv8StrbufSprintf s T).room = s.room - T.length := by
  unfold mdbv8StrbufSprintf
  split
  · next h =>
    have : s.room = 0 := by unfold room; omega
    omega
  · next h =>
    simp only [vsnprintf, room]
    omega

@[simp] theorem sprintf_reservesz : (mdbv8StrbufSprintf s T).reservesz = s.reservesz := by
  unfold mdbv8StrbufSprintf
  split <;> rfl

@[simp] theorem sprintf_fault : (mdbv8StrbufSprintf s T).mem.fault = s.mem.fault := by
  unfold mdbv8StrbufSprintf vsnprintf
  split
  · rfl
  · dsimp only
    split <;> simp

/-- A text for which there is room is stored. -/
theorem wrote_sprintf (h : T.length ≤ s.room) :
    strbufSink.Wrote T s (mdbv8StrbufSprintf s T) := by
  refine ⟨?_, ?_⟩
  · change (mdbv8StrbufSprintf s T).text = s.text ++ T
    rw [sprintf_text, List.take_of_length_le h]
  · change (mdbv8StrbufSprintf s T).room + T.length = s.room
    rw [sprintf_room]
    omega

/-- Appending a text emits it. -/
theorem emits_sprintf : strbufSink.Emits T s (mdbv8StrbufSprintf s T) := by
  by_cases hfit : T.length ≤ s.room
  · exact (wrote_sprintf s T hfit).emits
  · refine Sink.Emits.of_full (show s.room < T.length + outputSlack by omega) ?_
    change (mdbv8StrbufSprintf s T).room = 0
    rw [sprintf_room]
    omega

/-! ### What writing to a buffer leaves alone -/

/-- `s'` is `s` after some writing: the array is the same one, the cursor has moved forward, and
nothing has been stored outside the part of the array between the two cursors and the NUL. -/
structure Grows (s s' : Strbuf) : Prop where
  buf_eq : s'.buf = s.buf
  bufsz_eq : s'.bufsz = s.bufsz
  end_eq : s'.curbuf + s'.curbufsz = s.curbuf + s.curbufsz
  curbuf_le : s.curbuf ≤ s'.curbuf
  pos : 0 < s.curbufsz → 0 < s'.curbufsz
  hi_le : s'.mem.hi ≤ max s.mem.hi (s.curbuf + s.curbufsz)
  empty : s.curbufsz = 0 → s'.mem.bytes = s.mem.bytes ∧ s'.mem.hi = s.mem.hi
  before : ∀ j < s.curbuf, s'.mem.bytes j = s.mem.bytes j
  after : ∀ j, s'.curbuf < j → s'.mem.bytes j = s.mem.bytes j
  nul : s.mem.bytes s.curbuf = 0 → s'.mem.bytes s'.curbuf = 0

theorem Grows.refl : Grows s s where
  buf_eq := rfl
  bufsz_eq := rfl
  end_eq := rfl
  curbuf_le := le_refl _
  pos := id
  hi_le := le_max_left _ _
  empty _ := ⟨rfl, rfl⟩
  before _ _ := rfl
  after _ _ := rfl
  nul := id

variable {s T} in
theorem Grows.trans {s₁ s₂ s₃ : Strbuf} (h₁ : Grows s₁ s₂) (h₂ : Grows s₂ s₃) : Grows s₁ s₃ where
  buf_eq := h₂.buf_eq.trans h₁.buf_eq
  bufsz_eq := h₂.bufsz_eq.trans h₁.bufsz_eq
  end_eq := h₂.end_eq.trans h₁.end_eq
  curbuf_le := h₁.curbuf_le.trans h₂.curbuf_le
  pos h := h₂.pos (h₁.pos h)
  hi_le := by
    have := h₁.hi_le
    have := h₂.hi_le
    have := h₁.end_eq
    omega
  empty h := by
    have hzero : s₂.curbufsz = 0 := by
      have := h₁.end_eq
      have := h₁.curbuf_le
      omega
    exact ⟨(h₂.empty hzero).1.trans (h₁.empty h).1, (h₂.empty hzero).2.trans (h₁.empty h).2⟩
  before j hj := by rw [h₂.before j (lt_of_lt_of_le hj h₁.curbuf_le), h₁.before j hj]
  after j hj := by rw [h₂.after j hj, h₁.after j (lt_of_le_of_lt h₂.curbuf_le hj)]
  nul h := h₂.nul (h₁.nul h)

theorem grows_sprintf : Grows s (mdbv8StrbufSprintf s T) := by
  unfold mdbv8StrbufSprintf
  split
  · exact Grows.refl s
  · next h =>
    have hsz : ¬ s.curbufsz - s.reservesz = 0 := by omega
    simp only [vsnprintf, if_neg hsz]
    -- what is written is the text, or as much of it as fits, and a NUL
    set len := min T.length (s.curbufsz - s.reservesz - 1) with hlen
    have htake : (T.take (s.curbufsz - s.reservesz - 1)).length = len := by
      rw [List.length_take, Nat.min_comm]
    have hall : (T.take (s.curbufsz - s.reservesz - 1) ++ [0]).length = len + 1 := by
      rw [List.length_append, htake]
      rfl
    exact {
      buf_eq := rfl
      bufsz_eq := rfl
      end_eq := by dsimp only; omega
      curbuf_le := Nat.le_add_right _ _
      pos := fun _ => by dsimp only; omega
      hi_le := by
        have := CharMem.storeList_hi s.mem s.curbuf (T.take (s.curbufsz - s.reservesz - 1) ++ [0])
        dsimp only
        omega
      empty := fun h0 => by omega
      before := fun j hj => CharMem.storeList_bytes_of_lt _ _ hj
      after := fun j hj => CharMem.storeList_bytes_of_ge _ _ (by dsimp only at hj; omega)
      nul := fun _ => by
        have hget := CharMem.storeList_bytes_of_mem s.mem s.curbuf
          (show len < (T.take (s.curbufsz - s.reservesz - 1) ++ [0]).length by omega)
        rw [List.getElem_append_right (by omega)] at hget
        simpa [htake] using hget }

theorem grows_reserve (bits : ℕ) (n : ℤ) : Grows s (mdbv8StrbufReserve bits s n) where
  buf_eq := rfl
  bufsz_eq := rfl
  end_eq := rfl
  curbuf_le := le_refl _
  pos := id
  hi_le := le_max_left _ _
  empty _ := ⟨rfl, rfl⟩
  before _ _ := rfl
  after _ _ := rfl
  nul := id

theorem grows_appendc (c flags : ℕ) : Grows s (mdbv8StrbufAppendc s c flags) := by
  rw [mdbv8StrbufAppendc_eq]
  exact grows_sprintf s _

theorem grows_appends (src : List UInt8) (flags : ℕ) :
    Grows s (mdbv8StrbufAppends s src flags) := by
  induction src generalizing s with
  | nil => exact Grows.refl s
  | cons b src ih => exact (grows_appendc s _ flags).trans (ih _)

end Strbuf

end MdbV8
