import MdbV8.Output.Strbuf

/-!
# The bounds of a string buffer

What a string buffer is for is a text in an array of `n` bytes with a NUL behind it, and a number of
bytes that the text must leave free (`TextBuf`). Whatever is done with a string buffer, it holds the text
that the same operations make of a `TextBuf` (`StrbufOp.run_holds`), and stays inside its array.

The NUL takes a byte of its own. A buffer of no bytes has none for it, and is written to nevertheless
(`keepsBounds_iff`). The size of a buffer is an option of some commands, which may be zero.
-/

namespace MdbV8

/-! ### Operations -/

/-- What can be done with a string buffer. -/
inductive StrbufOp where
  | sprintf (text : List UInt8)
  | appendc (c flags : ℕ)
  | appends (src : List UInt8) (flags : ℕ)
  | reserve (nbytes : ℤ)
  | rewind

namespace StrbufOp

/-- One operation, where a `size_t` has the given number of bits. -/
def apply (bits : ℕ) (s : Strbuf) : StrbufOp → Strbuf
  | sprintf text => mdbv8StrbufSprintf s text
  | appendc c flags => mdbv8StrbufAppendc s c flags
  | appends src flags => mdbv8StrbufAppends s src flags
  | reserve nbytes => mdbv8StrbufReserve bits s nbytes
  | rewind => mdbv8StrbufRewind s

/-- Operations one after the other. -/
def run (bits : ℕ) (s : Strbuf) (ops : List StrbufOp) : Strbuf := ops.foldl (apply bits) s

/-- The bytes that an operation appends, if nothing is cut off. -/
def bytes : StrbufOp → List UInt8
  | sprintf text => text
  | appendc c flags => charBytes c flags
  | appends src flags => src.flatMap fun b => charBytes (charToUint16 b) flags
  | reserve _ => []
  | rewind => []

end StrbufOp

/-! ### What a string buffer is for -/

/-- A text, and a number of bytes behind it that are held back. -/
structure TextBuf where
  text : List UInt8 := []
  reserved : ℕ := 0

namespace TextBuf

/-- The bytes that can be appended in an array of `n` bytes. -/
def room (n : ℕ) (b : TextBuf) : ℕ := n - 1 - b.text.length - b.reserved

/-- Appending as much of a text as there is room for. -/
def append (n : ℕ) (b : TextBuf) (T : List UInt8) : TextBuf :=
  { b with text := b.text ++ T.take (b.room n) }

/-- Texts that are appended one after the other are appended as one. -/
theorem append_append (n : ℕ) (b : TextBuf) (T T' : List UInt8) :
    (b.append n T).append n T' = b.append n (T ++ T') := by
  have hroom : (b.append n T).room n = b.room n - T.length := by
    unfold room append
    dsimp only
    rw [List.length_append, List.length_take]
    unfold room
    omega
  unfold append
  rw [TextBuf.mk.injEq, List.append_assoc, List.take_append]
  refine ⟨?_, rfl⟩
  rw [← hroom]
  rfl

/-- One operation. -/
def apply (bits n : ℕ) (b : TextBuf) (op : StrbufOp) : TextBuf :=
  match op with
  | .reserve nbytes => { b with reserved := ((b.reserved + nbytes) % 2 ^ bits).toNat }
  | .rewind => { b with text := [] }
  | op => b.append n op.bytes

/-- Operations one after the other. -/
def run (bits n : ℕ) (ops : List StrbufOp) : TextBuf := ops.foldl (apply bits n) {}

end TextBuf

/-- `mdbv8_strbuf_tocstr`. -/
def mdbv8StrbufTocstr (s : Strbuf) : ℕ := s.buf

/-- The memory of an array that nothing has been stored in. -/
def freshMem (bytes : ℕ → UInt8) : CharMem := { bytes }

/-- **The bounds of a string buffer** of `n` bytes, after some operations on it. -/
structure KeepsBounds (bits n : ℕ) (bytes : ℕ → UInt8) (ops : List StrbufOp) : Prop where
  /-- No byte behind the array has been written. -/
  inBounds : (StrbufOp.run bits (mdbv8StrbufInit (freshMem bytes) 0 n) ops).mem.hi ≤ n
  /-- The cursor and the bytes from there on make up the array. -/
  account :
    let s := StrbufOp.run bits (mdbv8StrbufInit (freshMem bytes) 0 n) ops
    s.buf = 0 ∧ s.curbuf + s.curbufsz = n
  /-- What is shown is the text that has been written, and a NUL: as a C string, the text up to its own
  first NUL, if it has one. -/
  shown :
    let s := StrbufOp.run bits (mdbv8StrbufInit (freshMem bytes) 0 n) ops
    let text := (TextBuf.run bits n ops).text
    (∀ j (hj : j < (text ++ [0]).length), s.mem.bytes (mdbv8StrbufTocstr s + j) = (text ++ [0])[j]) ∧
      s.mem.cstring (mdbv8StrbufTocstr s) n = text.takeWhile (· != 0)
  /-- There is not more room than there are bytes. -/
  bytesleft_le :
    mdbv8StrbufBytesleft bits (StrbufOp.run bits (mdbv8StrbufInit (freshMem bytes) 0 n) ops) ≤ n
  /-- What there is room for is appended as a whole. -/
  append : ∀ op : StrbufOp, op ≠ .rewind →
    op.bytes.length ≤
      mdbv8StrbufBytesleft bits (StrbufOp.run bits (mdbv8StrbufInit (freshMem bytes) 0 n) ops) →
    (TextBuf.run bits n (ops ++ [op])).text = (TextBuf.run bits n ops).text ++ op.bytes

/-! ### A string buffer holds a text -/

/-- A string buffer of `n` bytes holds what a `TextBuf` has. -/
structure Strbuf.Holds (n : ℕ) (b : TextBuf) (s : Strbuf) : Prop where
  buf : s.buf = 0
  bufsz : s.bufsz = n
  account : s.curbuf + s.curbufsz = n
  pos : 0 < s.curbufsz
  inBounds : s.mem.hi ≤ n
  nul : s.mem.bytes s.curbuf = 0
  text : s.text = b.text
  reserved : s.reservesz = b.reserved

namespace Strbuf.Holds

variable {bits n : ℕ} {b : TextBuf} {s : Strbuf}

/-- The cursor is behind the text. -/
theorem curbuf_eq (h : s.Holds n b) : s.curbuf = b.text.length := by
  rw [← h.text]
  exact (CharMem.upTo_length _ _).symm

theorem room_eq (h : s.Holds n b) : s.room = b.room n := by
  have haccount := h.account
  rw [h.curbuf_eq] at haccount
  unfold Strbuf.room TextBuf.room
  rw [h.reserved]
  omega

theorem sprintf (h : s.Holds n b) (T : List UInt8) :
    (mdbv8StrbufSprintf s T).Holds n (b.append n T) := by
  have hgrows := Strbuf.grows_sprintf s T
  have haccount := h.account
  refine ⟨hgrows.buf_eq.trans h.buf, hgrows.bufsz_eq.trans h.bufsz, ?_, hgrows.pos h.pos, ?_,
    hgrows.nul h.nul, ?_, ?_⟩
  · rw [hgrows.end_eq, haccount]
  · refine hgrows.hi_le.trans (max_le h.inBounds haccount.le)
  · rw [Strbuf.sprintf_text, h.text, h.room_eq]
    rfl
  · rw [Strbuf.sprintf_reservesz, h.reserved]
    rfl

theorem appendc (h : s.Holds n b) (c flags : ℕ) :
    (mdbv8StrbufAppendc s c flags).Holds n (b.append n (charBytes c flags)) := by
  rw [mdbv8StrbufAppendc_eq]
  exact h.sprintf _

theorem appends (h : s.Holds n b) (src : List UInt8) (flags : ℕ) :
    (mdbv8StrbufAppends s src flags).Holds n
      (b.append n (src.flatMap fun c => charBytes (charToUint16 c) flags)) := by
  induction src generalizing s b with
  | nil =>
    have hnil : b.append n [] = b := by simp [TextBuf.append]
    rw [List.flatMap_nil, hnil]
    exact h
  | cons c src ih =>
    rw [List.flatMap_cons, ← TextBuf.append_append]
    exact ih (h.appendc (charToUint16 c) flags)

theorem rewind (h : s.Holds n b) : (mdbv8StrbufRewind s).Holds n { b with text := [] } := by
  have hn : 0 < n := by
    have haccount := h.account
    have hpos := h.pos
    omega
  refine ⟨h.buf, h.bufsz, ?_, ?_, ?_, Function.update_self _ _ _, ?_, h.reserved⟩
  · change s.buf + s.bufsz = n
    rw [h.buf, h.bufsz, Nat.zero_add]
  · change 0 < s.bufsz
    rwa [h.bufsz]
  · change max s.mem.hi (s.buf + 1) ≤ n
    rw [h.buf]
    exact max_le h.inBounds hn
  · change (s.mem.store s.buf 0).upTo s.buf = []
    rw [h.buf]
    rfl

/-- **One operation** keeps to what the buffer is for. -/
theorem apply (h : s.Holds n b) (op : StrbufOp) :
    (StrbufOp.apply bits s op).Holds n (b.apply bits n op) := by
  cases op with
  | sprintf text => exact h.sprintf text
  | appendc c flags => exact h.appendc c flags
  | appends src flags => exact h.appends src flags
  | reserve nbytes =>
    refine ⟨h.buf, h.bufsz, h.account, h.pos, h.inBounds, h.nul, h.text, ?_⟩
    change ((s.reservesz + nbytes) % 2 ^ bits).toNat = ((b.reserved + nbytes) % 2 ^ bits).toNat
    rw [h.reserved]
  | rewind => exact h.rewind

/-- What is shown of the array. -/
theorem shown (h : s.Holds n b) (j : ℕ) (hj : j < (b.text ++ [0]).length) :
    s.mem.bytes (mdbv8StrbufTocstr s + j) = (b.text ++ [0])[j] := by
  have htext := h.text
  have hnul := h.nul
  unfold Strbuf.text at htext
  rw [h.curbuf_eq] at htext hnul
  rw [mdbv8StrbufTocstr, h.buf, Nat.zero_add]
  rcases Nat.lt_or_ge j b.text.length with hlt | hge
  · have hj' : j < (s.mem.upTo b.text.length).length := by simpa using hlt
    have hget : (s.mem.upTo b.text.length)[j] = s.mem.bytes j := by simp [CharMem.upTo]
    rw [List.getElem_append_left hlt, ← hget]
    exact List.getElem_of_eq htext _
  · obtain rfl : j = b.text.length := by
      rw [List.length_append, List.length_singleton] at hj
      exact le_antisymm (Nat.le_of_lt_succ hj) hge
    rw [List.getElem_append_right le_rfl, hnul]
    simp

/-- The array as a C string. -/
theorem cstring_eq (h : s.Holds n b) :
    s.mem.cstring (mdbv8StrbufTocstr s) n = b.text.takeWhile (· != 0) := by
  have haccount := h.account
  rw [h.curbuf_eq] at haccount
  have hpos := h.pos
  have hshown := h.shown
  refine CharMem.cstring_of_nul _ (fun j hj => ?_) ?_ (by omega)
  · rw [hshown j (by simp; omega), List.getElem_append_left hj]
  · rw [hshown b.text.length (by simp)]
    simp

/-- The bytes left are those that can be appended. -/
theorem bytesleft_eq (h : s.Holds n b) (hn : n < 2 ^ bits) :
    mdbv8StrbufBytesleft bits s = b.room n := by
  have haccount := h.account
  have hpos := h.pos
  have hleft : (s.curbufsz + (2 ^ bits - 1)) % 2 ^ bits = s.curbufsz - 1 := by
    rw [show s.curbufsz + (2 ^ bits - 1) = s.curbufsz - 1 + 2 ^ bits by omega, Nat.add_mod_right]
    exact Nat.mod_eq_of_lt (by omega)
  rw [← h.room_eq]
  unfold mdbv8StrbufBytesleft Strbuf.room
  rw [hleft]
  dsimp only
  split
  · next hlt => omega
  · rfl

end Strbuf.Holds

/-- A fresh string buffer holds no text. -/
theorem holds_init {n : ℕ} (hn : 0 < n) (bytes : ℕ → UInt8) :
    (mdbv8StrbufInit (freshMem bytes) 0 n).Holds n {} where
  buf := rfl
  bufsz := rfl
  account := Nat.zero_add n
  pos := hn
  inBounds := hn
  nul := rfl
  text := rfl
  reserved := rfl

/-- **Operations** on a fresh string buffer make the text in it that they make of a `TextBuf`. -/
theorem StrbufOp.run_holds {n : ℕ} (hn : 0 < n) (bits : ℕ) (bytes : ℕ → UInt8)
    (ops : List StrbufOp) :
    (StrbufOp.run bits (mdbv8StrbufInit (freshMem bytes) 0 n) ops).Holds n
      (TextBuf.run bits n ops) := by
  have hrun : ∀ (s : Strbuf) (b : TextBuf), s.Holds n b →
      (ops.foldl (apply bits) s).Holds n (ops.foldl (TextBuf.apply bits n) b) := by
    induction ops with
    | nil => exact fun s b h => h
    | cons op ops ih => exact fun s b h => ih _ _ (h.apply op)
  exact hrun _ _ (holds_init hn bytes)

/-- What there is room for is appended as a whole. -/
theorem TextBuf.apply_of_le {bits n : ℕ} {b : TextBuf} {op : StrbufOp} (hop : op ≠ .rewind)
    (h : op.bytes.length ≤ b.room n) : (b.apply bits n op).text = b.text ++ op.bytes := by
  have hwhole : (b.append n op.bytes).text = b.text ++ op.bytes := by
    unfold append
    rw [List.take_of_length_le h]
  cases op with
  | sprintf text => exact hwhole
  | appendc c flags => exact hwhole
  | appends src flags => exact hwhole
  | reserve nbytes => exact (List.append_nil _).symm
  | rewind => exact absurd rfl hop

/-- A buffer of no bytes that something has been stored in. -/
structure Strbuf.Overrun (s : Strbuf) : Prop where
  bufsz : s.bufsz = 0
  curbufsz : s.curbufsz = 0
  stored : 0 < s.mem.hi

/-- Nothing undoes it. -/
theorem Strbuf.Overrun.apply {s : Strbuf} (h : s.Overrun) (bits : ℕ) (op : StrbufOp) :
    (StrbufOp.apply bits s op).Overrun := by
  -- nothing is appended where there is no room for the NUL
  have hsprintf : ∀ T, mdbv8StrbufSprintf s T = s := fun T => by
    unfold mdbv8StrbufSprintf
    rw [if_pos (by rw [h.curbufsz]; exact Nat.zero_le _)]
  have happendc : ∀ c flags, mdbv8StrbufAppendc s c flags = s := fun c flags => by
    rw [mdbv8StrbufAppendc_eq, hsprintf]
  cases op with
  | sprintf text =>
    change (mdbv8StrbufSprintf s text).Overrun
    rwa [hsprintf]
  | appendc c flags =>
    change (mdbv8StrbufAppendc s c flags).Overrun
    rwa [happendc]
  | appends src flags =>
    have happends : mdbv8StrbufAppends s src flags = s := by
      induction src with
      | nil => rfl
      | cons c src ih =>
        unfold mdbv8StrbufAppends at ih ⊢
        rw [List.foldl_cons, happendc, ih]
    change (mdbv8StrbufAppends s src flags).Overrun
    rwa [happends]
  | reserve nbytes => exact ⟨h.bufsz, h.curbufsz, h.stored⟩
  | rewind => exact ⟨h.bufsz, h.bufsz, h.stored.trans_le (le_max_left _ _)⟩

theorem Strbuf.Overrun.run {s : Strbuf} (h : s.Overrun) (bits : ℕ) (ops : List StrbufOp) :
    (StrbufOp.run bits s ops).Overrun := by
  induction ops generalizing s with
  | nil => exact h
  | cons op ops ih => exact ih (h.apply bits op)

/-- **When a string buffer keeps its bounds**: if and only if it has a byte. -/
theorem keepsBounds_iff {bits n : ℕ} (hn : n < 2 ^ bits) (bytes : ℕ → UInt8) (ops : List StrbufOp) :
    KeepsBounds bits n bytes ops ↔ 0 < n := by
  constructor
  · intro h
    by_contra hzero
    obtain rfl : n = 0 := Nat.eq_zero_of_not_pos hzero
    -- the first NUL has been written, whatever came after it
    have hinit : (mdbv8StrbufInit (freshMem bytes) 0 0).Overrun :=
      ⟨rfl, rfl, show 0 < max 0 1 from Nat.one_pos⟩
    exact absurd h.inBounds (not_le.mpr (hinit.run bits ops).stored)
  · intro hpos
    have hholds := StrbufOp.run_holds hpos bits bytes ops
    have hleft := hholds.bytesleft_eq hn
    refine ⟨hholds.inBounds, ⟨hholds.buf, hholds.account⟩, ⟨hholds.shown, hholds.cstring_eq⟩, ?_,
      fun op hop hroom => ?_⟩
    · rw [hleft]
      unfold TextBuf.room
      omega
    · rw [hleft] at hroom
      unfold TextBuf.run
      rw [List.foldl_append]
      exact TextBuf.apply_of_le hop hroom

/-- A text that is cut off, an escaped character, and a text that has room after a byte has been given
back. -/
theorem keepsBounds_sample :
    KeepsBounds 64 8 (fun _ => 0)
        [.reserve 1, .sprintf (bytesOf "abcdefgh"), .reserve (-1), .appendc 34 msfJson] ↔ 0 < 8 :=
  keepsBounds_iff (by decide) _ _

/-- A buffer of no bytes. -/
theorem not_keepsBounds_empty : ¬ KeepsBounds 64 0 (fun _ => 0) [] :=
  fun h => absurd h.inBounds (by decide)

end MdbV8
