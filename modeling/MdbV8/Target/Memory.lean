import MdbV8.Target.Config

/-!
# The memory of the target

A `Target` is a configuration together with the bytes of the target that can be read. A core file
or a stopped process does not change while the module looks at it, so memory is a function.

`mdbVread` is the debugger's `mdb_vread`: it delivers all the bytes it was asked for or fails. An
address space ends at `2 ^ bits`; a read that would run past the end fails as a read of any other
unmapped byte does.
-/

namespace MdbV8

/-- What a command returns to the debugger. -/
inductive DcmdStatus where
  | ok
  | err
  | usage
  deriving DecidableEq, Repr

/-- A target process: how the module is configured for it, and what can be read of it. -/
structure Target where
  cfg : Config
  mem : ℕ → Option UInt8

/-- `n` consecutive bytes from address `a` on, if all of them can be read. -/
def readBytes (mem : ℕ → Option UInt8) : ℕ → ℕ → Option (List UInt8)
  | _, 0 => some []
  | a, n + 1 =>
    match mem a, readBytes mem (a + 1) n with
    | some b, some bs => some (b :: bs)
    | _, _ => none

/-- The natural number that a list of bytes stands for, least significant byte first. -/
def leNat (bs : List UInt8) : ℕ := bs.foldr (fun b acc => b.toNat + 256 * acc) 0

section ReadBytes

variable {mem : ℕ → Option UInt8}

theorem readBytes_eq_some_iff {a n : ℕ} {bs : List UInt8} :
    readBytes mem a n = some bs ↔
      bs.length = n ∧ ∀ i (hi : i < bs.length), mem (a + i) = some bs[i] := by
  induction n generalizing a bs with
  | zero => cases bs <;> simp [readBytes]
  | succ n ih =>
    constructor
    · intro h
      unfold readBytes at h
      -- the first byte is read, and the induction hypothesis is for the others
      cases hm : mem a with
      | none => simp [hm] at h
      | some b =>
        cases hr : readBytes mem (a + 1) n with
        | none => simp [hm, hr] at h
        | some rest =>
          obtain rfl : b :: rest = bs := by simpa [hm, hr] using h
          obtain ⟨hlen, hget⟩ := ih.mp hr
          refine ⟨by simp [hlen], fun i hi => ?_⟩
          cases i with
          | zero => simpa using hm
          | succ i =>
            have := hget i (by simpa using hi)
            rwa [show a + (i + 1) = a + 1 + i by omega]
    · rintro ⟨hlen, hget⟩
      cases bs with
      | nil => simp at hlen
      | cons b rest =>
        have hm : mem a = some b := hget 0 (by simp)
        have hr : readBytes mem (a + 1) n = some rest := by
          refine ih.mpr ⟨by simpa using hlen, fun i hi => ?_⟩
          have := hget (i + 1) (by simpa using hi)
          rwa [show a + 1 + i = a + (i + 1) by omega]
        simp [readBytes, hm, hr]

theorem readBytes_length {a n : ℕ} {bs : List UInt8} (h : readBytes mem a n = some bs) :
    bs.length = n :=
  (readBytes_eq_some_iff.mp h).1

/-- A part of a range that can be read can be read. -/
theorem readBytes_sub {a n : ℕ} {bs : List UInt8} (h : readBytes mem a n = some bs)
    {i k : ℕ} (hik : i + k ≤ n) :
    readBytes mem (a + i) k = some ((bs.drop i).take k) := by
  obtain ⟨hlen, hget⟩ := readBytes_eq_some_iff.mp h
  refine readBytes_eq_some_iff.mpr ⟨by simp; omega, fun j hj => ?_⟩
  simp only [List.length_take, List.length_drop] at hj
  rw [List.getElem_take, List.getElem_drop, ← hget (i + j) (by omega), Nat.add_assoc]

/-- Two adjoining ranges that can be read make one. -/
theorem readBytes_append {a m n : ℕ} {bs cs : List UInt8} (hb : readBytes mem a m = some bs)
    (hc : readBytes mem (a + m) n = some cs) : readBytes mem a (m + n) = some (bs ++ cs) := by
  obtain ⟨hblen, hbget⟩ := readBytes_eq_some_iff.mp hb
  obtain ⟨hclen, hcget⟩ := readBytes_eq_some_iff.mp hc
  refine readBytes_eq_some_iff.mpr ⟨by simp [hblen, hclen], fun i hi => ?_⟩
  rw [List.length_append] at hi
  by_cases him : i < bs.length
  · rw [List.getElem_append_left him]
    exact hbget i him
  · rw [List.getElem_append_right (by omega)]
    have := hcget (i - bs.length) (by omega)
    rwa [show a + m + (i - bs.length) = a + i by omega] at this

end ReadBytes

theorem leNat_lt (bs : List UInt8) : leNat bs < 256 ^ bs.length := by
  induction bs with
  | nil => simp [leNat]
  | cons b bs ih =>
    have hb : b.toNat < 256 := b.toNat_lt
    have hcons : leNat (b :: bs) = b.toNat + 256 * leNat bs := rfl
    rw [hcons, List.length_cons, pow_succ]
    omega

theorem leNat_replicate_zero (n : ℕ) : leNat (List.replicate n 0) = 0 := by
  induction n with
  | zero => rfl
  | succ n ih =>
    have hcons : leNat (List.replicate (n + 1) 0) =
        (0 : UInt8).toNat + 256 * leNat (List.replicate n 0) := rfl
    rw [hcons, ih]
    rfl

namespace Target

/-- The target of a configuration whose memory holds the given words, and nothing else, for the
examples of this development. -/
def ofWords (cfg : Config) (words : List (ℕ × ℕ)) : Target where
  cfg
  mem a := (words.find? fun e => e.1 ≤ a && a < e.1 + cfg.ptrSize).map fun e =>
    UInt8.ofNat (e.2 / 256 ^ (a - e.1))

/-- The same with zeros in the rest of memory. -/
def ofWordsAndZeros (cfg : Config) (words : List (ℕ × ℕ)) : Target where
  cfg
  mem a := some (((ofWords cfg words).mem a).getD 0)

variable (t : Target)

/-- `mdb_vread`. -/
def mdbVread (nbytes addr : ℕ) : Option (List UInt8) :=
  if addr + nbytes ≤ 2 ^ t.cfg.bits then readBytes t.mem addr nbytes else none

/-- An `mdb_vread` of one word. -/
def readPtr (addr : ℕ) : Option ℕ := (t.mdbVread t.cfg.ptrSize addr).map leNat

/-- An `mdb_vread` of one byte. -/
def readByte (addr : ℕ) : Option ℕ := (t.mdbVread 1 addr).map leNat

/-- An `mdb_vread` of one 32-bit integer. -/
def readUint32 (addr : ℕ) : Option ℕ := (t.mdbVread 4 addr).map leNat

variable {t}

theorem mdbVread_eq_some_iff {nbytes addr : ℕ} {bs : List UInt8} :
    t.mdbVread nbytes addr = some bs ↔
      addr + nbytes ≤ 2 ^ t.cfg.bits ∧ readBytes t.mem addr nbytes = some bs := by
  unfold mdbVread
  split <;> simp [*]

theorem mdbVread_length {nbytes addr : ℕ} {bs : List UInt8}
    (h : t.mdbVread nbytes addr = some bs) : bs.length = nbytes :=
  readBytes_length (mdbVread_eq_some_iff.mp h).2

theorem mdbVread_sub {nbytes addr : ℕ} {bs : List UInt8} (h : t.mdbVread nbytes addr = some bs)
    {i k : ℕ} (hik : i + k ≤ nbytes) :
    t.mdbVread k (addr + i) = some ((bs.drop i).take k) := by
  obtain ⟨hle, hread⟩ := mdbVread_eq_some_iff.mp h
  exact mdbVread_eq_some_iff.mpr ⟨by omega, readBytes_sub hread hik⟩

theorem mdbVread_append {m n addr : ℕ} {bs cs : List UInt8} (hb : t.mdbVread m addr = some bs)
    (hc : t.mdbVread n (addr + m) = some cs) : t.mdbVread (m + n) addr = some (bs ++ cs) := by
  obtain ⟨-, hb'⟩ := mdbVread_eq_some_iff.mp hb
  obtain ⟨hle, hc'⟩ := mdbVread_eq_some_iff.mp hc
  exact mdbVread_eq_some_iff.mpr ⟨by omega, readBytes_append hb' hc'⟩

/-- Where there is memory everywhere, everything inside the address space can be read. -/
theorem exists_mdbVread (h : ∀ a, t.mem a ≠ none) {nbytes addr : ℕ}
    (hle : addr + nbytes ≤ 2 ^ t.cfg.bits) : ∃ bs, t.mdbVread nbytes addr = some bs := by
  have hread : ∀ n a, ∃ bs, readBytes t.mem a n = some bs := by
    intro n
    induction n with
    | zero => exact fun a => ⟨[], rfl⟩
    | succ n ih =>
      intro a
      obtain ⟨b, hb⟩ := Option.ne_none_iff_exists'.mp (h a)
      obtain ⟨bs, hbs⟩ := ih (a + 1)
      exact ⟨b :: bs, by simp [readBytes, hb, hbs]⟩
  obtain ⟨bs, hbs⟩ := hread nbytes addr
  exact ⟨bs, mdbVread_eq_some_iff.mpr ⟨hle, hbs⟩⟩

theorem readPtr_lt {addr w : ℕ} (h : t.readPtr addr = some w) : w < 2 ^ t.cfg.bits := by
  obtain ⟨bs, hbs, rfl⟩ := Option.map_eq_some_iff.mp h
  have hlt := leNat_lt bs
  rwa [mdbVread_length hbs, show (256 : ℕ) = 2 ^ 8 from rfl, ← pow_mul, ← DataModel.bits_eq] at hlt

theorem readByte_lt {addr b : ℕ} (h : t.readByte addr = some b) : b < 256 := by
  obtain ⟨bs, hbs, rfl⟩ := Option.map_eq_some_iff.mp h
  have hlt := leNat_lt bs
  rwa [mdbVread_length hbs, pow_one] at hlt

/-! ### Zeros -/

section Zeros

variable {cfg : Config} {words : List (ℕ × ℕ)} {a : ℕ}

/-- A byte outside of the words of such a target is zero. -/
theorem ofWordsAndZeros_mem (h : ∀ e ∈ words, a < e.1 ∨ e.1 + cfg.ptrSize ≤ a) :
    (ofWordsAndZeros cfg words).mem a = some 0 := by
  have hnone : words.find? (fun e => e.1 ≤ a && a < e.1 + cfg.ptrSize) = none := by
    refine List.find?_eq_none.mpr fun e he => ?_
    have hapart := h e he
    simp only [Bool.and_eq_true, decide_eq_true_eq, not_and]
    omega
  unfold ofWordsAndZeros ofWords
  dsimp only
  rw [hnone]
  rfl

/-- So is a word. -/
theorem ofWordsAndZeros_readPtr
    (h : ∀ e ∈ words, a + cfg.ptrSize ≤ e.1 ∨ e.1 + cfg.ptrSize ≤ a)
    (hend : a + cfg.ptrSize ≤ 2 ^ cfg.bits) : (ofWordsAndZeros cfg words).readPtr a = some 0 := by
  have hread : (ofWordsAndZeros cfg words).mdbVread cfg.ptrSize a =
      some (List.replicate cfg.ptrSize 0) := by
    refine mdbVread_eq_some_iff.mpr
      ⟨hend, readBytes_eq_some_iff.mpr ⟨List.length_replicate, fun i hi => ?_⟩⟩
    rw [List.length_replicate] at hi
    rw [List.getElem_replicate, ofWordsAndZeros_mem fun e he => by have := h e he; omega]
  have hptr : (ofWordsAndZeros cfg words).readPtr a =
      ((ofWordsAndZeros cfg words).mdbVread cfg.ptrSize a).map leNat := rfl
  rw [hptr, hread, Option.map_some, leNat_replicate_zero]

/-- Everything inside the address space can be read. -/
theorem exists_ofWordsAndZeros_mdbVread {nbytes : ℕ} (hle : a + nbytes ≤ 2 ^ cfg.bits) :
    ∃ bs, (ofWordsAndZeros cfg words).mdbVread nbytes a = some bs :=
  exists_mdbVread (fun _ => by simp [ofWordsAndZeros]) hle

end Zeros

end Target

end MdbV8
