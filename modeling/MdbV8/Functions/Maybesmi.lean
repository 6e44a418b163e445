import MdbV8.Functions.Location
import MdbV8.Target.Tags

/-!
# Positions that may be small integers

A position in a script is an integer of 31 bits, and there are three ways in which V8 stores it. On a
32-bit target it is a small integer. On a 64-bit target two integers share a word: the one in the low
half is shifted left by one, as a small integer is, and the one in the high half is not.

`readHeapMaybesmi` reads all three without regard to the sign: the shift to the right is a logical one,
and half a word is extended with zeros (`StoresInt.read`). So a position that is not known, which is
`-1`, comes out as three different words, and the two functions that print it do not recognise it in the
low half of a word. `maybesmiExact_iff` says that what is read is right exactly for the integers that
are not negative.
-/

namespace MdbV8

/-- The small integers of V8: one bit of tag in a word of 32 bits, and the upper half of a word of 64
bits. -/
structure Config.V8Smis (c : Config) : Prop where
  tag : c.smiTag = 0
  mask : c.smiTagMask = 1
  shift : c.smiShift = match c.model with
    | .ilp32 => 1
    | .lp64 => 32

section Maybesmi

variable (t : Target)

/-- The three ways to store an integer in a field. -/
inductive StoresInt (addr : ℕ) (off n : ℤ) : Prop
  | low : t.cfg.model = .lp64 → t.cfg.add addr off % 8 = 0 →
    t.readUint32 (t.cfg.add addr off) = some (2 * n % 2 ^ 32).toNat → StoresInt addr off n
  | high : t.cfg.model = .lp64 → t.cfg.add addr off % 8 = 4 →
    t.readUint32 (t.cfg.add addr off) = some (n % 2 ^ 32).toNat → StoresInt addr off n
  | smi : t.cfg.model = .ilp32 →
    t.readPtr (t.cfg.add addr off) = some (2 * n % 2 ^ 32).toNat → StoresInt addr off n

/-- What is read for an integer is the integer: the same word in all the ways to store it, and this word
is taken to be an unknown position if and only if the integer is `-1`. -/
structure MaybesmiExact (addr : ℕ) (off n : ℤ) : Prop where
  read : ∃ w, t.readHeapMaybesmi addr off = some w ∧ t.cfg.toSigned w = n
  same : ∀ (t' : Target) (addr' : ℕ) (off' : ℤ), t'.cfg = t.cfg → StoresInt t' addr' off' n →
    t'.readHeapMaybesmi addr' off' = t.readHeapMaybesmi addr off
  sentinel : ∀ w, t.readHeapMaybesmi addr off = some w →
    (t.cfg.valueSmi w = t.cfg.valueSmi (2 ^ t.cfg.bits - 1) ↔ n = -1)
  unknown : ∀ w lendsp, t.readHeapMaybesmi addr off = some w → jsobjIsUndefined t lendsp = true →
    (jsfuncLineno t lendsp (t.cfg.valueSmi w) = some (0, bytesOf "unknown position", 0) ↔ n = -1)
  unknownLocation : ∀ (fip : V8Funcinfo) (strb : Strbuf) (flags : ℕ),
    t.readHeapMaybesmi addr off = some fip.tokenpos → fip.lineEndings = 0 → 0 < strb.room →
    (v8funcinfoDefinitionLocation t fip strb flags =
      some (0, mdbv8StrbufSprintf strb (bytesOf "unknown position")) ↔ n = -1)

variable {t}

/-- A position is not printed as one that is unknown, however much of the text there is room for. -/
theorem take_positionText_iff (tokpos decoded : ℕ) {room : ℕ} (hroom : 0 < room) :
    (positionText t tokpos decoded).take room = (bytesOf "unknown position").take room ↔
      tokpos = t.cfg.valueSmi (2 ^ t.cfg.bits - 1) := by
  unfold positionText
  split
  · next heq => exact iff_of_true rfl heq
  · next hne =>
    refine iff_of_false (fun htext => ?_) hne
    -- the first letters differ
    have hposition : bytesOf "position " = 112 :: bytesOf "osition " := by decide
    have hunknown : bytesOf "unknown position" = 117 :: bytesOf "nknown position" := by decide
    obtain ⟨room, rfl⟩ := Nat.exists_eq_succ_of_ne_zero hroom.ne'
    rw [hposition, hunknown, List.cons_append, List.take_succ_cons, List.take_succ_cons] at htext
    exact absurd (List.cons.inj htext).1 (by decide)

theorem positionText_eq_unknown_iff (tokpos decoded : ℕ) :
    positionText t tokpos decoded = bytesOf "unknown position" ↔
      tokpos = t.cfg.valueSmi (2 ^ t.cfg.bits - 1) := by
  refine ⟨fun htext => ?_, fun heq => if_pos heq⟩
  rw [← take_positionText_iff tokpos decoded Nat.one_pos, htext]

/-- Into a buffer with some room, neither is. -/
theorem sprintf_positionText_iff (tokpos decoded : ℕ) {strb : Strbuf} (hroom : 0 < strb.room) :
    mdbv8StrbufSprintf strb (positionText t tokpos decoded) =
        mdbv8StrbufSprintf strb (bytesOf "unknown position") ↔
      tokpos = t.cfg.valueSmi (2 ^ t.cfg.bits - 1) := by
  refine ⟨fun heq => ?_, fun heq => by rw [(positionText_eq_unknown_iff tokpos decoded).mpr heq]⟩
  have htext := congrArg Strbuf.text heq
  rw [Strbuf.sprintf_text, Strbuf.sprintf_text] at htext
  exact (take_positionText_iff tokpos decoded hroom).mp (List.append_cancel_left htext)

/-- **What is read** for an integer: the low 31 bits of it, or 32 for the high half of a word. -/
theorem StoresInt.read {addr : ℕ} {off n : ℤ} (hsmi : t.cfg.V8Smis) (h : StoresInt t addr off n) :
    t.readHeapMaybesmi addr off =
      some (if t.cfg.model = .lp64 ∧ t.cfg.add addr off % 8 = 4 then (n % 2 ^ 32).toNat
        else (n % 2 ^ 31).toNat) := by
  unfold Target.readHeapMaybesmi
  cases h with
  | low hmodel haligned hread =>
    -- the word is read, and its lower half is the integer
    simp only [hmodel, hread]
    have hps : t.cfg.ptrSize = 8 := by rw [Config.ptrSize, hmodel]; rfl
    rw [hps, if_pos haligned, if_neg (by omega), Nat.shiftRight_eq_div_pow]
    congr 1
    omega
  | high hmodel haligned hread =>
    -- the word in front of it is read, and its upper half is the integer
    simp only [hmodel, hread]
    have hps : t.cfg.ptrSize = 8 := by rw [Config.ptrSize, hmodel]; rfl
    rw [hps, if_neg (by omega), if_pos ⟨trivial, haligned⟩]
  | smi hmodel hread =>
    -- the word is the integer, shifted by its tag
    have hshift := hsmi.shift
    simp only [hmodel] at hshift ⊢
    have hone : ∀ k < 2 ^ 32, t.cfg.wrap (k : ℕ) = k := fun k hk => t.cfg.wrap_small hk
    have hmask : t.cfg.wrap t.cfg.smiTagMask = 1 := by
      rw [hsmi.mask]
      exact hone 1 (by decide)
    have htag : t.cfg.wrap t.cfg.smiTag = 0 := by
      rw [hsmi.tag]
      exact hone 0 (by decide)
    have heven : t.cfg.isSmi (2 * n % 2 ^ 32).toNat = true := by
      unfold Config.isSmi Config.tagged
      rw [hmask, htag, beq_iff_eq, Nat.and_one_is_mod]
      omega
    unfold Target.readHeapSmi Target.readHeapPtr
    rw [hread]
    dsimp only
    rw [if_pos heven, Config.smiValue, hshift, if_neg (by simp), Nat.shiftRight_eq_div_pow]
    congr 1
    omega

/-- An integer that is not negative is read as it is. -/
theorem StoresInt.read_of_nonneg {addr : ℕ} {off n : ℤ} (hsmi : t.cfg.V8Smis)
    (h : StoresInt t addr off n) (h0 : 0 ≤ n) (hhigh : n < 2 ^ 30) :
    t.readHeapMaybesmi addr off = some n.toNat := by
  rw [h.read hsmi]
  split <;> congr 1 <;> omega

/-- The encoding of words. -/
theorem Config.V8Smis.valueSmi {c : Config} (hsmi : c.V8Smis) :
    (c.model = .ilp32 ∧ c.bits = 32 ∧ ∀ v, c.valueSmi v = v * 2 % 2 ^ 32) ∨
      (c.model = .lp64 ∧ c.bits = 64 ∧ ∀ v, c.valueSmi v = v * 2 ^ 32 % 2 ^ 64) := by
  have hshift := hsmi.shift
  unfold Config.valueSmi Config.bits
  cases hmodel : c.model with
  | ilp32 =>
    simp only [hmodel] at hshift
    refine .inl ⟨rfl, rfl, fun v => ?_⟩
    rw [hshift, Nat.shiftLeft_eq]
    rfl
  | lp64 =>
    simp only [hmodel] at hshift
    refine .inr ⟨rfl, rfl, fun v => ?_⟩
    rw [hshift, Nat.shiftLeft_eq]
    rfl

/-- **When an integer is read as it has been stored**: if it is not negative. -/
theorem maybesmiExact_iff {addr : ℕ} {off n : ℤ} (hsmi : t.cfg.V8Smis) (h : StoresInt t addr off n)
    (hlow : -2 ^ 30 ≤ n) (hhigh : n < 2 ^ 30) : MaybesmiExact t addr off n ↔ 0 ≤ n := by
  constructor
  · intro hexact
    obtain ⟨w, hw, hsigned⟩ := hexact.read
    rw [h.read hsmi] at hw
    -- what is read is not negative as a signed word
    have hlt : w < 2 ^ (t.cfg.bits - 1) := by
      obtain rfl := Option.some.inj hw
      rcases hsmi.valueSmi with ⟨hmodel, hbits, -⟩ | ⟨-, hbits, -⟩
      · rw [hbits, hmodel, if_neg fun hlp => DataModel.noConfusion hlp.1]
        omega
      · rw [hbits]
        split <;> omega
    rw [← hsigned, Config.toSigned, if_pos hlt]
    exact Int.natCast_nonneg w
  · intro h0
    have hread := h.read_of_nonneg hsmi h0 hhigh
    -- no other position has the word that stands for an unknown one
    have hsentinel : t.cfg.valueSmi n.toNat = t.cfg.valueSmi (2 ^ t.cfg.bits - 1) ↔ n = -1 := by
      refine iff_of_false (fun heq => ?_) (by omega)
      rcases hsmi.valueSmi with ⟨-, hbits, hv⟩ | ⟨-, hbits, hv⟩
      · rw [hv, hv, hbits] at heq
        omega
      · rw [hv, hv, hbits] at heq
        omega
    refine ⟨⟨_, hread, ?_⟩, fun t' addr' off' hcfg h' => ?_, fun w hw => ?_,
      fun w lendsp hw hundef => ?_, fun fip strb flags hw hends hroom => ?_⟩
    · have hlt : n.toNat < 2 ^ (t.cfg.bits - 1) := by
        rcases hsmi.valueSmi with ⟨-, hbits, -⟩ | ⟨-, hbits, -⟩
        · rw [hbits]
          omega
        · rw [hbits]
          omega
      rw [Config.toSigned, if_pos hlt, Int.toNat_of_nonneg h0]
    · rw [hread, h'.read_of_nonneg (hcfg ▸ hsmi) h0 hhigh]
    · obtain rfl := Option.some.inj (hread.symm.trans hw)
      exact hsentinel
    · obtain rfl := Option.some.inj (hread.symm.trans hw)
      unfold jsfuncLineno
      rw [if_pos hundef, ← hsentinel, ← positionText_eq_unknown_iff]
      simp only [Option.some.injEq, Prod.mk.injEq, true_and, and_true]
      exact Iff.rfl
    · have htokpos : fip.tokenpos = n.toNat := Option.some.inj (hw.symm.trans hread)
      unfold v8funcinfoDefinitionLocation
      dsimp only
      rw [if_pos hends, htokpos, ← hsentinel, ← sprintf_positionText_iff _ n.toNat hroom]
      simp only [Option.some.injEq, Prod.mk.injEq, true_and]

end Maybesmi

/-- The small integers of the configurations of the examples. -/
theorem Config.v8Smis_sample (model : DataModel) : (Config.sample model).V8Smis := by
  cases model <;> exact ⟨rfl, rfl, rfl⟩

/-- A 64-bit target with one word of memory. -/
def maybesmiTarget (w : ℕ) : Target := Target.ofWords (Config.sample .lp64) [(0x1000, w)]

theorem maybesmiTarget_stores_ten : StoresInt (maybesmiTarget 20) 0x1001 (-1) 10 :=
  .low rfl (by decide) (by decide +kernel)

/-- The position ten, in the low half of a word, is read as it has been stored. -/
theorem maybesmiExact_iff_ten :
    MaybesmiExact (maybesmiTarget 20) 0x1001 (-1) 10 ↔ (0 : ℤ) ≤ 10 :=
  maybesmiExact_iff (Config.v8Smis_sample .lp64) maybesmiTarget_stores_ten (by decide) (by decide)

/-- An unknown position in the low half of a word is not recognised. -/
theorem not_maybesmiExact_unknown :
    ¬ MaybesmiExact (maybesmiTarget 0xfffffffe) 0x1001 (-1) (-1) := by
  intro hexact
  have hread : (maybesmiTarget 0xfffffffe).readHeapMaybesmi 0x1001 (-1) = some 0x7fffffff := by
    decide +kernel
  exact absurd ((hexact.sentinel _ hread).mpr rfl) (by decide)

end MdbV8
