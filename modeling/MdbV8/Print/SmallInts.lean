import MdbV8.Functions.Lines
import MdbV8.Functions.Maybesmi
import MdbV8.Print.Print
import MdbV8.Stack.Jsframe

/-!
# Small integers that are shown

V8 keeps a small integer in the upper bits of a word: 31 bits of a word of 32, and 32 bits of a word of
64. `V8_SMI_VALUE` shifts the word back, and does not care for the sign, as the word is an unsigned one
wherever the module shows the integer: as a value, by its type, as a date, and as the name of a property.

On a 64-bit target the conversion `%d` of the first two makes up for it, since it looks at 32 bits only
(`toInt32_smiValue`). Otherwise a negative integer is shown as a large one, and so the four places show the
same integers only if they are not negative (`showsSmi_iff`).
-/

namespace MdbV8

open Lib

namespace Config

variable (c : Config)

/-- The small integers of V8, none of which is taken for a failure. -/
structure V8SmiWords : Prop extends c.V8Smis where
  failure : c.failureTagMask = -1 ∨ (c.failureTagMask = 3 ∧ c.failureTag = 3)

/-- The bits of a word that are those of a small integer. -/
def smiBits : ℕ := c.bits - c.smiShift

/-- An integer that can be stored as a small one. -/
def IsSmiInt (v : ℤ) : Prop := -2 ^ (c.smiBits - 1) ≤ v ∧ v < 2 ^ (c.smiBits - 1)

/-- **The word that V8 stores** for a small integer. -/
def smiWord (v : ℤ) : ℕ := c.wrap (v * 2 ^ c.smiShift)

end Config

/-- **A small integer is shown as it is**, wherever it is shown, and whatever the memory is: as the value
and by the type of its word, as the value of a date, and as the name of a property in a dictionary. -/
structure ShowsSmi (c : Config) (v : ℤ) : Prop where
  value : ∀ t : Target, t.cfg = c → ∀ (fmtY : ℤ → List UInt8) {δ : Type} (D : OutDevice δ) (fuel : ℕ)
    (jsop : JsobjPrint) (out : δ),
    jsobjPrintValue t fmtY D (fuel + 1) (some (.addr (c.smiWord v))) jsop out =
      (0, jsop, D.bsnprintf (printAddrs D (some (.addr (c.smiWord v))) jsop out) (fmtInt v))
  jstype : ∀ t : Target, t.cfg = c → ∀ o : OutBuf, objJstype t (c.smiWord v) o =
    some (0, bsnprintf o (bytesOf "SMI: value = " ++ fmtInt v))
  date : ∀ t : Target, t.cfg = c → ∀ addr : ℕ,
    t.readHeapPtr addr c.offJsdateValue = some (c.smiWord v) →
      jsdateNumval t addr = .ok (.finite v 0)
  key : ∀ t : Target, t.cfg = c → ∀ name : List UInt8,
    dictKey t (c.smiWord v) = .name name → name = fmtInt v

section SmallInts

variable {c : Config} {v : ℤ}

/-! ### The word of a small integer -/

/-- The two kinds of targets. -/
theorem Config.V8Smis.cases (h : c.V8Smis) :
    (c.bits = 32 ∧ c.smiShift = 1 ∧ c.smiBits = 31) ∨
      (c.bits = 64 ∧ c.smiShift = 32 ∧ c.smiBits = 32) := by
  have hshift := h.shift
  unfold Config.smiBits Config.bits
  cases hmodel : c.model with
  | ilp32 =>
    simp only [hmodel] at hshift
    exact .inl ⟨rfl, hshift, by rw [hshift]; rfl⟩
  | lp64 =>
    simp only [hmodel] at hshift
    exact .inr ⟨rfl, hshift, by rw [hshift]; rfl⟩

/-- A small integer is even, as a word. -/
theorem smiWord_even (h : c.V8Smis) (v : ℤ) : c.smiWord v % 2 = 0 := by
  unfold Config.smiWord Config.wrap
  rcases h.cases with ⟨hbits, hshift, -⟩ | ⟨hbits, hshift, -⟩
  · rw [hbits, hshift]
    omega
  · rw [hbits, hshift]
    omega

theorem isSmi_smiWord (h : c.V8Smis) (v : ℤ) : c.isSmi (c.smiWord v) = true := by
  have hmask : c.wrap c.smiTagMask = 1 := by
    rw [h.mask]
    exact c.wrap_small (by decide : 1 < 2 ^ 32)
  have htag : c.wrap c.smiTag = 0 := by
    rw [h.tag]
    exact c.wrap_small (by decide : 0 < 2 ^ 32)
  unfold Config.isSmi Config.tagged
  rw [hmask, htag, beq_iff_eq, Nat.and_one_is_mod]
  exact smiWord_even h v

theorem isFailure_smiWord (h : c.V8SmiWords) (v : ℤ) : c.isFailure (c.smiWord v) = false := by
  unfold Config.isFailure
  rcases h.failure with hmask | ⟨hmask, htag⟩
  · rw [hmask]
    rfl
  · have hwrap : c.wrap 3 = 3 := c.wrap_small (by decide : 3 < 2 ^ 32)
    have heven := smiWord_even h.toV8Smis v
    unfold Config.tagged
    rw [hmask, htag, hwrap, Bool.and_eq_false_iff]
    right
    -- the lowest bit of the tag is set
    rw [beq_eq_false_iff_ne, show (3 : ℕ) = 2 ^ 2 - 1 from rfl, Nat.and_two_pow_sub_one_eq_mod]
    omega

/-- **What is left of a small integer**, of which only the bits are kept. -/
theorem smiValue_smiWord (h : c.V8Smis) (v : ℤ) :
    c.smiValue (c.smiWord v) = (v % 2 ^ c.smiBits).toNat := by
  unfold Config.smiValue Config.smiWord Config.wrap
  rw [Nat.shiftRight_eq_div_pow]
  rcases h.cases with ⟨hbits, hshift, hsmi⟩ | ⟨hbits, hshift, hsmi⟩
  · rw [hbits, hshift, hsmi]
    omega
  · rw [hbits, hshift, hsmi]
    omega

/-- An integer that is not negative is all that is left. -/
theorem smiValue_of_nonneg (h : c.V8Smis) (hv : c.IsSmiInt v) (h0 : 0 ≤ v) :
    (c.smiValue (c.smiWord v) : ℤ) = v := by
  rw [smiValue_smiWord h]
  unfold Config.IsSmiInt at hv
  rcases h.cases with ⟨-, -, hsmi⟩ | ⟨-, -, hsmi⟩
  · rw [hsmi] at hv ⊢
    omega
  · rw [hsmi] at hv ⊢
    omega

/-- **The conversion `%d`** shows all of them on a 64-bit target. -/
theorem toInt32_smiValue (h : c.V8Smis) (hv : c.IsSmiInt v) (hshown : c.model = .lp64 ∨ 0 ≤ v) :
    toInt32 (c.smiValue (c.smiWord v)) = v := by
  rw [smiValue_smiWord h]
  unfold Config.IsSmiInt at hv
  unfold toInt32
  rcases h.cases with ⟨hbits, -, hsmi⟩ | ⟨hbits, -, hsmi⟩
  · rw [hsmi] at hv ⊢
    have h0 : 0 ≤ v := by
      rcases hshown with hmodel | h0
      · rw [Config.bits, hmodel] at hbits
        cases hbits
      · exact h0
    split <;> omega
  · rw [hsmi] at hv ⊢
    split <;> omega

/-- As a signed word, what is left is the same. -/
theorem toSigned_smiValue (h : c.V8Smis) (v : ℤ) :
    c.toSigned (c.smiValue (c.smiWord v)) = c.smiValue (c.smiWord v) := by
  rw [Config.toSigned, if_pos]
  rw [smiValue_smiWord h]
  rcases h.cases with ⟨hbits, -, hsmi⟩ | ⟨hbits, -, hsmi⟩
  · rw [hbits, hsmi]
    omega
  · rw [hbits, hsmi]
    omega

/-! ### The texts -/

/-- A number can be told from its text, with its sign. -/
theorem fmtInt_injective : Function.Injective fmtInt := by
  intro x y hxy
  unfold fmtInt at hxy
  have hsign {n : ℕ} {bs : List UInt8} (h : fmtNat 10 n = 45 :: bs) : False :=
    ne_sign_of_mem_fmtNat (h ▸ List.mem_cons_self) rfl
  split at hxy
  · split at hxy
    · have habs := fmtNat_ten_injective (List.cons.inj hxy).2
      omega
    · exact (hsign hxy.symm).elim
  · split at hxy
    · exact (hsign hxy).elim
    · have habs := fmtNat_ten_injective hxy
      omega

/-- The text of what is left of a small integer fits a buffer. -/
theorem smiKeyName_eq (h : c.V8Smis) (v : ℤ) :
    smiKeyName c (c.smiWord v) = fmtInt (c.smiValue (c.smiWord v)) := by
  unfold smiKeyName
  rw [toSigned_smiValue h]
  refine List.take_of_length_le ?_
  have hlt : c.smiValue (c.smiWord v) < 10 ^ 10 := by
    rw [smiValue_smiWord h]
    rcases h.cases with ⟨-, -, hsmi⟩ | ⟨-, -, hsmi⟩
    · rw [hsmi]
      omega
    · rw [hsmi]
      omega
  rw [fmtInt_natCast, fmtNat, List.length_map]
  exact ((Nat.length_toDigits_le_iff (by decide) (by decide)).mpr hlt).trans (by decide)

variable {t : Target}

/-- What is printed for the word of a small integer. -/
theorem jsobjPrintValue_smiWord (h : t.cfg.V8Smis) (v : ℤ) (fmtY : ℤ → List UInt8) {δ : Type}
    (D : OutDevice δ) (fuel : ℕ) (jsop : JsobjPrint) (out : δ) :
    jsobjPrintValue t fmtY D (fuel + 1) (some (.addr (t.cfg.smiWord v))) jsop out =
      (0, jsop, D.bsnprintf (printAddrs D (some (.addr (t.cfg.smiWord v))) jsop out)
        (fmtD (t.cfg.smiValue (t.cfg.smiWord v)))) := by
  unfold jsobjPrintValue
  dsimp only
  unfold jsobjPrintWord valueAddr
  rw [if_pos (isSmi_smiWord h v)]

/-- What is printed about its type. -/
theorem objJstype_smiWord (h : t.cfg.V8SmiWords) (v : ℤ) (o : OutBuf) :
    objJstype t (t.cfg.smiWord v) o =
      some (0, bsnprintf o (bytesOf "SMI: value = " ++ fmtD (t.cfg.smiValue (t.cfg.smiWord v)))) := by
  unfold objJstype
  dsimp only
  rw [isFailure_smiWord h, if_neg Bool.false_ne_true, if_pos (isSmi_smiWord h.toV8Smis v)]

/-- What a date is taken for. -/
theorem jsdateNumval_smiWord (h : t.cfg.V8Smis) {addr : ℕ}
    (hread : t.readHeapPtr addr t.cfg.offJsdateValue = some (t.cfg.smiWord v)) :
    jsdateNumval t addr = .ok (.ofNat (t.cfg.smiValue (t.cfg.smiWord v))) := by
  unfold jsdateNumval
  dsimp only
  rw [hread]
  dsimp only
  rw [if_pos (isSmi_smiWord h v)]

/-- The name of a property, unless the word is taken for the address of an oddball. -/
theorem dictKey_smiWord (h : t.cfg.V8Smis) (v : ℤ) :
    dictKey t (t.cfg.smiWord v) =
      if jsobjIsUndefined t (t.cfg.smiWord v) then .skip
      else .name (fmtInt (t.cfg.smiValue (t.cfg.smiWord v))) := by
  unfold dictKey
  rw [if_pos (isSmi_smiWord h v), smiKeyName_eq h]

/-- Where nothing can be read, no word is the address of an oddball. -/
theorem jsobjIsUndefined_unreadable (c : Config) (w : ℕ) :
    jsobjIsUndefined ⟨c, fun _ => none⟩ w = false := by
  have hread (addr : ℕ) : (⟨c, fun _ => none⟩ : Target).readPtr addr = none := by
    unfold Target.readPtr Target.mdbVread
    rcases c.model.ptrSize_cases with ⟨-, hsize, -⟩ | ⟨-, hsize, -⟩
    · rw [Config.ptrSize, hsize]
      split <;> rfl
    · rw [Config.ptrSize, hsize]
      split <;> rfl
  unfold jsobjIsUndefined jsobjIsOddball Target.readTypebyte
  rw [hread]

/-- **Which small integers are shown as they are**: those that are not negative. -/
theorem showsSmi_iff (h : c.V8SmiWords) (hv : c.IsSmiInt v) : ShowsSmi c v ↔ 0 ≤ v := by
  constructor
  · intro hshows
    -- a key is shown as what is left by a shift without a sign
    have hname := dictKey_smiWord (t := ⟨c, fun _ => none⟩) h.toV8Smis v
    rw [jsobjIsUndefined_unreadable, if_neg Bool.false_ne_true] at hname
    have hvalue := fmtInt_injective (hshows.key ⟨c, fun _ => none⟩ rfl _ hname)
    rw [← hvalue]
    exact Int.natCast_nonneg _
  · intro h0
    -- the conversion to `int` changes nothing
    have hprinted := toInt32_smiValue h.toV8Smis hv (.inr h0)
    have hleft := smiValue_of_nonneg h.toV8Smis hv h0
    refine ⟨?_, ?_, ?_, ?_⟩
    · rintro t rfl fmtY δ D fuel jsop out
      rw [jsobjPrintValue_smiWord h.toV8Smis, fmtD, hprinted]
    · rintro t rfl o
      rw [objJstype_smiWord h, fmtD, hprinted]
    · rintro t rfl addr hread
      rw [jsdateNumval_smiWord h.toV8Smis hread, CDouble.ofNat, hleft]
    · rintro t rfl name hname
      rw [dictKey_smiWord h.toV8Smis, hleft] at hname
      split at hname
      · cases hname
      · cases hname
        rfl

end SmallInts

/-! ### Minus one -/

/-- The small integers of the configurations of the examples. -/
theorem v8SmiWords_sample (model : DataModel) : (Config.sample model).V8SmiWords :=
  ⟨Config.v8Smis_sample model, .inr ⟨rfl, rfl⟩⟩

theorem showsSmi_iff_seven : ShowsSmi (Config.sample .ilp32) 7 ↔ (0 : ℤ) ≤ 7 :=
  showsSmi_iff (v8SmiWords_sample .ilp32) ⟨by decide, by decide⟩

/-- As a key, minus one is a large number on both kinds of targets. -/
theorem not_showsSmi_neg_one :
    ¬ ShowsSmi (Config.sample .ilp32) (-1) ∧ ¬ ShowsSmi (Config.sample .lp64) (-1) := by
  constructor
  · intro hshows
    have hname := hshows.key (.ofWords (Config.sample .ilp32) []) rfl (bytesOf "2147483647")
      (by decide +kernel)
    exact absurd hname (by decide)
  · intro hshows
    have hname := hshows.key (.ofWords (Config.sample .lp64) []) rfl (bytesOf "4294967295")
      (by decide +kernel)
    exact absurd hname (by decide)

end MdbV8
