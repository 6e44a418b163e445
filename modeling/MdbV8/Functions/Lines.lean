import MdbV8.Functions.Location

/-!
# Lines of a table

What the search for a line prints (`lineSearch`), for any table of line endings that is not empty and for
any position, which is encoded as the line endings are. The line that the search comes to has the position
in it, whether the table is in order or not, and if it is in order, no other line has. But the number of
the line is a word that is printed with `%d`, so that the lines from `2 ^ 31` on are printed as negative
numbers. This is the only way in which the search prints a wrong line (`searchesLines_iff`), and it takes a
position in one of these lines.
-/

namespace MdbV8

/-! ### Printed numbers -/

theorem toNat_of_isDigit {c : Char} (h : c.isDigit = true) : 48 ≤ c.toNat ∧ c.toNat ≤ 57 := by
  unfold Char.isDigit at h
  simp only [ge_iff_le, Bool.and_eq_true, decide_eq_true_eq] at h
  exact h

/-- There is no sign among the digits of a number. -/
theorem ne_sign_of_mem_fmtNat {n : ℕ} {b : UInt8} (hb : b ∈ fmtNat 10 n) : b ≠ 45 := by
  obtain ⟨c, hc, rfl⟩ := List.mem_map.mp hb
  obtain ⟨hlo, hhi⟩ := toNat_of_isDigit (Nat.isDigit_of_mem_toDigits (by decide) (by decide) hc)
  intro h
  have hval := congrArg UInt8.toNat h
  have h45 : (45 : UInt8).toNat = 45 := rfl
  rw [UInt8.toNat_ofNat', Nat.mod_eq_of_lt (by omega), h45] at hval
  omega

/-- A number can be told from its digits. -/
theorem fmtNat_ten_injective : Function.Injective (fmtNat 10) := by
  have hback : ∀ n, (fmtNat 10 n).map (fun b => Char.ofNat b.toNat) = Nat.toDigits 10 n := by
    intro n
    rw [fmtNat, List.map_map]
    refine (List.map_congr_left fun c hc => ?_).trans (List.map_id _)
    obtain ⟨-, hhi⟩ := toNat_of_isDigit (Nat.isDigit_of_mem_toDigits (by decide) (by decide) hc)
    change Char.ofNat (UInt8.ofNat c.toNat).toNat = c
    rw [UInt8.toNat_ofNat', Nat.mod_eq_of_lt (by omega), Char.ofNat_toNat]
  intro m n h
  have hdigits := congrArg (List.map fun b => Char.ofNat b.toNat) h
  rw [hback, hback] at hdigits
  exact Nat.repr_injective (congrArg String.ofList hdigits)

/-- What is printed for a line. -/
def lineText (k : ℕ) : List UInt8 := bytesOf "line " ++ fmtInt k

/-- What is printed with `%d` tells the line only if that is the number that has been printed. -/
theorem lineText_eq_iff {w k : ℕ} : bytesOf "line " ++ fmtD w = lineText k ↔ toInt32 w = k := by
  unfold lineText fmtD
  rw [List.append_cancel_left_eq]
  refine ⟨fun h => ?_, fun h => by rw [h]⟩
  unfold fmtInt at h
  rw [if_neg (by omega : ¬ (k : ℤ) < 0)] at h
  split at h
  · -- a sign is no digit
    exact absurd rfl (ne_sign_of_mem_fmtNat (h ▸ List.mem_cons_self))
  · have habs := fmtNat_ten_injective h
    omega

theorem outOfRange_ne_line (rest : List UInt8) :
    bytesOf "position out of range" ≠ bytesOf "line " ++ rest := by
  intro h
  have hhead := congrArg List.head? h
  revert hhead
  simp [bytesOf]

/-! ### What the search should print -/

/-- A line of a table has a position in it. The lines are counted from one. -/
def LineOf (data : List ℕ) (tokpos k : ℕ) : Prop :=
  1 ≤ k ∧ (k = 1 ∨ ∃ x, data[k - 2]? = some x ∧ x < tokpos) ∧
    ∃ y, data[k - 1]? = some y ∧ tokpos ≤ y

/-- **The search is right about a table**: for each position, encoded as an SMI, it comes to an end without
a subscript outside of the table; a line that it prints, other than the first, has the position in it; and
in a table that is in order, it prints the only line with the position in it, or that the position is out
of range if that is behind the last line. -/
def SearchesLines (c : Config) (data : List ℕ) : Prop :=
  ∀ tokenpos, ∃ text lineno, lineSearch data data.length (c.valueSmi tokenpos) = some (text, lineno) ∧
    (∀ k ≥ 2, text = lineText k → LineOf data (c.valueSmi tokenpos) k) ∧
    (data.Pairwise (· < ·) → ∀ last, data.getLast? = some last →
      (c.valueSmi tokenpos ≤ last → ∃ k, text = lineText k ∧ LineOf data (c.valueSmi tokenpos) k ∧
        ∀ k', LineOf data (c.valueSmi tokenpos) k' → k' = k) ∧
      (text = bytesOf "position out of range" ↔ last < c.valueSmi tokenpos))

/-! ### What it prints -/

variable {data : List ℕ} {tokpos : ℕ}

theorem InLine.lineOf {i : ℕ} (h : InLine data tokpos i) : LineOf data tokpos (i + 1) := by
  obtain ⟨hone, hbefore, hbehind⟩ := h
  exact ⟨by omega, .inr (by rwa [show i + 1 - 2 = i - 1 by omega]), hbehind⟩

/-- The end of a line is not behind the ends of the lines after it. -/
theorem le_of_getElem? (hsorted : data.Pairwise (· < ·)) {i j x y : ℕ} (hx : data[i]? = some x)
    (hy : data[j]? = some y) (hij : i ≤ j) : x ≤ y := by
  obtain ⟨hi, rfl⟩ := List.getElem?_eq_some_iff.mp hx
  obtain ⟨hj, rfl⟩ := List.getElem?_eq_some_iff.mp hy
  rcases Nat.eq_or_lt_of_le hij with rfl | hlt
  · exact le_rfl
  · exact (List.pairwise_iff_getElem.mp hsorted i j hi hj hlt).le

/-- In a table that is in order there is only one line with a position in it. -/
theorem LineOf.unique (hsorted : data.Pairwise (· < ·)) {k k' : ℕ} (h : LineOf data tokpos k)
    (h' : LineOf data tokpos k') : k' = k := by
  have hnot : ∀ k k', LineOf data tokpos k → LineOf data tokpos k' → ¬ k < k' := by
    rintro k k' ⟨hone, -, y, hy, hpos⟩ ⟨-, hk' | ⟨x, hx, hlt⟩, -⟩ hkk'
    · omega
    · have hle := le_of_getElem? hsorted hy hx (by omega : k - 1 ≤ k' - 2)
      omega
  have h1 := hnot k k' h h'
  have h2 := hnot k' k h' h
  omega

theorem getLast?_eq_getElem? : data.getLast? = data[data.length - 1]? :=
  List.getLast?_eq_getElem?

/-- **A line from the number `2 ^ 31` on** is not printed as such. -/
theorem lineSearch_long (hsorted : data.Pairwise (· < ·)) {k : ℕ} (hlong : 2 ^ 31 ≤ k)
    (hline : LineOf data tokpos k) {text : List UInt8} {lineno : ℤ}
    (hsearch : lineSearch data data.length tokpos = some (text, lineno)) : text ≠ lineText k := by
  obtain ⟨-, -, y, hy, hle⟩ := id hline
  obtain ⟨hk, -⟩ := List.getElem?_eq_some_iff.mp hy
  have hspec := lineSearch_spec (List.ne_nil_of_length_pos (Nat.zero_lt_of_lt hk)) tokpos
  rw [hsearch] at hspec
  intro htext
  cases hspec with
  | behind => exact outOfRange_ne_line _ htext
  | first hend hle' hfirst hone =>
    -- the first line is another one
    have hone' : LineOf data tokpos 1 := ⟨le_rfl, .inl rfl, _, hfirst, hone⟩
    have heq := hline.unique hsorted hone'
    omega
  | @line last i hend hle' hin =>
    -- the number is that of the line, but it becomes negative
    have heq := hline.unique hsorted hin.lineOf
    rw [lineText_eq_iff] at htext
    unfold toInt32 at htext
    split at htext
    · omega
    · omega

/-- **Between two words there is an encoded position** if they are decoded to different numbers, the second
of which is the larger one. -/
theorem exists_valueSmi {c : Config} {x last : ℕ} (hlast : last < 2 ^ c.bits) :
    (∃ v, x < c.valueSmi v ∧ c.valueSmi v ≤ last) ↔ c.smiValue x < c.smiValue last := by
  unfold Config.smiValue Config.valueSmi
  simp only [Nat.shiftRight_eq_div_pow, Nat.shiftLeft_eq]
  constructor
  · rintro ⟨v, hlt, hle⟩
    by_cases hshift : c.smiShift ≤ c.bits
    · -- what is left of the position is a multiple
      have hsplit : 2 ^ c.bits = 2 ^ (c.bits - c.smiShift) * 2 ^ c.smiShift := by
        rw [← pow_add, Nat.sub_add_cancel hshift]
      rw [hsplit, Nat.mul_mod_mul_right] at hlt hle
      exact ((Nat.div_lt_iff_lt_mul (Nat.two_pow_pos _)).mpr hlt).trans_le
        ((Nat.le_div_iff_mul_le (Nat.two_pow_pos _)).mpr hle)
    · -- nothing is left of it
      have hsplit : 2 ^ c.smiShift = 2 ^ (c.smiShift - c.bits) * 2 ^ c.bits := by
        rw [← pow_add, Nat.sub_add_cancel (Nat.le_of_not_le hshift)]
      rw [hsplit, ← Nat.mul_assoc, Nat.mul_mod_left] at hlt
      exact absurd hlt (Nat.not_lt_zero x)
  · intro hlt
    have hle : last / 2 ^ c.smiShift * 2 ^ c.smiShift ≤ last := Nat.div_mul_le_self _ _
    refine ⟨last / 2 ^ c.smiShift, ?_⟩
    rw [Nat.mod_eq_of_lt (hle.trans_lt hlast)]
    exact ⟨(Nat.div_lt_iff_lt_mul (Nat.two_pow_pos _)).mp hlt, hle⟩

/-- **When the search is right about a table**: unless the table is in order, and a position can be in one
of the lines from `2 ^ 31` on. The number of lines comes from an SMI, so that it has no more than 32 bits. -/
theorem searchesLines_iff {c : Config} (hdata : data ≠ []) (hlen : data.length < 2 ^ 32)
    (hwords : ∀ x ∈ data, x < 2 ^ c.bits) :
    SearchesLines c data ↔ (data.Pairwise (· < ·) → ∀ x last, data[2 ^ 31 - 2]? = some x →
      data.getLast? = some last → c.smiValue last ≤ c.smiValue x) := by
  constructor
  · intro h hsorted x last hx hlast
    by_contra hlt
    obtain ⟨v, hbehind, hle⟩ := (exists_valueSmi (hwords last (List.mem_of_getLast? hlast))).mpr
      (Nat.not_le.mp hlt)
    obtain ⟨text, lineno, hsearch, -, hright⟩ := h v
    obtain ⟨k, htext, hline, -⟩ := (hright hsorted last hlast).1 hle
    -- the line is behind the one that ends at `x`
    have hlong : 2 ^ 31 ≤ k := by
      by_contra hshort
      obtain ⟨-, -, y, hy, hle'⟩ := hline
      have hxy := le_of_getElem? hsorted hy hx (by omega)
      omega
    exact lineSearch_long hsorted hlong hline hsearch htext
  · intro hsmall tokenpos
    generalize hv : c.valueSmi tokenpos = tokpos
    have hspec := lineSearch_spec hdata tokpos
    have hpos := List.length_pos_iff.mpr hdata
    generalize hr : lineSearch data data.length tokpos = r at hspec
    cases hspec with
    | behind hend hlt =>
      refine ⟨_, _, rfl, fun k _ h => absurd h (outOfRange_ne_line _), fun _ last hlast => ?_⟩
      obtain rfl := Option.some.inj (hlast.symm.trans (getLast?_eq_getElem?.trans hend))
      exact ⟨fun hle => absurd hlt (Nat.not_lt.mpr hle), iff_of_true rfl hlt⟩
    | first hend hle hfirst hone =>
      have hline : LineOf data tokpos 1 := ⟨le_rfl, .inl rfl, _, hfirst, hone⟩
      have htext : bytesOf "line 1" = lineText 1 := by decide
      refine ⟨_, _, rfl, fun k hk h => ?_, fun hsorted last hlast => ?_⟩
      · have hone' : bytesOf "line 1" = bytesOf "line " ++ fmtD 1 := by decide
        rw [hone', lineText_eq_iff, toInt32_of_lt (by omega)] at h
        omega
      · obtain rfl := Option.some.inj (hlast.symm.trans (getLast?_eq_getElem?.trans hend))
        refine ⟨fun _ => ⟨1, htext, hline, fun k' hk' => hline.unique hsorted hk'⟩, ?_⟩
        exact iff_of_false (fun h => outOfRange_ne_line _ (h.symm.trans htext)) (Nat.not_lt.mpr hle)
    | @line last i hend hle hin =>
      obtain ⟨hi, ⟨x, hx, hlt⟩, y, hy, hle'⟩ := id hin
      have hilt : i < data.length := (List.getElem?_eq_some_iff.mp hy).1
      refine ⟨_, _, rfl, fun k hk h => ?_, fun hsorted last' hlast => ?_⟩
      · -- a printed number that is not negative is the line
        rw [lineText_eq_iff] at h
        have hk' : k = i + 1 := by
          unfold toInt32 at h
          split at h
          · omega
          · omega
        rw [hk']
        exact hin.lineOf
      · have hnone : i + 1 < 2 ^ 31 := by
          -- otherwise the position would be in one of the last lines
          by_contra hlong
          have hbefore : 2 ^ 31 - 2 < data.length := by omega
          have hend' := hsmall hsorted _ last' (List.getElem?_eq_getElem hbefore) hlast
          have hlast' : last' < 2 ^ c.bits := hwords last' (List.mem_of_getLast? hlast)
          obtain rfl := Option.some.inj (hlast.symm.trans (getLast?_eq_getElem?.trans hend))
          have hxle := le_of_getElem? hsorted (List.getElem?_eq_getElem hbefore) hx (by omega)
          have hsmi := (exists_valueSmi hlast').mp ⟨tokenpos, by rw [hv]; exact hxle.trans_lt hlt,
            by rw [hv]; exact hle⟩
          exact absurd hend' (Nat.not_le.mpr hsmi)
        obtain rfl := Option.some.inj (hlast.symm.trans (getLast?_eq_getElem?.trans hend))
        refine ⟨fun _ => ⟨i + 1, ?_, hin.lineOf, fun k' hk' => hin.lineOf.unique hsorted hk'⟩, ?_⟩
        · rw [lineText_eq_iff, toInt32_of_lt hnone]
        · exact iff_of_false (fun h => outOfRange_ne_line _ h.symm) (Nat.not_lt.mpr hle)

/-- The search is right about a table of three lines that is not in order. -/
theorem searchesLines_three : SearchesLines (.sample .lp64) [10 <<< 32, 30 <<< 32, 20 <<< 32] :=
  (searchesLines_iff (by decide) (by decide) (by decide)).mpr fun _ _ _ hx => by
    cases (List.getElem?_eq_none (by decide)).symm.trans hx

/-- It is not right about the table of the `2 ^ 31` small integers from 0 on. -/
theorem not_searchesLines_range :
    ¬ SearchesLines (.sample .lp64) ((List.range (2 ^ 31)).map (Config.sample .lp64).valueSmi) := by
  have hvalue : ∀ v < 2 ^ 31, (Config.sample .lp64).valueSmi v = v * 2 ^ 32 := by
    intro v hv
    change (v <<< 32) % 2 ^ 64 = v * 2 ^ 32
    rw [Nat.shiftLeft_eq, Nat.mod_eq_of_lt (by omega)]
  have hget : ∀ i < 2 ^ 31, ((List.range (2 ^ 31)).map (Config.sample .lp64).valueSmi)[i]? =
      some (i * 2 ^ 32) := by
    intro i hi
    rw [List.getElem?_map, List.getElem?_range hi, Option.map_some, hvalue i hi]
  have hlen : ((List.range (2 ^ 31)).map (Config.sample .lp64).valueSmi).length = 2 ^ 31 := by
    rw [List.length_map, List.length_range]
  rw [searchesLines_iff (List.ne_nil_of_length_pos (by rw [hlen]; decide)) (by rw [hlen]; decide)
    fun x hx => ?_]
  · -- the table is in order, and its last entry is another position than the one before it
    intro h
    have hsorted : ((List.range (2 ^ 31)).map (Config.sample .lp64).valueSmi).Pairwise (· < ·) := by
      rw [List.pairwise_map]
      refine List.pairwise_lt_range.imp_of_mem fun {a b} ha hb hab => ?_
      rw [hvalue a (List.mem_range.mp ha), hvalue b (List.mem_range.mp hb)]
      omega
    have hle := h hsorted _ _ (hget (2 ^ 31 - 2) (by decide))
      (getLast?_eq_getElem?.trans (by rw [hlen]; exact hget (2 ^ 31 - 1) (by decide)))
    revert hle
    decide
  · obtain ⟨v, -, rfl⟩ := List.mem_map.mp hx
    exact Nat.mod_lt _ (Nat.two_pow_pos _)

/-! ### The function that searches -/

/-- **What `v8funcinfoDefinitionLocation` prints for a table that can be read** is what the search in
it comes to. -/
theorem v8funcinfoDefinitionLocation_table {t : Target} {fip : V8Funcinfo} {arrayp : V8FixedArray}
    {bs : List UInt8} (hends : fip.lineEndings ≠ 0)
    (hload : v8fixedarrayLoad t fip.lineEndings = some arrayp) (hread : Readable t arrayp bs)
    (hn : arrayp.nelts ≠ 0) (hfits : arrayp.nelts * t.cfg.ptrSize < 2 ^ t.cfg.bits)
    (strb : Strbuf) (flags : ℕ) :
    v8funcinfoDefinitionLocation t fip strb flags =
      (lineSearch (Target.wordsOf t.cfg.ptrSize bs) arrayp.nelts
        (t.cfg.valueSmi fip.tokenpos)).map fun r => (0, mdbv8StrbufSprintf strb r.1) := by
  have harray : v8fixedarrayAsArray t arrayp = some (Target.wordsOf t.cfg.ptrSize bs) := by
    have hpos : 0 < arrayp.nelts * t.cfg.ptrSize :=
      Nat.mul_pos (Nat.pos_of_ne_zero hn) t.cfg.model.ptrSize_pos
    unfold v8fixedarrayAsArray
    rw [if_neg hn]
    simp only [Allocator.unlimited_refuses_iff]
    rw [Nat.mod_eq_of_lt hfits, if_neg hpos.ne', show t.mdbVread _ _ = some bs from hread]
    rfl
  unfold v8funcinfoDefinitionLocation v8fixedarrayLength
  simp only [hends, hload, hn, harray, if_false]

end MdbV8
