import MdbV8.Arrays.FixedArray
import MdbV8.Functions.FuncInfo

/-!
# Where a function is defined

The position of a function in its script is printed as the number of a line, if V8 has computed the
table of the line endings of the script, and as a position otherwise. There are two functions for
this: `jsfuncLineno` of `mdb_v8.c` and `v8funcinfoDefinitionLocation` of `mdb_v8_function.c`. Both
look for the line by the same binary search, with the encoded position; they differ in what they do
about a table without entries (`locationsAgree_iff`).

A read outside the table, or a search that does not come to an end, has the result `none`.
-/

namespace MdbV8

/-! ### The search -/

/-- The loop of the binary search: the index of the first line that does not end before `tokpos`. -/
def lineSearchLoop (data : List ℕ) (tokpos : ℕ) : ℕ → ℕ → ℕ → ℕ → Option ℕ
  | 0, _, _, _ => none
  | fuel + 1, lower, upper, ii =>
    if upper ≥ 1 then
      let ii' := (lower + upper) >>> 1
      match data[ii']? with
      | none => none
      | some x =>
        if tokpos > x then lineSearchLoop data tokpos fuel (ii' + 1) upper ii'
        else
          match if ii' = 0 then none else data[ii' - 1]? with
          | none => none
          | some y =>
            if tokpos ≤ y then lineSearchLoop data tokpos fuel lower (ii' - 1) ii' else some ii'
    else some ii

/-- The search in a table of some size, with the text that is printed and the line. -/
def lineSearch (data : List ℕ) (size tokpos : ℕ) : Option (List UInt8 × ℤ) :=
  let upper := size - 1
  match data[upper]?, data[0]? with
  | some last, some first =>
    if tokpos > last then some (bytesOf "position out of range", 0)
    else if tokpos ≤ first then some (bytesOf "line 1", 1)
    else
      (lineSearchLoop data tokpos size 0 upper 0).map fun ii =>
        (bytesOf "line " ++ fmtD (ii + 1), toInt32 (ii + 1))
  | _, _ => none

/-- A position is behind the end of the line before a line, and not behind the end of that line. -/
def InLine (data : List ℕ) (tokpos i : ℕ) : Prop :=
  1 ≤ i ∧ (∃ x, data[i - 1]? = some x ∧ x < tokpos) ∧ ∃ y, data[i]? = some y ∧ tokpos ≤ y

/-- **The search comes to an end inside the table**, at a line with the position in it: the position is
behind every line that has been ruled out from below, and not behind the last of those that are left.
The table need not be in order for this. -/
theorem lineSearchLoop_spec {data : List ℕ} {tokpos lower upper ii fuel : ℕ}
    (hlu : lower ≤ upper) (hupper : ∃ x, data[upper]? = some x ∧ tokpos ≤ x)
    (hlower : lower = 0 ∨ ∃ x, data[lower - 1]? = some x ∧ x < tokpos)
    (hfirst : ∃ x, data[0]? = some x ∧ x < tokpos) (hfuel : upper - lower < fuel) :
    ∃ i, lineSearchLoop data tokpos fuel lower upper ii = some i ∧ InLine data tokpos i := by
  induction fuel generalizing lower upper ii with
  | zero => omega
  | succ fuel ih =>
    have hmid : (lower + upper) >>> 1 = (lower + upper) / 2 := Nat.shiftRight_one _
    obtain ⟨last, hlast, hle⟩ := hupper
    have hlen : upper < data.length := by
      obtain ⟨h, -⟩ := List.getElem?_eq_some_iff.mp hlast
      exact h
    rw [lineSearchLoop]
    split
    · dsimp only
      rw [hmid]
      generalize hm : (lower + upper) / 2 = m
      have hmlt : m < data.length := by omega
      rw [List.getElem?_eq_getElem hmlt]
      dsimp only
      split
      · next hgt =>
        -- the line in the middle ends before the position, so it is not the last one
        have hne : m ≠ upper := by
          rintro rfl
          rw [List.getElem?_eq_getElem hmlt] at hlast
          have := Option.some.inj hlast
          omega
        refine ih (by omega) ⟨last, hlast, hle⟩ (.inr ⟨data[m], ?_, hgt⟩) (by omega)
        rw [Nat.add_sub_cancel, List.getElem?_eq_getElem hmlt]
      · next hgt =>
        -- the first line ends before the position, so it is not the one in the middle
        have hm0 : m ≠ 0 := by
          rintro rfl
          obtain ⟨x, hx, hlt⟩ := hfirst
          rw [List.getElem?_eq_getElem hmlt] at hx
          have := Option.some.inj hx
          omega
        have hmlt' : m - 1 < data.length := by omega
        rw [if_neg hm0, List.getElem?_eq_getElem hmlt']
        dsimp only
        split
        · next hle' =>
          have hne : m ≠ lower := by
            rintro rfl
            rcases hlower with h0 | ⟨x, hx, hlt⟩
            · exact hm0 h0
            · rw [List.getElem?_eq_getElem hmlt'] at hx
              have := Option.some.inj hx
              omega
          exact ih (by omega) ⟨data[m - 1], List.getElem?_eq_getElem hmlt', hle'⟩ hlower (by omega)
        · next hgt' =>
          refine ⟨m, rfl, Nat.one_le_iff_ne_zero.mpr hm0, ?_, ?_⟩
          · exact ⟨data[m - 1], List.getElem?_eq_getElem hmlt', Nat.not_le.mp hgt'⟩
          · exact ⟨data[m], List.getElem?_eq_getElem hmlt, Nat.not_lt.mp hgt⟩
    · next hnot =>
      -- the first line would be the last one
      obtain rfl : upper = 0 := by omega
      obtain ⟨x, hx, hlt⟩ := hfirst
      rw [hx] at hlast
      have := Option.some.inj hlast
      omega

/-- What the search in a whole table comes to. -/
inductive Searched (data : List ℕ) (tokpos : ℕ) : Option (List UInt8 × ℤ) → Prop
  | behind {last : ℕ} : data[data.length - 1]? = some last → last < tokpos →
    Searched data tokpos (some (bytesOf "position out of range", 0))
  | first {last first : ℕ} : data[data.length - 1]? = some last → tokpos ≤ last →
    data[0]? = some first → tokpos ≤ first → Searched data tokpos (some (bytesOf "line 1", 1))
  | line {last i : ℕ} : data[data.length - 1]? = some last → tokpos ≤ last →
    InLine data tokpos i →
    Searched data tokpos (some (bytesOf "line " ++ fmtD (i + 1), toInt32 (i + 1)))

/-- **The search reads nothing outside a table that is not empty**, and comes to one of three ends. -/
theorem lineSearch_spec {data : List ℕ} (hdata : data ≠ []) (tokpos : ℕ) :
    Searched data tokpos (lineSearch data data.length tokpos) := by
  have hpos := List.length_pos_iff.mpr hdata
  have hupper : data.length - 1 < data.length := by omega
  have hlast := List.getElem?_eq_getElem hupper
  have hfirst := List.getElem?_eq_getElem hpos
  unfold lineSearch
  dsimp only
  rw [hlast, hfirst]
  dsimp only
  split
  · next hbehind => exact .behind hlast hbehind
  split
  · next hle hone => exact .first hlast (Nat.not_lt.mp hle) hfirst hone
  · next hle hone =>
    have hloop : ∃ i, lineSearchLoop data tokpos data.length 0 (data.length - 1) 0 = some i ∧
        InLine data tokpos i :=
      lineSearchLoop_spec (Nat.zero_le _) ⟨_, hlast, by omega⟩ (.inl rfl) ⟨_, hfirst, by omega⟩
        (by omega)
    obtain ⟨i, hi, hline⟩ := hloop
    rw [hi]
    exact .line hlast (Nat.not_lt.mp hle) hline

theorem lineSearch_isSome {data : List ℕ} (hdata : data ≠ []) (tokpos : ℕ) :
    (lineSearch data data.length tokpos).isSome := by
  have hspec := lineSearch_spec hdata tokpos
  generalize lineSearch data data.length tokpos = r at hspec ⊢
  cases hspec <;> rfl

/-! ### The two functions -/

section Location

variable (t : Target)

/-- The text for a script without a table of line endings. -/
def positionText (tokpos decoded : ℕ) : List UInt8 :=
  if tokpos = t.cfg.valueSmi (2 ^ t.cfg.bits - 1) then bytesOf "unknown position"
  else bytesOf "position " ++ fmtD decoded

/-- `jsfunc_lineno`, of an encoded position: what it returns, the text, which is shorter than the
buffers it is printed into, and the number of the line. -/
def jsfuncLineno (lendsp tokpos : ℕ) : Option (ℤ × List UInt8 × ℤ) :=
  let c := t.cfg
  if jsobjIsUndefined t lendsp then some (0, positionText t tokpos (c.smiValue tokpos), 0)
  else
    match t.readHeapSmi lendsp c.offFixedarrayLength with
    | none => some (-1, [], -1)
    | some size =>
      let bufsz := size * c.ptrSize % 2 ^ c.bits
      if !Allocator.unlimited.gives bufsz then some (-1, [], -1)
      else
        match t.mdbVread bufsz (c.add lendsp c.offFixedarrayData) with
        | none => some (-1, [], -1)
        | some bs =>
          (lineSearch (Target.wordsOf c.ptrSize bs) size tokpos).map fun r => (0, r.1, r.2)

/-- `v8funcinfo_definition_location`. -/
def v8funcinfoDefinitionLocation (fip : V8Funcinfo) (strb : Strbuf) (_flags : ℕ) :
    Option (ℤ × Strbuf) :=
  let tokpos := t.cfg.valueSmi fip.tokenpos
  if fip.lineEndings = 0 then
    some (0, mdbv8StrbufSprintf strb (positionText t tokpos fip.tokenpos))
  else
    match v8fixedarrayLoad t fip.lineEndings with
    | none => some (-1, strb)
    | some arrayp =>
      if v8fixedarrayLength arrayp = 0 then
        some (0, mdbv8StrbufSprintf strb (bytesOf "position out of range"))
      else
        match v8fixedarrayAsArray t arrayp with
        | none => some (-1, strb)
        | some data =>
          (lineSearch data (v8fixedarrayLength arrayp) tokpos).map fun r =>
            (0, mdbv8StrbufSprintf strb r.1)

/-! ### Their agreement -/

/-- A position that has been read and decoded. -/
def IsTokenpos (tokenpos : ℕ) : Prop :=
  ∃ funcinfo off, t.readHeapMaybesmi funcinfo off = some tokenpos

/-- The table of the line endings is undefined, or a `FixedArray` that can be read. -/
inductive IsLineEnds (lineends : ℕ) : Option ℕ → Prop
  | undefined : jsobjIsUndefined t lineends = true → IsLineEnds lineends none
  | table {arrayp : V8FixedArray} {bs : List UInt8} : lineends ≠ 0 →
    jsobjIsUndefined t lineends = false → v8fixedarrayLoad t lineends = some arrayp →
    Readable t arrayp bs → IsLineEnds lineends (some arrayp.nelts)

/-- For a function at a position in a script with a table of line endings, the two functions return
the same and print the same text, and none of them reads outside the table. -/
def LocationsAgree (tokenpos lineends : ℕ) : Prop :=
  ∀ (fip : V8Funcinfo) (strb : Strbuf) (flags : ℕ), fip.tokenpos = tokenpos →
    fip.lineEndings = (if jsobjIsUndefined t lineends then 0 else lineends) →
    ∃ rv text lineno,
      jsfuncLineno t lineends (t.cfg.valueSmi tokenpos) = some (rv, text, lineno) ∧
        v8funcinfoDefinitionLocation t fip strb flags =
          some (rv, if rv = 0 then mdbv8StrbufSprintf strb text else strb)

variable {t}

/-- Decoding an encoded word takes away the bits that do not fit beside the tag. -/
theorem smiValue_valueSmi {c : Config} (hshift : c.smiShift ≤ c.bits) (v : ℕ) :
    c.smiValue (c.valueSmi v) = v % 2 ^ (c.bits - c.smiShift) := by
  have hsplit : 2 ^ c.bits = 2 ^ (c.bits - c.smiShift) * 2 ^ c.smiShift := by
    rw [← pow_add, Nat.sub_add_cancel hshift]
  rw [Config.smiValue, Config.valueSmi, Nat.shiftLeft_eq, hsplit, Nat.mul_mod_mul_right,
    Nat.shiftRight_eq_div_pow, Nat.mul_div_cancel _ (by positivity)]

/-- `%d` looks at 32 bits, so the decoding of an encoded position is printed as the position. -/
theorem fmtD_smiValue {tokenpos : ℕ} (h : IsTokenpos t tokenpos) (hshift : t.cfg.smiShift ≤ 32) :
    fmtD (t.cfg.smiValue (t.cfg.valueSmi tokenpos)) = fmtD tokenpos := by
  suffices hmod : t.cfg.smiValue (t.cfg.valueSmi tokenpos) % 2 ^ 32 = tokenpos % 2 ^ 32 by
    unfold fmtD toInt32
    rw [hmod]
  obtain ⟨funcinfo, off, hread⟩ := h
  unfold Target.readHeapMaybesmi at hread
  cases hmodel : t.cfg.model with
  | ilp32 =>
    have hbits : t.cfg.bits = 32 := by rw [Config.bits, hmodel]; rfl
    rw [smiValue_valueSmi (by rwa [hbits])]
    -- the position has been read from an SMI, so it fits beside the tag
    simp only [hmodel, Target.readHeapSmi] at hread
    split at hread
    · cases hread
    · next w hw =>
      have hlt := Target.readPtr_lt hw
      split at hread
      · obtain rfl := Option.some.inj hread
        have hfit : t.cfg.smiValue w < 2 ^ (t.cfg.bits - t.cfg.smiShift) := by
          rw [Config.smiValue, Nat.shiftRight_eq_div_pow, Nat.div_lt_iff_lt_mul (by positivity),
            ← pow_add, Nat.sub_add_cancel (by rwa [hbits])]
          exact hlt
        rw [Nat.mod_eq_of_lt hfit]
      · cases hread
  | lp64 =>
    have hbits : t.cfg.bits = 64 := by rw [Config.bits, hmodel]; rfl
    rw [smiValue_valueSmi (by omega), hbits]
    exact Nat.mod_mod_of_dvd _ (pow_dvd_pow 2 (by omega))

theorem load_eq {lineends : ℕ} {arrayp : V8FixedArray}
    (h : v8fixedarrayLoad t lineends = some arrayp) :
    arrayp.addr = lineends ∧
      t.readHeapSmi lineends t.cfg.offFixedarrayLength = some arrayp.nelts := by
  unfold v8fixedarrayLoad at h
  split at h
  · cases h
  split at h
  · cases h
  split at h
  · cases h
  · obtain ⟨nelts, hnelts, rfl⟩ := Option.map_eq_some_iff.mp h
    exact ⟨rfl, hnelts⟩

/-- What `jsfuncLineno` does with a table that can be read. -/
theorem jsfuncLineno_table {lineends tokpos : ℕ} {arrayp : V8FixedArray} {bs : List UInt8}
    (hdef : jsobjIsUndefined t lineends = false) (hload : v8fixedarrayLoad t lineends = some arrayp)
    (hread : Readable t arrayp bs) :
    jsfuncLineno t lineends tokpos =
      if arrayp.nelts * t.cfg.ptrSize % 2 ^ t.cfg.bits = 0 then some (-1, [], -1)
      else
        (lineSearch (Target.wordsOf t.cfg.ptrSize bs) arrayp.nelts tokpos).map fun r =>
          (0, r.1, r.2) := by
  obtain ⟨haddr, hlen⟩ := load_eq hload
  unfold jsfuncLineno
  simp only [hdef, Bool.false_eq_true, if_false, hlen, Allocator.unlimited_refuses_iff]
  split
  · rfl
  · next hne =>
    -- a size that is not zero has not been reduced
    have hle := (Target.mdbVread_eq_some_iff.mp hread).1
    have hlt : arrayp.nelts * t.cfg.ptrSize < 2 ^ t.cfg.bits := by
      refine lt_of_le_of_ne (by omega) fun heq => hne ?_
      rw [heq, Nat.mod_self]
    rw [Readable, haddr] at hread
    rw [Nat.mod_eq_of_lt hlt, hread]

/-- **When the two functions agree on a position**: always, unless the table of the line endings has
no entries. -/
theorem locationsAgree_iff {tokenpos lineends : ℕ} {n : Option ℕ} (hpos : IsTokenpos t tokenpos)
    (hlends : IsLineEnds t lineends n) (hshift : t.cfg.smiShift ≤ 32) :
    LocationsAgree t tokenpos lineends ↔ n ≠ some 0 := by
  unfold LocationsAgree
  cases hlends with
  | undefined hundef =>
    -- without a table, both print a position
    refine iff_of_true (fun fip strb flags htok hends => ?_) (Option.some_ne_none 0).symm
    rw [hundef, if_pos rfl] at hends
    unfold jsfuncLineno v8funcinfoDefinitionLocation
    simp only [hundef, hends, htok, if_true]
    refine ⟨_, _, _, rfl, ?_⟩
    rw [if_pos rfl, positionText, positionText, fmtD_smiValue hpos hshift]
  | @table arrayp bs hnull hdef hload hread =>
    have hlineno := @jsfuncLineno_table t lineends (t.cfg.valueSmi tokenpos) _ _ hdef hload hread
    rw [hdef, hlineno]
    simp only [Bool.false_eq_true, if_false, ne_eq, Option.some.injEq]
    constructor
    · -- for an empty table the one fails, and the other one prints a text
      intro hagree h0
      obtain ⟨rv, text, lineno, hone, htwo⟩ := hagree ⟨0, 0, 0, 0, 0, tokenpos, lineends⟩
        (mdbv8StrbufInit { bytes := fun _ => 0 } 0 0) 0 rfl rfl
      rw [h0, Nat.zero_mul, Nat.zero_mod, if_pos rfl] at hone
      obtain ⟨rfl, -⟩ := Prod.mk.inj (Option.some.inj hone)
      simp [v8funcinfoDefinitionLocation, hnull, hload, v8fixedarrayLength, h0] at htwo
    · -- with a table that has entries, both search it
      intro hn fip strb flags htok hends
      unfold v8funcinfoDefinitionLocation v8fixedarrayLength
      simp only [hends, hnull, hload, htok, hn, if_false]
      have harray : v8fixedarrayAsArray t arrayp =
          if arrayp.nelts * t.cfg.ptrSize % 2 ^ t.cfg.bits = 0 then none
          else some (Target.wordsOf t.cfg.ptrSize bs) := by
        unfold v8fixedarrayAsArray
        rw [if_neg hn]
        simp only [Allocator.unlimited_refuses_iff]
        split
        · rfl
        · next hne =>
          have hle := (Target.mdbVread_eq_some_iff.mp hread).1
          have hlt : arrayp.nelts * t.cfg.ptrSize < 2 ^ t.cfg.bits := by
            refine lt_of_le_of_ne (by omega) fun heq => hne ?_
            rw [heq, Nat.mod_self]
          rw [Readable] at hread
          rw [Nat.mod_eq_of_lt hlt, hread]
          rfl
      rw [harray]
      by_cases hwrap : arrayp.nelts * t.cfg.ptrSize % 2 ^ t.cfg.bits = 0
      · rw [if_pos hwrap, if_pos hwrap]
        exact ⟨_, _, _, rfl, rfl⟩
      · rw [if_neg hwrap, if_neg hwrap]
        have hlen := hread.length_words
        have hne : Target.wordsOf t.cfg.ptrSize bs ≠ [] :=
          List.ne_nil_of_length_pos (by omega)
        have hsome := lineSearch_isSome hne (t.cfg.valueSmi tokenpos)
        rw [hlen] at hsome
        obtain ⟨⟨text, lineno⟩, hr⟩ := Option.isSome_iff_exists.mp hsome
        refine ⟨0, text, lineno, by rw [hr]; rfl, ?_⟩
        dsimp only
        rw [hr]
        rfl

end Location

/-- A target with a table of the line endings 10 and 20 at `0x1001`, one without entries at `0x1101`,
and the position 15 at `0x3000`. -/
def lineEndsTarget : Target :=
  .ofWords (.sample .lp64)
    [(0x1000, 0x2001), (0x1008, 2 <<< 32), (0x1010, 10 <<< 32), (0x1018, 20 <<< 32),
      (0x2010, 0xa3), (0x1100, 0x2001), (0x1108, 0), (0x3000, 15 <<< 1)]

/-- The two functions agree on position 15, which is in line 2. -/
theorem locationsAgree_two : LocationsAgree lineEndsTarget 15 0x1001 := by
  have hpos : IsTokenpos lineEndsTarget 15 := ⟨0x3001, -1, by decide⟩
  have hread : Readable lineEndsTarget ⟨0x1001, 2⟩
      [0, 0, 0, 0, 10, 0, 0, 0, 0, 0, 0, 0, 20, 0, 0, 0] := by
    unfold Readable
    decide
  have hlends : IsLineEnds lineEndsTarget 0x1001 (some 2) :=
    .table (by decide) (by decide) (by decide) hread
  exact (locationsAgree_iff hpos hlends (by decide)).mpr (by decide)

example : (jsfuncLineno lineEndsTarget 0x1001 (15 <<< 32)).map (fun r => r.2.1) =
    some (bytesOf "line 2") := by decide

/-- They do not agree on a position in a script whose table has no entries. -/
theorem not_locationsAgree_empty :
    IsTokenpos lineEndsTarget 15 ∧ IsLineEnds lineEndsTarget 0x1101 (some 0) ∧
      jsfuncLineno lineEndsTarget 0x1101 (15 <<< 32) = some (-1, [], -1) ∧
      ¬ LocationsAgree lineEndsTarget 15 0x1101 := by
  have hread : Readable lineEndsTarget ⟨0x1101, 0⟩ [] := by
    unfold Readable
    decide
  have hload : v8fixedarrayLoad lineEndsTarget 0x1101 = some ⟨0x1101, 0⟩ := by decide
  have hdef : jsobjIsUndefined lineEndsTarget 0x1101 = false := by decide
  have hlineno : jsfuncLineno lineEndsTarget 0x1101 (15 <<< 32) = some (-1, [], -1) := by decide
  refine ⟨⟨0x3001, -1, by decide⟩, .table (by decide) hdef hload hread, hlineno, fun h => ?_⟩
  -- the second function prints that the position is out of range
  obtain ⟨rv, text, lineno, hone, htwo⟩ := h ⟨0, 0, 0, 0, 0, 15, 0x1101⟩
    (mdbv8StrbufInit { bytes := fun _ => 0 } 0 0) 0 rfl (by rw [hdef]; rfl)
  rw [show lineEndsTarget.cfg.valueSmi 15 = 15 <<< 32 by decide, hlineno] at hone
  obtain ⟨rfl, -⟩ := Prod.mk.inj (Option.some.inj hone)
  simp [v8funcinfoDefinitionLocation, hload, v8fixedarrayLength] at htwo

end MdbV8
