import MdbV8.Lib.Escape
import MdbV8.Strings.Truncate

/-!
# JSON output

In JSON, a string is printed between quotes, and some characters are escaped with a backslash. What is
between the quotes is an escaped text in the sense of `Lib.Escaping` (`charsText_eq_escape`), so that the
characters can be read back from it. But the quote is none of the characters that are escaped: the
source has `"\""` for it, which in C is the quote alone. A quote in the string is then a bare one in the
output, and it takes one byte less than has been announced for it.

`writesJson_iff` says that nothing else is wrong.
-/

namespace MdbV8

open Lib

/-- The character that is to be read for one of the string: a question mark for one that is not an ASCII
character, and for a control character other than the three that are escaped. -/
def jsonChar (c : ℕ) : ℕ :=
  if !isascii c then 63 else if c = 8 ∨ c = 10 ∨ c = 13 then c else if iscntrl c then 63 else c

/-- The escapes of `mdbv8_strbuf_appendc`. One for the quote is read, but not written. -/
def jsonEscapes : Escaping UInt8 where
  esc := 92
  code b :=
    if b = 8 then some 98 else if b = 10 then some 110 else if b = 13 then some 114
    else if b = 92 then some 92 else none
  decode b :=
    if b = 98 then some 8 else if b = 110 then some 10 else if b = 114 then some 13
    else if b = 92 then some 92 else if b = 34 then some 34 else none
  decode_code {a b} h := by
    split_ifs at h with h8 h10 h13 h92
    · rw [← Option.some.inj h, h8]; decide
    · rw [← Option.some.inj h, h10]; decide
    · rw [← Option.some.inj h, h13]; decide
    · rw [← Option.some.inj h, h92]; decide
  code_esc := by decide

/-- The body of a string in JSON can be decoded: a quote stands behind a backslash only, undoing the
escapes gives the characters, and it is as long as has been announced. -/
structure Decodable (strflags : ℕ) (cs : List ℕ) (body : List UInt8) : Prop where
  quotes : jsonEscapes.Shields 34 body
  chars : (jsonEscapes.unescape body).map (List.map UInt8.toNat) = some (cs.map jsonChar)
  length : body.length = (cs.map fun c => mdbv8StrbufNbytesforchar c strflags).sum

/-- `v8string_write` of a string in quotes returns zero, no assertion fails, and it appends a quote, a
body that can be decoded, and a quote. -/
def WritesJson (t : Target) (strp : V8String) (strb : Strbuf) (strflags v8flags : ℕ) (cs : List ℕ) :
    Prop :=
  let out := v8stringWrite t strp strb strflags v8flags
  out.1 = 0 ∧ out.2.mem.fault = strb.mem.fault ∧
    ∃ body, out.2.text = strb.text ++ ([34] ++ body ++ [34]) ∧ Decodable strflags cs body

/-! ### Characters -/

section Chars

variable {strflags : ℕ} (hjson : strflags &&& msfJson = msfJson)

theorem jsonChar_lt (c : ℕ) : jsonChar c < 128 := by
  unfold jsonChar isascii
  split_ifs <;> simp_all

/-- Only a quote is to be read as one. -/
theorem jsonChar_eq_quote {c : ℕ} : jsonChar c = 34 ↔ c = 34 := by
  unfold jsonChar isascii iscntrl
  split_ifs with hascii hesc hcntrl
  · simp only [Bool.not_eq_true', decide_eq_false_iff_not] at hascii
    omega
  · rfl
  · simp only [Bool.or_eq_true, decide_eq_true_eq, beq_iff_eq] at hcntrl
    omega
  · rfl

include hjson in
/-- JSON is ASCII only. -/
theorem sanitized_json (c : ℕ) : sanitized c strflags = if isascii c then c else 63 := by
  have hascii : strflags &&& msfAsciionly = msfAsciionly := by
    calc strflags &&& msfAsciionly
        = strflags &&& (msfJson &&& msfAsciionly) := rfl
      _ = msfJson &&& msfAsciionly := by rw [← Nat.and_assoc, hjson]
      _ = msfAsciionly := rfl
  unfold sanitized
  rw [hascii]
  cases isascii c <;> rfl

include hjson in
/-- A character is printed as an escaped one. -/
theorem charBytes_eq_escape (c : ℕ) :
    charBytes c strflags = jsonEscapes.escapeOne (UInt8.ofNat (jsonChar c)) := by
  have hchars : ∀ c < 128, jsonBytes c = jsonEscapes.escapeOne (UInt8.ofNat (jsonChar c)) := by
    decide
  unfold charBytes
  rw [if_pos (beq_iff_eq.mpr hjson), sanitized_json hjson]
  cases hc : isascii c with
  | true => exact hchars c (by simpa [isascii] using hc)
  | false =>
    have hchar : jsonChar c = 63 := by simp [jsonChar, hc]
    rw [hchar, if_neg Bool.false_ne_true]
    decide

include hjson in
/-- **What is between the quotes is an escaped text.** -/
theorem charsText_eq_escape (cs : List ℕ) :
    charsText strflags cs = jsonEscapes.escape ((cs.map jsonChar).map UInt8.ofNat) := by
  induction cs with
  | nil => rfl
  | cons c cs ih =>
    rw [charsText_cons, ih, charBytes_eq_escape hjson]
    rfl

/-- The characters as bytes. -/
theorem toNat_jsonChars (cs : List ℕ) :
    ((cs.map jsonChar).map UInt8.ofNat).map UInt8.toNat = cs.map jsonChar := by
  rw [List.map_map]
  conv_rhs => rw [← List.map_id (cs.map jsonChar)]
  refine List.map_congr_left fun c hc => ?_
  obtain ⟨c', -, rfl⟩ := List.mem_map.mp hc
  have hlt := jsonChar_lt c'
  simp
  omega

include hjson in
/-- **The body of a string can be decoded** if there is no quote in it. -/
theorem decodable_iff (cs : List ℕ) :
    Decodable strflags cs (charsText strflags cs) ↔ 34 ∉ cs := by
  constructor
  · intro h hmem
    have hshields := h.quotes
    rw [charsText_eq_escape hjson, Escaping.shields_escape_iff] at hshields
    refine hshields (List.mem_map.mpr ⟨34, List.mem_map.mpr ⟨34, hmem, ?_⟩, rfl⟩) (by decide)
    exact jsonChar_eq_quote.mpr rfl
  · intro hq
    refine ⟨?_, ?_, ?_⟩
    · rw [charsText_eq_escape hjson, Escaping.shields_escape_iff]
      intro hmem
      obtain ⟨b, hb, hquote⟩ := List.mem_map.mp hmem
      obtain ⟨c, hc, rfl⟩ := List.mem_map.mp hb
      have hlt := jsonChar_lt c
      have hchar : jsonChar c = 34 := by
        have hbyte := congrArg UInt8.toNat hquote
        simp at hbyte
        omega
      exact absurd (jsonChar_eq_quote.mp hchar ▸ hc) hq
    · rw [charsText_eq_escape hjson, Escaping.unescape_escape, Option.map_some, toNat_jsonChars]
    · exact (NoQuotes.outBytes_eq fun _ => hq).symm

end Chars

/-! ### Between quotes -/

section Write

variable {t : Target} {addr : ℕ} {strp : V8String} {cs : List ℕ} {strflags v8flags : ℕ}
  {strb : Strbuf}

/-- **A sequential string between quotes**, in a buffer with room for the whole of it. -/
theorem v8stringWrite_quoted_text (hflat : FlatString t addr strp cs)
    (hquoted : quotedFlag v8flags = true) (hdepth : jsstrDepth v8flags ≤ jsstrMaxdepth)
    (hsize : strb.Sized t.cfg.bits) (hroom : outBytes strflags cs + 2 ≤ strb.room) :
    (v8stringWrite t strp strb strflags v8flags).1 = 0 ∧
      (v8stringWrite t strp strb strflags v8flags).2.text =
        strb.text ++ ([34] ++ charsText strflags cs ++ [34]) := by
  have htree : StringTree t addr 0 [cs] := .seq hflat.load hflat.seq hflat.read
  have hquote : quoteText v8flags = [34] := if_pos hquoted
  have htwo : 2 * (quoteText v8flags).length = 2 := by rw [hquote, List.length_singleton]
  obtain ⟨s', hrun, -, htext⟩ := v8stringWrite_text t strflags hdepth
    (treeText_length_le strflags [cs]) (writeRep_tree_text t strflags htree hflat.load hdepth) hsize
    (by omega)
  have hfits : treeText strflags [cs] (strb.room - 2 * (quoteText v8flags).length) =
      charsText strflags cs := by
    rw [treeText, leafText_of_fits strflags (by omega), treeText, List.append_nil]
  rw [hrun]
  refine ⟨rfl, ?_⟩
  rw [htext, hfits, hquote]

/-- **When a string in JSON can be decoded**, for any sequential string that can be read, and any buffer
with room for what is announced for it: if there is no quote in it. -/
theorem writesJson_iff (hflat : FlatString t addr strp cs) (hjson : strflags &&& msfJson = msfJson)
    (hquoted : quotedFlag v8flags = true) (hdepth : jsstrDepth v8flags ≤ jsstrMaxdepth)
    (hsize : strb.Sized t.cfg.bits) (hroom : outBytes strflags cs + 2 ≤ strb.room) :
    WritesJson t strp strb strflags v8flags cs ↔ 34 ∉ cs := by
  obtain ⟨hzero, htext⟩ := v8stringWrite_quoted_text hflat hquoted hdepth hsize hroom
  have hfault := (v8stringWrite_grows t (knownRep_of_load hflat.load) strb strflags v8flags).2
  rw [← decodable_iff hjson]
  constructor
  · rintro ⟨-, -, body, hbody, hdecodable⟩
    rw [htext] at hbody
    have hsame : charsText strflags cs = body := by simpa using hbody
    exact hsame ▸ hdecodable
  · exact fun hdecodable => ⟨hzero, hfault, _, htext, hdecodable⟩

end Write

/-- The string `"abcdefgh"` in a buffer of 64 bytes. -/
theorem writesJson_sample :
    WritesJson consTarget flatString (zeroBuffer 64) msfJson jsstrQuoted
      [97, 98, 99, 100, 101, 102, 103, 104] :=
  (writesJson_iff consTarget_flat rfl rfl (by decide) ⟨by decide, by decide⟩ (by decide)).mpr
    (by decide)

/-- A target with a string `a"b` at `0x3001`. -/
def quoteTarget : Target :=
  .ofWords (.sample .lp64) [(0x3000, 0x5001), (0x3008, 3 <<< 32), (0x3018, 0x622261), (0x5010, 4)]

/-- The string. -/
def quoteString : V8String := { addr := 0x3001, len := 3, type := 4 }

/-- It is written as `"a"b"`. -/
theorem not_writesJson_sample :
    FlatString quoteTarget 0x3001 quoteString [97, 34, 98] ∧
      outBytes msfJson [97, 34, 98] + 2 ≤ (zeroBuffer 64).room ∧
      (v8stringWrite quoteTarget quoteString (zeroBuffer 64) msfJson jsstrQuoted).2.text =
        bytesOf "\"a\"b\"" ∧
      ¬ WritesJson quoteTarget quoteString (zeroBuffer 64) msfJson jsstrQuoted [97, 34, 98] := by
  have hflat : FlatString quoteTarget 0x3001 quoteString [97, 34, 98] :=
    ⟨by decide, by decide, ⟨[97, 34, 98], by decide, by decide⟩⟩
  have hroom : outBytes msfJson [97, 34, 98] + 2 ≤ (zeroBuffer 64).room := by decide
  have hsize : (zeroBuffer 64).Sized quoteTarget.cfg.bits := ⟨by decide, by decide⟩
  have hdepth : jsstrDepth jsstrQuoted ≤ jsstrMaxdepth := by decide
  refine ⟨hflat, hroom, (v8stringWrite_quoted_text hflat rfl hdepth hsize hroom).2, fun hjson => ?_⟩
  exact absurd ((writesJson_iff hflat rfl rfl hdepth hsize hroom).mp hjson) (by decide)

end MdbV8
