import MdbV8.Strings.Flat

/-!
# Where a string is cut off

What a sequential string adds to a buffer is either all of its characters or as many of them as leave
room for the marker, and the marker (`leafText_exact`). That is so with the one exception of the quote
in JSON, which is announced with two bytes and written with one.

The number of bytes left in a buffer is computed with unsigned integers, and from the size of the rest
of the buffer, one is subtracted for the NUL. If there is no rest, not even for the NUL, then
`mdbv8_strbuf_bytesleft` returns a number close to the largest there is, and the writer takes it for
the room it has (`writesExactly_iff`).
-/

namespace MdbV8

/-- No character is announced with more bytes than it is written with. -/
def NoQuotes (strflags : ℕ) (cs : List ℕ) : Prop := strflags &&& msfJson = msfJson → 34 ∉ cs

/-- A text is cut off to fit `left` bytes: it is the longest part of the characters from their
beginning that leaves room for the marker, and the marker. -/
def CutOff (strflags : ℕ) (cs : List ℕ) (left : ℕ) (text : List UInt8) : Prop :=
  ∃ k ≤ cs.length, text = charsText strflags (cs.take k) ++ v8sTruncateMarker ∧
    (charsText strflags (cs.take k)).length + 5 ≤ left ∧
    ∀ j ≤ cs.length, (charsText strflags (cs.take j)).length + 5 ≤ left → j ≤ k

section LeafText

variable (strflags : ℕ)

theorem NoQuotes.tail {strflags c : ℕ} {cs : List ℕ} (h : NoQuotes strflags (c :: cs)) :
    NoQuotes strflags cs := fun hjson hmem => h hjson (List.mem_cons_of_mem c hmem)

/-- Without quotes, a character is announced with the bytes that it is written with. -/
theorem NoQuotes.length_charBytes {strflags c : ℕ} {cs : List ℕ} (h : NoQuotes strflags (c :: cs)) :
    (charBytes c strflags).length = mdbv8StrbufNbytesforchar c strflags := by
  by_cases hjson : strflags &&& msfJson = msfJson
  · have hne : c ≠ 34 := fun hc => h hjson (hc ▸ List.mem_cons_self)
    refine le_antisymm (charBytes_length_le c strflags) ?_
    unfold mdbv8StrbufNbytesforchar
    rw [if_pos (beq_iff_eq.mpr hjson)]
    split
    · next hesc =>
      -- the four characters that are escaped
      have hesc' : c = 8 ∨ c = 10 ∨ c = 13 ∨ c = 92 := by omega
      have hsan : sanitized c strflags = c := by
        rcases hesc' with rfl | rfl | rfl | rfl <;> simp [sanitized, isascii]
      unfold charBytes
      rw [if_pos (beq_iff_eq.mpr hjson), hsan]
      rcases hesc' with rfl | rfl | rfl | rfl <;> decide
    · exact charBytes_length_pos c strflags
  · rw [charBytes_length_of_not_json hjson, mdbv8StrbufNbytesforchar_of_not_json hjson]

theorem NoQuotes.outBytes_eq {strflags : ℕ} {cs : List ℕ} (h : NoQuotes strflags cs) :
    outBytes strflags cs = (charsText strflags cs).length := by
  induction cs with
  | nil => rfl
  | cons c cs ih =>
    rw [outBytes_cons, charsText_cons, List.length_append, h.length_charBytes, ih h.tail]

/-- **A sequential string in a buffer** with at least the room for the marker: all of it, or as much
as fits before the marker. -/
theorem leafText_exact {cs : List ℕ} (hq : NoQuotes strflags cs) {left : ℕ} (h5 : 5 ≤ left) :
    ((charsText strflags cs).length ≤ left → leafText strflags cs left = charsText strflags cs) ∧
      (left < (charsText strflags cs).length →
        CutOff strflags cs left (leafText strflags cs left)) := by
  rw [← hq.outBytes_eq]
  refine ⟨leafText_of_fits strflags, fun hlong => ?_⟩
  induction cs generalizing left with
  | nil => exact absurd hlong (by simp)
  | cons c cs ih =>
    have hc := hq.length_charBytes
    have hpos := charBytes_length_pos c strflags
    by_cases hnd : NoDanger strflags left c
    · -- the character is written, and the marker still fits
      have hmarker : v8sTruncateMarkerBytes = 5 := rfl
      unfold NoDanger at hnd
      rw [outBytes_cons] at hlong
      obtain ⟨k, hk, htext, hroom, hlongest⟩ :=
        ih hq.tail (show 5 ≤ left - (charBytes c strflags).length by omega) (by omega)
      refine ⟨k + 1, Nat.succ_le_succ hk, ?_, ?_, fun j hj hjroom => ?_⟩
      · rw [leafText, if_pos (.inl hnd), htext, List.take_succ_cons, charsText_cons,
          List.append_assoc]
      · rw [List.take_succ_cons, charsText_cons, List.length_append]
        omega
      · cases j with
        | zero => exact Nat.zero_le _
        | succ j =>
          rw [List.take_succ_cons, charsText_cons, List.length_append] at hjroom
          exact Nat.succ_le_succ (hlongest j (Nat.le_of_succ_le_succ hj) (by omega))
    · -- the marker is written, since the character would leave no room for it
      refine ⟨0, Nat.zero_le _, ?_, by simpa using h5, fun j _ hjroom => ?_⟩
      · rw [leafText_of_cut strflags hnd hlong]
        exact List.take_of_length_le (show v8sTruncateMarker.length ≤ left from h5)
      · cases j with
        | zero => exact le_rfl
        | succ j =>
          rw [List.take_succ_cons, charsText_cons, List.length_append] at hjroom
          have hmarker : v8sTruncateMarkerBytes = 5 := rfl
          unfold NoDanger at hnd
          omega

end LeafText

/-- A text is what characters leave in `left` bytes: all of them, or as many as fit before the
marker. -/
def TextOf (strflags : ℕ) (cs : List ℕ) (left : ℕ) (text : List UInt8) : Prop :=
  ((charsText strflags cs).length ≤ left → text = charsText strflags cs) ∧
    (left < (charsText strflags cs).length → CutOff strflags cs left text)

/-- `v8string_write_seq` of a slice with the characters `cs` returns zero, no assertion fails, and it
appends what the characters leave in the bytes that are left. -/
def WritesExactly (t : Target) (strp : V8String) (strb : Strbuf) (strflags v8flags off : ℕ) (len : ℤ)
    (cs : List ℕ) : Prop :=
  let out := v8stringWriteSeq t strp strb strflags v8flags off len
  out.1 = 0 ∧ out.2.mem.fault = strb.mem.fault ∧ ∃ text, out.2.text = strb.text ++ text ∧
    TextOf strflags cs (mdbv8StrbufBytesleft t.cfg.bits strb) text

/-- `v8string_write` of a whole string in quotes into a fresh buffer of `n` bytes appends a quote, what
the characters leave in the bytes between the quotes, and a quote. -/
def WritesQuoted (t : Target) (strp : V8String) (strflags v8flags : ℕ) (cs : List ℕ) : Prop :=
  ∀ mem buf n, 8 ≤ n → n < 2 ^ t.cfg.bits →
    let strb := mdbv8StrbufInit mem buf n
    let out := v8stringWrite t strp strb strflags v8flags
    out.1 = 0 ∧ out.2.mem.fault = strb.mem.fault ∧ ∃ text,
      out.2.text = strb.text ++ ([34] ++ text ++ [34]) ∧ TextOf strflags cs (n - 3) text

/-- Nothing is appended where not even the NUL fits. -/
theorem Strbuf.Appends.eq_of_full {s s' : Strbuf} (h : s.Appends s') (hfull : s.curbufsz = 0) :
    s' = s := by
  refine h.induction (P := fun x => x = s) rfl fun x T hx => ?_
  subst hx
  unfold mdbv8StrbufSprintf
  rw [if_pos (by omega)]

section Write

variable {t : Target} {strp : V8String} {v8flags off : ℕ} {len : ℤ} {ascii : Bool} {o n : ℕ}
  {cs : List ℕ}

/-- A slice is written exactly if there is a rest of the buffer, or if nothing is to be written. -/
theorem writesSlice_iff (hascii : (v8flags &&& jsstrIsascii != 0) = ascii)
    (hslice : sliceOf t strp.len off len = (o, n)) (hread : ReadsChars t strp.addr ascii o n cs)
    {strb : Strbuf} (hsize : strb.curbufsz < 2 ^ t.cfg.bits) {strflags : ℕ}
    (hq : NoQuotes strflags cs) (h5 : 5 ≤ mdbv8StrbufBytesleft t.cfg.bits strb) :
    WritesExactly t strp strb strflags v8flags off len cs ↔ strb.curbufsz ≠ 0 ∨ cs = [] := by
  have hout := v8stringWriteSeq_eq_leafOut t hascii hslice hread strb strflags
  obtain ⟨hzero, happ⟩ := v8stringWriteSeq_appends t strp strb strflags v8flags off len
  unfold WritesExactly
  by_cases hfull : strb.curbufsz = 0
  · -- nothing is appended at all
    have hsame := happ.eq_of_full hfull
    simp only [hsame, ne_eq, hfull, not_true, false_or]
    constructor
    · rintro ⟨-, -, text, htext, hfits, hcut⟩
      have hnil : text = [] := by simpa using htext.symm
      subst hnil
      by_contra hne
      rcases Nat.lt_or_ge (mdbv8StrbufBytesleft t.cfg.bits strb) (charsText strflags cs).length with
        hlt | hge
      · obtain ⟨k, -, hmarker, -⟩ := hcut hlt
        exact absurd hmarker.symm (List.append_ne_nil_of_right_ne_nil _ (by decide))
      · obtain ⟨c, cs', rfl⟩ := List.exists_cons_of_ne_nil hne
        have hpos := charBytes_length_pos c strflags
        have hlen := congrArg List.length (hfits hge)
        rw [charsText_cons, List.length_append, List.length_nil] at hlen
        omega
    · rintro rfl
      exact ⟨hzero, trivial, [], by simp, fun _ => rfl, fun h => absurd h (by simp)⟩
  · have hsized : strb.Sized t.cfg.bits := ⟨Nat.pos_of_ne_zero hfull, hsize.le⟩
    obtain ⟨htext, -⟩ := leafOut_text strflags cs hsized
    refine ⟨fun _ => .inl hfull, fun _ =>
      ⟨hzero, happ.fault_eq, leafText strflags cs strb.room, ?_, ?_⟩⟩
    · rw [hout]
      exact htext
    · rw [hsized.bytesleft_eq] at h5 ⊢
      exact leafText_exact strflags hq h5

/-- A string in quotes is written exactly. -/
theorem writesQuoted {addr : ℕ} (hflat : FlatString t addr strp cs) {strflags : ℕ}
    (hq : NoQuotes strflags cs) (hquoted : quotedFlag v8flags = true)
    (hdepth : jsstrDepth v8flags = 0) : WritesQuoted t strp strflags v8flags cs := by
  intro mem buf n h8 hn strb out
  have htree : StringTree t addr 0 [cs] := .seq hflat.load hflat.seq hflat.read
  obtain ⟨s', hrun, -, htext⟩ := v8stringWrite_tree t strflags htree hflat.load (by norm_num)
    hdepth mem buf h8 hn
  have hleaf : treeText strflags [cs] (freshRoom n v8flags) = leafText strflags cs (n - 3) := by
    unfold freshRoom
    rw [if_pos hquoted]
    simp [treeText]
  rw [hleaf] at htext
  have hout : out = (0, s') := hrun
  rw [hout]
  refine ⟨rfl, ?_, leafText strflags cs (n - 3), ?_, leafText_exact strflags hq (by omega)⟩
  · have hfault := (v8stringWrite_grows t (knownRep_of_load hflat.load) strb strflags v8flags).2
    have hsame : v8stringWrite t strp strb strflags v8flags = (0, s') := hrun
    rw [hsame] at hfault
    exact hfault
  · rw [htext]
    unfold quoteText
    rw [if_pos hquoted]

/-- **When a sequential string is written exactly**: a slice, if there is a rest of the buffer, or if
nothing is to be written; and the whole string in quotes in any case, if the buffer is fresh. -/
theorem writesExactly_iff (hascii : (v8flags &&& jsstrIsascii != 0) = ascii)
    (hslice : sliceOf t strp.len off len = (o, n)) (hread : ReadsChars t strp.addr ascii o n cs)
    {strb : Strbuf} (hsize : strb.curbufsz < 2 ^ t.cfg.bits) {strflags : ℕ}
    (hq : NoQuotes strflags cs) (h5 : 5 ≤ mdbv8StrbufBytesleft t.cfg.bits strb) :
    (WritesExactly t strp strb strflags v8flags off len cs ↔ strb.curbufsz ≠ 0 ∨ cs = []) ∧
      ∀ addr all flags, FlatString t addr strp all → NoQuotes strflags all →
        quotedFlag flags = true → jsstrDepth flags = 0 → WritesQuoted t strp strflags flags all :=
  ⟨writesSlice_iff hascii hslice hread hsize hq h5,
    fun _ _ _ hflat hall hquoted hdepth => writesQuoted hflat hall hquoted hdepth⟩

end Write

/-- The last four characters of a string, in a buffer of 64 bytes. -/
theorem writesExactly_sample :
    (WritesExactly consTarget flatString (zeroBuffer 64) msfJson jsstrIsascii 4 (-1)
        [101, 102, 103, 104] ↔ (zeroBuffer 64).curbufsz ≠ 0 ∨ [101, 102, 103, 104] = []) ∧
      ∀ addr all flags, FlatString consTarget addr flatString all → NoQuotes msfJson all →
        quotedFlag flags = true → jsstrDepth flags = 0 →
          WritesQuoted consTarget flatString msfJson flags all :=
  writesExactly_iff (t := consTarget) (o := 4) (n := 4) rfl (by decide)
    ⟨[101, 102, 103, 104], by decide, by decide⟩ (by decide) (fun _ => by decide) (by decide)

/-- Nothing is written into a buffer without a byte, although there seems to be room. -/
theorem not_writesExactly_sample :
    5 ≤ mdbv8StrbufBytesleft consTarget.cfg.bits (zeroBuffer 0) ∧
      ReadsChars consTarget flatString.addr true 0 8 [97, 98, 99, 100, 101, 102, 103, 104] ∧
      ¬ WritesExactly consTarget flatString (zeroBuffer 0) msfAsciionly jsstrIsascii 0 (-1)
        [97, 98, 99, 100, 101, 102, 103, 104] := by
  have hread : ReadsChars consTarget flatString.addr true 0 8
      [97, 98, 99, 100, 101, 102, 103, 104] := consTarget_flat.read
  have hleft : 5 ≤ mdbv8StrbufBytesleft consTarget.cfg.bits (zeroBuffer 0) := by decide
  refine ⟨hleft, hread, fun h => ?_⟩
  have hslice : sliceOf consTarget flatString.len 0 (-1) = (0, 8) := by decide
  have hq : NoQuotes msfAsciionly [97, 98, 99, 100, 101, 102, 103, 104] := fun _ => by decide
  have hsize : (zeroBuffer 0).curbufsz < 2 ^ consTarget.cfg.bits := by decide
  have hascii : (jsstrIsascii &&& jsstrIsascii != 0) = true := rfl
  have hno := (writesSlice_iff hascii hslice hread hsize hq hleft).mp h
  rcases hno with hrest | hnil
  · exact hrest rfl
  · exact List.cons_ne_nil _ _ hnil

end MdbV8
