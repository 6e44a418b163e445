import MdbV8.Functions.Lines
import MdbV8.Functions.Source

/-!
# Listing the lines of a function

`jsfunc_lines` prints the lines of a script around a function. It goes over the source twice: to find the
lines that the function starts and ends in, and to print the lines around them. In both, a line break is
counted with the line behind it, and in the second one the number of a line is printed after the
character that has been the first one to be printed of it, which should be a line break.

That is wrong for the first line of the script, for a function that starts at a line break, and for one
that ends at the end of the script; `listsLines_iff` says exactly when it is right.
-/

namespace MdbV8

/-! ### The function -/

/-- A value that an `int` can have. -/
def isInt (x : ℤ) : Bool := -2 ^ 31 ≤ x && x < 2 ^ 31

/-- The line after a character. -/
def nextLine (c : UInt8) (line : ℤ) : ℤ := if c = 10 then line + 1 else line

/-- The first loop of `jsfunc_lines`: `startline` and `endline`. There is no result if an `int`
overflows. -/
def findLines (start finish : ℕ) : List UInt8 → ℕ → ℤ → ℤ → Option (ℤ × ℤ)
  | [], _, _, startline => some (startline, -1)
  | c :: buf, i, line, startline =>
    let line := nextLine c line
    if !isInt line then none
    else
      let startline := if i = start then line else startline
      if i = finish then some (startline, line)
      else if !isInt (i + 1) then none
      else findLines start finish buf (i + 1) line startline

/-- What `jsfunc_lines` prints. -/
inductive LineOut where
  | char (c : UInt8)
  | number (text : List UInt8)
  /-- `%<b>`. -/
  | bold
  /-- `%</b>`. -/
  | unbold
  deriving DecidableEq, Repr

/-- What is printed before the rest of a line: its number, between bold markers if the line is one of
the function. -/
def lineNumber (startline endline : ℤ) (format : Option (ℤ → List UInt8)) (line : ℤ) : List LineOut :=
  let mark := startline ≤ line && line ≤ endline
  (if mark then [.bold] else []) ++
    (match format with
      | none => []
      | some format => [.number (format line)]) ++
    (if mark then [.unbold] else [])

/-- The second loop of `jsfunc_lines`: what it prints, and the line at its end. There is no result if an
`int` overflows. -/
def printLines (startline endline nlines : ℤ) (format : Option (ℤ → List UInt8)) :
    List UInt8 → ℕ → ℤ → Bool → Option (List LineOut × ℤ)
  | [], _, line, _ => some ([], line)
  | c :: buf, i, line, newline =>
    let line := nextLine c line
    let newline := newline || c == 10
    if !(isInt line && isInt (startline - nlines)) then none
    else if line < startline - nlines then
      if !isInt (i + 1) then none
      else printLines startline endline nlines format buf (i + 1) line newline
    else if !isInt (endline + nlines) then none
    else if line > endline + nlines then some ([], line)
    else
      let out := .char c :: if newline then lineNumber startline endline format line else []
      if !isInt (i + 1) then none
      else
        (printLines startline endline nlines format buf (i + 1) line false).map fun r =>
          (out ++ r.1, r.2)

/-- The part of `jsfunc_lines` behind the loop over the buffers. There is no result if an `int`
overflows. -/
def listLines (buf : List UInt8) (start finish : ℕ) (nlines : ℤ)
    (format : Option (ℤ → List UInt8)) : Option (List LineOut) :=
  match findLines start finish buf 0 1 (-1) with
  | none => none
  | some (startline, endline) =>
    if startline = -1 ∨ endline = -1 then some []
    else
      (printLines startline endline nlines format buf 0 1 true).map fun r =>
        r.1 ++ [.char 10] ++ if r.2 = endline then [.unbold] else []

/-- `jsfunc_lines`: what it prints. -/
def jsfuncLines (t : Target) (zalloc : Allocator) (scriptp start finish : ℕ) (nlines : ℤ)
    (format : Option (ℤ → List UInt8)) : Option (List LineOut) :=
  match t.readHeapPtr scriptp t.cfg.offScriptSource with
  | none => some []
  | some src =>
    match readSource t zalloc src (t.cfg.bits + 1) 1024 with
    | some (.done out bufsz) =>
      if finish ≥ bufsz then some [] else listLines (out.str bufsz) start finish nlines format
    | _ => some []

/-- `"%5d "`, the prefix that both callers of `jsfunc_lines` ask for. -/
def linePrefix (line : ℤ) : List UInt8 :=
  List.replicate (5 - (fmtInt line).length) 32 ++ fmtInt line ++ [32]

/-! ### What it should print -/

/-- The line of a position. -/
def lineAt (text : List UInt8) (p : ℕ) : ℕ := 1 + (text.take p).count 10

/-- The numbered lines of a list, from one number to another one. -/
def numberedLines (a b : ℤ) (k : ℕ) (lines : List (List UInt8)) : List (List UInt8) :=
  ((lines.zipIdx k).filter fun l => a ≤ l.2 && l.2 ≤ b).map fun l => linePrefix l.2 ++ l.1

/-- What the markers leave of the output. -/
def LineOut.bytes : LineOut → List UInt8
  | char c => [c]
  | number text => text
  | bold => []
  | unbold => []

/-- The lines of an output, without regard to empty ones. -/
def printedLines (text : List UInt8) : List (List UInt8) :=
  (text.splitOn 10).filter fun l => !l.isEmpty

/-- **The lines around a function are listed**: those from `nlines` lines before the one that it starts in
to `nlines` lines behind the one that it ends in, as far as there are such lines, each with its number
before it. -/
def ListsLines (t : Target) (zalloc : Allocator) (scriptp : ℕ) (text : List UInt8)
    (start finish nlines : ℕ) : Prop :=
  ∃ outs, jsfuncLines t zalloc scriptp start finish nlines (some linePrefix) = some outs ∧
    printedLines (outs.flatMap LineOut.bytes) =
      numberedLines (lineAt text start - nlines) (lineAt text finish + nlines) 1 (text.splitOn 10)

/-- No `int` overflows in going over a text, from some index and in some line, up to the end of a line. -/
def IntsFit (limit : ℤ) : List UInt8 → ℕ → ℤ → Prop
  | [], _, _ => True
  | c :: text, i, line =>
    nextLine c line < 2 ^ 31 ∧
      (nextLine c line ≤ limit → ((i + 1 : ℕ) : ℤ) < 2 ^ 31 ∧ IntsFit limit text (i + 1) (nextLine c line))

/-- The lines around a function are ones that can be listed. -/
structure Listable (text : List UInt8) (start finish nlines : ℕ) : Prop where
  /-- The function does not end at the end of the text. -/
  finish_lt : finish < text.length
  /-- The first line of the text is not among them. -/
  first : nlines + 2 ≤ lineAt text start
  /-- The function does not start at a line break. -/
  start_ne : text[start]? ≠ some 10
  /-- Nor does it end at one, unless the last line of the text is among them. -/
  finish_ne : text[finish]? = some 10 → lineAt text text.length ≤ lineAt text finish + nlines
  limit : ((lineAt text (finish + 1) + nlines : ℕ) : ℤ) < 2 ^ 31
  fits : IntsFit (lineAt text (finish + 1) + nlines : ℕ) text 0 1

/-! ### Lines of a text -/

theorem nextLine_ge (c : UInt8) (line : ℤ) : line ≤ nextLine c line := by
  unfold nextLine
  split <;> omega

theorem nextLine_of_ne {c : UInt8} (hc : c ≠ 10) (line : ℤ) : nextLine c line = line := if_neg hc

theorem count_cons_line (c : UInt8) (cs : List UInt8) (line : ℤ) :
    line + ((c :: cs).count 10 : ℕ) = nextLine c line + (cs.count 10 : ℕ) := by
  by_cases hc : c = 10
  · rw [nextLine, if_pos hc, hc, List.count_cons_self]
    push_cast
    ring
  · rw [nextLine_of_ne hc, List.count_cons_of_ne hc]

theorem splitOn_break (text : List UInt8) : (10 :: text).splitOn 10 = [] :: text.splitOn 10 := by
  have hcons := List.splitOnP_cons_eq_if_modifyHead (p := (· == 10)) (10 : UInt8) text
  exact hcons.trans (if_pos rfl)

theorem splitOn_cons {c : UInt8} (hc : c ≠ 10) (text : List UInt8) :
    (c :: text).splitOn 10 = (text.splitOn 10).modifyHead (List.cons c) := by
  have hcons := List.splitOnP_cons_eq_if_modifyHead (p := (· == 10)) c text
  exact hcons.trans (if_neg (by simpa using hc))

/-- A text is its first line, and the others behind line breaks. -/
theorem exists_lines (text : List UInt8) :
    ∃ l ls, text.splitOn 10 = l :: ls ∧ text = l ++ ls.flatMap (10 :: ·) ∧
      (∀ c ∈ l, c ≠ 10) ∧ ∀ l' ∈ ls, ∀ c ∈ l', c ≠ 10 := by
  induction text with
  | nil => exact ⟨[], [], rfl, rfl, by simp, by simp⟩
  | cons c text ih =>
    obtain ⟨l, ls, hsplit, htext, hl, hls⟩ := ih
    by_cases hc : c = 10
    · subst hc
      refine ⟨[], l :: ls, by rw [splitOn_break, hsplit], ?_, by simp, ?_⟩
      · rw [htext, List.flatMap_cons, List.nil_append, List.cons_append]
      · intro l' hl'
        rcases List.mem_cons.mp hl' with rfl | hmem
        · exact hl
        · exact hls l' hmem
    · refine ⟨c :: l, ls, by rw [splitOn_cons hc, hsplit, List.modifyHead_cons], ?_, ?_, hls⟩
      · rw [htext, List.cons_append]
      · intro c' hc'
        rcases List.mem_cons.mp hc' with rfl | hmem
        · exact hc
        · exact hl c' hmem

/-- The number of the last line is the number of the lines. -/
theorem length_splitOn (text : List UInt8) : (text.splitOn 10).length = lineAt text text.length := by
  unfold lineAt
  rw [List.take_length]
  induction text with
  | nil => rfl
  | cons c text ih =>
    by_cases hc : c = 10
    · subst hc
      rw [splitOn_break, List.length_cons, ih, List.count_cons_self]
      ring
    · rw [splitOn_cons hc, List.length_modifyHead, ih, List.count_cons_of_ne hc]

theorem lineAt_mono (text : List UInt8) {p q : ℕ} (h : p ≤ q) : lineAt text p ≤ lineAt text q := by
  unfold lineAt
  have hsub : (text.take p).Sublist (text.take q) := (List.take_prefix_take_left h).sublist
  have hcount := hsub.count_le (10 : UInt8)
  omega

theorem lineAt_le_last (text : List UInt8) (p : ℕ) : lineAt text p ≤ lineAt text text.length := by
  rcases Nat.le_total p text.length with h | h
  · exact lineAt_mono text h
  · unfold lineAt
    rw [List.take_of_length_le h, List.take_length]

/-- The line of the next position is that of the character at a position, counted like the loops do. -/
theorem lineAt_succ {text : List UInt8} {p : ℕ} {c : UInt8} (h : text[p]? = some c) :
    lineAt text (p + 1) = if c = 10 then lineAt text p + 1 else lineAt text p := by
  obtain ⟨hp, rfl⟩ := List.getElem?_eq_some_iff.mp h
  unfold lineAt
  rw [List.take_succ_eq_append_getElem hp, List.count_append]
  split
  · next hc => simp [hc, Nat.add_assoc]
  · next hc => simp [hc]

/-! ### Numbers of lines -/

theorem fmtInt_natCast (k : ℕ) : fmtInt k = fmtNat 10 k := by
  unfold fmtInt
  rw [if_neg (by omega), Int.natAbs_natCast]

/-- There is no blank in a number. -/
theorem ne_blank_of_mem_fmtNat {n : ℕ} {b : UInt8} (hb : b ∈ fmtNat 10 n) : b ≠ 32 ∧ b ≠ 10 := by
  obtain ⟨c, hc, rfl⟩ := List.mem_map.mp hb
  obtain ⟨hlo, hhi⟩ := toNat_of_isDigit (Nat.isDigit_of_mem_toDigits (by decide) (by decide) hc)
  have hval : (UInt8.ofNat c.toNat).toNat = c.toNat := by
    rw [UInt8.toNat_ofNat', Nat.mod_eq_of_lt (by omega)]
  refine ⟨fun h => ?_, fun h => ?_⟩
  · rw [h] at hval
    change 32 = c.toNat at hval
    omega
  · rw [h] at hval
    change 10 = c.toNat at hval
    omega

theorem fmtNat_ne_nil (n : ℕ) : fmtNat 10 n ≠ [] := fun h =>
  Nat.toDigits_ne_nil (List.map_eq_nil_iff.mp h)

/-- The number can be read back from a prefix, whatever is behind it. -/
theorem number_linePrefix (k : ℕ) (x : List UInt8) :
    ((linePrefix k ++ x).dropWhile (· == 32)).takeWhile (· != 32) = fmtNat 10 k := by
  obtain ⟨d, ds, hds⟩ := List.exists_cons_of_ne_nil (fmtNat_ne_nil k)
  have hdigits : ∀ b ∈ fmtNat 10 k, (b != 32) = true := fun b hb => by
    simpa using (ne_blank_of_mem_fmtNat hb).1
  have hd : (d == 32) = false := by
    have hmem := hdigits d (by rw [hds]; exact List.mem_cons_self)
    simpa using hmem
  unfold linePrefix
  rw [fmtInt_natCast, List.append_assoc, List.append_assoc,
    List.dropWhile_append_of_pos (fun b hb => by simpa using (List.mem_replicate.mp hb).2)]
  have hdrop : (fmtNat 10 k ++ ([32] ++ x)).dropWhile (· == 32) = fmtNat 10 k ++ ([32] ++ x) := by
    rw [hds, List.cons_append, List.dropWhile_cons_of_neg (by simp [hd])]
  rw [hdrop, List.takeWhile_append_of_pos hdigits, List.singleton_append,
    List.takeWhile_cons_of_neg (by simp), List.append_nil]

/-- A prefix tells the number of the line. -/
theorem linePrefix_inj {j k : ℕ} {x y : List UInt8} (h : linePrefix j ++ x = linePrefix k ++ y) :
    j = k := by
  have hnumber := number_linePrefix j x
  rw [h, number_linePrefix] at hnumber
  exact (fmtNat_ten_injective hnumber).symm

theorem linePrefix_ne_nil (line : ℤ) (x : List UInt8) : linePrefix line ++ x ≠ [] := by
  unfold linePrefix
  simp

/-- There is no line break in a prefix. -/
theorem ne_break_of_mem_linePrefix {k : ℕ} {b : UInt8} (hb : b ∈ linePrefix k) : b ≠ 10 := by
  unfold linePrefix at hb
  rw [fmtInt_natCast, List.mem_append, List.mem_append] at hb
  rcases hb with (hb | hb) | hb
  · rw [(List.mem_replicate.mp hb).2]
    decide
  · exact (ne_blank_of_mem_fmtNat hb).2
  · rw [List.mem_singleton.mp hb]
    decide

/-! ### The loops -/

theorem isInt_iff (x : ℤ) : isInt x = true ↔ -2 ^ 31 ≤ x ∧ x < 2 ^ 31 := by
  unfold isInt
  rw [Bool.and_eq_true, decide_eq_true_eq, decide_eq_true_eq]

/-- A line and an index are `int`s as long as they are small enough. -/
theorem isInt_of_nonneg {x : ℤ} (hx : 0 ≤ x) : isInt x = true ↔ x < 2 ^ 31 := by
  rw [isInt_iff]
  exact and_iff_right (by omega)

theorem isInt_index {i : ℕ} : isInt ((i : ℤ) + 1) = true ↔ ((i + 1 : ℕ) : ℤ) < 2 ^ 31 := by
  rw [isInt_of_nonneg (by omega), Nat.cast_add, Nat.cast_one]

/-- **The first loop** finds the lines behind the characters at the two positions. -/
theorem findLines_eq {start finish : ℕ} {buf : List UInt8} {i : ℕ} {line startline : ℤ}
    (hi : i ≤ finish) {r : ℤ × ℤ} (h : findLines start finish buf i line startline = some r) :
    (i + buf.length ≤ finish ∧ r.2 = -1) ∨ (finish < i + buf.length ∧
      r.2 = line + ((buf.take (finish + 1 - i)).count 10 : ℕ) ∧
      (start ≤ finish → r.1 = if start < i then startline
        else line + ((buf.take (start + 1 - i)).count 10 : ℕ))) := by
  induction buf generalizing i line startline with
  | nil =>
    obtain rfl := Option.some.inj h
    exact .inl ⟨by simpa using hi, rfl⟩
  | cons c buf ih =>
    rw [findLines] at h
    dsimp only at h
    split at h
    · cases h
    have htake : ∀ p, i ≤ p → (c :: buf).take (p + 1 - i) = c :: buf.take (p - i) := fun p hp => by
      rw [show p + 1 - i = p - i + 1 by omega, List.take_succ_cons]
    rw [List.length_cons, htake finish hi, count_cons_line]
    split at h
    · next hfinish =>
      -- the loop ends here
      obtain rfl := Option.some.inj h
      subst hfinish
      refine .inr ⟨by omega, by simp, fun hstart => ?_⟩
      dsimp only
      rcases Nat.lt_or_eq_of_le hstart with hlt | rfl
      · rw [if_neg hlt.ne', if_pos hlt]
      · rw [if_pos rfl, if_neg (lt_irrefl _), htake start le_rfl, count_cons_line]
        simp
    · next hfinish =>
      split at h
      · cases h
      -- the loop goes on
      rcases ih (by omega) h with ⟨hend, hnone⟩ | ⟨hend, hfinishline, hstartline⟩
      · exact .inl ⟨by omega, hnone⟩
      · refine .inr ⟨by omega, ?_, fun hstart => ?_⟩
        · rw [hfinishline, show finish + 1 - (i + 1) = finish - i by omega]
        · rw [hstartline hstart]
          rcases Nat.lt_trichotomy start i with hlt | rfl | hgt
          · rw [if_pos (by omega), if_neg (by omega : ¬ i = start), if_pos hlt]
          · rw [if_pos (Nat.lt_succ_self _), if_pos rfl, if_neg (lt_irrefl _), htake start le_rfl,
              count_cons_line]
            simp
          · rw [if_neg (by omega), if_neg (by omega), htake start hgt.le, count_cons_line,
              show start + 1 - (i + 1) = start - i by omega]

/-- The first loop has a result if no `int` overflows up to the line that it ends in. -/
theorem exists_findLines {start finish : ℕ} {limit : ℤ} {buf : List UInt8} {i : ℕ}
    {line startline : ℤ} (hline : 0 ≤ line) (hfits : IntsFit limit buf i line)
    (hlimit : line + ((buf.take (finish - i)).count 10 : ℕ) ≤ limit) (hi : i ≤ finish) :
    ∃ r, findLines start finish buf i line startline = some r := by
  induction buf generalizing i line startline with
  | nil => exact ⟨_, rfl⟩
  | cons c buf ih =>
    obtain ⟨hnext, hrest⟩ := hfits
    have hge := nextLine_ge c line
    rw [findLines]
    dsimp only
    rw [if_neg (by simp [(isInt_of_nonneg (hline.trans hge)).mpr hnext])]
    split
    · exact ⟨_, rfl⟩
    · next hfinish =>
      have htake : (c :: buf).take (finish - i) = c :: buf.take (finish - (i + 1)) := by
        rw [show finish - i = finish - (i + 1) + 1 by omega, List.take_succ_cons]
      rw [htake, count_cons_line] at hlimit
      obtain ⟨hindex, hfits'⟩ := hrest (by omega)
      rw [if_neg (by simp [isInt_index.mpr hindex])]
      exact ih (hline.trans hge) hfits' hlimit (by omega)

/-- What the second loop prints, without the markers, if no `int` overflows. -/
def shown (a b : ℤ) : List UInt8 → ℤ → Bool → List UInt8
  | [], _, _ => []
  | c :: buf, line, newline =>
    let line := nextLine c line
    let newline := newline || c == 10
    if line < a then shown a b buf line newline
    else if line > b then []
    else c :: (if newline then linePrefix line else []) ++ shown a b buf line false

theorem bytes_lineNumber (startline endline line : ℤ) :
    (lineNumber startline endline (some linePrefix) line).flatMap LineOut.bytes = linePrefix line := by
  unfold lineNumber
  dsimp only
  cases startline ≤ line && line ≤ endline <;> simp [LineOut.bytes]

section Print

variable {startline endline nlines : ℤ} {buf : List UInt8} {i : ℕ} {line : ℤ} {newline : Bool}

/-- **The second loop**, if no `int` overflows. -/
theorem exists_printLines (hline : 0 ≤ line) (hlow : isInt (startline - nlines) = true)
    (hhigh : isInt (endline + nlines) = true) (hle : startline - nlines ≤ endline + nlines)
    (hfits : IntsFit (endline + nlines) buf i line) :
    ∃ r, printLines startline endline nlines (some linePrefix) buf i line newline = some r ∧
      r.1.flatMap LineOut.bytes = shown (startline - nlines) (endline + nlines) buf line newline := by
  induction buf generalizing i line newline with
  | nil => exact ⟨_, rfl, rfl⟩
  | cons c buf ih =>
    obtain ⟨hnext, hrest⟩ := hfits
    have hge := hline.trans (nextLine_ge c line)
    rw [printLines, shown]
    dsimp only
    rw [if_neg (by simp [(isInt_of_nonneg hge).mpr hnext, hlow])]
    -- a line in front of the window is skipped
    by_cases hskip : nextLine c line < startline - nlines
    · obtain ⟨hindex, hfits'⟩ := hrest (by omega)
      rw [if_pos hskip, if_pos hskip, if_neg (by simp [isInt_index.mpr hindex])]
      exact ih hge hfits'
    rw [if_neg hskip, if_neg hskip, if_neg (by simp [hhigh])]
    -- the loop ends behind the window
    by_cases hend : nextLine c line > endline + nlines
    · rw [if_pos hend, if_pos hend]
      exact ⟨_, rfl, rfl⟩
    obtain ⟨hindex, hfits'⟩ := hrest (by omega)
    -- a character in the window is printed
    obtain ⟨r, hr, hbytes⟩ := @ih _ _ false hge hfits'
    rw [if_neg hend, if_neg hend, if_neg (by simp [isInt_index.mpr hindex]), hr]
    refine ⟨_, rfl, ?_⟩
    dsimp only
    rw [List.flatMap_append, hbytes, List.flatMap_cons]
    split
    · rw [bytes_lineNumber]
      rfl
    · rfl

/-- A result of the second loop means that no `int` has overflowed. -/
theorem intsFit_of_printLines (hline : 0 ≤ line)
    {r : List LineOut × ℤ}
    (h : printLines startline endline nlines (some linePrefix) buf i line newline = some r) :
    IntsFit (endline + nlines) buf i line := by
  induction buf generalizing i line newline r with
  | nil => trivial
  | cons c buf ih =>
    have hge := hline.trans (nextLine_ge c line)
    rw [printLines] at h
    dsimp only at h
    split at h
    · cases h
    next hints =>
    have hnext : isInt (nextLine c line) = true := by
      by_contra hno
      exact hints (by simp [hno])
    refine ⟨(isInt_of_nonneg hge).mp hnext, fun hle => ?_⟩
    -- the index of the next character is an `int`, too
    have hindex : ∀ {x : Option (List LineOut × ℤ)},
        (if (!isInt ((i : ℤ) + 1)) = true then none else x) = some r →
          ((i + 1 : ℕ) : ℤ) < 2 ^ 31 ∧ x = some r := by
      intro x hx
      split at hx
      · cases hx
      · next hint => exact ⟨isInt_index.mp (by simpa using hint), hx⟩
    split at h
    · obtain ⟨hlt, hr⟩ := hindex h
      exact ⟨hlt, ih hge hr⟩
    split at h
    · cases h
    rw [if_neg (not_lt.mpr hle)] at h
    obtain ⟨hlt, hr⟩ := hindex h
    obtain ⟨r', hr', -⟩ := Option.map_eq_some_iff.mp hr
    exact ⟨hlt, ih hge hr'⟩

/-- Nothing is printed before the end of the last line has been found to be an `int`. -/
theorem printLines_of_overflow (hhigh : isInt (endline + nlines) = false) {r : List LineOut × ℤ}
    (h : printLines startline endline nlines (some linePrefix) buf i line newline = some r) :
    r.1 = [] := by
  induction buf generalizing i line newline with
  | nil =>
    obtain rfl := Option.some.inj h
    rfl
  | cons c buf ih =>
    rw [printLines] at h
    dsimp only at h
    split at h
    · cases h
    split at h
    · split at h
      · cases h
      · exact ih h
    · rw [hhigh, Bool.not_false, if_pos rfl] at h
      cases h

end Print

/-! ### The lines that are shown -/

section Shown

variable {a b : ℤ}

/-- The rest of a line before those that are shown. -/
theorem shown_skip {l : List UInt8} (hl : ∀ c ∈ l, c ≠ 10) (rest : List UInt8) {line : ℤ}
    (hline : line < a) (newline : Bool) :
    shown a b (l ++ rest) line newline = shown a b rest line newline := by
  induction l with
  | nil => rfl
  | cons c l ih =>
    have hc := hl c List.mem_cons_self
    have hbreak : (c == 10) = false := by simpa using hc
    rw [List.cons_append, shown, nextLine_of_ne hc, if_pos hline, hbreak, Bool.or_false]
    exact ih fun c' hc' => hl c' (List.mem_cons_of_mem c hc')

/-- The rest of a line that is shown, behind its number. -/
theorem shown_rest {l : List UInt8} (hl : ∀ c ∈ l, c ≠ 10) (rest : List UInt8) {line : ℤ}
    (hlow : a ≤ line) (hhigh : line ≤ b) :
    shown a b (l ++ rest) line false = l ++ shown a b rest line false := by
  induction l with
  | nil => rfl
  | cons c l ih =>
    have hc := hl c List.mem_cons_self
    have hbreak : (c == 10) = false := by simpa using hc
    rw [List.cons_append, shown, nextLine_of_ne hc, if_neg (not_lt.mpr hlow),
      if_neg (not_lt.mpr hhigh), hbreak, Bool.or_false, if_neg (by simp),
      ih fun c' hc' => hl c' (List.mem_cons_of_mem c hc')]
    rfl

/-- At a line break: a line that is shown, with its number behind the line break. -/
theorem shown_break {l : List UInt8} (hl : ∀ c ∈ l, c ≠ 10) (rest : List UInt8) {line : ℤ}
    (hlow : a ≤ line + 1) (hhigh : line + 1 ≤ b) (newline : Bool) :
    shown a b (10 :: (l ++ rest)) line newline =
      10 :: (linePrefix (line + 1) ++ l ++ shown a b rest (line + 1) false) := by
  have hnext : nextLine 10 line = line + 1 := if_pos rfl
  rw [shown, hnext, if_neg (not_lt.mpr hlow), if_neg (not_lt.mpr hhigh),
    shown_rest hl rest hlow hhigh]
  simp

/-- The lines in a range are those with the numbers. -/
theorem mem_numberedLines {k : ℕ} {lines : List (List UInt8)} {x : List UInt8} :
    x ∈ numberedLines a b k lines ↔
      ∃ j l, lines[j]? = some l ∧ a ≤ (k + j : ℕ) ∧ (k + j : ℕ) ≤ b ∧
        x = linePrefix (k + j : ℕ) ++ l := by
  unfold numberedLines
  simp only [List.mem_map, List.mem_filter, Bool.and_eq_true, decide_eq_true_eq, Prod.exists]
  constructor
  · rintro ⟨l, n, ⟨hmem, hlow, hhigh⟩, rfl⟩
    obtain ⟨hle, hlt, hl⟩ := List.mem_zipIdx hmem
    obtain ⟨j, rfl⟩ := Nat.exists_eq_add_of_le hle
    refine ⟨j, l, ?_, hlow, hhigh, rfl⟩
    rw [hl, List.getElem?_eq_getElem (by omega)]
    simp
  · rintro ⟨j, l, hl, hlow, hhigh, rfl⟩
    refine ⟨l, k + j, ⟨?_, hlow, hhigh⟩, rfl⟩
    exact List.mk_add_mem_zipIdx_iff_getElem?.mpr hl

theorem numberedLines_cons_of_out {k : ℕ} (l : List UInt8) (ls : List (List UInt8))
    (hout : ¬ (a ≤ (k : ℕ) ∧ (k : ℕ) ≤ b)) :
    numberedLines a b k (l :: ls) = numberedLines a b (k + 1) ls := by
  unfold numberedLines
  rw [List.zipIdx_cons, List.filter_cons_of_neg (by simpa using hout)]

theorem numberedLines_cons_of_in {k : ℕ} (l : List UInt8) (ls : List (List UInt8))
    (hin : a ≤ (k : ℕ) ∧ (k : ℕ) ≤ b) :
    numberedLines a b k (l :: ls) = (linePrefix k ++ l) :: numberedLines a b (k + 1) ls := by
  unfold numberedLines
  rw [List.zipIdx_cons, List.filter_cons_of_pos (by simpa using hin), List.map_cons]

theorem numberedLines_of_behind {k : ℕ} (ls : List (List UInt8)) (hk : b < (k : ℕ)) :
    numberedLines a b k ls = [] := by
  induction ls generalizing k with
  | nil => rfl
  | cons l ls ih =>
    rw [numberedLines_cons_of_out l ls (fun h => by omega)]
    exact ih (by omega)

theorem printedLines_break (text : List UInt8) : printedLines (10 :: text) = printedLines text := by
  unfold printedLines
  rw [splitOn_break]
  rfl

/-- A line, at a line break. -/
theorem printedLines_line {y : List UInt8} (hy : ∀ c ∈ y, c ≠ 10) (hne : y ≠ []) (z : List UInt8) :
    printedLines (y ++ 10 :: z) = y :: printedLines (10 :: z) := by
  have hsplit : (y ++ 10 :: z).splitOn 10 = y :: z.splitOn 10 := by
    induction y with
    | nil => exact absurd rfl hne
    | cons c y ih =>
      have hc := hy c List.mem_cons_self
      rw [List.cons_append, splitOn_cons hc]
      by_cases hnil : y = []
      · rw [hnil, List.nil_append, splitOn_break, List.modifyHead_cons]
      · rw [ih (fun c' hc' => hy c' (List.mem_cons_of_mem c hc')) hnil, List.modifyHead_cons]
  rw [printedLines_break]
  unfold printedLines
  rw [hsplit, List.filter_cons_of_pos (by simpa using hne)]

/-- What is shown of lines begins with a line break. -/
theorem exists_shown_lines (ls : List (List UInt8)) {line : ℤ} (hline : a ≤ line) (newline : Bool) :
    ∃ z, shown a b (ls.flatMap (10 :: ·)) line newline ++ [10] = 10 :: z := by
  cases ls with
  | nil => exact ⟨[], rfl⟩
  | cons l ls =>
    have hnext : nextLine 10 line = line + 1 := if_pos rfl
    rw [List.flatMap_cons, List.cons_append, shown, hnext, if_neg (by omega)]
    split
    · exact ⟨[], rfl⟩
    · exact ⟨_, rfl⟩

/-- **The lines behind a line break** are shown with their numbers. -/
theorem printedLines_shown {ls : List (List UInt8)} (hls : ∀ l ∈ ls, ∀ c ∈ l, c ≠ 10) (line : ℕ)
    (newline : Bool) :
    printedLines (shown a b (ls.flatMap (10 :: ·)) line newline ++ [10]) =
      numberedLines a b (line + 1) ls := by
  induction ls generalizing line newline with
  | nil => rfl
  | cons l ls ih =>
    have hl := hls l List.mem_cons_self
    have hls' : ∀ l ∈ ls, ∀ c ∈ l, c ≠ 10 := fun l' hl' => hls l' (List.mem_cons_of_mem l hl')
    have hcast : ((line : ℕ) : ℤ) + 1 = ((line + 1 : ℕ) : ℤ) := by push_cast; rfl
    have hnext : nextLine 10 (line : ℤ) = ((line + 1 : ℕ) : ℤ) := (if_pos rfl).trans hcast
    rw [List.flatMap_cons, List.cons_append]
    by_cases hlow : a ≤ ((line + 1 : ℕ) : ℤ)
    · by_cases hhigh : ((line + 1 : ℕ) : ℤ) ≤ b
      · -- the line is shown
        obtain ⟨z, hz⟩ := exists_shown_lines (b := b) ls hlow false
        have hbreaks : ∀ c ∈ linePrefix ((line + 1 : ℕ) : ℤ) ++ l, c ≠ 10 := fun c hc =>
          (List.mem_append.mp hc).elim ne_break_of_mem_linePrefix (hl c)
        rw [shown_break hl _ (hcast ▸ hlow) (hcast ▸ hhigh), hcast, List.cons_append,
          List.append_assoc, hz, printedLines_break, printedLines_line hbreaks (linePrefix_ne_nil _ _),
          ← hz, ih hls', numberedLines_cons_of_in l ls ⟨hlow, hhigh⟩]
      · -- the loop ends
        have hend : shown a b (10 :: (l ++ ls.flatMap (10 :: ·))) line newline = [] := by
          rw [shown, hnext, if_neg (not_lt.mpr hlow), if_pos (not_le.mp hhigh)]
        rw [hend, numberedLines_of_behind _ (not_le.mp hhigh)]
        rfl
    · have hskip : shown a b (10 :: (l ++ ls.flatMap (10 :: ·))) line newline =
          shown a b (ls.flatMap (10 :: ·)) (line + 1 : ℕ) true := by
        rw [shown, hnext, if_pos (not_le.mp hlow), shown_skip hl _ (not_le.mp hlow)]
        simp
      rw [hskip, ih hls', numberedLines_cons_of_out l ls fun h => hlow h.1]

end Shown

/-! ### When the lines are listed -/

section Listing

variable {text : List UInt8} {start finish nlines : ℕ}

/-- Lines are in a range by their numbers. -/
theorem mem_numberedLines_iff {a b : ℤ} {lines : List (List UInt8)} {k : ℕ} (hpos : 1 ≤ k)
    {l : List UInt8} (hl : lines[k - 1]? = some l) :
    linePrefix k ++ l ∈ numberedLines a b 1 lines ↔ a ≤ k ∧ (k : ℤ) ≤ b := by
  rw [mem_numberedLines]
  constructor
  · rintro ⟨j, l', -, hlow, hhigh, heq⟩
    obtain rfl := linePrefix_inj heq
    exact ⟨hlow, hhigh⟩
  · rintro ⟨hlow, hhigh⟩
    exact ⟨k - 1, l, hl, by rwa [Nat.add_sub_cancel' hpos], by rwa [Nat.add_sub_cancel' hpos],
      by rw [Nat.add_sub_cancel' hpos]⟩

/-- The numbers in two ranges are the same if the lines are. -/
theorem range_iff_of_numberedLines_eq {a b a' b' : ℤ} {lines : List (List UInt8)}
    (h : numberedLines a b 1 lines = numberedLines a' b' 1 lines) {k : ℕ} (hpos : 1 ≤ k)
    (hk : k ≤ lines.length) : (a ≤ k ∧ (k : ℤ) ≤ b) ↔ (a' ≤ k ∧ (k : ℤ) ≤ b') := by
  have hl : lines[k - 1]? = some lines[k - 1] := List.getElem?_eq_getElem (by omega)
  rw [← mem_numberedLines_iff hpos hl, h, mem_numberedLines_iff hpos hl]

/-- A range may go on behind the last line. -/
theorem numberedLines_congr {a b b' : ℤ} {lines : List (List UInt8)} {k : ℕ}
    (h : ∀ j, j < k + lines.length → ((j : ℤ) ≤ b ↔ (j : ℤ) ≤ b')) :
    numberedLines a b k lines = numberedLines a b' k lines := by
  unfold numberedLines
  refine congrArg _ (List.filter_congr fun p hp => ?_)
  obtain ⟨-, hlt, -⟩ := List.mem_zipIdx (x := p.1) (i := p.2) hp
  exact congrArg _ (decide_eq_decide.mpr (h p.2 hlt))

/-- The output of the second loop, with what is printed behind it. -/
theorem bytes_listed (r : List LineOut × ℤ) (endline : ℤ) :
    (r.1 ++ [LineOut.char 10] ++ if r.2 = endline then [LineOut.unbold] else []).flatMap LineOut.bytes =
      r.1.flatMap LineOut.bytes ++ [10] := by
  rw [List.flatMap_append, List.flatMap_append]
  split <;> simp [LineOut.bytes]

/-- The first line is not shown, and the others are. -/
theorem printedLines_text {a b : ℤ} (ha : 2 ≤ a) :
    printedLines (shown a b text 1 true ++ [10]) = numberedLines a b 1 (text.splitOn 10) := by
  obtain ⟨l, ls, hsplit, htext, hl, hls⟩ := exists_lines text
  have hshown := printedLines_shown (a := a) (b := b) hls 1 true
  rw [hsplit, numberedLines_cons_of_out l ls fun h => by have := h.1; omega]
  conv_lhs => rw [htext, shown_skip hl _ (by omega)]
  exact hshown

/-- If the first line is among those to be printed, it is not printed as it should be. -/
theorem printedLines_text_ne {a b a' b' : ℤ} (ha : a ≤ 1) (hb : 1 ≤ b) (ha' : a' ≤ 1) (hb' : 1 ≤ b') :
    printedLines (shown a b text 1 true ++ [10]) ≠ numberedLines a' b' 1 (text.splitOn 10) := by
  obtain ⟨l, ls, hsplit, htext, hl, hls⟩ := exists_lines text
  rw [hsplit, numberedLines_cons_of_in l ls ⟨by exact_mod_cast ha', by exact_mod_cast hb'⟩]
  intro heq
  cases l with
  | nil =>
    -- an empty first line is not printed
    have hshown := printedLines_shown (a := a) (b := b) hls 1 true
    rw [List.nil_append] at htext
    rw [← htext, Nat.cast_one, heq] at hshown
    have hmem : linePrefix (1 : ℕ) ++ [] ∈ numberedLines a b 2 ls := hshown ▸ List.mem_cons_self
    obtain ⟨j, l', -, -, -, hprefix⟩ := mem_numberedLines.mp hmem
    have := linePrefix_inj hprefix
    omega
  | cons c l =>
    -- its first character stands before the number
    have hc := hl c List.mem_cons_self
    have hl' : ∀ c' ∈ l, c' ≠ 10 := fun c' hc' => hl c' (List.mem_cons_of_mem c hc')
    have hshown : shown a b text 1 true =
        c :: (linePrefix (1 : ℕ) ++ l) ++ shown a b (ls.flatMap (10 :: ·)) 1 false := by
      rw [htext, List.cons_append, shown, nextLine_of_ne hc, if_neg (not_lt.mpr ha),
        if_neg (not_lt.mpr hb), shown_rest hl' _ ha hb]
      simp
    obtain ⟨z, hz⟩ := exists_shown_lines (b := b) ls ha false
    have hbreaks : ∀ c' ∈ c :: (linePrefix (1 : ℕ) ++ l), c' ≠ 10 := by
      intro c' hc'
      rcases List.mem_cons.mp hc' with rfl | hmem
      · exact hc
      · exact (List.mem_append.mp hmem).elim ne_break_of_mem_linePrefix (hl' c')
    rw [hshown, List.append_assoc, hz, printedLines_line hbreaks (List.cons_ne_nil _ _)] at heq
    have hhead := (List.cons.inj heq).1
    have hone : linePrefix (1 : ℕ) = [32, 32, 32, 32, 49, 32] := by decide
    rw [hone] at hhead
    simp at hhead

/-- There is a line to be printed. -/
theorem numberedLines_ne_nil (h : start ≤ finish) :
    numberedLines (lineAt text start - nlines) (lineAt text finish + nlines) 1 (text.splitOn 10) ≠
      [] := by
  have hpos : 1 ≤ lineAt text start := Nat.le_add_right 1 _
  have hlast := (lineAt_le_last text start).trans_eq (length_splitOn text).symm
  have hmono := lineAt_mono text h
  have hl : (text.splitOn 10)[lineAt text start - 1]? = some (text.splitOn 10)[lineAt text start - 1] :=
    List.getElem?_eq_getElem (by omega)
  exact List.ne_nil_of_mem ((mem_numberedLines_iff hpos hl).mpr ⟨by omega, by omega⟩)

/-- The lines that the first loop finds. -/
theorem findLines_text (h : start ≤ finish) {r : ℤ × ℤ}
    (hfind : findLines start finish text 0 1 (-1) = some r) :
    (text.length ≤ finish ∧ r.2 = -1) ∨
      (finish < text.length ∧
        r = (((lineAt text (start + 1) : ℕ) : ℤ), ((lineAt text (finish + 1) : ℕ) : ℤ))) := by
  rcases findLines_eq (Nat.zero_le finish) hfind with ⟨hend, hnone⟩ | ⟨hend, hfinish, hstart⟩
  · exact .inl ⟨by omega, hnone⟩
  · refine .inr ⟨by omega, Prod.ext ?_ ?_⟩
    · rw [hstart h, if_neg (Nat.not_lt_zero _)]
      simp [lineAt]
    · rw [hfinish]
      simp [lineAt]

/-- **When the lines of a text are listed.** -/
theorem listLines_iff (h : start ≤ finish) (hnlines : nlines < 2 ^ 31) :
    (∃ outs, listLines text start finish nlines (some linePrefix) = some outs ∧
      printedLines (outs.flatMap LineOut.bytes) =
        numberedLines (lineAt text start - nlines) (lineAt text finish + nlines) 1 (text.splitOn 10)) ↔
      Listable text start finish nlines := by
  have hmono : lineAt text (start + 1) ≤ lineAt text (finish + 1) := lineAt_mono text (by omega)
  have hstart : lineAt text start ≤ lineAt text (start + 1) := lineAt_mono text (Nat.le_succ _)
  have hle : lineAt text start ≤ lineAt text finish := lineAt_mono text h
  have hpos : 1 ≤ lineAt text start := Nat.le_add_right 1 _
  constructor
  · rintro ⟨outs, houts, hlines⟩
    have hne := @numberedLines_ne_nil text start finish nlines h
    rw [← hlines] at hne
    unfold listLines at houts
    cases hfind : findLines start finish text 0 1 (-1) with
    | none =>
      rw [hfind] at houts
      cases houts
    | some r =>
      rw [hfind] at houts
      rcases findLines_text h hfind with ⟨-, hnone⟩ | ⟨hfinish, rfl⟩
      · -- the end is not found, and nothing is printed
        dsimp only at houts
        rw [if_pos (.inr hnone)] at houts
        obtain rfl := Option.some.inj houts
        exact absurd rfl hne
      dsimp only at houts
      rw [if_neg (by omega)] at houts
      obtain ⟨r, hprint, rfl⟩ := Option.map_eq_some_iff.mp houts
      rw [bytes_listed] at hlines hne
      -- the numbers of the lines are `int`s
      have hhigh : isInt (lineAt text (finish + 1) + nlines : ℤ) = true := by
        by_contra hno
        rw [printLines_of_overflow (by simpa using hno) hprint] at hne
        exact hne rfl
      have hlimit := (isInt_of_nonneg (by omega)).mp hhigh
      have hlow : isInt (lineAt text (start + 1) - nlines : ℤ) = true :=
        (isInt_iff _).mpr ⟨by omega, by omega⟩
      have hfits := intsFit_of_printLines zero_le_one hprint
      obtain ⟨r', hprint', hshown⟩ := @exists_printLines _ _ _ _ _ _ true zero_le_one hlow hhigh
        (by omega) hfits
      obtain rfl := Option.some.inj (hprint.symm.trans hprint')
      rw [hshown] at hlines
      by_cases hfirst : (lineAt text (start + 1) : ℤ) - nlines ≤ 1
      · exact absurd hlines (printedLines_text_ne hfirst (by omega) (by omega) (by omega))
      rw [printedLines_text (by omega)] at hlines
      have hrange : ∀ k, 1 ≤ k → k ≤ lineAt text text.length → _ := fun k hk hlast =>
        range_iff_of_numberedLines_eq hlines hk (hlast.trans_eq (length_splitOn text).symm)
      have hlast := lineAt_le_last text finish
      have hne10 : text[start]? ≠ some 10 := by
        intro hbreak
        rw [lineAt_succ hbreak, if_pos rfl] at hfirst hrange
        -- the first one of the lines is missing
        have hmissing := hrange (lineAt text start - nlines) (by omega) (by omega)
        omega
      obtain ⟨c, hc⟩ : ∃ c, text[start]? = some c :=
        ⟨_, List.getElem?_eq_getElem (by omega)⟩
      have hsame : lineAt text (start + 1) = lineAt text start := by
        rw [lineAt_succ hc, if_neg fun h10 : c = 10 => hne10 (h10 ▸ hc)]
      refine ⟨hfinish, by omega, hne10, fun hbreak => ?_, by push_cast; exact hlimit,
        by push_cast; exact hfits⟩
      by_contra hmore
      rw [lineAt_succ hbreak, if_pos rfl] at hrange
      -- there is a line too many
      have hmany := hrange (lineAt text finish + nlines + 1) (by omega) (by omega)
      omega
  · rintro ⟨hfinish, hfirst, hne10, hfinishne, hlimit, hfits⟩
    push_cast at hlimit hfits
    obtain ⟨c, hc⟩ : ∃ c, text[start]? = some c := ⟨_, List.getElem?_eq_getElem (by omega)⟩
    have hsame : lineAt text (start + 1) = lineAt text start := by
      rw [lineAt_succ hc, if_neg fun h10 : c = 10 => hne10 (h10 ▸ hc)]
    have hfinishle : lineAt text finish ≤ lineAt text (finish + 1) := lineAt_mono text (Nat.le_succ _)
    obtain ⟨r, hfind⟩ := @exists_findLines start finish _ text 0 1 (-1) zero_le_one hfits (by
        unfold lineAt at hfinishle ⊢
        rw [Nat.sub_zero]
        push_cast at hfinishle ⊢
        omega) (Nat.zero_le _)
    rcases findLines_text h hfind with ⟨hend, -⟩ | ⟨-, rfl⟩
    · omega
    have hhigh : isInt (lineAt text (finish + 1) + nlines : ℤ) = true :=
      (isInt_of_nonneg (by omega)).mpr hlimit
    have hlow : isInt (lineAt text (start + 1) - nlines : ℤ) = true :=
      (isInt_iff _).mpr ⟨by omega, by omega⟩
    obtain ⟨r, hprint, hshown⟩ := @exists_printLines _ _ _ _ _ _ true zero_le_one hlow hhigh
      (by omega) hfits
    unfold listLines
    rw [hfind]
    dsimp only
    rw [if_neg (by omega), hprint]
    refine ⟨_, rfl, ?_⟩
    rw [bytes_listed, hshown, printedLines_text (by omega), hsame]
    -- the lines behind a line break at the end are none, or they are to be printed anyway
    refine numberedLines_congr fun j hj => ?_
    rw [length_splitOn] at hj
    obtain ⟨c', hc'⟩ : ∃ c, text[finish]? = some c := ⟨_, List.getElem?_eq_getElem hfinish⟩
    rw [lineAt_succ hc']
    split
    · next hbreak =>
      have hall := hfinishne (hbreak ▸ hc')
      push_cast
      omega
    · rfl

/-! ### The source of a script -/

/-- The source of a script is a string that can be read, and it has been read. -/
def HasSource (t : Target) (zalloc : Allocator) (scriptp : ℕ) (text : List UInt8) : Prop :=
  ∃ src d leaves out bufsz, t.readHeapPtr scriptp t.cfg.offScriptSource = some src ∧
    StringTree t src d leaves ∧ 2 * d ≤ jsstrMaxdepth ∧ leaves.flatten = text.map UInt8.toNat ∧
    readSource t zalloc src (t.cfg.bits + 1) 1024 = some (.done out bufsz)

theorem asciiByte_toNat {c : UInt8} (hc : c ≤ 126) : asciiByte c.toNat = c := by
  have hlt : c.toNat ≤ 126 := hc
  unfold asciiByte sanitized
  have hascii : isascii c.toNat = true := by
    unfold isascii
    simp only [decide_eq_true_eq]
    omega
  rw [hascii]
  simp

/-- A buffer that holds the characters of a text has the text as its string. -/
theorem str_of_holdsChars {out : OutBuf} {bufsz : ℕ} (hout : HoldsChars (text.map UInt8.toNat) out)
    (hsize : out.bufp + out.len = bufsz) (htext : ∀ c ∈ text, c ≠ 0 ∧ c ≤ 126) :
    out.str bufsz = text := by
  have hlength : text.length < bufsz := by
    have hbufp := hout.length
    rw [List.length_map] at hbufp
    have hslop := hout.slop
    omega
  have hnul := hout.nul
  rw [List.length_map] at hnul
  calc out.str bufsz
      = text.takeWhile (· != 0) := CharMem.cstring_of_nul _ (fun i hi => ?_)
          (by rwa [Nat.zero_add]) hlength
    _ = text := List.takeWhile_eq_self_iff.mpr fun c hc => by simpa using (htext c hc).1
  have hchar := hout.char i text[i].toNat (by simp [hi])
  rw [asciiByte_toNat (htext _ (List.getElem_mem hi)).2] at hchar
  rwa [Nat.zero_add]

/-- **When `jsfunc_lines` lists the lines around a function**, for any source of printable characters and
line breaks. -/
theorem listsLines_iff {t : Target} {zalloc : Allocator} {scriptp : ℕ}
    (hsource : HasSource t zalloc scriptp text)
    (htext : ∀ c ∈ text, c = 10 ∨ (32 ≤ c ∧ c ≤ 126)) (h : start ≤ finish)
    (hfinish : finish ≤ text.length) (hnlines : nlines < 2 ^ 31) :
    ListsLines t zalloc scriptp text start finish nlines ↔ Listable text start finish nlines := by
  obtain ⟨src, d, leaves, out, bufsz, hptr, htree, hdepth, hleaves, hread⟩ := hsource
  obtain ⟨r, hr, hholds⟩ := (readsSource htree hdepth).ends zalloc
  obtain rfl := Option.some.inj (hr.symm.trans hread)
  have hout : HoldsChars (text.map UInt8.toNat) out := hleaves ▸ hholds
  have hsize := readSource_size hread
  have hstr := str_of_holdsChars hout hsize fun c hc => by
    rcases htext c hc with rfl | ⟨hlow, hhigh⟩
    · exact ⟨by decide, by decide⟩
    · exact ⟨fun h0 => absurd (h0 ▸ hlow) (by decide), hhigh⟩
  -- the end of the function is inside the buffer
  have hlt : ¬ finish ≥ bufsz := by
    have hbufp := hout.length
    rw [List.length_map] at hbufp
    have hslop := hout.slop
    omega
  rw [← listLines_iff h hnlines, ListsLines, jsfuncLines, hptr]
  dsimp only
  rw [hread]
  dsimp only
  rw [if_neg hlt, hstr]

/-- A target with a script at `0x1001`, whose source has the lines `"ab"`, `"cd"` and `"ef"`. -/
def scriptTarget : Target :=
  .ofWords { Config.sample .lp64 with offScriptSource := 7 }
    [(0x1000, 0x4001), (0x1008, 0x2001), (0x2000, 0x5001), (0x2008, 8 <<< 32),
      (0x2018, 0x66650a64630a6261), (0x5010, 4)]

/-- The source. -/
def scriptText : List UInt8 := [97, 98, 10, 99, 100, 10, 101, 102]

theorem hasSource_script : HasSource scriptTarget .unlimited 0x1001 scriptText := by
  have hload : v8stringLoad scriptTarget 0x2001 = some { addr := 0x2001, len := 8, type := 4 } := by
    decide
  have htree : StringTree scriptTarget 0x2001 0 [[97, 98, 10, 99, 100, 10, 101, 102]] :=
    .seq hload (by decide) ⟨scriptText, by decide, by decide⟩
  obtain ⟨out, bufsz, hread⟩ := (readsSource htree (by decide)).succeeds .unlimited
    (fun _ hpos => bne_iff_ne.mpr hpos.ne') (by decide)
  exact ⟨0x2001, 0, _, out, bufsz, by decide, htree, by decide, by decide, hread⟩

theorem scriptText_printable : ∀ c ∈ scriptText, c = 10 ∨ (32 ≤ c ∧ c ≤ 126) := by
  intro c hc
  simp only [scriptText, List.mem_cons, List.not_mem_nil, or_false] at hc
  rcases hc with rfl | rfl | rfl | rfl | rfl | rfl | rfl | rfl <;> simp

/-- A function on the second line. -/
theorem listsLines_second : ListsLines scriptTarget .unlimited 0x1001 scriptText 3 4 0 := by
  refine (listsLines_iff hasSource_script scriptText_printable (by norm_num)
    (by simp [scriptText]) (by norm_num)).mpr ?_
  exact ⟨by decide, by decide, by decide, by decide, by decide,
    by simp [IntsFit, scriptText, nextLine, lineAt]⟩

/-- A function on the first line: its first character is printed before the number of the line. -/
theorem not_listsLines_first :
    HasSource scriptTarget .unlimited 0x1001 scriptText ∧
      (listLines scriptText 0 1 0 (some linePrefix)).map (List.flatMap LineOut.bytes) =
        some (bytesOf "a    1 b\n") ∧
      ¬ ListsLines scriptTarget .unlimited 0x1001 scriptText 0 1 0 := by
  refine ⟨hasSource_script, by decide, fun hlines => ?_⟩
  have hlist := (listsLines_iff hasSource_script scriptText_printable (by norm_num)
    (by simp [scriptText]) (by norm_num)).mp hlines
  exact absurd hlist.first (by decide)

end Listing

end MdbV8
