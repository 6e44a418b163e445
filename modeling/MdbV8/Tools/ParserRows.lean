import Mathlib.Data.List.TakeDrop
import MdbV8.Tools.Shown

/-!
# Printed values and rows

The parser finds the end of a value by its last line, if that is a closing bracket. That is so for the
objects and arrays that are printed in several lines of their own. But the last line of an object
without properties, or of an array without elements, is also the first one: the parser stops there, as
its regular expression matches, and then finds that the line is not a bracket. And the line of an array
with one element does not match, so it is taken for the beginning of the next value.

`parserAgrees_iff` says that the rows are those of the values if and only if all values are laid out in
several lines (`Shown.spread`).
-/

namespace MdbV8.Tools

/-! ### What is printed -/

/-- The type of an object or array that is printed to its end. -/
def Shown.type : Shown → Option ValueType
  | .text _ => none
  | .object _ closed => if closed then some .object else none
  | .emptyArray => some .array
  | .oneArray _ _ => some .array
  | .array _ => some .array

/-- A value is laid out in several lines: an object with properties, or an array with more than one
element. -/
def Shown.spread : Shown → Bool
  | .object (.cons _ _ _ _) _ => true
  | .array _ => true
  | _ => false

/-- An object or array that is printed with its address. -/
structure PrintedValue where
  addr : Line
  value : Shown
  type : ValueType
  addr_ne : addr ≠ []
  addr_hex : ∀ c ∈ addr, isHexDigit c = true
  typed : value.type = some type
  noBreaks : value.NoBreaks

namespace PrintedValue

variable (v : PrintedValue)

/-- What is printed of a value. -/
def text : Line := v.addr ++ ':' :: ' ' :: v.value.render 0

/-- Its lines. -/
def lines : List Line := v.text.splitOn '\n'

/-- The row of a value: its address, its type, and its lines after the first one. -/
def row : ParserEvent :=
  .push v.addr { addr := v.addr, type := v.type, lines := v.lines.tail.map trim }

end PrintedValue

/-- What is printed of some values. -/
def printed (vs : List PrintedValue) : Line := vs.flatMap fun v => v.text ++ ['\n']

/-- The lines of a text. This stands for the package `lstream`, the stream in front of the parser that
splits what it gets at the line breaks: if there is nothing behind the last one, that is no line. -/
def streamLines (T : Line) : List Line :=
  if (T.splitOn '\n').getLast? = some [] then (T.splitOn '\n').dropLast else T.splitOn '\n'

/-- **The parser agrees with what has been printed**: it pushes the rows of the values, and nothing
else. -/
def ParserAgrees (vs : List PrintedValue) : Prop :=
  parserRun [] (streamLines (printed vs)) = vs.map PrintedValue.row

/-! ### Lines -/

section Lines

theorem streamLines_printed (vs : List PrintedValue) :
    streamLines (printed vs) = vs.flatMap PrintedValue.lines := by
  have hsplit : (printed vs).splitOn '\n' = vs.flatMap PrintedValue.lines ++ [[]] := by
    induction vs with
    | nil => rfl
    | cons v vs ih =>
      have hcons : printed (v :: vs) = v.text ++ '\n' :: printed vs := by simp [printed]
      rw [hcons, List.splitOn_append_cons_self, ih, List.flatMap_cons, List.append_assoc]
      rfl
  unfold streamLines
  rw [hsplit, if_pos (by simp), List.dropLast_concat]

/-- A text in front of the first line break belongs to the first line. -/
theorem splitOn_prepend {P : Line} (hP : '\n' ∉ P) (T : Line) :
    (P ++ T).splitOn '\n' = (T.splitOn '\n').modifyHead (P ++ ·) := by
  induction P with
  | nil =>
    cases hT : T.splitOn '\n' with
    | nil => exact absurd hT (List.splitOn_ne_nil _ _)
    | cons l ls => rw [List.nil_append, hT]; rfl
  | cons c P ih =>
    rw [List.mem_cons, not_or] at hP
    have hc : (c == '\n') = false := by simpa using fun h => hP.1 h.symm
    rw [List.cons_append, List.splitOn_cons_eq_if_modifyHead, hc, ih hP.2]
    cases hT : T.splitOn '\n' with
    | nil => exact absurd hT (List.splitOn_ne_nil _ _)
    | cons l ls => rfl

/-- A text behind the last line break belongs to the last line. -/
theorem splitOn_getLast {S : Line} (hS : '\n' ∉ S) (T : Line) :
    ∃ P, ((T ++ S).splitOn '\n').getLast? = some (P ++ S) := by
  induction T with
  | nil =>
    rw [List.nil_append, List.splitOn_eq_singleton hS]
    exact ⟨[], rfl⟩
  | cons c T ih =>
    obtain ⟨P, hlast⟩ := ih
    rw [List.cons_append, List.splitOn_cons_eq_if_modifyHead]
    cases hsplit : (T ++ S).splitOn '\n' with
    | nil => exact absurd hsplit (List.splitOn_ne_nil _ _)
    | cons l ls =>
      rw [hsplit] at hlast
      split
      · exact ⟨P, by rw [List.getLast?_cons_cons, hlast]⟩
      · cases ls with
        | nil =>
          obtain rfl : l = P ++ S := Option.some.inj hlast
          exact ⟨c :: P, rfl⟩
        | cons m ms => exact ⟨P, by rw [List.modifyHead_cons, List.getLast?_cons_cons] at *; exact hlast⟩

theorem splitOn_break (T : Line) : ('\n' :: T).splitOn '\n' = [] :: T.splitOn '\n' :=
  List.splitOn_append_cons_self [] T

/-- The text between the first line break and the last one. -/
theorem splitOn_between {P : Line} (hP : '\n' ∉ P) {c : Char} (hc : c ≠ '\n') (B : Line) :
    (P ++ '\n' :: (B ++ '\n' :: [c])).splitOn '\n' = P :: (B.splitOn '\n' ++ [[c]]) := by
  have hbracket : [c].splitOn '\n' = [[c]] := List.splitOn_eq_singleton (by simpa using hc.symm)
  rw [List.splitOn_append_cons_self, List.splitOn_append_cons_self, List.splitOn_eq_singleton hP,
    hbracket]
  rfl

end Lines

/-! ### The end of a value -/

section Ends

/-- The number of characters of a line that are not taken away by `trim`. -/
def marks (l : Line) : ℕ := l.countP fun c => !isJsSpace c

theorem marks_append (l l' : Line) : marks (l ++ l') = marks l + marks l' := List.countP_append

theorem marks_dropWhile (l : Line) : marks (l.dropWhile isJsSpace) = marks l := by
  induction l with
  | nil => rfl
  | cons c l ih =>
    by_cases hc : isJsSpace c = true
    · rw [List.dropWhile_cons_of_pos hc, ih, marks, marks, List.countP_cons_of_neg (by simp [hc])]
    · rw [List.dropWhile_cons_of_neg hc]

theorem marks_trim (l : Line) : marks (trim l) = marks l := by
  unfold trim List.rdropWhile
  have hreverse := marks_dropWhile (l.dropWhile isJsSpace).reverse
  unfold marks at *
  rw [List.countP_reverse, hreverse, List.countP_reverse]
  exact marks_dropWhile l

/-- A line that begins and ends with something else than a blank. -/
theorem trim_eq_self {l : Line} {c d : Char} (hc : isJsSpace c = false) (hd : isJsSpace d = false)
    (hhead : l.head? = some c) (hlast : l.getLast? = some d) : trim l = l := by
  cases l with
  | nil => cases hhead
  | cons c' l =>
    obtain rfl : c' = c := Option.some.inj hhead
    unfold trim
    rw [List.dropWhile_cons_of_neg (by simp [hc]), List.rdropWhile_eq_self_iff]
    intro hne
    rw [List.getLast?_eq_some_getLast hne] at hlast
    rw [Option.some.inj hlast, hd]
    decide

/-- The last line is not a bracket. -/
theorem valueDone_warn {lines : List Line} {l : Line} (hlast : lines.getLast? = some l)
    (hmarks : 2 ≤ marks l) : valueDone lines = .warn "unrecognized value" := by
  have hlast' : lines.getLastD [] = l := by rw [List.getLastD_eq_getLast?, hlast, Option.getD_some]
  unfold valueDone
  dsimp only
  rw [hlast', if_pos]
  constructor
  · rintro rfl
    exact absurd hmarks (by decide)
  · rintro rfl
    exact absurd hmarks (by decide)

variable {addr : Line} (hne : addr ≠ []) (hhex : ∀ c ∈ addr, isHexDigit c = true)

/-- A digit is neither a blank nor one of the other characters that matter. -/
theorem hexDigit_spec {c : Char} (hc : isHexDigit c = true) :
    isJsSpace c = false ∧ c ≠ '\x7d' ∧ c ≠ ']' ∧ c ≠ '\n' := by
  have hle : c ≤ 'f' := by
    simp only [isHexDigit, Bool.or_eq_true, Bool.and_eq_true, decide_eq_true_eq] at hc
    rcases hc with (⟨-, hle⟩ | ⟨-, hle⟩) | ⟨-, hle⟩
    · exact Char.le_trans hle (by decide)
    · exact hle
    · exact Char.le_trans hle (by decide)
  have hne : ∀ d, isHexDigit d = false → c ≠ d := by
    rintro d hd rfl
    exact absurd (hc.symm.trans hd) (by decide)
  refine ⟨?_, hne _ (by decide), hne _ (by decide), hne _ (by decide)⟩
  unfold isJsSpace
  rw [Bool.or_eq_false_iff]
  constructor
  · simp only [decide_eq_false_iff_not, List.mem_cons, List.not_mem_nil, or_false, not_or]
    refine ⟨?_, ?_, ?_, ?_, ?_, ?_, ?_, ?_, ?_, ?_, ?_, ?_, ?_, ?_⟩ <;> exact hne _ (by decide)
  · have hlt : ¬ '\u2000' ≤ c := fun h => absurd (Char.le_trans h hle) (by decide)
    simp [hlt]

include hhex in
/-- The digits end at the colon. -/
theorem addr_span (rest : Line) : (addr ++ ':' :: rest).span isHexDigit = (addr, ':' :: rest) := by
  rw [List.span_eq_takeWhile_dropWhile, List.takeWhile_append_of_pos hhex,
    List.dropWhile_append_of_pos hhex, List.takeWhile_cons_of_neg (by decide),
    List.dropWhile_cons_of_neg (by decide), List.append_nil]

include hne hhex in
/-- A line with an address ends a value if two brackets follow. -/
theorem endsValue_addr (rest : Line) :
    endsValue (addr ++ ':' :: ' ' :: rest) = true ↔
      ∃ opener closer rest', rest = opener :: closer :: rest' ∧ (opener = '\x7b' ∨ opener = '[') ∧
        (closer = '\x7d' ∨ closer = ']') := by
  have hspan := addr_span hhex (' ' :: rest)
  obtain ⟨c, cs, rfl⟩ := List.exists_cons_of_ne_nil hne
  obtain ⟨-, hbrace, hbracket, -⟩ := hexDigit_spec (hhex c List.mem_cons_self)
  unfold endsValue emptyValue
  rw [hspan]
  simp only [List.cons_append, List.head?_cons, beq_iff_eq, Option.some.injEq, hbrace, hbracket,
    Bool.or_eq_true, false_or]
  cases rest with
  | nil => simp
  | cons opener rest =>
    cases rest with
    | nil => simp
    | cons closer rest => simp

/-- A line that begins with a blank does not. -/
theorem endsValue_blank {l : Line} (hl : l.head? = some ' ') : endsValue l = false := by
  cases l with
  | nil => cases hl
  | cons c l =>
    obtain rfl : c = ' ' := Option.some.inj hl
    rfl

end Ends

/-! ### What the parser does with lines -/

section Runs

/-- Lines that do not end a value are collected. -/
theorem parserRun_open (accum rest : List Line) {ls : List Line} (h : ∀ l ∈ ls, endsValue l = false) :
    parserRun accum (ls ++ rest) = parserRun (accum ++ ls.map trim) rest := by
  induction ls generalizing accum with
  | nil => simp
  | cons l ls ih =>
    have hl : parserTransform accum l = (accum ++ [trim l], []) := by
      simp [parserTransform, h l List.mem_cons_self]
    rw [List.cons_append, parserRun, hl, List.nil_append,
      ih _ fun l' hl' => h l' (List.mem_cons_of_mem _ hl'), List.append_assoc, List.map_cons]
    rfl

/-- At the end of a value it is done. -/
theorem parserRun_ends (accum rest : List Line) {l : Line} (h : endsValue l = true) :
    parserRun accum (l :: rest) = valueDone (accum ++ [trim l]) :: parserRun [] rest := by
  have hl : parserTransform accum l = ([], [valueDone (accum ++ [trim l])]) := by
    simp [parserTransform, h]
  rw [parserRun, hl]
  rfl

end Runs

/-! ### The lines of a value -/

namespace PrintedValue

variable (v : PrintedValue)

/-- An address and something else without line breaks. -/
theorem noBreak_addr {S : Line} (hS : '\n' ∉ S) : '\n' ∉ v.addr ++ S := by
  intro h
  rcases List.mem_append.mp h with h | h
  · exact (hexDigit_spec (v.addr_hex _ h)).2.2.2 rfl
  · exact hS h

/-- The digits of the address are not taken away. -/
theorem marks_addr : 1 ≤ marks v.addr := by
  obtain ⟨c, cs, hcons⟩ := List.exists_cons_of_ne_nil v.addr_ne
  have hc := (hexDigit_spec (v.addr_hex c (by rw [hcons]; exact List.mem_cons_self))).1
  rw [hcons, marks, List.countP_cons_of_pos (by rw [hc]; rfl)]
  omega

/-- A value that is laid out in several lines: between its first line and the bracket in its last one,
all lines begin with a blank. -/
theorem lines_of_spread (h : v.value.spread = true) : ∃ opener closer inner,
    v.lines = (v.addr ++ [':', ' ', opener]) :: (inner ++ [[closer]]) ∧
      (∀ l ∈ inner, l.head? = some ' ') ∧
      (opener = '\x7b' ∧ closer = '\x7d' ∧ v.type = .object ∨
        opener = '[' ∧ closer = ']' ∧ v.type = .array) := by
  have hfirst : ∀ opener, opener ≠ '\n' → '\n' ∉ v.addr ++ [':', ' ', opener] := fun opener hopener =>
    v.noBreak_addr (by simp [hopener.symm])
  have htyped := v.typed
  have hbreaks := v.noBreaks
  cases hvalue : v.value with
  | text T => rw [hvalue] at h; cases h
  | emptyArray => rw [hvalue] at h; cases h
  | oneArray addr elt => rw [hvalue] at h; cases h
  | object props closed =>
    rw [hvalue] at h htyped hbreaks
    cases props with
    | nil => cases h
    | cons desc addr val rest =>
      cases closed with
      | false => cases htyped
      | true =>
        have htail := (ShownProps.indented_render (k := 0) (.cons desc addr val rest) hbreaks).tail
        -- what is behind the first line break
        obtain ⟨B, hB⟩ : ∃ B, (ShownProps.cons desc addr val rest).render 0 = '\n' :: B := by
          unfold ShownProps.render
          exact ⟨_, rfl⟩
        rw [hB, splitOn_break] at htail
        refine ⟨'\x7b', '\x7d', B.splitOn '\n', ?_, htail,
          .inl ⟨rfl, rfl, (Option.some.inj htyped).symm⟩⟩
        -- the closing bracket has a line of its own
        have htext : v.text = (v.addr ++ [':', ' ', '\x7b']) ++ '\n' :: (B ++ '\n' :: ['\x7d']) := by
          simp [text, hvalue, Shown.render, hB, blanks]
        rw [lines, htext, splitOn_between (hfirst _ (by decide)) (by decide)]
  | array elts =>
    rw [hvalue] at htyped hbreaks
    have htype : v.type = .array := (Option.some.inj htyped).symm
    cases elts with
    | nil =>
      refine ⟨'[', ']', [], ?_, fun l hl => absurd hl List.not_mem_nil, .inr ⟨rfl, rfl, htype⟩⟩
      have htext : v.text = (v.addr ++ [':', ' ', '[']) ++ '\n' :: [']'] := by
        simp [text, hvalue, Shown.render, ShownElts.render, blanks]
      rw [lines, htext, List.splitOn_append_cons_self, List.splitOn_eq_singleton (hfirst _ (by decide))]
      rfl
    | cons addr elt rest =>
      -- between the brackets there are the elements, which are indented
      obtain ⟨B, hB⟩ := ShownElts.render_cons_ends 0 addr elt rest
      have htail := (ShownElts.indented_render (k := 0) (.cons addr elt rest) hbreaks [' ']
        (.of_noBreaks (by decide)) rfl).tail
      rw [hB, splitOn_break, List.append_assoc, List.singleton_append,
        List.splitOn_append_cons_self] at htail
      refine ⟨'[', ']', B.splitOn '\n', ?_, fun l hl => htail l (List.mem_append_left _ hl),
        .inr ⟨rfl, rfl, htype⟩⟩
      have htext : v.text = (v.addr ++ [':', ' ', '[']) ++ '\n' :: (B ++ '\n' :: [']']) := by
        simp [text, hvalue, Shown.render, hB, blanks]
      rw [lines, htext, splitOn_between (hfirst _ (by decide)) (by decide)]

/-- The line of an array with one element, or its lines, do not end a value, and the last one is not a
bracket. -/
theorem lines_of_oneArray {addr : Line} {elt : Shown} (hvalue : v.value = .oneArray addr elt) :
    (∀ l ∈ v.lines, endsValue l = false) ∧ ∃ l, v.lines.getLast? = some l ∧ 2 ≤ marks l := by
  have hbreaks := v.noBreaks
  rw [hvalue] at hbreaks
  have hfirst : '\n' ∉ v.addr ++ [':', ' ', '[', ' '] := v.noBreak_addr (by decide)
  have htext : v.text =
      (v.addr ++ [':', ' ', '[', ' ']) ++ (addr ++ (elt.render 4 ++ [' ', ']'])) := by
    simp [text, hvalue, Shown.render]
  constructor
  · have hindented : Indented v.text := by
      rw [htext]
      exact (Indented.of_noBreaks hfirst).append ((Indented.of_noBreaks hbreaks.1).append
        ((Shown.indented_render (k := 3) elt hbreaks.2).append (.of_noBreaks (by decide))))
    have htail := hindented.tail
    rw [htext, splitOn_prepend hfirst] at htail
    rw [lines, htext, splitOn_prepend hfirst]
    cases hsplit : (addr ++ (elt.render 4 ++ [' ', ']'])).splitOn '\n' with
    | nil => exact absurd hsplit (List.splitOn_ne_nil _ _)
    | cons m ms =>
      rw [hsplit, List.modifyHead_cons] at htail
      rw [List.modifyHead_cons]
      intro l hl
      rcases List.mem_cons.mp hl with rfl | hl
      · -- a blank follows the bracket
        have hfirstLine : v.addr ++ [':', ' ', '[', ' '] ++ m =
            v.addr ++ ':' :: ' ' :: '[' :: ' ' :: m := by simp
        rw [Bool.eq_false_iff, hfirstLine]
        intro hends
        obtain ⟨opener, closer, rest, hrest, -, hcloser⟩ :=
          (endsValue_addr v.addr_ne v.addr_hex ('[' :: ' ' :: m)).mp hends
        rw [List.cons.injEq, List.cons.injEq] at hrest
        rw [← hrest.2.1] at hcloser
        exact absurd hcloser (by decide)
      · exact endsValue_blank (htail l hl)
  · by_cases hbreak : '\n' ∈ elt.render 4
    · obtain ⟨P, c, hrender, hc⟩ := Shown.render_ends hbreaks.2 hbreak
      have hS : '\n' ∉ [c, ' ', ']'] := by
        have hne : '\n' ≠ c := fun h => absurd (h ▸ hc) (by decide)
        simp [hne]
      obtain ⟨Q, hlast⟩ := splitOn_getLast hS (v.addr ++ [':', ' ', '[', ' '] ++ (addr ++ P))
      refine ⟨Q ++ [c, ' ', ']'], ?_, ?_⟩
      · rw [lines, htext, hrender, ← hlast]
        simp
      · -- the last line has a blank in front of its bracket
        have htwo : marks [c, ' ', ']'] = 2 := by
          rw [marks, List.countP_cons_of_pos (by rw [hc]; rfl)]
          rfl
        rw [marks_append, htwo]
        omega
    · -- everything is on one line
      have hone : '\n' ∉ v.text := by
        rw [htext]
        simp only [List.mem_append, not_or] at hfirst ⊢
        exact ⟨hfirst, hbreaks.1, hbreak, by decide⟩
      refine ⟨v.text, by rw [lines, List.splitOn_eq_singleton hone]; rfl, ?_⟩
      have haddr := v.marks_addr
      have hbracket : 1 ≤ marks [':', ' ', '[', ' '] := by decide
      rw [htext, marks_append, marks_append]
      omega

/-- An empty object or array has one line, and it ends a value. -/
theorem lines_of_empty (h : v.value.spread = false) :
    (∃ opener closer, v.lines = [v.addr ++ [':', ' ', opener, closer]] ∧
      (opener = '\x7b' ∨ opener = '[') ∧ (closer = '\x7d' ∨ closer = ']')) ∨
      ∃ addr elt, v.value = .oneArray addr elt := by
  have hline : ∀ brackets, '\n' ∉ brackets → v.value.render 0 = brackets →
      v.lines = [v.addr ++ ':' :: ' ' :: brackets] := by
    rintro brackets hbrackets rfl
    exact List.splitOn_eq_singleton (v.noBreak_addr (by simp [hbrackets]))
  have htyped := v.typed
  cases hvalue : v.value with
  | text T => rw [hvalue] at htyped; cases htyped
  | array elts => rw [hvalue] at h; cases h
  | oneArray addr elt => exact .inr ⟨addr, elt, rfl⟩
  | emptyArray =>
    exact .inl ⟨'[', ']', hline _ (by decide) (by rw [hvalue, Shown.render]), .inr rfl, .inr rfl⟩
  | object props closed =>
    rw [hvalue] at h htyped
    -- an empty object is closed at once
    cases props with
    | cons desc addr val rest => cases h
    | nil =>
      cases closed with
      | false => cases htyped
      | true =>
        exact .inl ⟨'\x7b', '\x7d', hline _ (by decide) (by rw [hvalue, Shown.render]; rfl), .inl rfl,
          .inl rfl⟩

/-! ### What the parser does with a value -/

/-- The first line of a value that is laid out in several lines has no end of a value in it, and is not
changed by `trim`. -/
theorem firstLine_spec {opener : Char} (hopener : opener = '\x7b' ∨ opener = '[') :
    endsValue (v.addr ++ [':', ' ', opener]) = false ∧
      trim (v.addr ++ [':', ' ', opener]) = v.addr ++ [':', ' ', opener] := by
  constructor
  · rw [Bool.eq_false_iff]
    intro hends
    obtain ⟨_, _, _, hrest, -⟩ := (endsValue_addr v.addr_ne v.addr_hex [opener]).mp hends
    cases hrest
  · obtain ⟨c, cs, hcons⟩ := List.exists_cons_of_ne_nil v.addr_ne
    have hc := (hexDigit_spec (v.addr_hex c (by rw [hcons]; exact List.mem_cons_self))).1
    have hspace : isJsSpace opener = false := by rcases hopener with rfl | rfl <;> decide
    exact trim_eq_self hc hspace (by rw [hcons]; rfl) (by simp)

/-- A value that is laid out in several lines is done at its last line. -/
theorem parserRun_of_spread (h : v.value.spread = true) (accum rest : List Line) :
    parserRun accum (v.lines ++ rest) = valueDone (accum ++ v.lines.map trim) :: parserRun [] rest := by
  obtain ⟨opener, closer, inner, hlines, hinner, hbrackets⟩ := v.lines_of_spread h
  have hopen : ∀ l ∈ (v.addr ++ [':', ' ', opener]) :: inner, endsValue l = false := by
    intro l hl
    rcases List.mem_cons.mp hl with rfl | hl
    · exact (v.firstLine_spec (hbrackets.imp (·.1) (·.1))).1
    · exact endsValue_blank (hinner l hl)
  have hcloser : endsValue [closer] = true := by
    rcases hbrackets with ⟨-, rfl, -⟩ | ⟨-, rfl, -⟩ <;> rfl
  have hsplit : v.lines ++ rest = ((v.addr ++ [':', ' ', opener]) :: inner) ++ ([closer] :: rest) := by
    rw [hlines]
    simp
  rw [hsplit, parserRun_open _ _ hopen, parserRun_ends _ _ hcloser, hlines]
  simp

/-- If nothing has been collected before, its row is pushed. -/
theorem valueDone_of_spread (h : v.value.spread = true) : valueDone (v.lines.map trim) = v.row := by
  obtain ⟨opener, closer, inner, hlines, hinner, hbrackets⟩ := v.lines_of_spread h
  have htrim := (v.firstLine_spec (hbrackets.imp (·.1) (·.1))).2
  -- trimming does not change the brackets
  have hcloser : trim [closer] = [closer] := by
    rcases hbrackets with ⟨-, rfl, -⟩ | ⟨-, rfl, -⟩ <;> rfl
  -- the address ends at the first colon
  have hcolon : (v.addr ++ [':', ' ', opener]).idxOf ':' = v.addr.length := by
    rw [List.idxOf_append_of_notMem, List.idxOf_cons_self, Nat.add_zero]
    intro hmem
    exact absurd (v.addr_hex _ hmem) (by decide)
  have hat : (v.addr ++ [':', ' ', opener])[v.addr.length + 2]? = some opener := by
    rw [List.getElem?_append_right (by omega)]
    simp
  have hmap : v.lines.map trim = (v.addr ++ [':', ' ', opener]) :: inner.map trim ++ [[closer]] := by
    rw [hlines, List.map_cons, List.map_append, List.map_singleton, htrim, hcloser, List.cons_append]
  have htail : v.lines.tail.map trim = inner.map trim ++ [[closer]] := by
    rw [List.map_tail, hmap, List.cons_append, List.tail_cons]
  unfold row valueDone
  dsimp only
  rw [htail, hmap, List.getLastD_concat, List.cons_append, List.headD_cons, List.tail_cons]
  rw [hcolon, hat, List.take_left]
  rcases hbrackets with ⟨rfl, rfl, htype⟩ | ⟨rfl, rfl, htype⟩
  · simp [htype]
  · simp [htype]

end PrintedValue

/-! ### Rows -/

section Rows

/-- What comes out is a row. -/
def ParserEvent.isRow : ParserEvent → Bool
  | .push _ _ => true
  | .warn _ => false

/-- What has been collected before a value: nothing, or lines of which the last one is not a bracket. -/
def Carried (accum : List Line) : Prop :=
  accum = [] ∨ ∃ l, accum.getLast? = some l ∧ 2 ≤ marks l

/-- At the end there is no row for that. -/
theorem Carried.flush {accum : List Line} (h : Carried accum) :
    (parserFlush accum).countP ParserEvent.isRow = 0 := by
  unfold parserFlush
  rcases h with rfl | ⟨l, hlast, hmarks⟩
  · rfl
  · split
    · rw [valueDone_warn hlast hmarks]
      rfl
    · rfl

/-- There are at most as many rows as values that are laid out in several lines. -/
theorem countP_isRow_le (vs : List PrintedValue) {accum : List Line} (h : Carried accum) :
    (parserRun accum (vs.flatMap PrintedValue.lines)).countP ParserEvent.isRow ≤
      vs.countP fun v => v.value.spread := by
  induction vs generalizing accum with
  | nil => exact h.flush.le
  | cons v vs ih =>
    rw [List.flatMap_cons]
    cases hspread : v.value.spread with
    | true =>
      have hrest := ih (.inl rfl : Carried [])
      have hcount : (v :: vs).countP (fun v => v.value.spread) =
          vs.countP (fun v => v.value.spread) + 1 := List.countP_cons_of_pos hspread
      rw [v.parserRun_of_spread hspread, List.countP_cons, hcount]
      -- there is one row at most for the value
      split <;> omega
    | false =>
      rw [List.countP_cons_of_neg (by simp [hspread])]
      rcases v.lines_of_empty hspread with
        ⟨opener, closer, hlines, hopener, hcloser⟩ | ⟨addr, elt, hvalue⟩
      · have hends : endsValue (v.addr ++ [':', ' ', opener, closer]) = true :=
          (endsValue_addr v.addr_ne v.addr_hex [opener, closer]).mpr
            ⟨opener, closer, [], rfl, hopener, hcloser⟩
        have hmarks : 2 ≤ marks (trim (v.addr ++ [':', ' ', opener, closer])) := by
          have haddr := v.marks_addr
          have hcolon : marks (':' :: ' ' :: [opener, closer]) = marks [' ', opener, closer] + 1 :=
            List.countP_cons_of_pos (by decide)
          rw [marks_trim, marks_append, hcolon]
          omega
        rw [hlines, List.singleton_append, parserRun_ends _ _ hends, valueDone_warn (by simp) hmarks]
        exact ih (.inl rfl)
      · obtain ⟨hopen, l, hlast, hmarks⟩ := v.lines_of_oneArray hvalue
        rw [parserRun_open _ _ hopen]
        refine ih (.inr ⟨trim l, ?_, by rwa [marks_trim]⟩)
        rw [List.getLast?_append, List.getLast?_map, hlast]
        rfl

/-- **The rows are those of the values, if and only if all values are laid out in several lines.** -/
theorem parserAgrees_iff (vs : List PrintedValue) :
    ParserAgrees vs ↔ ∀ v ∈ vs, v.value.spread = true := by
  unfold ParserAgrees
  rw [streamLines_printed]
  constructor
  · intro hagrees
    have hle := countP_isRow_le vs (.inl rfl : Carried [])
    have hrows : (vs.map PrintedValue.row).countP ParserEvent.isRow = vs.length := by
      rw [List.countP_map, List.countP_eq_length]
      exact fun v _ => rfl
    rw [hagrees, hrows] at hle
    exact List.countP_eq_length.mp (le_antisymm List.countP_le_length hle)
  · intro hspread
    induction vs with
    | nil => rfl
    | cons v vs ih =>
      have hv := hspread v List.mem_cons_self
      rw [List.flatMap_cons, v.parserRun_of_spread hv, List.nil_append, v.valueDone_of_spread hv,
        ih fun v' hv' => hspread v' (List.mem_cons_of_mem v hv'), List.map_cons]

/-- An object without properties. -/
def emptyObject : PrintedValue where
  addr := ['8', '0', '9', '1']
  value := .object .nil true
  type := .object
  addr_ne := by decide
  addr_hex := List.all_eq_true.mp (by decide)
  typed := rfl
  noBreaks := trivial

/-- **There is no row for an object without properties.** -/
theorem not_parserAgrees_emptyObject : ¬ ParserAgrees [emptyObject] := by
  unfold ParserAgrees
  decide

end Rows

end MdbV8.Tools
