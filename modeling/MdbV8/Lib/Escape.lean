import Mathlib

/-!
# Escaping

A text is *escaped* symbol by symbol: a symbol that has a *code* is written as the escape symbol and
the code, and any other one as it stands. A reader scans the result from left to right, and takes what
is behind an escape symbol for a code.

* `unescape_escape`: the reader gets the text back if the escape symbol itself is escaped, and if the
  reader knows the codes;
* `shields_escape_iff`: a symbol stands in the result behind an escape symbol only, if it has a code or
  does not occur in the text.
-/

namespace MdbV8.Lib

/-- A way to write and to read escaped texts. The reader may know more codes than the writer uses. -/
structure Escaping (α : Type*) where
  /-- The escape symbol. -/
  esc : α
  /-- What is written behind the escape symbol in the place of a symbol, if that one is escaped. -/
  code : α → Option α
  /-- What a code is read as. -/
  decode : α → Option α
  decode_code : ∀ {a b : α}, code a = some b → decode b = some a
  /-- The escape symbol is escaped. -/
  code_esc : code esc ≠ none

namespace Escaping

variable {α : Type*} (E : Escaping α)

/-- A symbol is written. -/
def escapeOne (a : α) : List α :=
  match E.code a with
  | some b => [E.esc, b]
  | none => [a]

/-- A text is written. -/
def escape (text : List α) : List α := text.flatMap E.escapeOne

theorem ne_esc_of_code {E : Escaping α} {a : α} (h : E.code a = none) : a ≠ E.esc := fun ha =>
  E.code_esc (ha ▸ h)

theorem escape_cons_of_some {a b : α} (h : E.code a = some b) (text : List α) :
    E.escape (a :: text) = E.esc :: b :: E.escape text := by
  rw [escape, List.flatMap_cons, escapeOne, h]
  rfl

theorem escape_cons_of_none {a : α} (h : E.code a = none) (text : List α) :
    E.escape (a :: text) = a :: E.escape text := by
  rw [escape, List.flatMap_cons, escapeOne, h]
  rfl

variable [DecidableEq α]

/-- A text is read. There is no result if it ends in an escape symbol, or has one before something that
is no code. -/
def unescape : List α → Option (List α)
  | [] => some []
  | [a] => if a = E.esc then none else some [a]
  | a :: b :: text =>
    if a = E.esc then (E.decode b).bind fun c => (unescape text).map (c :: ·)
    else (unescape (b :: text)).map (a :: ·)

/-- A symbol stands in an escaped text behind an escape symbol only: one that does not itself stand
behind another. -/
def Shields (q : α) : List α → Prop
  | [] => True
  | [a] => a = E.esc ∨ a ≠ q
  | a :: b :: text => if a = E.esc then Shields q text else a ≠ q ∧ Shields q (b :: text)

variable {E}

theorem unescape_cons {a : α} (h : a ≠ E.esc) (text : List α) :
    E.unescape (a :: text) = (E.unescape text).map (a :: ·) := by
  cases text with
  | nil => simp [unescape, h]
  | cons b text => rw [unescape, if_neg h]

theorem unescape_esc {b c : α} (h : E.decode b = some c) (text : List α) :
    E.unescape (E.esc :: b :: text) = (E.unescape text).map (c :: ·) := by
  rw [unescape, if_pos rfl, h, Option.bind_some]

theorem shields_cons {q a : α} (h : a ≠ E.esc) (text : List α) :
    E.Shields q (a :: text) ↔ a ≠ q ∧ E.Shields q text := by
  cases text with
  | nil => simp [Shields, h]
  | cons b text => rw [Shields, if_neg h]

theorem shields_esc {q b : α} (text : List α) :
    E.Shields q (E.esc :: b :: text) ↔ E.Shields q text := by
  rw [Shields, if_pos rfl]

variable (E)

/-- **What has been escaped can be read.** -/
theorem unescape_escape (text : List α) : E.unescape (E.escape text) = some text := by
  induction text with
  | nil => rw [escape, List.flatMap_nil, unescape]
  | cons a text ih =>
    cases hcode : E.code a with
    | some b =>
      rw [E.escape_cons_of_some hcode, unescape_esc (E.decode_code hcode), ih, Option.map_some]
    | none =>
      rw [E.escape_cons_of_none hcode, unescape_cons (ne_esc_of_code hcode), ih, Option.map_some]

/-- **When a symbol stands behind escape symbols only.** -/
theorem shields_escape_iff (q : α) (text : List α) :
    E.Shields q (E.escape text) ↔ (q ∈ text → E.code q ≠ none) := by
  induction text with
  | nil => simp [escape, Shields]
  | cons a text ih =>
    rw [List.mem_cons]
    cases hcode : E.code a with
    | some b =>
      rw [E.escape_cons_of_some hcode, shields_esc, ih]
      refine ⟨fun h => ?_, fun h hq => h (.inr hq)⟩
      rintro (rfl | hq)
      · simp [hcode]
      · exact h hq
    | none =>
      rw [E.escape_cons_of_none hcode, shields_cons (ne_esc_of_code hcode), ih]
      constructor
      · rintro ⟨hne, h⟩ (rfl | hq)
        · exact absurd rfl hne
        · exact h hq
      · refine fun h => ⟨?_, fun hq => h (.inr hq)⟩
        rintro rfl
        exact h (.inl rfl) hcode

end Escaping

end MdbV8.Lib
