import MdbV8.Objects.RoundTrip
import MdbV8.Print.Rendering

/-!
# Values and their text

What `::jsprint` shows of a value is a text with the values inside it, down to some depth. Here a heap is a
map from words to values (`JsHeap`): the values inside an object or an array are words, so that values can
refer to each other in circles. `JsHeap.text` is the text of a value of a heap, and `JsHeap.StoredIn` says
that memory is laid out for all of it.
-/

namespace MdbV8

/-! ### Values -/

/-- A value. -/
inductive JsValue where
  | int (v : ℤ)
  | number (bits : ℕ)
  | string (s : List UInt8)
  | oddball (name : List UInt8)
  | object (o : JsObject)
  | array (elts : List ℕ)
  deriving DecidableEq, Repr

/-- The values inside an object or an array. -/
def JsValue.parts : JsValue → List ℕ
  | object o => o.props.map Prod.snd
  | array elts => elts
  | _ => []

/-- **The values that words stand for.** -/
abbrev JsHeap : Type := ℕ → Option JsValue

/-! ### Texts -/

/-- The line of a property with some text. -/
def propText (indent : ℕ) (p : List UInt8 × List UInt8) : List UInt8 :=
  bytesOf "\n" ++ fmtBlanks (indent + 4 : ℕ) ++ bytesOf "\"" ++ p.1 ++ bytesOf "\": " ++ p.2 ++ bytesOf ","

/-- The text of an object, from the names and the texts of its properties, behind some blanks. -/
def propsText (indent : ℕ) (props : List (List UInt8 × List UInt8)) : List UInt8 :=
  bytesOf "\x7b" ++ props.flatMap (propText indent) ++
    (if props = [] then [] else bytesOf "\n" ++ fmtBlanks indent) ++ bytesOf "\x7d"

/-- The line of an element with some text. -/
def eltText (indent : ℕ) (elt : List UInt8) : List UInt8 :=
  fmtBlanks (indent + 4 : ℕ) ++ elt ++ bytesOf ",\n"

/-- The text of an array, from the texts of its elements. -/
def eltsText (indent : ℕ) : List (List UInt8) → List UInt8
  | [] => bytesOf "[]"
  | [elt] => bytesOf "[ " ++ elt ++ bytesOf " ]"
  | elts =>
    bytesOf "[\n" ++ elts.flatMap (eltText indent) ++ fmtBlanks indent ++ bytesOf "]"

/-- The text of a value, from the texts of the values inside it, or without them. -/
def JsValue.text (indent : ℕ) (part : Option (ℕ → List UInt8)) : JsValue → List UInt8
  | int v => fmtInt v
  | number bits => doubleText (.ofBits bits)
  | string s => bytesOf "\"" ++ s ++ bytesOf "\""
  | oddball name => name
  | object o => part.elim (bytesOf "[...]") fun text =>
    propsText indent (o.props.map fun p => (p.1, text p.2))
  | array elts => part.elim (bytesOf "[...]") fun text => eltsText indent (elts.map text)

/-- **The text of a value of a heap**, down to a depth, with something before each value. -/
def JsHeap.text (H : JsHeap) (before : ℕ → List UInt8) : ℕ → ℕ → ℕ → List UInt8
  | 0, indent, w => before w ++ (H w).elim [] (JsValue.text indent none)
  | depth + 1, indent, w =>
    before w ++ (H w).elim [] (JsValue.text indent (some (H.text before depth (indent + 4))))

/-- The addresses before a value: that of the first value, and its own. -/
def addrsText (base : ℕ) (printaddr : Bool) (w : ℕ) : List UInt8 :=
  (if base ≠ 0 then fmtP base ++ bytesOf ": " else []) ++
    if printaddr then fmtP w ++ bytesOf ": " else []

/-! ### Memory -/

section Memory

variable (t : Target) (b : PropBits)

/-- An array: of the words at the beginning of its FixedArray. -/
def ArrayAt (addr : ℕ) (elts : List ℕ) : Prop :=
  ∃ ap, v8arrayLoad t addr = some ap ∧ ap.length = elts.length ∧
    (elts ≠ [] → ∃ arrayp bs, ap.elements = some arrayp ∧ Readable t arrayp bs ∧
      elts = (Target.wordsOf t.cfg.ptrSize bs).take elts.length)

/-- What a word stands for. -/
def ValueAt (w : ℕ) : JsValue → Prop
  | .int v => t.cfg.IsSmiInt v ∧ w = t.cfg.smiWord v
  | .number bits => valueKlass t (some (.addr w)) = some "HeapNumber" ∧
    t.readHeapDouble w t.cfg.offHeapnumberValue = some bits
  | .string s => t.cfg.isHeapobject w = true ∧ NameAt t w s
  | .oddball name => valueKlass t (some (.addr w)) = some "Oddball" ∧
    ∃ strptr, t.readHeapPtr w t.cfg.offOddballToString = some strptr ∧ NameAt t strptr name
  | .object o => valueKlass t (some (.addr w)) = some "JSObject" ∧ StoredObject t b w o
  | .array elts => valueKlass t (some (.addr w)) = some "JSArray" ∧ ArrayAt t w elts

/-- **Memory is laid out for a heap**, which has all the values inside its values. -/
structure JsHeap.StoredIn (H : JsHeap) : Prop where
  stored : ∀ w v, H w = some v → ValueAt t b w v
  closed : ∀ w v, H w = some v → ∀ w' ∈ v.parts, ∃ v', H w' = some v'

/-- A value is shown as it is. An integer is not negative, unless a word has 64 bits. The properties of an
object are delivered, and an `int` can count them. And the last element of an array is not alone in its page
of the FixedArray. -/
def JsValue.Legible (w : ℕ) : JsValue → Prop
  | .int v => t.cfg.model = .lp64 ∨ 0 ≤ v
  | .object o =>
    (∀ n ∈ o.indexes, n < smiIndexes t.cfg ∧ jsobjIsUndefined t (t.cfg.smiWord n) = false) ∧
      (∀ w ∈ o.elements.holeyElts, jsobjIsHole t w = false) ∧ o.props.length < 2 ^ 31
  | .array elts => ∀ ap arrayp, v8arrayLoad t w = some ap → ap.elements = some arrayp →
    elts.length ≤ iteratedCount (arrayp.nelts % 2 ^ 32)
  | _ => True

/-- All the values of a heap are shown as they are. -/
def JsHeap.Legible (H : JsHeap) : Prop := ∀ w v, H w = some v → v.Legible t w

end Memory

/-! ### Indentation -/

/-- The indentation of the values inside a value, down to a depth, is always an `int`. -/
def JsHeap.Indents (H : JsHeap) : ℕ → ℕ → ℕ → Prop
  | 0, _, _ => True
  | depth + 1, indent, w =>
    ∀ v ∈ H w, ∀ w' ∈ v.parts, indent + 4 < 2 ^ 31 ∧ H.Indents depth (indent + 4) w'

/-- It is one in any heap, if the depth is not too large. -/
theorem JsHeap.indents_of_depth (H : JsHeap) {depth indent : ℕ} (hdepth : indent + 4 * depth < 2 ^ 31)
    (w : ℕ) : H.Indents depth indent w := by
  induction depth generalizing indent w with
  | zero => trivial
  | succ depth ih => exact fun v _ w' _ => ⟨by omega, ih (by omega) w'⟩

end MdbV8
