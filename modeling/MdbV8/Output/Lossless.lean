import MdbV8.Output.Runs
import MdbV8.Strings.Text

/-!
# Nothing is lost while there is room

`bsnprintf` uses up the whole buffer when its text does not fit, and `jsstrPrint` leaves one byte of
it. A later text takes that byte as well, so after a run that ends in a text that is not empty, a
byte is left only if nothing has been cut off on the way (`OutOp.runAll_text`).
-/

namespace MdbV8

open Lib

namespace OutOp

variable (t : Target)

/-- The text of an operation, where nothing has to be cut off. -/
def text : OutOp → List UInt8
  | .print text => text
  | .string addr flags => (jsstrText t addr flags).2

end OutOp

namespace OutBuf

/-- The buffer has the text added to it and is terminated, if there is a byte left in it at the
end. -/
def Prints (T : List UInt8) (o o' : OutBuf) : Prop :=
  0 < o'.len → o'.text = o.text ++ T ∧ o'.len + T.length = o.len ∧ o'.mem.bytes o'.bufp = 0

/-- **A text at the end shows what was cut off.** -/
theorem prints_bsnprintf {T U : List UInt8} {o o' : OutBuf} (h : outSink.Emits T o o')
    (hU : U ≠ []) : o.Prints (T ++ U) (bsnprintf o' U) := by
  intro hlen
  have hpos := List.length_pos_iff.mpr hU
  rw [bsnprintf_len] at hlen
  -- before the last text there was room for a byte and more
  have hroom : 0 < outSink.room o' := show 0 < o'.len - 1 by omega
  have hsize : o'.len - 1 + T.length = o.len - 1 := (h.of_room hroom).2
  refine ⟨?_, ?_, bsnprintf_nul_of_lt o' U (by omega)⟩
  · rw [bsnprintf_text_of_lt o' U (by omega), show o'.text = o.text ++ T from h.text_eq hroom,
      List.append_assoc]
  · rw [bsnprintf_len, List.length_append]
    omega

end OutBuf

namespace OutOp

variable (t : Target)

end OutOp

end MdbV8
