import MdbV8.Arrays.JsArray
import MdbV8.Objects.Properties
import MdbV8.Output.Double
import MdbV8.Print.Device

/-!
# Printing values

The functions behind `::jsprint`. `jsobjPrintValue` prints a value; by the type of a heap object it
calls one of a table of functions, and those for objects and arrays print the values inside them by
calling it again. The recursion ends with the depth, or with the member path; the bound on it is a
fuel here, and every function that prints values inside others takes the function that does so as a
parameter.

With a member path, nothing is printed but the value that the path leads to.
-/

namespace MdbV8

/-- `jsobj_print_t`, without the buffer. A member path is a C string, and `indent` and `nprops` are of the
type `int`. -/
structure JsobjPrint where
  indent : ℤ := 0
  depth : ℕ
  printaddr : Bool := false
  baseaddr : ℕ := 0
  nprops : ℤ := 0
  member : Option (List UInt8) := none
  maxstrlen : ℕ := 0
  found : Bool := false
  descended : Bool := false
  propinfo : ℕ := 0
  deriving DecidableEq, Repr

/-- The settings for the values inside an object or an array. -/
def JsobjPrint.descend (jsop : JsobjPrint) : JsobjPrint :=
  { jsop with depth := (jsop.depth + (2 ^ 64 - 1)) % 2 ^ 64, indent := addInt jsop.indent 4 }

/-- The settings for the value that a part of a member path leads to, given the rest of the path
after that part. -/
def JsobjPrint.descendMember (jsop : JsobjPrint) (rest : Option (List UInt8)) : JsobjPrint :=
  match rest with
  | none => { jsop with member := none, found := true }
  | some member => { jsop with member := some member }

/-- What printing returns: a status, the settings and the buffer. -/
abbrev PrintResult (δ : Type*) := ℤ × JsobjPrint × δ

/-- A function that prints a value. -/
abbrev PrintFn (δ : Type*) := Option V8Propvalue → JsobjPrint → δ → PrintResult δ

section Print

variable (t : Target) (fmtY : ℤ → List UInt8) {δ : Type*} (D : OutDevice δ)

/-- `jsobj_print_double`. -/
def jsobjPrintDouble (out : δ) (numval : CDouble) : δ := D.bsnprintf out (doubleText numval)

/-! ### Values without parts -/

/-- `jsobj_print_number`. -/
def jsobjPrintNumber (addr : ℕ) (jsop : JsobjPrint) (out : δ) : PrintResult δ :=
  match t.readHeapDouble addr t.cfg.offHeapnumberValue with
  | none => (-1, jsop, out)
  | some w => (0, jsop, jsobjPrintDouble D out (.ofBits w))

/-- `jsobj_print_oddball`. -/
def jsobjPrintOddball (addr : ℕ) (jsop : JsobjPrint) (out : δ) : PrintResult δ :=
  match t.readHeapPtr addr t.cfg.offOddballToString with
  | none => (-1, jsop, out)
  | some strptr =>
    let (rv, out) := D.jsstrPrint 0 strptr jsstrNone out
    (rv, jsop, out)

/-- `jsobj_print_jstyped_array`. -/
def jsobjPrintJstypedArray (addr : ℕ) (jsop : JsobjPrint) (out : δ) : PrintResult δ :=
  let failed :=
    (-1, jsop, D.bsnprintf out (bytesOf "<array (failed to read jstypedarray length)>"))
  if t.cfg.offJstypedarrayLength = -1 then failed
  else
    match t.readHeapSmi addr t.cfg.offJstypedarrayLength with
    | none => failed
    | some length =>
      let out := D.bsnprintf out (bytesOf "<Typed array of length ")
      (0, jsop, D.bsnprintf out (fmtD length ++ bytesOf ">"))

/-- `jsobj_print_jsfunction`. -/
def jsobjPrintJsfunction (addr : ℕ) (jsop : JsobjPrint) (out : δ) : PrintResult δ :=
  match t.readHeapPtr addr t.cfg.offJsfunctionShared with
  | none => (-1, jsop, out)
  | some shared =>
    let out := D.bsnprintf out (bytesOf "function ")
    let (rv, out) := D.jsfuncName shared out
    (if rv ≠ 0 then 1 else 0, jsop, out)

/-- `jsobj_print_jsboundfunction`. -/
def jsobjPrintJsboundfunction (_addr : ℕ) (jsop : JsobjPrint) (out : δ) : PrintResult δ :=
  (0, jsop, D.bsnprintf out (bytesOf "<bound function>"))

/-- The part of `jsobj_print_jsdate` that reads the number of milliseconds, or the message of its
failure. -/
def jsdateNumval (addr : ℕ) : Except String CDouble :=
  let c := t.cfg
  match t.readHeapPtr addr c.offJsdateValue with
  | none => .error "<JSDate (failed to read value)>"
  | some value =>
    if c.isSmi value then .ok (.ofNat (c.smiValue value))
    else
      match t.readTypebyte value with
      | none => .error "<JSDate (failed to read type)>"
      | some type =>
        if c.enumLookupStr type != some "HeapNumber" then
          .error "<JSDate (value has unexpected type)>"
        else
          match t.readHeapDouble value c.offHeapnumberValue with
          | none => .error "<JSDate (failed to read num)>"
          | some w => .ok (.ofBits w)

/-- `jsobj_print_jsdate`. The time is formatted by the debugger, with its conversion `%Y`, into a
local array of 128 bytes. -/
def jsobjPrintJsdate (addr : ℕ) (jsop : JsobjPrint) (out : δ) : PrintResult δ :=
  if t.cfg.offJsdateValue = -1 then (0, jsop, D.bsnprintf out (bytesOf "<JSDate>"))
  else
    match jsdateNumval t addr with
    | .error msg => (-1, jsop, D.bsnprintf out (bytesOf msg))
    | .ok numval =>
      let buf := (fmtY (numval.toLongLong.tdiv 1000)).take 127
      (0, jsop, D.bsnprintf out (fmtInt numval.toLongLong ++ bytesOf " (" ++ buf ++ bytesOf ")"))

/-- `jsobj_print_jsregexp`. -/
def jsobjPrintJsregexp (addr : ℕ) (jsop : JsobjPrint) (out : δ) : PrintResult δ :=
  if t.cfg.offJsregexpData = -1 then (0, jsop, D.bsnprintf out (bytesOf "<JSRegExp>"))
  else
    match t.readHeapPtr addr t.cfg.offJsregexpData with
    | none => (-1, jsop, D.bsnprintf out (bytesOf "<JSRegExp (failed to read data)>"))
    | some datap =>
      match t.readHeapArray datap with
      | none => (-1, jsop, D.bsnprintf out (bytesOf "<JSRegExp (failed to read array)>"))
      | some data =>
        -- `source_index` is 1
        if data.len < 2 then
          (-1, jsop, D.bsnprintf out (bytesOf "<JSRegExp (array too small)>"))
        else
          let out := D.bsnprintf out (bytesOf "JSRegExp: ")
          let (_, out) := D.jsstrPrint 0 (data.get 1) jsstrQuoted out
          (0, jsop, out)

/-! ### Objects -/

/-- `jsobj_print_prop`. -/
def jsobjPrintProp (print : PrintFn δ) : PropFunc (JsobjPrint × δ) := fun desc val (jsop, out) =>
  let out := D.bsnprintf out ((if jsop.nprops = 0 then bytesOf "\x7b" else []) ++ bytesOf "\n" ++
    fmtBlanks (addInt jsop.indent 4) ++ bytesOf "\"" ++ desc ++ bytesOf "\": ")
  let (_, _, out) := print val jsop.descend out
  let out := D.bsnprintf out (bytesOf ",")
  (0, { jsop with nprops := incrInt jsop.nprops }, out)

/-- The first name of a member path, and what is behind it. -/
def memberName (member : List UInt8) : List UInt8 × List UInt8 :=
  member.span fun b => b != 46 && b != 91

/-- What is left of a member path behind a name: a dot is skipped, a bracket is not. -/
def memberRest : List UInt8 → Option (List UInt8)
  | [] => none
  | b :: bs => some (if b = 46 then bs else b :: bs)

/-- `jsobj_print_prop_member`. -/
def jsobjPrintPropMember (print : PrintFn δ) : PropFunc (JsobjPrint × δ) :=
  fun desc val (jsop, out) =>
    let member := jsop.member.getD []
    let (name, next) := memberName member
    if member.head? = some 91 then (-1, jsop, out)
    else if desc.take name.length ≠ name then (0, jsop, out)
    else if desc.drop name.length ≠ [] then (0, jsop, out)
    else
      let (rv, descend, out) := print val (jsop.descendMember (memberRest next)) out
      (rv, { jsop with found := descend.found }, out)

/-- `jsobj_print_jsobject`. -/
def jsobjPrintJsobject (print : PrintFn δ) (addr : ℕ) (jsop : JsobjPrint) (out : δ) :
    PrintResult δ :=
  if jsop.member.isSome then
    let (rv, (jsop, out), propinfo) :=
      jsobjProperties t addr (jsobjPrintPropMember print) (jsop, out) jsop.propinfo
    (rv, { jsop with propinfo }, out)
  else if jsop.depth = 0 then (0, jsop, D.bsnprintf out (bytesOf "[...]"))
  else
    let jsop := { jsop with nprops := 0 }
    let (rv, (jsop, out), propinfo) :=
      jsobjProperties t addr (jsobjPrintProp D print) (jsop, out) jsop.propinfo
    let jsop := { jsop with propinfo }
    if rv ≠ 0 then (-1, jsop, out)
    else
      let out :=
        if jsop.nprops > 0 then D.bsnprintf out (bytesOf "\n" ++ fmtBlanks jsop.indent)
        else if jsop.nprops = 0 then D.bsnprintf out (bytesOf "\x7b")
        else D.bsnprintf out (bytesOf "\x7b /* unknown property */ ")
      (0, jsop, D.bsnprintf out (bytesOf "\x7d"))

/-! ### Arrays -/

/-- A bracketed array index at the start of a member path: the index as a `size_t`, and what is
behind the bracket. -/
def memberIndex (bits : ℕ) (member : List UInt8) : Option (ℕ × List UInt8) :=
  match member with
  | [] => none
  | b :: bs =>
    if b ≠ 91 then none
    else
      let (digits, rest) := bs.span (· != 93)
      if rest = [] then none
      else if digits.any fun d => d < 48 || d > 57 then none
      else if digits = [] then none
      else some (digits.foldl (fun elt d => 10 * elt + (d.toNat - 48)) 0 % 2 ^ bits, rest.tail)

/-- What is left of a member path behind an index, which is nothing, or another part of the path. -/
def indexRest : List UInt8 → Option (Option (List UInt8))
  | [] => some none
  | b :: bs => if b = 46 then some (some bs) else if b = 91 then some (some (b :: bs)) else none

/-- `jsobj_print_jsarray_member`. The digits of the index are read from the last to the first, with
the arithmetic of a `size_t`. -/
def jsobjPrintJsarrayMember (print : PrintFn δ) (addr : ℕ) (jsop : JsobjPrint) (out : δ) :
    PrintResult δ :=
  match t.readHeapPtr addr t.cfg.offJsobjectElements with
  | none => (-1, jsop, D.bsnprintf out (bytesOf "<array member (failed to read elements)>"))
  | some ptr =>
    match t.readHeapArray ptr with
    | none => (-1, jsop, D.bsnprintf out (bytesOf "<array member (failed to read array)>"))
    | some elts =>
      match memberIndex t.cfg.bits (jsop.member.getD []) with
      | none => (-1, jsop, out)
      | some (elt, next) =>
        if elt ≥ elts.len then (-1, jsop, out)
        else
          match indexRest next with
          | none => (-1, jsop, out)
          | some rest =>
            let (rv, descend, out) := print (some (.addr (elts.get elt))) (jsop.descendMember rest) out
            (rv, { jsop with found := descend.found }, out)

/-- `jsobj_print_jsarray_one`. -/
def jsobjPrintJsarrayOne (print : PrintFn δ) (ap : V8Array) (_index value : ℕ)
    (s : JsobjPrint × δ) : ℤ × JsobjPrint × δ :=
  let (jsop, out) := s
  if v8arrayLength ap = 1 then
    let (_, jsop, out) := print (some (.addr value)) jsop out
    (0, jsop, out)
  else if D.full out then (-1, jsop, out)
  else
    let out := D.bsnprintf out (fmtBlanks jsop.indent)
    let (_, jsop, out) := print (some (.addr value)) jsop out
    (0, jsop, D.bsnprintf out (bytesOf ",\n"))

/-- `jsobj_print_jsarray`. -/
def jsobjPrintJsarray (print : PrintFn δ) (addr : ℕ) (jsop : JsobjPrint) (out : δ) :
    PrintResult δ :=
  if jsop.member.isSome then jsobjPrintJsarrayMember t D print addr jsop out
  else if jsop.depth = 0 then (0, jsop, D.bsnprintf out (bytesOf "[...]"))
  else
    match v8arrayLoad t addr with
    | none => (-1, jsop, out)
    | some ap =>
      let len := v8arrayLength ap
      if len = 0 then (0, jsop, D.bsnprintf out (bytesOf "[]"))
      else if len = 1 then
        let out := D.bsnprintf out (bytesOf "[ ")
        let (_, _, out) :=
          v8arrayIterElements t ap (jsobjPrintJsarrayOne D print ap) (jsop.descend, out)
        (0, jsop, D.bsnprintf out (bytesOf " ]"))
      else
        let out := D.bsnprintf out (bytesOf "[\n")
        let (_, _, out) :=
          v8arrayIterElements t ap (jsobjPrintJsarrayOne D print ap) (jsop.descend, out)
        let out := D.bsnprintf out (fmtBlanks jsop.indent)
        (0, jsop, D.bsnprintf out (bytesOf "]"))

/-! ### Any value -/

/-- The table of `jsobj_print_value`: the function for the objects of a type. -/
def jsobjPrintTable (print : PrintFn δ) (klass : String) :
    Option (ℕ → JsobjPrint → δ → PrintResult δ) :=
  if klass = "HeapNumber" then some (jsobjPrintNumber t D)
  else if klass = "Oddball" then some (jsobjPrintOddball t D)
  else if klass = "JSObject" then some (jsobjPrintJsobject t D print)
  else if klass = "JSArray" then some (jsobjPrintJsarray t D print)
  else if klass = "JSTypedArray" then some (jsobjPrintJstypedArray t D)
  else if klass = "JSFunction" then some (jsobjPrintJsfunction t D)
  else if klass = "JSBoundFunction" then some (jsobjPrintJsboundfunction D)
  else if klass = "JSDate" then some (jsobjPrintJsdate t fmtY D)
  else if klass = "JSRegExp" then some (jsobjPrintJsregexp t D)
  else none

/-- The type byte that selects the function: mutable heap numbers are printed like others. -/
def printType (c : Config) (type : ℕ) : ℕ :=
  if Target.isType type c.typeMutableheapnumber then (c.typeHeapnumber % 256).toNat else type

/-- The part of `jsobj_print_value` for a heap object. -/
def jsobjPrintHeapobject (print : PrintFn δ) (addr : ℕ) (jsop : JsobjPrint) (out : δ) :
    PrintResult δ :=
  match t.readTypebyte addr with
  | none => (-1, jsop, D.bsnprintf out (bytesOf "<couldn't read type>"))
  | some type =>
    if t.cfg.typeString type then
      let (rv, out) := D.jsstrPrint jsop.maxstrlen addr jsstrQuoted out
      (rv, jsop, out)
    else
      let klass := (t.cfg.enumLookupStr (printType t.cfg type)).getD "<unknown>"
      match jsobjPrintTable t fmtY D print klass with
      | some func => func addr { jsop with descended := true } out
      | none =>
        (-1, jsop, D.bsnprintf out
          (bytesOf "<unknown JavaScript object type \"" ++ bytesOf klass ++ bytesOf "\">"))

/-- The part of `jsobj_print_value` for a value that is not a boxed double. -/
def jsobjPrintWord (print : PrintFn δ) (addr : ℕ) (jsop : JsobjPrint) (out : δ) : PrintResult δ :=
  if t.cfg.isSmi addr then (0, jsop, D.bsnprintf out (fmtD (t.cfg.smiValue addr)))
  else if !t.cfg.isHeapobject addr then
    (-1, jsop, D.bsnprintf out (bytesOf "<not a heap object>"))
  else jsobjPrintHeapobject t fmtY D print addr jsop out

/-- The word of a value; a NULL pointer stands for zero. -/
def valueAddr : Option V8Propvalue → ℕ
  | none => 0
  | some (.addr w) => w
  | some (.double w) => w

/-- The addresses that `jsobj_print_value` prints before a value. -/
def printAddrs (val : Option V8Propvalue) (jsop : JsobjPrint) (out : δ) : δ :=
  let out :=
    if jsop.baseaddr ≠ 0 ∧ jsop.member = none then
      D.bsnprintf out (fmtP jsop.baseaddr ++ bytesOf ": ")
    else out
  if jsop.printaddr ∧ jsop.member = none then
    D.bsnprintf out (fmtP (valueAddr val) ++ bytesOf ": ")
  else out

/-- `jsobj_print_value`, with at most `fuel` calls nested in each other. -/
def jsobjPrintValue : ℕ → PrintFn δ
  | 0, _, jsop, out => (-1, jsop, out)
  | fuel + 1, val, jsop, out =>
    let out := printAddrs D val jsop out
    match val with
    | some (.double w) => (0, jsop, jsobjPrintDouble D out (.ofBits w))
    | _ => jsobjPrintWord t fmtY D (jsobjPrintValue fuel) (valueAddr val) jsop out

/-- `jsobj_print`. A part of a member path is used up, or a level of the depth, by each call but the
last. -/
def jsobjPrint (addr : ℕ) (jsop : JsobjPrint) (out : δ) : PrintResult δ :=
  jsobjPrintValue t fmtY D ((jsop.member.getD []).length + jsop.depth + 2) (some (.addr addr)) jsop out

end Print

end MdbV8
