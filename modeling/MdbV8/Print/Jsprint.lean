import MdbV8.Print.Depth

/-!
# The command `::jsprint`

`dcmdJsprint` prints an object, or the values that some member paths lead to, one after the other.
Each of them is printed into a buffer that grows until it is not used up (`jsprintLoop`). The number
of bytes that are left of it is also the size that the next member path starts with.

What the module gets from the debugger is a parameter: whether a block of memory can be had, and the
byte before it, which the command looks at where a member path has printed nothing at all.
-/

namespace MdbV8

/-- An argument of a command. -/
inductive MdbArg where
  | string (str : List UInt8)
  | immediate (val : ℕ)
  deriving DecidableEq, Repr

/-- The options of `::jsprint`. -/
structure JsprintOpts where
  depth : ℕ := 2
  printaddr : Bool := false
  optB : Bool := false
  strlenOverride : ℕ := 0

/-- `isspace`. -/
def isspace (b : UInt8) : Bool := b = 32 || (9 ≤ b && b ≤ 13)

section Jsprint

variable (t : Target) (fmtY : ℤ → List UInt8) (zalloc : Allocator) (before : UInt8)

/-- The variables of `dcmd_jsprint` that a member path leaves for the next one. -/
structure JsprintState where
  bufsz : ℕ
  len : ℕ
  jsop : JsobjPrint

/-- The inner loop of `dcmd_jsprint`. A block that cannot be had ends the command. There is none of a size
that has been shifted to zero, so that there is no need for more rounds than a size has bits. -/
def jsprintLoop (addr : ℕ) : ℕ → ℕ → ℕ → JsobjPrint → Option (ℤ × JsobjPrint × OutBuf × ℕ)
  | 0, _, _, _ => none
  | fuel + 1, bufsz, len, jsop =>
    if !zalloc.gives bufsz then none
    else
      let (rv, jsop, out) :=
        jsobjPrint t fmtY (bufDevice t) addr jsop (OutBuf.fresh (fun _ => 0) len)
      if out.len > 0 then some (rv, jsop, out, bufsz)
      else
        let bufsz := bufsz <<< 1 % 2 ^ t.cfg.bits
        jsprintLoop addr fuel bufsz bufsz jsop

/-- What is printed for a member path, or for the object if there is none, and whether that has
succeeded. There may be more member paths. -/
def jsprintOne (addr : ℕ) (st : JsprintState) (more : Bool) :
    Option (List UInt8 × JsprintState) :=
  match jsprintLoop t fmtY zalloc addr (t.cfg.bits + 1) st.bufsz st.len st.jsop with
  | none => none
  | some (rv, jsop, out, bufsz) =>
    if jsop.member = none ∧ rv ≠ 0 then none
    else
      let next : JsprintState :=
        { bufsz, len := out.len, jsop := { jsop with found := false, baseaddr := 0 } }
      if jsop.member.isSome ∧ !jsop.found then
        let base := if jsop.baseaddr ≠ 0 then fmtP jsop.baseaddr ++ bytesOf ": " else []
        some (base ++ bytesOf "undefined" ++ (if more then [32] else []), next)
      else
        let buf := out.str bufsz
        some (buf ++ (if more && !isspace (buf.getLastD before) then [32] else []), next)

/-- The outer loop of `dcmd_jsprint`, over the member paths. -/
def jsprintMembers (addr : ℕ) : List MdbArg → JsprintState → DcmdStatus × List UInt8
  | [], _ => (.ok, bytesOf "\n")
  | .immediate _ :: _, _ => (.usage, [])
  | .string member :: args, st =>
    let jsop := { st.jsop with member := some member }
    match jsprintOne t fmtY zalloc before addr { st with jsop } (!args.isEmpty) with
    | none => (.err, [])
    | some (text, st) =>
      let (status, out) := jsprintMembers addr args st
      (status, text ++ out)

/-- The state that the command starts with. -/
def jsprintStart (addr : ℕ) (opts : JsprintOpts) : JsprintState :=
  { bufsz := 262144
    len := 262144
    jsop :=
      { depth := opts.depth
        printaddr := opts.printaddr
        baseaddr := if opts.optB then addr else 0
        maxstrlen := t.cfg.wrap (toInt32 opts.strlenOverride) } }

/-- `dcmd_jsprint`, without the option `-v`. The arguments are the member paths. -/
def dcmdJsprint (addr : ℕ) (opts : JsprintOpts) (args : List MdbArg) : DcmdStatus × List UInt8 :=
  if args = [] then
    match jsprintOne t fmtY zalloc before addr (jsprintStart t addr opts) false with
    | none => (.err, [])
    | some (text, _) => (.ok, text ++ bytesOf "\n")
  else jsprintMembers t fmtY zalloc before addr args (jsprintStart t addr opts)

end Jsprint

end MdbV8
