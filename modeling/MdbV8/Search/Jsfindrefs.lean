import MdbV8.Objects.Subscripts
import MdbV8.Objects.Whatis
import MdbV8.Search.Ugrep

/-!
# The search for references

`::jsfindrefs` searches memory for the address of a value. Each word that has it is looked at with
`v8whatis`. If the object around the word is a value of the language, it is printed; if it is a
`FixedArray`, the search starts again from there, one level deeper.

The search goes on as long as its depth is not one less than the limit. Both are `unsigned short`, and the
option for the limit is stored as a whole word, of which the limit gets the low 16 bits. A limit that is a
multiple of `2 ^ 16` is therefore zero, and never met: nothing but the memory of the target bounds the
search then, and on a cycle of `FixedArray`s it does not end (`boundedSearch_iff`).
-/

namespace MdbV8

/-! ### The source -/

/-- `jsfindrefs_t`. -/
structure Jsfindrefs where
  addr : ℕ
  origaddr : ℕ
  maxoffset : ℕ := 16384
  curdepth : ℕ := 0
  maxdepth : ℕ := 5
  verbose : ℕ := 0
  debug : ℕ := 0
  deriving DecidableEq, Repr

/-- What is printed, apart from the ends of the lines. -/
inductive JsfindrefsLine where
  /-- `depth %d: %p: found reference at %p: `. -/
  | reference (depth addr refaddr : ℕ)
  /-- `no heap object found within %d bytes`. -/
  | noObject (maxoffset : ℕ)
  /-- `does not appear to be contained in a heap object`. -/
  | notContained
  /-- `skipping apparent garbage object: %p (%x)`. -/
  | garbage (baseaddr propinfo : ℕ)
  /-- `skipping JSFunction reference %p at depth %d`. -/
  | function (baseaddr depth : ℕ)
  /-- `%p`, or `%p (type: %s)`. -/
  | value (baseaddr : ℕ) (type : Option String)
  /-- `internal V8 intermediate object`. -/
  | intermediate
  /-- The warning `%p: gave up after following %d references`. -/
  | gaveUp (origaddr depth : ℕ)
  /-- `giving up search at instance of %s`. -/
  | givingUp (type : String)
  deriving DecidableEq, Repr

namespace Jsfindrefs

/-- A line that is printed with `-d`. -/
def debugLine (jsfr : Jsfindrefs) (line : JsfindrefsLine) : List JsfindrefsLine :=
  if jsfr.debug ≠ 0 then [line] else []

/-- `subjsfr`. -/
def sub (jsfr : Jsfindrefs) (baseaddr : ℕ) : Jsfindrefs :=
  { jsfr with addr := baseaddr, curdepth := (jsfr.curdepth + 1) % 2 ^ 16 }

end Jsfindrefs

/-- The types of the values that are printed. -/
def isJsValueType (c : Config) (type : ℕ) : Bool :=
  Target.isType type c.typeHeapnumber || Target.isType type c.typeMutableheapnumber ||
    Target.isType type c.typeOddball || Target.isType type c.typeJsobject ||
    Target.isType type c.typeJsarray || Target.isType type c.typeJsfunction ||
    Target.isType type c.typeJsdate || Target.isType type c.typeJsregexp ||
    Target.isType type c.typeJstypedarray || Target.isType type c.typeJsboundfunction ||
    (c.typeString type && (c.strrepCons type || c.strrepSliced type))

section Search

variable (t : Target)

/-- The test for garbage in `jsfindrefs_reference`, with the flags of the object. -/
def jsfindrefsGarbage (baseaddr type : ℕ) : Bool × ℕ :=
  let (rv, _, propinfo) := jsobjProperties t baseaddr jsobjNoop () 0
  (Target.isType type t.cfg.typeJsobject && (rv != 0 || propinfo &&& jpiMaybeGarbage != 0), propinfo)

/-- `jsfindrefs_reference`. What it does at a `FixedArray` is to search for it. It does not return if an
assertion of `v8whatis` fails. -/
def jsfindrefsReference
    (search : Jsfindrefs → List JsfindrefsLine → Option (ℤ × List JsfindrefsLine)) (jsfr : Jsfindrefs)
    (refaddr : ℕ) (out : List JsfindrefsLine) : Option (ℤ × List JsfindrefsLine) :=
  let c := t.cfg
  let out := out ++ jsfr.debugLine (.reference jsfr.curdepth jsfr.addr refaddr)
  match v8whatis t (jsfr.maxoffset + 1) refaddr jsfr.maxoffset with
  | none => none
  | some (.notfound, _) => some (0, out ++ jsfr.debugLine (.noObject jsfr.maxoffset))
  | some (.doesntcontain, _) => some (0, out ++ jsfr.debugLine .notContained)
  | some (.ok, whatis) =>
    let baseaddr := whatis.baseaddr.getD 0
    let basetype := whatis.basetype.getD 0
    let (garbage, propinfo) := jsfindrefsGarbage t baseaddr basetype
    let name := (c.enumLookupStr basetype).getD "(unknown)"
    if garbage then some (0, out ++ jsfr.debugLine (.garbage baseaddr propinfo))
    else if Target.isType basetype c.typeJsfunction && jsfr.curdepth > 1 then
      some (0, out ++ jsfr.debugLine (.function baseaddr jsfr.curdepth))
    else if isJsValueType c basetype then
      let type := if jsfr.debug ≠ 0 ∨ jsfr.verbose ≠ 0 then some name else none
      some (0, out ++ [.value baseaddr type])
    else if Target.isType basetype c.typeFixedarray then
      let out := out ++ jsfr.debugLine .intermediate
      if (jsfr.curdepth : ℤ) = (jsfr.maxdepth : ℤ) - 1 then
        some (0, out ++ [.gaveUp jsfr.origaddr jsfr.curdepth])
      else search (jsfr.sub baseaddr) out
    else some (0, out ++ jsfr.debugLine (.givingUp name))

/-- `jsfindrefs`, with a bound on the number of its levels that are active at once. -/
def jsfindrefs (handle : Option (List Prmap)) :
    ℕ → Jsfindrefs → List JsfindrefsLine → Option (ℤ × List JsfindrefsLine)
  | 0, _, _ => none
  | levels + 1, jsfr, out =>
    dbiUgrep t jsfr.addr (jsfindrefsReference t (jsfindrefs handle levels) jsfr) handle out

end Search

/-- An option of `::jsfindrefs`. -/
inductive JsfindrefsOpt where
  | verbose
  | debug
  | maxdepth (n : ℕ)
  deriving DecidableEq, Repr

/-- What the option parser stores for an option. The limit is stored as a `uintptr_t`, over what follows
it. -/
def JsfindrefsOpt.store (c : Config) (jsfr : Jsfindrefs) : JsfindrefsOpt → Jsfindrefs
  | verbose => { jsfr with verbose := jsfr.verbose ||| 1 }
  | debug => { jsfr with debug := jsfr.debug ||| 1 }
  | maxdepth n =>
    match c.model with
    | .ilp32 => { jsfr with
        maxdepth := n % 2 ^ 16
        verbose := jsfr.verbose / 2 ^ 16 * 2 ^ 16 + n / 2 ^ 16 }
    | .lp64 => { jsfr with
        maxdepth := n % 2 ^ 16
        verbose := n / 2 ^ 16 % 2 ^ 32
        debug := jsfr.debug / 2 ^ 16 * 2 ^ 16 + n / 2 ^ 48 }

/-- The state that `dcmd_jsfindrefs` starts from. -/
def dcmdJsfindrefsState (c : Config) (addr : ℕ) (opts : List JsfindrefsOpt) : Jsfindrefs :=
  opts.foldl (JsfindrefsOpt.store c) { addr, origaddr := addr }

/-- `dcmd_jsfindrefs`. -/
def dcmdJsfindrefs (t : Target) (handle : Option (List Prmap)) (levels : ℕ) (addr : Option ℕ)
    (opts : List JsfindrefsOpt) : Option (DcmdStatus × List JsfindrefsLine) :=
  match addr with
  | none => some (.usage, [])
  | some addr =>
    match jsfindrefs t handle levels (dcmdJsfindrefsState t.cfg addr opts) [] with
    | none => none
    | some (err, out) => some (if err = 0 then .ok else .err, out)

/-- The limit as it is given, after an option. -/
def JsfindrefsOpt.limitAfter (n : ℕ) : JsfindrefsOpt → ℕ
  | maxdepth m => m
  | _ => n

/-- The limit as it is given: by the last of the options for it. -/
def JsfindrefsOpt.limit (opts : List JsfindrefsOpt) : ℕ := opts.foldl limitAfter 5

/-- What the options leave: the limit without its high bits, and the rest as it was. -/
structure Jsfindrefs.Starts (jsfr : Jsfindrefs) (a n : ℕ) : Prop where
  addr : jsfr.addr = a
  origaddr : jsfr.origaddr = a
  maxoffset : jsfr.maxoffset = 16384
  curdepth : jsfr.curdepth = 0
  maxdepth : jsfr.maxdepth = n % 2 ^ 16

/-- One option. -/
theorem Jsfindrefs.Starts.store {jsfr : Jsfindrefs} {addr n : ℕ} (h : jsfr.Starts addr n) (c : Config)
    (opt : JsfindrefsOpt) : (opt.store c jsfr).Starts addr (opt.limitAfter n) := by
  cases opt with
  | verbose => exact ⟨h.addr, h.origaddr, h.maxoffset, h.curdepth, h.maxdepth⟩
  | debug => exact ⟨h.addr, h.origaddr, h.maxoffset, h.curdepth, h.maxdepth⟩
  | maxdepth n =>
    dsimp only [JsfindrefsOpt.store]
    split
    · exact ⟨h.addr, h.origaddr, h.maxoffset, h.curdepth, rfl⟩
    · exact ⟨h.addr, h.origaddr, h.maxoffset, h.curdepth, rfl⟩

/-- **The state that a command starts from.** -/
theorem dcmdJsfindrefsState_starts (c : Config) (addr : ℕ) (opts : List JsfindrefsOpt) :
    (dcmdJsfindrefsState c addr opts).Starts addr (JsfindrefsOpt.limit opts) := by
  unfold dcmdJsfindrefsState JsfindrefsOpt.limit
  induction opts using List.reverseRecOn with
  | nil => exact ⟨rfl, rfl, rfl, rfl, rfl⟩
  | append_singleton opts opt ih =>
    rw [List.foldl_append, List.foldl_append]
    exact ih.store c opt

end MdbV8
