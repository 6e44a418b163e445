import MdbV8.Find.Run

/-!
# Marks and references

`findjsobjectsReferent` marks an object, and `findjsobjectsReferences` looks for references to the
marked objects: it goes through all the instances in the cache, and takes a note of each word of an
array, and of each property of an object, that is a marked address. Then it prints the notes, mark by
mark, and forgets the marks.

The group of an instance says whether it is an array: a group with a number of properties and without
any. That an array is read from the block that was filled from its `FixedArray`, which may be smaller
than the length says if the size of the block was not a word, is why the search may end with a fault.
-/

namespace MdbV8

/-- What ends a command where it stands. -/
inductive FindFault where
  /-- An assertion does not hold. -/
  | assertion
  /-- A subscript is outside of its block. -/
  | outOfBounds
  deriving DecidableEq, Repr

section References

variable (t : Target) {L : FindLib t.cfg}

/-- `findjsobjects_references_add`. An untagged `double` is not looked at. -/
def findjsobjectsReferencesAdd {c : Config} {L : FindLib c} (refs : FindRefs L) (val : V8Propvalue)
    (desc : Option (List UInt8)) (index : ℕ) : FindRefs L :=
  match val with
  | .double _ => refs
  | .addr w =>
    match L.referents.find refs.tree w with
    | none => refs
    | some referent =>
      let reference : FindReference :=
        { addr := refs.addr, desc, index := if desc.isSome then 0 else index }
      { refs with list := refs.list.modify referent fun r =>
        { r with references := r.references ++ [reference] } }

/-- `findjsobjects_references_prop`. -/
def findjsobjectsReferencesProp : PropFunc (FindRefs L) := fun desc val refs =>
  (0, match val with
    | none => refs
    | some val => findjsobjectsReferencesAdd refs val (some desc) (t.cfg.wrap (-1)))

/-- The inner loop of `findjsobjects_references_array`, over the rest of the elements. -/
def findjsobjectsReferencesElts {c : Config} {L : FindLib c} (elts : List ℕ) :
    ℕ → ℕ → FindRefs L → Except FindFault (FindRefs L)
  | 0, _, refs => .ok refs
  | n + 1, i, refs =>
    match elts[i]? with
    | none => .error .outOfBounds
    | some elt =>
      findjsobjectsReferencesElts elts n (i + 1)
        (findjsobjectsReferencesAdd refs (.addr elt) none i)

/-- The body of the loop of `findjsobjects_references_array`. -/
def findjsobjectsReferencesInstance (refs : FindRefs L) (addr : ℕ) :
    Except FindFault (FindRefs L) :=
  match t.readHeapPtr addr t.cfg.offJsobjectElements with
  | none => .ok refs
  | some ptr =>
    match t.readHeapArray ptr with
    | none => .ok refs
    | some arr => findjsobjectsReferencesElts arr.elts arr.len 0 { refs with addr }

/-- `findjsobjects_references_array`. -/
def findjsobjectsReferencesArray (refs : FindRefs L) (obj : FindObj) :
    Except FindFault (FindRefs L) :=
  obj.instances.foldlM (findjsobjectsReferencesInstance t) refs

/-- The properties of an instance, in the loop of `findjsobjects_references`. -/
def findjsobjectsReferencesObject (refs : FindRefs L) (addr : ℕ) : FindRefs L :=
  (jsobjProperties t addr (findjsobjectsReferencesProp t) { refs with addr } 0).2.1

/-- The body of the loop of `findjsobjects_references` over the groups. -/
def findjsobjectsReferencesGroup (refs : FindRefs L) (obj : FindObj) :
    Except FindFault (FindRefs L) :=
  if obj.nprops ≠ 0 ∧ obj.props = [] then findjsobjectsReferencesArray t refs obj
  else .ok (obj.instances.foldl (findjsobjectsReferencesObject t) refs)

/-- What is printed of the place of a reference. -/
def FindReference.how (reference : FindReference) : FindHow :=
  match reference.desc with
  | none => .index (toInt32 reference.index)
  | some desc => .name desc

/-- What is printed for a reference. -/
def FindReference.line (addr : ℕ) (reference : FindReference) : FindLine :=
  .referred addr reference.addr reference.how

/-- What is printed for a referent. -/
def FindReferent.lines (referent : FindReferent) : List FindLine :=
  if referent.references = [] then [.notReferred referent.addr]
  else referent.references.map (FindReference.line referent.addr)

/-- `findjsobjects_references`. -/
def findjsobjectsReferences (fjs : FindState L) :
    Except FindFault (List FindLine × FindState L) :=
  match fjs.cache.groups.foldlM (findjsobjectsReferencesGroup t) fjs.refs with
  | .error fault => .error fault
  | .ok refs =>
    .ok (refs.list.flatMap FindReferent.lines,
      { fjs with refs := { addr := 0, tree := L.referents.create, list := [] } })

/-- `findjsobjects_referent`. -/
def findjsobjectsReferent {c : Config} {L : FindLib c} (fjs : FindState L) (addr : ℕ) :
    Except FindFault (List FindLine × FindState L) :=
  match L.referents.find fjs.refs.tree addr with
  | some _ => if fjs.marking then .ok ([], fjs) else .error .assertion
  | none =>
    .ok (if fjs.marking then [.marked addr] else [],
      { fjs with refs := { fjs.refs with
        tree := L.referents.add fjs.refs.tree addr fjs.refs.list.length
        list := fjs.refs.list ++ [{ addr }] } })

/-- `findjsobjects_referent` for one address after the other. -/
def findjsobjectsReferentAll {c : Config} {L : FindLib c} :
    List ℕ → FindState L → Except FindFault (List FindLine × FindState L)
  | [], fjs => .ok ([], fjs)
  | addr :: addrs, fjs =>
    match findjsobjectsReferent fjs addr with
    | .error fault => .error fault
    | .ok (lines, fjs) =>
      match findjsobjectsReferentAll addrs fjs with
      | .error fault => .error fault
      | .ok (lines', fjs) => .ok (lines ++ lines', fjs)

end References

end MdbV8
