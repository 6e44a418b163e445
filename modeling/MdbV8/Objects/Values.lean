import MdbV8.Strings.Text

/-!
# JavaScript values

A JavaScript value is a tagged word, or, in some slots of some objects, an untagged `double`.
`V8Propvalue` is the two together.

Two tests on values are heuristic. An *oddball* (`undefined`, the hole of an array) is recognised by
the string that V8 attaches to it, which is printed into a small local array for that. A value *may
be garbage* if it is a heap object of none of the types that the module can print.
-/

namespace MdbV8

/-- `v8propvalue_t`: a tagged word, or the word that holds an untagged `double`. -/
inductive V8Propvalue where
  | addr (w : ℕ)
  | double (w : ℕ)
  deriving DecidableEq, Repr

section Local

variable (t : Target)

/-- A string printed into a local array of `n` bytes: what `jsstrPrint` returns, and the C string in
the array. What the array held before does not matter, since the text is followed by a NUL. -/
def jsstrLocal (addr flags n : ℕ) : ℤ × List UInt8 :=
  let (rv, o) := jsstrPrint t addr flags (OutBuf.fresh (fun _ => 0) n)
  (rv, o.str n)

/-! ### Oddballs -/

/-- `jsobj_is_oddball`. -/
def jsobjIsOddball (addr : ℕ) (oddball : String) : Bool :=
  match t.readTypebyte addr with
  | none => false
  | some type =>
    if t.cfg.enumLookupStr type != some "Oddball" then false
    else
      match t.readHeapPtr addr t.cfg.offOddballToString with
      | none => false
      | some strptr =>
        let (rv, buf) := jsstrLocal t strptr jsstrNone 16
        if rv ≠ 0 then false else buf == bytesOf oddball

/-- `jsobj_is_undefined`. -/
def jsobjIsUndefined (addr : ℕ) : Bool := jsobjIsOddball t addr "undefined"

/-- `jsobj_is_hole`. -/
def jsobjIsHole (addr : ℕ) : Bool := jsobjIsOddball t addr "hole"

/-! ### Garbage -/

/-- `jsobj_maybe_garbage`. -/
def jsobjMaybeGarbage (addr : ℕ) : Bool :=
  let c := t.cfg
  !c.isSmi addr &&
    match t.readTypebyte addr with
    | none => true
    | some type =>
      !c.typeString type &&
      !Target.isType type c.typeAccessorinfo &&
      !Target.isType type c.typeAccessorpair &&
      !Target.isType type c.typeExecutableaccessorinfo &&
      !Target.isType type c.typeHeapnumber &&
      !Target.isType type c.typeMutableheapnumber &&
      !Target.isType type c.typeOddball &&
      !Target.isType type c.typeJsobject &&
      !Target.isType type c.typeJsarray &&
      !Target.isType type c.typeJsfunction &&
      (c.typeJsboundfunction == -1 || !Target.isType type c.typeJsboundfunction) &&
      !Target.isType type c.typeJsdate &&
      !Target.isType type c.typeJsregexp &&
      !Target.isType type c.typeJstypedarray

end Local

/-! ### Constructors -/

section Constructors

variable (t : Target)

/-- `get_map_constructor`, looking at no more than `fuel` fields. It is `none` where these have all
been Maps, and `some none` where the source returns `-1`. -/
def getMapConstructor : ℕ → ℕ → Option (Option ℕ)
  | 0, _ => none
  | fuel + 1, map =>
    if t.cfg.offMapConstructor = -1 then some none
    else
      match t.readHeapPtr map t.cfg.offMapConstructor with
      | none => some none
      | some constructorCandidate =>
        match t.readTypebyte constructorCandidate with
        | none => some none
        | some type =>
          if Target.isType type t.cfg.typeMap then getMapConstructor fuel constructorCandidate
          else some (some constructorCandidate)

/-- The Map that is in the constructor field of a Map. -/
def backPointer (map : ℕ) : Option ℕ :=
  if t.cfg.offMapConstructor = -1 then none
  else
    (t.readHeapPtr map t.cfg.offMapConstructor).filter fun candidate =>
      (t.readTypebyte candidate).any (Target.isType · t.cfg.typeMap)

/-- The Map that is reached over a number of back pointers. -/
def backPointers : ℕ → ℕ → Option ℕ
  | 0, map => some map
  | n + 1, map => (backPointer t map).bind (backPointers n)

theorem backPointers_add (m n map : ℕ) :
    backPointers t (m + n) map = (backPointers t m map).bind (backPointers t n) := by
  induction m generalizing map with
  | zero => simp [backPointers]
  | succ m ih =>
    rw [Nat.succ_add, backPointers, backPointers]
    cases backPointer t map with
    | none => rfl
    | some next => exact ih next

/-- The fields that have been looked at were all Maps. -/
theorem getMapConstructor_eq_none_iff (fuel map : ℕ) :
    getMapConstructor t fuel map = none ↔ backPointers t fuel map ≠ none := by
  induction fuel generalizing map with
  | zero => simp [getMapConstructor, backPointers]
  | succ fuel ih =>
    unfold getMapConstructor backPointers backPointer
    by_cases hoff : t.cfg.offMapConstructor = -1
    · simp [hoff]
    · rw [if_neg hoff, if_neg hoff]
      cases t.readHeapPtr map t.cfg.offMapConstructor with
      | none => simp
      | some candidate =>
        cases htype : t.readTypebyte candidate with
        | none => simp [htype]
        | some type =>
          by_cases hmap : Target.isType type t.cfg.typeMap
          · simpa [htype, hmap] using ih candidate
          · simp [htype, hmap]

theorem backPointer_lt {map next : ℕ} (h : backPointer t map = some next) :
    next < 2 ^ t.cfg.bits := by
  unfold backPointer at h
  split at h
  · cases h
  · exact Target.readPtr_lt (Option.filter_eq_some_iff.mp h).1

/-- A chain that is longer than there are addresses has come back to where it was. -/
theorem exists_backPointers_eq {map : ℕ} (h : backPointers t (2 ^ t.cfg.bits + 1) map ≠ none) :
    ∃ i j, i < j ∧ j ≤ 2 ^ t.cfg.bits + 1 ∧ backPointers t i map = backPointers t j map := by
  have hdef : ∀ i : Fin (2 ^ t.cfg.bits + 1), ∃ m < 2 ^ t.cfg.bits,
      backPointers t (i + 1) map = some m := by
    rintro ⟨i, hi⟩
    -- an initial part of the chain, and the rest of it
    have hsplit := backPointers_add t (i + 1) (2 ^ t.cfg.bits - i) map
    rw [show i + 1 + (2 ^ t.cfg.bits - i) = 2 ^ t.cfg.bits + 1 by omega] at hsplit
    have hlast := backPointers_add t i 1 map
    cases hm : backPointers t (i + 1) map with
    | none => exact absurd (by rw [hsplit, hm]; rfl) h
    | some m =>
      rw [hm] at hlast
      obtain ⟨prev, -, hprev⟩ := Option.bind_eq_some_iff.mp hlast.symm
      obtain ⟨next, hnext, hnil⟩ := Option.bind_eq_some_iff.mp hprev
      obtain rfl : next = m := Option.some.inj hnil
      exact ⟨next, backPointer_lt t hnext, rfl⟩
  choose m hlt hm using hdef
  -- more Maps than addresses
  obtain ⟨i, j, hij, heq⟩ := Fintype.exists_ne_map_eq_of_card_lt
    (fun i => (⟨m i, hlt i⟩ : Fin (2 ^ t.cfg.bits))) (by simp)
  have hval : backPointers t (i + 1) map = backPointers t (j + 1) map := by
    rw [hm i, hm j, Fin.mk.inj heq]
  rcases Nat.lt_or_gt_of_ne (Fin.val_ne_of_ne hij) with hlt | hgt
  · exact ⟨i + 1, j + 1, by omega, by omega, hval⟩
  · exact ⟨j + 1, i + 1, by omega, by omega, hval.symm⟩

end Constructors

end MdbV8
