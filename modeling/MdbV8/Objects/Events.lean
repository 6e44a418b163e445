import MdbV8.Objects.Properties

/-!
# The properties of an object as a list

What `jsobjProperties` does is to go through a list of properties, the *events*, and to call its
function for each of them until the function stops it. The list does not depend on the function:
`jsobjEvents` is the list for an object, with what there is to say at the end of it, and
`jsobjProperties_eq` says that any function is called for the events of the list, in their order.

The loops do not stop for the same reasons. In a dictionary the function stops the loop by returning
`-1`, elsewhere by returning anything but zero (`PropEvent.stops`).
-/

namespace MdbV8

/-- A property that is reported. -/
structure PropEvent where
  name : List UInt8
  value : V8Propvalue
  /-- It was found in a dictionary. -/
  dict : Bool := false
  deriving DecidableEq, Repr

/-- The function returns something that ends the iteration. -/
def PropEvent.stops (e : PropEvent) (rv : ℤ) : Bool := if e.dict then rv == -1 else rv != 0

/-- Calling a function for the properties of a list, until it stops. It says whether it has come to
the end. -/
def runEvents {σ : Type*} (func : PropFunc σ) : List PropEvent → σ → Bool × σ
  | [], s => (true, s)
  | e :: es, s =>
    let (rv, s) := func e.name (some e.value) s
    if e.stops rv then (false, s) else runEvents func es s

/-- The events of a loop, whether it comes to the end by itself, and the flags it sets. -/
structure PropEvents where
  events : List PropEvent
  ok : Bool
  flags : ℕ
  deriving DecidableEq, Repr

namespace PropEvents

/-- A loop that starts with an event. -/
def cons (e : PropEvent) (flags : ℕ) (es : PropEvents) : PropEvents :=
  { es with events := e :: es.events, flags := flags ||| es.flags }

/-- A loop that starts with setting flags. -/
def addFlags (flags : ℕ) (es : PropEvents) : PropEvents := { es with flags := flags ||| es.flags }

/-- One loop after the other, if the first one comes to the end. -/
def append (es fs : PropEvents) : PropEvents :=
  if es.ok then { fs with events := es.events ++ fs.events, flags := es.flags ||| fs.flags } else es

end PropEvents

section Events

variable (t : Target)

/-- The events of the loop of `readHeapDict`. -/
def dictLoopEvents (dict : Target.HeapArray) : ℕ → ℕ → PropEvents
  | 0, _ => ⟨[], false, 0⟩
  | fuel + 1, i =>
    if t.cfg.add i 1 < dict.len then
      let rest := dictLoopEvents dict fuel (t.cfg.add i t.cfg.dictEntrySize)
      match dictKey t (dict.get i) with
      | .skip => rest
      | .fail => ⟨[], false, 0⟩
      | .name name =>
        let value := dict.get (i + 1)
        rest.cons { name, value := .addr value, dict := true } (garbageInfo t value)
    else ⟨[], true, 0⟩

/-- The events of `readHeapDict`. -/
def dictEvents (addr : ℕ) : PropEvents :=
  match t.readHeapArray addr with
  | none => ⟨[], false, 0⟩
  | some dict =>
    if t.cfg.dictEntrySize < 2 then ⟨[], false, 0⟩
    else
      dictLoopEvents t dict (dict.len + 1)
        (t.cfg.wrap (t.cfg.dictStartIndex + t.cfg.dictPrefixSize))

/-- The events of the loop over an array of elements. -/
def fastEvents (holey : Bool) : ℕ → List ℕ → PropEvents
  | _, [] => ⟨[], true, 0⟩
  | ii, elt :: elts =>
    if holey && jsobjIsHole t elt then fastEvents holey (ii + 1) elts
    else
      (fastEvents holey (ii + 1) elts).cons { name := fmtInt ii, value := .addr elt }
        (garbageInfo t elt)

/-- The events for the properties with numeric names. -/
def elementEvents (addr map type : ℕ) : PropEvents :=
  let c := t.cfg
  if c.elementsKindShift = -1 ∨ Target.isType type c.typeJstypedarray then ⟨[], true, 0⟩
  else
    match t.readHeapPtr addr c.offJsobjectElements with
    | none => ⟨[], true, 0⟩
    | some elements =>
      match t.readHeapArray elements with
      | none => ⟨[], true, 0⟩
      | some elts =>
        if elts.len = 0 then ⟨[], true, 0⟩
        else
          match t.readByte (c.add map c.offMapBitField2) with
          | none => ⟨[], false, 0⟩
          | some bitField2 =>
            let kind := elementsKind c bitField2
            if kind = c.elementsFastElements ∨ kind = c.elementsFastHoleyElements then
              (fastEvents t (kind == c.elementsFastHoleyElements) 0 elts.elts).addFlags jpiNumeric
            else if kind = c.elementsDictionaryElements then
              (dictEvents t elements).addFlags (jpiNumeric ||| jpiDict)
            else ⟨[], true, jpiNumeric⟩

/-- The events of the loop over the descriptors. -/
def descEvents (d : JsobjDescs) : ℕ → ℕ → PropEvents
  | 0, _ => ⟨[], true, 0⟩
  | n + 1, ii =>
    match jsobjDesc t d ii with
    | .skip flags => (descEvents d n (ii + 1)).addFlags flags
    | .bad => ⟨[], false, 0⟩
    | .prop name value flags => (descEvents d n (ii + 1)).cons { name, value } flags

/-- The events for the other properties. `ptr` is the `properties` array. -/
def namedEvents (addr map ptr : ℕ) : PropEvents :=
  match jsobjIsDict t map with
  | none => ⟨[], false, 0⟩
  | some true => (dictEvents t ptr).addFlags jpiDict
  | some false =>
    match jsobjDescs t addr map ptr with
    | none => ⟨[], false, 0⟩
    | some (d, flags) => (descEvents t d d.rndescs.toNat 0).addFlags flags

/-- What `jsobjProperties` finds. -/
inductive ObjEvents where
  /-- The `properties` field is not a `FixedArray`; the name says what it is. -/
  | badlayout (name : List UInt8)
  | props (es : PropEvents)
  deriving DecidableEq, Repr

/-- The events of `jsobjProperties`. -/
def jsobjEvents (addr : ℕ) : ObjEvents :=
  let c := t.cfg
  match t.readPtr (c.add addr c.offJsobjectProperties) with
  | none => .props ⟨[], false, 0⟩
  | some ptr =>
    match t.readTypebyte ptr with
    | none => .props ⟨[], false, 0⟩
    | some type =>
      if !Target.isType type c.typeFixedarray then
        let buf := bytesOf "<" ++ bytesOf ((c.enumLookupStr type).getD "unknown") ++ bytesOf ">"
        .badlayout (buf.take 255)
      else
        match t.readPtr (c.add addr c.offHeapobjectMap) with
        | none => .props ⟨[], false, 0⟩
        | some map => .props ((elementEvents t addr map type).append (namedEvents t addr map ptr))

/-! ### Any function is called for the events -/

variable {σ : Type*} (func : PropFunc σ)

/-- A function that never stops an iteration is called for all of a list. -/
theorem runEvents_of_zero (hfunc : ∀ name val s, (func name val s).1 = 0) (es : List PropEvent)
    (s : σ) :
    runEvents func es s = (true, es.foldl (fun s e => (func e.name (some e.value) s).2) s) := by
  induction es generalizing s with
  | nil => rfl
  | cons e es ih =>
    have hgo : e.stops (func e.name (some e.value) s).1 = false := by
      rw [hfunc]
      unfold PropEvent.stops
      split <;> rfl
    rw [runEvents, List.foldl_cons]
    simp only [hgo, Bool.false_eq_true, if_false]
    exact ih _

theorem runEvents_append (es fs : List PropEvent) (s : σ) :
    runEvents func (es ++ fs) s =
      match runEvents func es s with
      | (true, s') => runEvents func fs s'
      | (false, s') => (false, s') := by
  induction es generalizing s with
  | nil => rfl
  | cons e es ih =>
    rw [List.cons_append, runEvents, runEvents]
    dsimp only
    split
    · rfl
    · exact ih _

/-- What a loop does: it calls the function for the events. Where it comes to the end, it has set the
flags. -/
structure Runs (es : PropEvents) (s : σ) (propinfo : ℕ) (r : Bool × σ × ℕ) : Prop where
  ok : r.1 = ((runEvents func es.events s).1 && es.ok)
  state : r.2.1 = (runEvents func es.events s).2
  flags : r.1 = true → r.2.2 = propinfo ||| es.flags

variable {func}

theorem Runs.cons {e : PropEvent} {flags propinfo : ℕ} {es : PropEvents} {s : σ}
    {r : Bool × σ × ℕ} (hgo : e.stops (func e.name (some e.value) s).1 = false)
    (h : Runs func es (func e.name (some e.value) s).2 (propinfo ||| flags) r) :
    Runs func (es.cons e flags) s propinfo r := by
  have hrun : runEvents func (e :: es.events) s =
      runEvents func es.events (func e.name (some e.value) s).2 := by
    rw [runEvents]
    simp only [hgo, Bool.false_eq_true, if_false]
  refine ⟨?_, ?_, fun hok => ?_⟩
  · exact h.ok.trans (by rw [PropEvents.cons, hrun])
  · exact h.state.trans (by rw [PropEvents.cons, hrun])
  · rw [h.flags hok, PropEvents.cons, Nat.or_assoc]

/-- The function stops the loop at the first event. -/
theorem Runs.stop {e : PropEvent} {flags propinfo : ℕ} {es : PropEvents} {s : σ} {x : ℕ}
    (hstop : e.stops (func e.name (some e.value) s).1 = true) :
    Runs func (es.cons e flags) s propinfo (false, (func e.name (some e.value) s).2, x) := by
  have hrun : runEvents func (e :: es.events) s = (false, (func e.name (some e.value) s).2) := by
    rw [runEvents]
    simp only [hstop, if_true]
  refine ⟨?_, ?_, fun hok => absurd hok (by simp)⟩
  · rw [PropEvents.cons, hrun]
    rfl
  · rw [PropEvents.cons, hrun]

theorem Runs.addFlags {flags propinfo : ℕ} {es : PropEvents} {s : σ} {r : Bool × σ × ℕ}
    (h : Runs func es s (propinfo ||| flags) r) : Runs func (es.addFlags flags) s propinfo r :=
  ⟨h.ok, h.state, fun hok => by rw [h.flags hok, PropEvents.addFlags, Nat.or_assoc]⟩

theorem Runs.nil {propinfo : ℕ} {s : σ} : Runs func ⟨[], true, 0⟩ s propinfo (true, s, propinfo) :=
  ⟨rfl, rfl, fun _ => (Nat.or_zero _).symm⟩

theorem Runs.fail {propinfo x : ℕ} {s : σ} : Runs func ⟨[], false, 0⟩ s propinfo (false, s, x) :=
  ⟨rfl, rfl, fun h => absurd h (by simp)⟩

/-- One loop after the other. -/
theorem Runs.append {es fs : PropEvents} {s : σ} {propinfo : ℕ} {r r' : Bool × σ × ℕ}
    (h : Runs func es s propinfo r)
    (h' : r.1 = true → Runs func fs r.2.1 r.2.2 r') (hfail : r.1 = false → r'.1 = false ∧ r'.2.1 = r.2.1) :
    Runs func (es.append fs) s propinfo r' := by
  obtain ⟨hok, hstate, hflags⟩ := h
  cases hr : r.1 with
  | true =>
    -- the first loop has come to the end
    obtain ⟨hok', hstate', hflags'⟩ := h' hr
    rw [hr] at hok
    obtain ⟨hall, hes⟩ : (runEvents func es.events s).1 = true ∧ es.ok = true := by
      simpa using hok.symm
    have hrun : runEvents func (es.append fs).events s = runEvents func fs.events r.2.1 := by
      rw [PropEvents.append, if_pos hes, runEvents_append, hstate]
      generalize runEvents func es.events s = r₀ at hall
      obtain ⟨b, s'⟩ := r₀
      subst hall
      rfl
    have happ : es.append fs =
        { fs with events := es.events ++ fs.events, flags := es.flags ||| fs.flags } := if_pos hes
    refine ⟨?_, ?_, fun h => ?_⟩
    · rw [hrun, hok', happ]
    · rw [hrun, hstate']
    · rw [hflags' h, hflags hr, happ, Nat.or_assoc]
  | false =>
    obtain ⟨hfalse, hsame⟩ := hfail hr
    rw [hr] at hok
    cases hes : es.ok with
    | false =>
      have happ : es.append fs = es := if_neg (by simp [hes])
      refine ⟨?_, ?_, fun h => absurd h (by simp [hfalse])⟩
      · rw [happ, hfalse, hes, Bool.and_false]
      · rw [hsame, hstate, happ]
    | true =>
      -- the function has stopped the first loop
      have hstop : (runEvents func es.events s).1 = false := by simpa [hes] using hok.symm
      have hrun : runEvents func (es.append fs).events s = runEvents func es.events s := by
        rw [PropEvents.append, if_pos hes, runEvents_append]
        generalize runEvents func es.events s = r₀ at hstop
        obtain ⟨b, s'⟩ := r₀
        subst hstop
        rfl
      refine ⟨?_, ?_, fun h => absurd h (by simp [hfalse])⟩
      · rw [hrun, hstop, hfalse, Bool.false_and]
      · rw [hrun, hsame, hstate]

/-- A loop of the source that returns zero or `-1`. -/
def okOf (r : ℤ × σ × ℕ) : Bool × σ × ℕ := (r.1 == 0, r.2)

variable (func)

theorem runs_readHeapDictLoop (dict : Target.HeapArray) (fuel i : ℕ) (s : σ) (propinfo : ℕ) :
    Runs func (dictLoopEvents t dict fuel i) s propinfo
      (okOf (readHeapDictLoop t dict func fuel i s propinfo)) := by
  induction fuel generalizing i s propinfo with
  | zero => exact Runs.fail
  | succ fuel ih =>
    rw [dictLoopEvents, readHeapDictLoop]
    split
    · cases dictKey t (dict.get i) with
      | skip => exact ih _ _ _
      | fail => exact Runs.fail
      | name name =>
        dsimp only
        by_cases hstop : (func name (some (.addr (dict.get (i + 1)))) s).1 = -1
        · rw [if_pos hstop]
          exact Runs.stop (beq_iff_eq.mpr hstop)
        · rw [if_neg hstop]
          exact Runs.cons (beq_eq_false_iff_ne.mpr hstop) (ih _ _ _)
    · exact Runs.nil

theorem readHeapDictLoop_rv (dict : Target.HeapArray) (fuel i : ℕ) (s : σ) (propinfo : ℕ) :
    (readHeapDictLoop t dict func fuel i s propinfo).1 = 0 ∨
      (readHeapDictLoop t dict func fuel i s propinfo).1 = -1 := by
  induction fuel generalizing i s propinfo with
  | zero => exact .inr rfl
  | succ fuel ih =>
    rw [readHeapDictLoop]
    split
    · cases dictKey t (dict.get i) with
      | skip => exact ih _ _ _
      | fail => exact .inr rfl
      | name name =>
        dsimp only
        split
        · exact .inr rfl
        · exact ih _ _ _
    · exact .inl rfl

theorem runs_readHeapDict (addr : ℕ) (s : σ) (propinfo : ℕ) :
    Runs func (dictEvents t addr) s propinfo (okOf (readHeapDict t addr func s propinfo)) := by
  unfold dictEvents readHeapDict
  cases t.readHeapArray addr with
  | none => exact Runs.fail
  | some dict =>
    dsimp only
    split
    · exact Runs.fail
    · exact runs_readHeapDictLoop t func dict _ _ s propinfo

theorem readHeapDict_rv (addr : ℕ) (s : σ) (propinfo : ℕ) :
    (readHeapDict t addr func s propinfo).1 = 0 ∨ (readHeapDict t addr func s propinfo).1 = -1 := by
  unfold readHeapDict
  cases t.readHeapArray addr with
  | none => exact .inr rfl
  | some dict =>
    dsimp only
    split
    · exact .inr rfl
    · exact readHeapDictLoop_rv t func dict _ _ s propinfo

theorem runs_jsobjFastElements (holey : Bool) (ii : ℕ) (elts : List ℕ) (s : σ) (propinfo : ℕ) :
    Runs func (fastEvents t holey ii elts) s propinfo
      (jsobjFastElements t holey func ii elts s propinfo) := by
  induction elts generalizing ii s propinfo with
  | nil => exact Runs.nil
  | cons elt elts ih =>
    rw [fastEvents, jsobjFastElements]
    split
    · exact ih _ _ _
    · dsimp only
      by_cases hstop : (func (fmtInt ii) (some (.addr elt)) s).1 = 0
      · rw [if_neg (not_not.mpr hstop)]
        exact Runs.cons (bne_eq_false_iff_eq.mpr hstop) (ih _ _ _)
      · rw [if_pos hstop]
        exact Runs.stop (bne_iff_ne.mpr hstop)

theorem runs_jsobjElements (addr map type : ℕ) (s : σ) :
    Runs func (elementEvents t addr map type) s 0 (jsobjElements t addr map type func s) := by
  unfold elementEvents jsobjElements
  extract_lets c
  split
  · exact Runs.nil
  cases t.readHeapPtr addr c.offJsobjectElements with
  | none => exact Runs.nil
  | some elements =>
    dsimp only
    cases t.readHeapArray elements with
    | none => exact Runs.nil
    | some elts =>
      dsimp only
      -- no elements are read if there are none
      split
      · exact Runs.nil
      cases t.readByte (c.add map c.offMapBitField2) with
      | none => exact Runs.fail
      | some bitField2 =>
        dsimp only
        have hzero : ∀ x, 0 ||| x = x := Nat.zero_or
        split
        · refine Runs.addFlags ?_
          rw [hzero]
          exact runs_jsobjFastElements t func _ _ _ _ _
        · split
          · refine Runs.addFlags ?_
            rw [hzero]
            exact runs_readHeapDict t func _ _ _
          · exact ⟨rfl, rfl, fun _ => (Nat.zero_or _).symm⟩

theorem runs_jsobjDescLoop (d : JsobjDescs) (n ii : ℕ) (s : σ) (propinfo : ℕ) :
    Runs func (descEvents t d n ii) s propinfo (jsobjDescLoop t d func n ii s propinfo) := by
  induction n generalizing ii s propinfo with
  | zero => exact Runs.nil
  | succ n ih =>
    rw [descEvents, jsobjDescLoop]
    cases jsobjDesc t d ii with
    | skip flags => exact Runs.addFlags (ih _ _ _)
    | bad => exact Runs.fail
    | prop name value flags =>
      dsimp only
      by_cases hstop : (func name (some value) s).1 = 0
      · rw [if_neg (not_not.mpr hstop)]
        exact Runs.cons (bne_eq_false_iff_eq.mpr hstop) (ih _ _ _)
      · rw [if_pos hstop]
        exact Runs.stop (bne_iff_ne.mpr hstop)

/-- What `jsobj_properties` does with the properties of an object whose `properties` field is a
`FixedArray`. -/
structure RunsProps (es : PropEvents) (s : σ) (r : ℤ × σ × ℕ) : Prop where
  rv : r.1 = if (runEvents func es.events s).1 && es.ok then 0 else -1
  state : r.2.1 = (runEvents func es.events s).2
  flags : r.1 = 0 → r.2.2 = es.flags

variable {func}

theorem Runs.props {es : PropEvents} {s : σ} {r : ℤ × σ × ℕ} {b : Bool × σ × ℕ}
    (h : Runs func es s 0 b) (hrv : r.1 = if b.1 then 0 else -1) (hstate : r.2.1 = b.2.1)
    (hflags : b.1 = true → r.2.2 = b.2.2) : RunsProps func es s r where
  rv := by rw [hrv, h.ok]
  state := hstate.trans h.state
  flags h0 := by
    have hb : b.1 = true := by
      by_contra hb
      rw [if_neg hb] at hrv
      omega
    rw [hflags hb, h.flags hb, Nat.zero_or]

variable (func)

/-- **Any function is called for the events of the object**, in their order, until it stops. -/
theorem jsobjProperties_eq (addr : ℕ) (s : σ) (propinfop : ℕ) :
    match jsobjEvents t addr with
    | .badlayout name =>
      jsobjProperties t addr func s propinfop =
        ((func name none s).1, (func name none s).2, jpiBadlayout)
    | .props es => RunsProps func es s (jsobjProperties t addr func s propinfop) := by
  have hfail : ∀ s' : σ, RunsProps func ⟨[], false, 0⟩ s' (-1, s', propinfop) := fun s' =>
    ⟨rfl, rfl, fun h => absurd h (by simp)⟩
  unfold jsobjEvents jsobjProperties
  extract_lets c
  cases t.readPtr (c.add addr c.offJsobjectProperties) with
  | none => exact hfail s
  | some ptr =>
    dsimp only
    -- both sides read the same words, and give up at the same ones
    cases t.readTypebyte ptr with
    | none => exact hfail s
    | some type =>
      dsimp only
      cases Target.isType type c.typeFixedarray with
      -- a field of another type is handed out without a value
      | false => rfl
      | true =>
        simp only [Bool.not_true, Bool.false_eq_true, if_false]
        cases t.readPtr (c.add addr c.offHeapobjectMap) with
        | none => exact hfail s
        | some map =>
          dsimp only
          have helts := runs_jsobjElements t func addr map type s
          generalize jsobjElements t addr map type func s = r at helts
          obtain ⟨ok, s', propinfo⟩ := r
          cases ok with
          | false =>
            have happ : Runs func ((elementEvents t addr map type).append (namedEvents t addr map ptr))
                s 0 (false, s', propinfo) :=
              Runs.append helts (fun h => absurd h (by simp)) fun _ => ⟨rfl, rfl⟩
            exact happ.props rfl rfl fun h => absurd h (by simp)
          | true =>
            -- what follows the properties with numeric names
            have hrest : ∀ {b : Bool × σ × ℕ} {r : ℤ × σ × ℕ},
                Runs func (namedEvents t addr map ptr) s' propinfo b →
                (r.1 = if b.1 then 0 else -1) → r.2.1 = b.2.1 → (b.1 = true → r.2.2 = b.2.2) →
                RunsProps func ((elementEvents t addr map type).append (namedEvents t addr map ptr))
                  s r := fun hb hrv hstate hflags =>
              (Runs.append helts (fun _ => hb) fun h => absurd h (by simp)).props hrv hstate hflags
            unfold namedEvents at hrest ⊢
            dsimp only
            cases hdict : jsobjIsDict t map with
            | none =>
              simp only [hdict] at hrest
              exact hrest (b := (false, s', propinfo)) Runs.fail rfl rfl fun h => absurd h (by simp)
            | some dict =>
              cases dict with
              | true =>
                simp only [hdict] at hrest
                refine hrest (Runs.addFlags (runs_readHeapDict t func ptr s' _)) ?_ rfl fun _ => rfl
                rcases readHeapDict_rv t func ptr s' (propinfo ||| jpiDict) with h | h <;>
                  simp [okOf, h]
              | false =>
                simp only [hdict] at hrest
                cases hdescs : jsobjDescs t addr map ptr with
                | none =>
                  simp only [hdescs] at hrest
                  exact hrest (b := (false, s', propinfo)) Runs.fail rfl rfl
                    fun h => absurd h (by simp)
                | some dp =>
                  obtain ⟨d, flags⟩ := dp
                  simp only [hdescs] at hrest
                  have hloop := Runs.addFlags
                    (runs_jsobjDescLoop t func d d.rndescs.toNat 0 s' (propinfo ||| flags))
                  dsimp only
                  generalize jsobjDescLoop t d func d.rndescs.toNat 0 s' (propinfo ||| flags) = b
                    at hloop
                  obtain ⟨ok, s'', pi⟩ := b
                  cases ok with
                  | false => exact hrest hloop rfl rfl fun h => absurd h (by simp)
                  | true => exact hrest hloop rfl rfl fun _ => rfl

/-- What `*propinfop` was before changes nothing else. -/
theorem jsobjProperties_propinfop (addr : ℕ) (s : σ) (propinfop propinfop' : ℕ) :
    (jsobjProperties t addr func s propinfop).1 = (jsobjProperties t addr func s propinfop').1 ∧
      (jsobjProperties t addr func s propinfop).2.1 =
        (jsobjProperties t addr func s propinfop').2.1 := by
  have h := jsobjProperties_eq t func addr s propinfop
  have h' := jsobjProperties_eq t func addr s propinfop'
  cases hevents : jsobjEvents t addr with
  | badlayout name =>
    simp only [hevents] at h h'
    rw [h, h']
    exact ⟨rfl, rfl⟩
  | props es =>
    simp only [hevents] at h h'
    exact ⟨h.rv.trans h'.rv.symm, h.state.trans h'.state.symm⟩

/-! ### Functions that never stop -/

/-- The calls of a function that never stops the iteration. -/
def ObjEvents.calls : ObjEvents → List (List UInt8 × Option V8Propvalue)
  | .badlayout name => [(name, none)]
  | .props es => es.events.map fun e => (e.name, some e.value)

/-- **A function that always returns zero is called for everything there is.** -/
theorem jsobjProperties_of_zero (hfunc : ∀ name val s, (func name val s).1 = 0) (addr : ℕ) (s : σ)
    (propinfop : ℕ) :
    (jsobjProperties t addr func s propinfop).2.1 =
      (jsobjEvents t addr).calls.foldl (fun s call => (func call.1 call.2 s).2) s := by
  have h := jsobjProperties_eq t func addr s propinfop
  cases hevents : jsobjEvents t addr with
  | badlayout name =>
    simp only [hevents] at h
    rw [h]
    rfl
  | props es =>
    simp only [hevents] at h
    rw [h.state, runEvents_of_zero func hfunc, ObjEvents.calls, List.foldl_map]

/-- `jsobj_properties` with a function that writes down its arguments: the properties that are
delivered for an object. -/
def deliveredProps (addr : ℕ) : List (List UInt8 × Option V8Propvalue) :=
  (jsobjProperties t addr (fun name val log => (0, log ++ [(name, val)])) [] 0).2.1

theorem deliveredProps_eq (addr : ℕ) : deliveredProps t addr = (jsobjEvents t addr).calls := by
  have happend : ∀ calls log : List (List UInt8 × Option V8Propvalue),
      calls.foldl (fun log call => log ++ [(call.1, call.2)]) log = log ++ calls := by
    intro calls
    induction calls with
    | nil => exact fun log => (List.append_nil log).symm
    | cons call calls ih =>
      intro log
      rw [List.foldl_cons, ih, List.append_assoc]
      rfl
  rw [deliveredProps, jsobjProperties_of_zero t _ (fun _ _ _ => rfl), happend, List.nil_append]

/-! ### Two functions that do the same -/

variable {σ τ : Type*} {R : σ → τ → Prop} {f : PropFunc σ} {g : PropFunc τ}

/-- Two functions return the same for related states, and leave related states. -/
def PropFunc.Similar (R : σ → τ → Prop) (f : PropFunc σ) (g : PropFunc τ) : Prop :=
  ∀ name val s s', R s s' →
    (f name val s).1 = (g name val s').1 ∧ R (f name val s).2 (g name val s').2

/-- The results of two loops that do the same. -/
def SameRun {α : Type*} (R : σ → τ → Prop) (r : α × σ × ℕ) (r' : α × τ × ℕ) : Prop :=
  r.1 = r'.1 ∧ R r.2.1 r'.2.1 ∧ r.2.2 = r'.2.2

namespace PropFunc.Similar

variable (h : PropFunc.Similar R f g)

include h

theorem dictLoop (dict : Target.HeapArray) (fuel i : ℕ) {s : σ} {s' : τ} (hs : R s s')
    (propinfo : ℕ) :
    SameRun R (readHeapDictLoop t dict f fuel i s propinfo)
      (readHeapDictLoop t dict g fuel i s' propinfo) := by
  induction fuel generalizing i s s' propinfo with
  | zero => exact ⟨rfl, hs, rfl⟩
  | succ fuel ih =>
    unfold readHeapDictLoop
    split
    · dsimp only
      cases dictKey t (dict.get i) with
      | skip => exact ih _ hs _
      | fail => exact ⟨rfl, hs, rfl⟩
      | name buf =>
        obtain ⟨hrv, hnext⟩ := h buf (some (.addr (dict.get (i + 1)))) s s' hs
        dsimp only
        rw [hrv]
        split
        · exact ⟨rfl, hnext, rfl⟩
        · exact ih _ hnext _
    · exact ⟨rfl, hs, rfl⟩

theorem dict (addr : ℕ) {s : σ} {s' : τ} (hs : R s s') (propinfo : ℕ) :
    SameRun R (readHeapDict t addr f s propinfo)
      (readHeapDict t addr g s' propinfo) := by
  unfold readHeapDict
  cases t.readHeapArray addr with
  | none => exact ⟨rfl, hs, rfl⟩
  | some dict =>
    dsimp only
    split
    · exact ⟨rfl, hs, rfl⟩
    · exact h.dictLoop t dict _ _ hs _

theorem fastElements (holey : Bool) (ii : ℕ) (elts : List ℕ) {s : σ} {s' : τ} (hs : R s s')
    (propinfo : ℕ) :
    SameRun R (jsobjFastElements t holey f ii elts s propinfo)
      (jsobjFastElements t holey g ii elts s' propinfo) := by
  induction elts generalizing ii s s' propinfo with
  | nil => exact ⟨rfl, hs, rfl⟩
  | cons elt elts ih =>
    unfold jsobjFastElements
    split
    · exact ih _ hs _
    · obtain ⟨hrv, hnext⟩ := h (fmtInt ii) (some (.addr elt)) s s' hs
      dsimp only
      rw [hrv]
      split
      · exact ⟨rfl, hnext, rfl⟩
      · exact ih _ hnext _

theorem elements (addr map type : ℕ) {s : σ} {s' : τ} (hs : R s s') :
    SameRun R (jsobjElements t addr map type f s) (jsobjElements t addr map type g s') := by
  unfold jsobjElements
  extract_lets c
  split
  · exact ⟨rfl, hs, rfl⟩
  cases t.readHeapPtr addr c.offJsobjectElements with
  | none => exact ⟨rfl, hs, rfl⟩
  | some elements =>
    dsimp only
    cases t.readHeapArray elements with
    | none => exact ⟨rfl, hs, rfl⟩
    | some elts =>
      dsimp only
      -- the bits of the Map say which of the two loops is run
      split
      · exact ⟨rfl, hs, rfl⟩
      cases t.readByte (c.add map c.offMapBitField2) with
      | none => exact ⟨rfl, hs, rfl⟩
      | some bitField2 =>
        dsimp only
        split
        · exact h.fastElements t _ _ _ hs _
        split
        · obtain ⟨hrv, hnext, hpropinfo⟩ := h.dict t elements hs (jpiNumeric ||| jpiDict)
          exact ⟨congrArg (· == 0) hrv, hnext, hpropinfo⟩
        · exact ⟨rfl, hs, rfl⟩

theorem descLoop (d : JsobjDescs) (n ii : ℕ) {s : σ} {s' : τ} (hs : R s s') (propinfo : ℕ) :
    SameRun R (jsobjDescLoop t d f n ii s propinfo)
      (jsobjDescLoop t d g n ii s' propinfo) := by
  induction n generalizing ii s s' propinfo with
  | zero => exact ⟨rfl, hs, rfl⟩
  | succ n ih =>
    unfold jsobjDescLoop
    cases jsobjDesc t d ii with
    | skip flags => exact ih _ hs _
    | bad => exact ⟨rfl, hs, rfl⟩
    | prop name value flags =>
      obtain ⟨hrv, hnext⟩ := h name (some value) s s' hs
      dsimp only
      rw [hrv]
      split
      · exact ⟨rfl, hnext, rfl⟩
      · exact ih _ hnext _

/-- **Functions that do the same do the same for the properties of an object.** -/
theorem properties (addr : ℕ) {s : σ} {s' : τ} (hs : R s s') (propinfop : ℕ) :
    SameRun R (jsobjProperties t addr f s propinfop) (jsobjProperties t addr g s' propinfop) := by
  unfold jsobjProperties
  extract_lets c
  cases t.readPtr (c.add addr c.offJsobjectProperties) with
  | none => exact ⟨rfl, hs, rfl⟩
  | some ptr =>
    dsimp only
    cases t.readTypebyte ptr with
    | none => exact ⟨rfl, hs, rfl⟩
    | some type =>
      dsimp only
      -- a field that is no array is handed out without a value
      split
      · obtain ⟨hrv, hnext⟩ := h _ none s s' hs
        exact ⟨hrv, hnext, rfl⟩
      cases t.readPtr (c.add addr c.offHeapobjectMap) with
      | none => exact ⟨rfl, hs, rfl⟩
      | some map =>
        -- first the properties with numeric names
        have helts := h.elements t addr map type hs
        dsimp only
        generalize jsobjElements t addr map type f s = r at helts ⊢
        generalize jsobjElements t addr map type g s' = r' at helts ⊢
        obtain ⟨ok, s₁, propinfo⟩ := r
        obtain ⟨ok', s₁', propinfo'⟩ := r'
        obtain ⟨rfl, hs₁, rfl⟩ := helts
        dsimp only at hs₁ ⊢
        cases ok with
        | false => exact ⟨rfl, hs₁, rfl⟩
        | true =>
          dsimp only
          cases jsobjIsDict t map with
          | none => exact ⟨rfl, hs₁, rfl⟩
          | some isDict =>
            cases isDict with
            | true => exact h.dict t ptr hs₁ _
            | false =>
              dsimp only
              cases jsobjDescs t addr map ptr with
              | none => exact ⟨rfl, hs₁, rfl⟩
              | some dp =>
                obtain ⟨d, flags⟩ := dp
                have hloop := h.descLoop t d d.rndescs.toNat 0 hs₁ (propinfo ||| flags)
                dsimp only
                generalize jsobjDescLoop t d f _ _ _ _ = r at hloop ⊢
                generalize jsobjDescLoop t d g _ _ _ _ = r' at hloop ⊢
                obtain ⟨ok, s₂, propinfo₂⟩ := r
                obtain ⟨ok', s₂', propinfo₂'⟩ := r'
                obtain ⟨rfl, hs₂, rfl⟩ := hloop
                cases ok with
                | false => exact ⟨rfl, hs₂, rfl⟩
                | true => exact ⟨rfl, hs₂, rfl⟩

/-- The same, whatever `*propinfop` was before. -/
theorem properties_rv (addr : ℕ) {s : σ} {s' : τ} (hs : R s s') (propinfop propinfop' : ℕ) :
    (jsobjProperties t addr f s propinfop).1 = (jsobjProperties t addr g s' propinfop').1 ∧
      R (jsobjProperties t addr f s propinfop).2.1 (jsobjProperties t addr g s' propinfop').2.1 := by
  obtain ⟨hrv, hnext, -⟩ := h.properties t addr hs propinfop
  obtain ⟨hrv', hstate⟩ := jsobjProperties_propinfop t g addr s' propinfop propinfop'
  rw [← hrv', ← hstate]
  exact ⟨hrv, hnext⟩

end PropFunc.Similar

end Events

end MdbV8
