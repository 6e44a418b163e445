import MdbV8.Objects.Protocol

/-!
# The flags of an iteration

`jsobj_properties` collects flags on the way, in its own variable and in that of its caller, and what the
caller sees afterwards tells whether the object may be garbage. This module says of three of the flags
what they mean: that some value does not look valid, that the properties are laid out in a way that is
not known, and that some descriptor has been rejected. They mean it for every object whose iteration
succeeds with a function that returns zero, in whatever way the properties are stored
(`flagsExact`).
-/

namespace MdbV8

/-- Some flags have one of them set. -/
def hasFlag (info flag : ℕ) : Prop := info &&& flag ≠ 0

instance (info flag : ℕ) : Decidable (hasFlag info flag) := inferInstanceAs (Decidable (_ ≠ _))

theorem hasFlag_or (info info' flag : ℕ) :
    hasFlag (info ||| info') flag ↔ hasFlag info flag ∨ hasFlag info' flag := by
  unfold hasFlag
  rw [Nat.and_or_distrib_right, ne_eq, Nat.or_eq_zero_iff, not_and_or]

theorem not_hasFlag_zero (flag : ℕ) : ¬ hasFlag 0 flag := fun h => h (Nat.zero_and flag)

section Flags

variable (t : Target)

/-- A value is tagged and does not look valid. An unboxed `double` never does this. -/
def V8Propvalue.Garbage : V8Propvalue → Prop
  | .addr w => jsobjMaybeGarbage t w = true
  | .double _ => False

/-- The word of the descriptors with an index, or of their contents. -/
def JsobjDescs.key (d : JsobjDescs) (ii : ℕ) : ℕ := d.descs.get (descIdx t.cfg ii).1

def JsobjDescs.value (d : JsobjDescs) (ii : ℕ) : ℕ := d.content.get (descIdx t.cfg ii).2.1

def JsobjDescs.details (d : JsobjDescs) (ii : ℕ) : ℕ := d.content.get (descIdx t.cfg ii).2.2

/-- The descriptor with an index is one of a field. -/
structure JsobjDescs.IsField (d : JsobjDescs) (ii : ℕ) : Prop where
  details_lt : (descIdx t.cfg ii).2.2 < d.content.len
  isfield : descIsfield t.cfg (d.details t ii) = true

/-- The descriptor has a key, and that can be printed as a string. -/
structure JsobjDescs.IsNamed (d : JsobjDescs) (ii : ℕ) : Prop extends d.IsField t ii where
  key_lt : (descIdx t.cfg ii).1 < d.descs.len
  prints : (jsstrLocal t (d.key t ii) jsstrNone 1024).1 = 0

/-- **A descriptor is rejected**, for one of five reasons. -/
inductive Rejected (d : JsobjDescs) (ii : ℕ) : Prop
  /-- The index of the details is out of range. -/
  | details (h : d.content.len ≤ (descIdx t.cfg ii).2.2)
  /-- The index of the key is out of range. -/
  | key (hfield : d.IsField t ii) (h : d.descs.len ≤ (descIdx t.cfg ii).1)
  /-- The key cannot be printed, and it is not `undefined`. -/
  | name (hfield : d.IsField t ii) (hkey : (descIdx t.cfg ii).1 < d.descs.len)
    (hprint : (jsstrLocal t (d.key t ii) jsstrNone 1024).1 ≠ 0)
    (hdefined : jsobjIsUndefined t (d.key t ii) = false)
  /-- The value, which is the index of the property, is not an SMI. -/
  | value (hnamed : d.IsNamed t ii) (hold : fieldindexInDetails t.cfg = false)
    (hsmi : t.cfg.isSmi (d.value t ii) = false)
  /-- The property is in the object, and it cannot be read there. -/
  | slot (hnamed : d.IsNamed t ii) (place : PropPlace)
    (hplace : propPlace t.cfg d (d.details t ii) (d.value t ii) = some place)
    (haddr : place.propaddr ≠ 0) (hread : t.readPtr place.propaddr = none)

/-- The properties of an object are fast ones, with some descriptors. -/
def HasDescs (addr : ℕ) (d : JsobjDescs) : Prop :=
  ∃ ptr type map flags, t.readPtr (t.cfg.add addr t.cfg.offJsobjectProperties) = some ptr ∧
    t.readTypebyte ptr = some type ∧ Target.isType type t.cfg.typeFixedarray = true ∧
    t.readPtr (t.cfg.add addr t.cfg.offHeapobjectMap) = some map ∧
    jsobjIsDict t map = some false ∧ jsobjDescs t addr map ptr = some (d, flags)

/-- **The flags are exact** for an object and a function: if the iteration succeeds, they are those of the
iteration, and they say what it has found. -/
structure FlagsExact {σ : Type} (addr : ℕ) (func : PropFunc σ) (s : σ) (propinfop : ℕ) : Prop where
  own : ∀ propinfop', (jsobjProperties t addr func s propinfop').2.2 =
    (jsobjProperties t addr func s propinfop).2.2
  badprops : hasFlag (jsobjProperties t addr func s propinfop).2.2 jpiBadprops ↔
    ∃ call ∈ propCalls t addr func s, ∃ value ∈ call.2.1, value.Garbage t
  badlayout : hasFlag (jsobjProperties t addr func s propinfop).2.2 jpiBadlayout ↔
    ∃ call ∈ propCalls t addr func s, call.2.1 = none
  skipped : hasFlag (jsobjProperties t addr func s propinfop).2.2 jpiSkipped ↔
    ∃ d, HasDescs t addr d ∧ ∃ ii < d.rndescs.toNat, Rejected t d ii

/-! ### What a loop says with its flags -/

variable {t}

/-- The flags of a loop say whether the value of some property does not look valid and, if the loop comes
to its end, whether something has been skipped. -/
structure PropEvents.Says (es : PropEvents) (skips : Prop) : Prop where
  badprops : hasFlag es.flags jpiBadprops ↔ ∃ e ∈ es.events, e.value.Garbage t
  badlayout : ¬ hasFlag es.flags jpiBadlayout
  skipped : es.ok = true → (hasFlag es.flags jpiSkipped ↔ skips)

theorem hasFlag_garbageInfo (w : ℕ) :
    (hasFlag (garbageInfo t w) jpiBadprops ↔ jsobjMaybeGarbage t w = true) ∧
      ¬ hasFlag (garbageInfo t w) jpiBadlayout ∧ ¬ hasFlag (garbageInfo t w) jpiSkipped := by
  unfold garbageInfo
  cases jsobjMaybeGarbage t w with
  | false => exact ⟨by decide, by decide, by decide⟩
  | true => exact ⟨by decide, by decide, by decide⟩

namespace PropEvents.Says

variable {es fs : PropEvents} {skips skips' : Prop}

theorem congr (h : es.Says (t := t) skips) (hiff : skips ↔ skips') : es.Says (t := t) skips' :=
  ⟨h.badprops, h.badlayout, fun hok => (h.skipped hok).trans hiff⟩

/-- A loop without properties, with some flags. -/
theorem none (flags : ℕ) (hbad : ¬ hasFlag flags jpiBadprops) (hlayout : ¬ hasFlag flags jpiBadlayout)
    (hskip : ¬ hasFlag flags jpiSkipped) (ok : Bool) : PropEvents.Says (t := t) ⟨[], ok, flags⟩ False :=
  ⟨iff_of_false hbad (by simp), hlayout, fun _ => iff_of_false hskip id⟩

theorem nil (ok : Bool) : PropEvents.Says (t := t) ⟨[], ok, 0⟩ False :=
  none 0 (not_hasFlag_zero _) (not_hasFlag_zero _) (not_hasFlag_zero _) ok

/-- A loop that is given up says nothing of what has been skipped. -/
theorem fail : PropEvents.Says (t := t) ⟨[], false, 0⟩ skips :=
  ⟨iff_of_false (not_hasFlag_zero _) (by simp), not_hasFlag_zero _, fun hok => absurd hok (by simp)⟩

theorem cons (h : es.Says (t := t) skips) {e : PropEvent} {flags : ℕ}
    (hbad : hasFlag flags jpiBadprops ↔ e.value.Garbage t) (hlayout : ¬ hasFlag flags jpiBadlayout)
    (hskip : ¬ hasFlag flags jpiSkipped) : (es.cons e flags).Says (t := t) skips := by
  refine ⟨?_, ?_, fun hok => ?_⟩
  · change hasFlag (flags ||| es.flags) jpiBadprops ↔ ∃ e' ∈ e :: es.events, e'.value.Garbage t
    rw [hasFlag_or, hbad, h.badprops]
    simp
  · change ¬ hasFlag (flags ||| es.flags) jpiBadlayout
    rw [hasFlag_or]
    exact not_or.mpr ⟨hlayout, h.badlayout⟩
  · change hasFlag (flags ||| es.flags) jpiSkipped ↔ skips
    rw [hasFlag_or, or_iff_right hskip]
    exact h.skipped hok

theorem addFlags (h : es.Says (t := t) skips) {flags : ℕ} (hbad : ¬ hasFlag flags jpiBadprops)
    (hlayout : ¬ hasFlag flags jpiBadlayout) :
    (es.addFlags flags).Says (t := t) (hasFlag flags jpiSkipped ∨ skips) := by
  refine ⟨?_, ?_, fun hok => ?_⟩
  · change hasFlag (flags ||| es.flags) jpiBadprops ↔ ∃ e ∈ es.events, e.value.Garbage t
    rw [hasFlag_or, or_iff_right hbad]
    exact h.badprops
  · change ¬ hasFlag (flags ||| es.flags) jpiBadlayout
    rw [hasFlag_or]
    exact not_or.mpr ⟨hlayout, h.badlayout⟩
  · change hasFlag (flags ||| es.flags) jpiSkipped ↔ _
    rw [hasFlag_or, h.skipped hok]

/-- Flags that are set besides, none of them one of these. -/
theorem addOther (h : es.Says (t := t) skips) {flags : ℕ} (hbad : ¬ hasFlag flags jpiBadprops)
    (hlayout : ¬ hasFlag flags jpiBadlayout) (hskip : ¬ hasFlag flags jpiSkipped) :
    (es.addFlags flags).Says (t := t) skips :=
  (h.addFlags hbad hlayout).congr (or_iff_right hskip)

theorem append (h : es.Says (t := t) False) (h' : fs.Says (t := t) skips) :
    (es.append fs).Says (t := t) skips := by
  unfold PropEvents.append
  split
  · next hes =>
    refine ⟨?_, ?_, fun hok => ?_⟩
    · dsimp only
      rw [hasFlag_or, h.badprops, h'.badprops]
      simp [or_and_right, exists_or]
    · dsimp only
      rw [hasFlag_or]
      exact not_or.mpr ⟨h.badlayout, h'.badlayout⟩
    · dsimp only at hok ⊢
      rw [hasFlag_or, h.skipped hes, false_or]
      exact h'.skipped hok
  · next hes => exact ⟨h.badprops, h.badlayout, fun hok => absurd hok hes⟩

end PropEvents.Says

theorem says_dictLoopEvents (dict : Target.HeapArray) (fuel i : ℕ) :
    (dictLoopEvents t dict fuel i).Says (t := t) False := by
  induction fuel generalizing i with
  | zero => exact .nil false
  | succ fuel ih =>
    rw [dictLoopEvents]
    split
    · dsimp only
      cases dictKey t (dict.get i) with
      | skip => exact ih _
      | fail => exact .nil false
      | name name =>
        obtain ⟨hbad, hlayout, hskip⟩ := hasFlag_garbageInfo (t := t) (dict.get (i + 1))
        exact (ih _).cons hbad hlayout hskip
    · exact .nil true

theorem says_dictEvents (addr : ℕ) : (dictEvents t addr).Says (t := t) False := by
  unfold dictEvents
  cases t.readHeapArray addr with
  | none => exact .nil false
  | some dict =>
    dsimp only
    split
    · exact .nil false
    · exact says_dictLoopEvents dict _ _

theorem says_fastEvents (holey : Bool) (ii : ℕ) (elts : List ℕ) :
    (fastEvents t holey ii elts).Says (t := t) False := by
  induction elts generalizing ii with
  | nil => exact .nil true
  | cons elt elts ih =>
    rw [fastEvents]
    split
    · exact ih _
    · obtain ⟨hbad, hlayout, hskip⟩ := hasFlag_garbageInfo (t := t) elt
      exact (ih _).cons hbad hlayout hskip

theorem says_elementEvents (addr map type : ℕ) :
    (elementEvents t addr map type).Says (t := t) False := by
  unfold elementEvents
  extract_lets c
  split
  · exact .nil true
  cases t.readHeapPtr addr c.offJsobjectElements with
  | none => exact .nil true
  | some elements =>
    dsimp only
    cases t.readHeapArray elements with
    | none => exact .nil true
    | some elts =>
      dsimp only
      -- there are elements, and the Map says how they are stored
      split
      · exact .nil true
      cases t.readByte (c.add map c.offMapBitField2) with
      | none => exact .nil false
      | some bitField2 =>
        dsimp only
        split
        · exact (says_fastEvents _ _ _).addOther (by decide) (by decide) (by decide)
        split
        · exact (says_dictEvents _).addOther (by decide) (by decide) (by decide)
        · exact .none _ (by decide) (by decide) (by decide) true

/-- A property that is found by a descriptor says with its flags whether its value looks valid. -/
theorem hasFlag_propOut (d : JsobjDescs) (name : List UInt8) (place : PropPlace) (ptr propinfo : ℕ)
    (hinfo : propinfo = jpiInobject ∨ propinfo = jpiProps) :
    ∃ value flags, propOut t d name place ptr propinfo = .prop name value flags ∧
      (hasFlag flags jpiBadprops ↔ value.Garbage t) ∧ ¬ hasFlag flags jpiBadlayout ∧
      ¬ hasFlag flags jpiSkipped := by
  have hnone : ¬ hasFlag propinfo jpiBadprops ∧ ¬ hasFlag propinfo jpiBadlayout ∧
      ¬ hasFlag propinfo jpiSkipped := by
    rcases hinfo with rfl | rfl <;> exact ⟨by decide, by decide, by decide⟩
  obtain ⟨hbad, hlayout, hskip⟩ := hnone
  unfold propOut
  split
  · exact ⟨_, _, rfl, iff_of_false hbad id, hlayout, hskip⟩
  · obtain ⟨hbad', hlayout', hskip'⟩ := hasFlag_garbageInfo (t := t) ptr
    refine ⟨_, _, rfl, ?_, ?_, ?_⟩
    · rw [hasFlag_or, or_iff_right hbad, hbad']
      rfl
    · rw [hasFlag_or]
      exact not_or.mpr ⟨hlayout, hlayout'⟩
    · rw [hasFlag_or]
      exact not_or.mpr ⟨hskip, hskip'⟩

/-- Why a descriptor that is one of a field, with a key that can be printed, is rejected. -/
theorem JsobjDescs.IsNamed.rejected_iff {d : JsobjDescs} {ii : ℕ} (h : d.IsNamed t ii) :
    Rejected t d ii ↔
      (fieldindexInDetails t.cfg = false ∧ t.cfg.isSmi (d.value t ii) = false) ∨
        ∃ place, propPlace t.cfg d (d.details t ii) (d.value t ii) = some place ∧
          place.propaddr ≠ 0 ∧ t.readPtr place.propaddr = none := by
  constructor
  · intro hrej
    cases hrej with
    | details hlen => exact absurd h.details_lt (not_lt.mpr hlen)
    | key _ hlen => exact absurd h.key_lt (not_lt.mpr hlen)
    | name _ _ hprint _ => exact absurd h.prints hprint
    | value _ hold hsmi => exact .inl ⟨hold, hsmi⟩
    | slot _ place hplace haddr hread => exact .inr ⟨place, hplace, haddr, hread⟩
  · rintro (⟨hold, hsmi⟩ | ⟨place, hplace, haddr, hread⟩)
    · exact .value h hold hsmi
    · exact .slot h place hplace haddr hread

theorem propPlace_eq_none_iff (c : Config) (d : JsobjDescs) (details value : ℕ) :
    propPlace c d details value = none ↔ fieldindexInDetails c = false ∧ c.isSmi value = false := by
  unfold propPlace
  cases fieldindexInDetails c with
  | true =>
    rw [if_pos rfl]
    dsimp only
    split <;> simp
  | false =>
    rw [if_neg (by simp)]
    cases c.isSmi value with
    | true =>
      rw [if_neg (by simp)]
      dsimp only
      split <;> simp
    | false => simp

/-- What the loop over the descriptors makes of a descriptor, and the flags that it sets. -/
inductive DescSays (d : JsobjDescs) (ii : ℕ) : DescOut → Prop
  | rejected (h : Rejected t d ii) : DescSays d ii (.skip jpiSkipped)
  | skipped {flags : ℕ} (h : ¬ Rejected t d ii) (hflags : flags = 0 ∨ flags = jpiUndefpropname) :
    DescSays d ii (.skip flags)
  | bad : DescSays d ii .bad
  | prop {name : List UInt8} {value : V8Propvalue} {flags : ℕ} (h : ¬ Rejected t d ii)
    (hbad : hasFlag flags jpiBadprops ↔ value.Garbage t) (hlayout : ¬ hasFlag flags jpiBadlayout)
    (hskip : ¬ hasFlag flags jpiSkipped) : DescSays d ii (.prop name value flags)

/-- A descriptor of a field whose key can be printed. -/
theorem JsobjDescs.IsNamed.says {d : JsobjDescs} {ii : ℕ} (h : d.IsNamed t ii) (name : List UInt8) :
    DescSays (t := t) d ii
      (match propPlace t.cfg d (d.details t ii) (d.value t ii) with
      | none => .skip jpiSkipped
      | some place =>
        if place.propaddr ≠ 0 then
          match t.readPtr place.propaddr with
          | none => .skip jpiSkipped
          | some ptr => propOut t d name place ptr jpiInobject
        else if 0 ≤ place.proparrayidx ∧ place.proparrayidx < d.props.len then
          propOut t d name place (d.props.get place.proparrayidx.toNat) jpiProps
        else if place.propidx < d.rndescs then .skip 0
        else .bad) := by
  have hiff := h.rejected_iff
  rcases (propPlace t.cfg d (d.details t ii) (d.value t ii)).eq_none_or_eq_some with
    hplace | ⟨place, hplace⟩
  · simp only [hplace]
    exact .rejected (hiff.mpr (.inl ((propPlace_eq_none_iff _ _ _ _).mp hplace)))
  -- the place is known, so it is not the value that is rejected
  have hvalue : ¬ (fieldindexInDetails t.cfg = false ∧ t.cfg.isSmi (d.value t ii) = false) := by
    rw [← propPlace_eq_none_iff t.cfg d (d.details t ii), hplace]
    simp
  simp only [hplace, Option.some.injEq, exists_eq_left', hvalue, false_or] at hiff ⊢
  by_cases haddr : place.propaddr = 0
  · -- the property is in the array, or nowhere
    have hrej : ¬ Rejected t d ii := by simp [hiff, haddr]
    rw [if_neg (not_not.mpr haddr)]
    split
    · obtain ⟨value, flags, hout, hbad, hlayout, hskip⟩ := hasFlag_propOut (t := t) d name place
        (d.props.get place.proparrayidx.toNat) jpiProps (.inr rfl)
      rw [hout]
      exact .prop hrej hbad hlayout hskip
    · split
      · exact .skipped hrej (.inl rfl)
      · exact .bad
  · rw [if_pos haddr]
    cases hread : t.readPtr place.propaddr with
    | none => exact .rejected (hiff.mpr ⟨haddr, hread⟩)
    | some ptr =>
      have hrej : ¬ Rejected t d ii := by simp [hiff, hread]
      obtain ⟨value, flags, hout, hbad, hlayout, hskip⟩ := hasFlag_propOut (t := t) d name place
        ptr jpiInobject (.inl rfl)
      dsimp only
      rw [hout]
      exact .prop hrej hbad hlayout hskip

theorem descSays (d : JsobjDescs) (ii : ℕ) : DescSays (t := t) d ii (jsobjDesc t d ii) := by
  change DescSays d ii
    (if (descIdx t.cfg ii).2.2 ≥ d.content.len then .skip jpiSkipped
    else if !descIsfield t.cfg (d.details t ii) then .skip 0
    else if (descIdx t.cfg ii).1 ≥ d.descs.len then .skip jpiSkipped
    else if (jsstrLocal t (d.key t ii) jsstrNone 1024).1 ≠ 0 then
      .skip (if jsobjIsUndefined t (d.key t ii) then jpiUndefpropname else jpiSkipped)
    else _)
  by_cases hdetails : (descIdx t.cfg ii).2.2 ≥ d.content.len
  · rw [if_pos hdetails]
    exact .rejected (.details hdetails)
  rw [if_neg hdetails]
  by_cases hisfield : descIsfield t.cfg (d.details t ii) = true
  swap
  · -- no field, and no error
    rw [if_pos (by simpa using hisfield)]
    refine .skipped (fun hrej => ?_) (.inl rfl)
    cases hrej with
    | details hlen => exact hdetails hlen
    | key hfield _ => exact hisfield hfield.isfield
    | name hfield _ _ _ => exact hisfield hfield.isfield
    | value hnamed _ _ => exact hisfield hnamed.isfield
    | slot hnamed _ _ _ _ => exact hisfield hnamed.isfield
  -- the descriptor is of a field, and its key is looked for next
  have hfield : d.IsField t ii := ⟨not_le.mp hdetails, hisfield⟩
  rw [if_neg (by simp [hisfield])]
  by_cases hkey : (descIdx t.cfg ii).1 ≥ d.descs.len
  · rw [if_pos hkey]
    exact .rejected (.key hfield hkey)
  rw [if_neg hkey]
  by_cases hprint : (jsstrLocal t (d.key t ii) jsstrNone 1024).1 = 0
  · rw [if_neg (not_not.mpr hprint)]
    exact JsobjDescs.IsNamed.says ⟨hfield, not_le.mp hkey, hprint⟩ _
  rw [if_pos hprint]
  cases hundef : jsobjIsUndefined t (d.key t ii) with
  | false =>
    rw [if_neg (by simp)]
    exact .rejected (.name hfield (not_le.mp hkey) hprint hundef)
  | true =>
    rw [if_pos rfl]
    refine .skipped (fun hrej => ?_) (.inr rfl)
    cases hrej with
    | details hlen => exact hdetails hlen
    | key _ hlen => exact hkey hlen
    | name _ _ _ hdefined => exact absurd (hundef.symm.trans hdefined) (by simp)
    | value hnamed _ _ => exact hprint hnamed.prints
    | slot hnamed _ _ _ _ => exact hprint hnamed.prints

/-- The loop over the descriptors, from an index on. -/
theorem says_descEvents (d : JsobjDescs) (n ii : ℕ) :
    (descEvents t d n ii).Says (t := t) (∃ k < n, Rejected t d (ii + k)) := by
  induction n generalizing ii with
  | zero => exact (PropEvents.Says.nil true).congr (by simp)
  | succ n ih =>
    -- the descriptors are the first one and the others
    have hsplit : (∃ k < n + 1, Rejected t d (ii + k)) ↔
        Rejected t d ii ∨ ∃ k < n, Rejected t d (ii + 1 + k) := by
      simp only [Nat.exists_lt_succ_left, Nat.add_zero, Nat.add_assoc, Nat.add_comm 1]
    have hdesc := descSays (t := t) d ii
    rw [descEvents]
    generalize jsobjDesc t d ii = out at hdesc
    cases hdesc with
    | rejected hrej =>
      refine ((ih (ii + 1)).addFlags (by decide) (by decide)).congr ?_
      rw [hsplit]
      exact or_congr_left (iff_of_true (by decide) hrej)
    | skipped hrej hflags =>
      have hiff := hsplit.trans (or_iff_right hrej)
      rcases hflags with rfl | rfl
      · exact ((ih (ii + 1)).addOther (by decide) (by decide) (by decide)).congr hiff.symm
      · exact ((ih (ii + 1)).addOther (by decide) (by decide) (by decide)).congr hiff.symm
    | bad => exact .fail
    | prop hrej hbad hlayout hskip =>
      have hiff := hsplit.trans (or_iff_right hrej)
      exact ((ih (ii + 1)).cons hbad hlayout hskip).congr hiff.symm

theorem descsPtr_flags {map : ℕ} {r : ℕ × ℕ} (h : descsPtr t map = some r) :
    r.2 = 0 ∨ r.2 = jpiHastransitions := by
  unfold descsPtr at h
  dsimp only at h
  split at h
  · split at h
    · cases h
    · split at h
      · cases h
      · obtain ⟨trans, -, rfl⟩ := Option.map_eq_some_iff.mp h
        exact .inr rfl
  · obtain ⟨ptr, -, rfl⟩ := Option.map_eq_some_iff.mp h
    exact .inl rfl

theorem descsContent_flags {descs : Target.HeapArray} {r : Target.HeapArray × ℤ × ℕ}
    (h : descsContent t descs = some r) : r.2.2 = 0 ∨ r.2.2 = jpiHascontent := by
  unfold descsContent at h
  dsimp only at h
  split at h
  · cases h
    exact .inl rfl
  · split at h
    · obtain ⟨content, -, rfl⟩ := Option.map_eq_some_iff.mp h
      exact .inr rfl
    · cases h
      exact .inr rfl

/-- Reading the descriptors sets none of the flags. -/
theorem hasFlag_jsobjDescs {addr map ptr flags : ℕ} {d : JsobjDescs}
    (h : jsobjDescs t addr map ptr = some (d, flags)) :
    ¬ hasFlag flags jpiBadprops ∧ ¬ hasFlag flags jpiBadlayout ∧ ¬ hasFlag flags jpiSkipped := by
  obtain ⟨rp, rc, hrp, hrc, rfl⟩ : ∃ rp rc, (rp = 0 ∨ rp = jpiHastransitions) ∧
      (rc = 0 ∨ rc = jpiHascontent) ∧ rp ||| rc = flags := by
    unfold jsobjDescs at h
    -- every way of reading the descriptors ends in one of these flags
    split at h
    · cases h
    split at h
    · cases h
    next hptr =>
    split at h
    · cases h
    dsimp only at h
    split at h
    · cases h
    split at h
    · cases h
    next hcontent =>
    obtain ⟨layout, -, hd⟩ := Option.map_eq_some_iff.mp h
    exact ⟨_, _, descsPtr_flags hptr, descsContent_flags hcontent, (Prod.mk.inj hd).2⟩
  rcases hrp with rfl | rfl <;> rcases hrc with rfl | rfl <;> exact ⟨by decide, by decide, by decide⟩

/-- The other properties. -/
theorem says_namedEvents (addr map ptr : ℕ) :
    (namedEvents t addr map ptr).Says (t := t)
      (∃ d flags, jsobjIsDict t map = some false ∧ jsobjDescs t addr map ptr = some (d, flags) ∧
        ∃ ii < d.rndescs.toNat, Rejected t d ii) := by
  unfold namedEvents
  cases jsobjIsDict t map with
  | none => exact .fail
  | some dict =>
    cases dict with
    | true =>
      -- a dictionary has no descriptors
      dsimp only
      refine ((says_dictEvents ptr).addOther (by decide) (by decide) (by decide)).congr ?_
      simp
    | false =>
      dsimp only
      cases hdescs : jsobjDescs t addr map ptr with
      | none => exact .fail
      | some dp =>
        obtain ⟨d, flags⟩ := dp
        obtain ⟨hbad, hlayout, hskip⟩ := hasFlag_jsobjDescs hdescs
        dsimp only
        refine ((says_descEvents d _ 0).addOther hbad hlayout hskip).congr ?_
        simp

/-- An object whose `properties` field is not known has no descriptors, and otherwise what the loops say
is about those that it has. -/
theorem says_jsobjEvents (addr : ℕ) :
    match jsobjEvents t addr with
    | .badlayout _ => ¬ ∃ d, HasDescs t addr d
    | .props es => es.Says (t := t) (∃ d, HasDescs t addr d ∧ ∃ ii < d.rndescs.toNat, Rejected t d ii) := by
  unfold jsobjEvents HasDescs
  extract_lets c
  cases t.readPtr (c.add addr c.offJsobjectProperties) with
  | none => exact .fail
  | some ptr =>
    dsimp only
    cases htype : t.readTypebyte ptr with
    | none => exact .fail
    | some type =>
      dsimp only
      cases hfixed : Target.isType type c.typeFixedarray with
      | false =>
        -- the field is no array, so that there are no descriptors
        rw [if_pos (by simp)]
        rintro ⟨d, ptr', type', map, flags, hptr, htype', hfixed', -⟩
        cases hptr
        cases htype.symm.trans htype'
        exact absurd (hfixed.symm.trans hfixed') (by simp)
      | true =>
        rw [if_neg (by simp)]
        cases t.readPtr (c.add addr c.offHeapobjectMap) with
        | none => exact .fail
        | some map =>
          dsimp only
          refine ((says_elementEvents addr map type).append (says_namedEvents addr map ptr)).congr ?_
          constructor
          · rintro ⟨d, flags, hdict, hdescs, hrej⟩
            exact ⟨d, ⟨ptr, type, map, flags, rfl, htype, hfixed, rfl, hdict, hdescs⟩, hrej⟩
          · rintro ⟨d, ⟨ptr', type', map', flags, hptr, -, -, hmap, hdict, hdescs⟩, hrej⟩
            cases hptr
            cases hmap
            exact ⟨d, flags, hdict, hdescs, hrej⟩

theorem hasFlag_badlayout : ¬ hasFlag jpiBadlayout jpiBadprops ∧ hasFlag jpiBadlayout jpiBadlayout ∧
    ¬ hasFlag jpiBadlayout jpiSkipped := by
  decide

/-- What a function that returns zero is given, for a list of properties. -/
theorem eventCalls_of_zero {σ : Type} {func : PropFunc σ} (hfunc : ∀ name val s, (func name val s).1 = 0)
    (es : List PropEvent) (s : σ) :
    (eventCalls func es s).map (fun call => call.2.1) = es.map fun e => some e.value := by
  induction es generalizing s with
  | nil => rfl
  | cons e es ih =>
    have hgo : e.stops (func e.name (some e.value) s).1 = false := by
      rw [hfunc]
      unfold PropEvent.stops
      split <;> rfl
    rw [eventCalls, List.map_cons, List.map_cons, ← ih (func e.name (some e.value) s).2]
    simp only [hgo, Bool.false_eq_true, if_false]

/-- **The flags of an iteration are exact**, for every object and for every function that returns zero. -/
theorem flagsExact {σ : Type} (addr : ℕ) (func : PropFunc σ)
    (hfunc : ∀ name val s, (func name val s).1 = 0) (s : σ) (propinfop : ℕ)
    (h : (jsobjProperties t addr func s propinfop).1 = 0) : FlagsExact t addr func s propinfop := by
  have hsays := says_jsobjEvents (t := t) addr
  have hrun := jsobjProperties_eq t func addr s
  have hlog := jsobjProperties_eq t (logCalls func) addr (s, []) 0
  cases hevents : jsobjEvents t addr with
  | badlayout name =>
    -- the function is called once, without a value
    simp only [hevents] at hsays hrun hlog
    have hcalls : propCalls t addr func s = [(name, none, (func name none s).1)] := by
      rw [propCalls, hlog]
      rfl
    refine ⟨fun propinfop' => ?_, ?_, ?_, ?_⟩
    · rw [hrun, hrun]
    · rw [hrun, hcalls]
      exact iff_of_false hasFlag_badlayout.1 (by simp)
    · rw [hrun, hcalls]
      exact iff_of_true hasFlag_badlayout.2.1 (by simp)
    · rw [hrun]
      refine iff_of_false hasFlag_badlayout.2.2 ?_
      rintro ⟨d, hd, -⟩
      exact hsays ⟨d, hd⟩
  | props es =>
    -- the function is called for every event, since it returns zero
    simp only [hevents] at hsays hrun hlog
    have hall : (runEvents func es.events s).1 = true := by rw [runEvents_of_zero func hfunc]
    have hok : es.ok = true := by
      have hrv := (hrun propinfop).rv
      rw [h, hall, Bool.true_and] at hrv
      by_contra hok
      rw [if_neg hok] at hrv
      exact absurd hrv (by decide)
    have hflags : ∀ p, (jsobjProperties t addr func s p).2.2 = es.flags := fun p =>
      (hrun p).flags (by rw [(hrun p).rv, hall, hok]; rfl)
    -- it sees the values of the events
    have hcalls : propCalls t addr func s = eventCalls func es.events s := by
      rw [propCalls, hlog.state, runEvents_logCalls, List.nil_append]
    have hvalues := eventCalls_of_zero hfunc es.events s
    rw [← hcalls] at hvalues
    have hcall : ∀ P : Option V8Propvalue → Prop,
        (∃ call ∈ propCalls t addr func s, P call.2.1) ↔ ∃ e ∈ es.events, P (some e.value) := by
      intro P
      have hmem : (∃ v ∈ (propCalls t addr func s).map (fun call => call.2.1), P v) ↔
          ∃ v ∈ es.events.map (fun e => some e.value), P v := by rw [hvalues]
      simpa only [List.mem_map, exists_exists_and_eq_and] using hmem
    refine ⟨fun propinfop' => by rw [hflags, hflags], ?_, ?_, ?_⟩
    · rw [hflags, hsays.badprops, hcall fun v => ∃ value ∈ v, value.Garbage t]
      simp
    · rw [hflags, hcall fun v => v = none]
      exact iff_of_false hsays.badlayout (by simp)
    · rw [hflags]
      exact hsays.skipped hok

/-- For an object with one element and one fast property. -/
theorem flagsExact_sample : FlagsExact storageTarget 0x1001 (fun _ _ n => (0, n + 1)) 0 0 :=
  flagsExact 0x1001 (fun _ _ n => (0, n + 1)) (fun _ _ _ => rfl) 0 0 (by decide +kernel)

end Flags

end MdbV8
