import MdbV8.Objects.Storage

/-!
# What the function of an iteration returns

Whether a property is in a dictionary or not should not matter to the function that is called for it. It
matters if the function returns something that is neither zero nor `-1`: the loop over a dictionary goes
on then, and the other loops stop. So the calls for an object with fast properties and for one with the
same properties in a dictionary are the same if and only if the first value but zero that is returned
for a property of a dictionary is `-1` (`protocolAgrees_iff`).
-/

namespace MdbV8

variable {σ : Type}

/-- A call of the function of an iteration: its arguments and what it has returned. -/
abbrev PropCall : Type := List UInt8 × Option V8Propvalue × ℤ

/-- A function that also writes down its calls. -/
def logCalls (func : PropFunc σ) : PropFunc (σ × List PropCall) := fun name value s =>
  let (rv, s') := func name value s.1
  (rv, s', s.2 ++ [(name, value, rv)])

/-- The calls of a function for the properties of an object. -/
def propCalls (t : Target) (addr : ℕ) (func : PropFunc σ) (s : σ) : List PropCall :=
  (jsobjProperties t addr (logCalls func) (s, []) 0).2.1.2

/-- **Two objects are the same to a function**: it is called in the same way for both, not again after it
has returned something else than zero, and the iterations succeed or fail together. -/
structure ProtocolAgrees (t : Target) (addr : ℕ) (t' : Target) (addr' : ℕ) (func : PropFunc σ) (s : σ) :
    Prop where
  sameCalls : propCalls t addr func s = propCalls t' addr' func s
  stops : ∀ calls, (calls = propCalls t addr func s ∨ calls = propCalls t' addr' func s) →
    ∀ before call after, calls = before ++ call :: after → call.2.2 ≠ 0 → after = []
  sameResult : ∀ propinfop, (jsobjProperties t addr func s propinfop).1 = 0 ↔
    (jsobjProperties t' addr' func s propinfop).1 = 0

/-- The first value but zero that the function returns for a list of properties is `-1`, if it is for a
property of a dictionary. -/
def FirstStops (func : PropFunc σ) : List PropEvent → σ → Prop
  | [], _ => True
  | e :: es, s =>
    let (rv, s) := func e.name (some e.value) s
    if rv = 0 then FirstStops func es s else e.dict = true → rv = -1

section Calls

variable (func : PropFunc σ)

/-- The calls for a list of properties. -/
def eventCalls : List PropEvent → σ → List PropCall
  | [], _ => []
  | e :: es, s =>
    let (rv, s) := func e.name (some e.value) s
    (e.name, some e.value, rv) :: if e.stops rv then [] else eventCalls es s

/-- What the function writes down are these calls, and it does nothing else. -/
theorem runEvents_logCalls (es : List PropEvent) (s : σ) (calls : List PropCall) :
    runEvents (logCalls func) es (s, calls) =
      ((runEvents func es s).1, (runEvents func es s).2, calls ++ eventCalls func es s) := by
  induction es generalizing s calls with
  | nil => rw [runEvents, runEvents, eventCalls, List.append_nil]
  | cons e es ih =>
    rw [runEvents, runEvents, eventCalls]
    unfold logCalls at ih ⊢
    dsimp only
    split
    · rfl
    · rw [ih, List.append_assoc, List.singleton_append]

/-- The calls for an object that stores its properties in some way. -/
theorem StoresProps.propCalls {t : Target} {addr : ℕ} {numericDict namedDict : Bool}
    {numeric named : List NamedValue} (h : StoresProps t addr numericDict namedDict numeric named)
    (s : σ) :
    propCalls t addr func s =
      eventCalls func (eventsOf numericDict numeric ++ eventsOf namedDict named) s := by
  obtain ⟨flags, hevents⟩ := h.events
  have hrun := jsobjProperties_eq t (logCalls func) addr (s, []) 0
  simp only [hevents] at hrun
  rw [MdbV8.propCalls, hrun.state, runEvents_logCalls]
  rfl

/-- The result for such an object. -/
theorem StoresProps.result {t : Target} {addr : ℕ} {numericDict namedDict : Bool}
    {numeric named : List NamedValue} (h : StoresProps t addr numericDict namedDict numeric named)
    (s : σ) (propinfop : ℕ) :
    (jsobjProperties t addr func s propinfop).1 = 0 ↔
      (runEvents func (eventsOf numericDict numeric ++ eventsOf namedDict named) s).1 = true := by
  obtain ⟨flags, hevents⟩ := h.events
  have hrun := jsobjProperties_eq t func addr s propinfop
  simp only [hevents] at hrun
  rw [hrun.rv, Bool.and_true]
  split
  · next hall => exact iff_of_true rfl hall
  · next hall => exact iff_of_false (by decide) hall

/-- Events of the same properties, the first ones of which are not in a dictionary. -/
def SameEvents : List PropEvent → List PropEvent → Prop :=
  List.Forall₂ fun e e' => e.name = e'.name ∧ e.value = e'.value ∧ e.dict = false

variable {func}

/-- Outside a dictionary, nothing is called after a value but zero. -/
theorem eventCalls_stops {es : List PropEvent} (hes : ∀ e ∈ es, e.dict = false) (s : σ)
    {before after : List PropCall} {call : PropCall}
    (h : eventCalls func es s = before ++ call :: after) (hrv : call.2.2 ≠ 0) : after = [] := by
  induction es generalizing s before with
  | nil => cases before <;> cases h
  | cons e es ih =>
    rw [eventCalls] at h
    dsimp only at h
    have hdict : e.dict = false := hes e List.mem_cons_self
    cases before with
    | nil =>
      obtain ⟨rfl, hafter⟩ := List.cons.inj h
      rw [if_pos (by simpa [PropEvent.stops, hdict] using hrv)] at hafter
      exact hafter.symm
    | cons call' before =>
      obtain ⟨-, htail⟩ := List.cons.inj h
      split at htail
      · cases before <;> cases htail
      · exact ih (fun e he => hes e (List.mem_cons_of_mem _ he)) _ htail

/-- The calls for two lists of the same properties are the same, with the same result, if and only if the
first value but zero stops both loops. -/
theorem sameCalls_iff {es es' : List PropEvent} (h : SameEvents es es') (s : σ) :
    (eventCalls func es s = eventCalls func es' s ∧
      ((runEvents func es s).1 = true ↔ (runEvents func es' s).1 = true)) ↔
      FirstStops func es' s := by
  induction h generalizing s with
  | nil => exact iff_of_true ⟨rfl, Iff.rfl⟩ trivial
  | @cons e e' es es' he hrest ih =>
    obtain ⟨hname, hvalue, hdict⟩ := he
    rw [eventCalls, eventCalls, runEvents, runEvents, FirstStops, hname, hvalue]
    dsimp only
    generalize func e'.name (some e'.value) s = r
    obtain ⟨rv, s'⟩ := r
    dsimp only
    by_cases hzero : rv = 0
    · -- both loops go on
      subst hzero
      have hgo : ∀ e : PropEvent, e.stops 0 = false := fun e => by
        unfold PropEvent.stops
        split <;> rfl
      rw [hgo, hgo, if_pos rfl, ← ih s']
      simp
    · have hstop : e.stops rv = true := by simpa [PropEvent.stops, hdict] using hzero
      rw [if_neg hzero, hstop]
      by_cases hboth : e'.stops rv = true
      · -- both loops stop
        rw [hboth]
        refine iff_of_true ⟨by simp, by simp⟩ fun hdict' => ?_
        simpa [PropEvent.stops, hdict'] using hboth
      · -- the loop over the dictionary goes on, or ends well
        refine iff_of_false ?_ fun hrv => ?_
        · rintro ⟨hcalls, hresult⟩
          simp only [hboth, if_true, Bool.false_eq_true, if_false] at hcalls hresult
          cases es' with
          | nil => simp [runEvents] at hresult
          | cons e'' es'' =>
            rw [eventCalls] at hcalls
            exact absurd (List.cons.inj hcalls).2 (by simp)
        · by_cases hdict' : e'.dict = true
          · exact hboth (by simpa [PropEvent.stops, hdict'] using hrv hdict')
          · exact hboth (by simpa [PropEvent.stops, hdict'] using hzero)

theorem sameEvents_eventsOf (dict : Bool) (props : List NamedValue) :
    SameEvents (eventsOf false props) (eventsOf dict props) := by
  unfold eventsOf
  refine List.forall₂_map_left_iff.mpr (List.forall₂_map_right_iff.mpr ?_)
  exact List.forall₂_same.mpr fun p _ => ⟨rfl, rfl, rfl⟩

/-- **When an object with fast properties and one with a dictionary are the same to a function**. -/
theorem protocolAgrees_iff {t t' : Target} {addr addr' : ℕ} {numericDict namedDict : Bool}
    {numeric named : List NamedValue} (h : StoresProps t addr false false numeric named)
    (h' : StoresProps t' addr' numericDict namedDict numeric named) (func : PropFunc σ) (s : σ) :
    ProtocolAgrees t addr t' addr' func s ↔
      FirstStops func (eventsOf numericDict numeric ++ eventsOf namedDict named) s := by
  have hsame : SameEvents (eventsOf false numeric ++ eventsOf false named)
      (eventsOf numericDict numeric ++ eventsOf namedDict named) :=
    List.rel_append (sameEvents_eventsOf numericDict numeric) (sameEvents_eventsOf namedDict named)
  -- no event of an object with fast properties is one of a dictionary
  have hnodict : ∀ e ∈ eventsOf false numeric ++ eventsOf false named, e.dict = false := by
    intro e he
    unfold eventsOf at he
    rw [← List.map_append] at he
    obtain ⟨p, -, rfl⟩ := List.mem_map.mp he
    rfl
  rw [← sameCalls_iff hsame s]
  constructor
  · rintro ⟨hcalls, -, hresult⟩
    rw [h.propCalls func s, h'.propCalls func s] at hcalls
    have hresult' := hresult 0
    rw [h.result func s, h'.result func s] at hresult'
    exact ⟨hcalls, hresult'⟩
  · rintro ⟨hcalls, hresult⟩
    refine ⟨?_, ?_, fun propinfop => ?_⟩
    · rw [h.propCalls func s, h'.propCalls func s, hcalls]
    · rw [h.propCalls func s, h'.propCalls func s, ← hcalls]
      -- each of the two stops after a call that does not return zero
      rintro calls (rfl | rfl) before call after hsplit hrv
      · exact eventCalls_stops hnodict s hsplit hrv
      · exact eventCalls_stops hnodict s hsplit hrv
    · rw [h.result func s, h'.result func s, hresult]

end Calls

/-! ### Two objects -/

/-- An object at `0x1001` with the elements `[5]` and with `a: 7` as a fast property, and one at `0x1101`
with the same properties in dictionaries. -/
def storageTarget : Target :=
  .ofWords (.sample .lp64)
    [(0x1000, 0x2001), (0x1008, 0x6001), (0x1010, 0x6101),
      (0x1100, 0x2101), (0x1108, 0x6301), (0x1110, 0x6401),
      -- their Maps, and those of a FixedArray and of a string
      (0x2000, 0x3101), (0x2008, 0x0003), (0x2010, 0x100000ab), (0x2028, 0x6201), (0x2040, 0),
      (0x2100, 0x3101), (0x2108, 0x0003), (0x2110, 0x300000ab), (0x2140, 0x1000000),
      (0x3010, 0xa3), (0x4010, 0x04),
      -- the properties, the elements and the descriptors of the first object
      (0x6000, 0x3001), (0x6008, 0x100000000), (0x6010, 0x700000000),
      (0x6100, 0x3001), (0x6108, 0x100000000), (0x6110, 0x500000000),
      (0x6200, 0x3001), (0x6208, 0x600000000), (0x6210, 0), (0x6218, 0), (0x6220, 0),
      (0x6228, 0x5001), (0x6230, 0x100000000), (0x6238, 0),
      -- the dictionaries of the second one
      (0x6300, 0x3001), (0x6308, 0x800000000), (0x6310, 0), (0x6318, 0), (0x6320, 0), (0x6328, 0),
      (0x6330, 0), (0x6338, 0x5001), (0x6340, 0x700000000), (0x6348, 0),
      (0x6400, 0x3001), (0x6408, 0x800000000), (0x6410, 0), (0x6418, 0), (0x6420, 0), (0x6428, 0),
      (0x6430, 0), (0x6438, 0), (0x6440, 0x500000000), (0x6448, 0),
      -- the name
      (0x5000, 0x4001), (0x5008, 0x100000000), (0x5018, 0x61)]

/-- The descriptors of the first object. -/
def storageDescs : JsobjDescs :=
  { addr := 0x1001, props := ⟨1, [0x700000000]⟩, descs := ⟨6, [0, 0, 0, 0x5001, 0x100000000, 0]⟩,
    content := ⟨6, [0, 0, 0, 0x5001, 0x100000000, 0]⟩, size := 24, ninprops := 0, rndescs := 1,
    layout := {} }

theorem storesProps_fast : StoresProps storageTarget 0x1001 false false
    [([48], .addr 0x500000000)] [([97], .addr 0x700000000)] where
  hasKind := by decide
  props := by
    refine ⟨0x6001, 0xa3, 0x2001, by decide, by decide, by decide, by decide, by decide, ?_, ?_⟩
    · exact ⟨0x6101, ⟨1, [0x500000000]⟩, by decide, by decide,
        .inr ⟨by decide, 0x10, by decide, .inl (by decide), by decide +kernel⟩⟩
    · refine ⟨by decide, storageDescs, 0, ?_, by decide +kernel, by decide +kernel⟩
      rfl

theorem storesProps_dict : StoresProps storageTarget 0x1101 true true
    [([48], .addr 0x500000000)] [([97], .addr 0x700000000)] where
  hasKind := by decide
  props := by
    refine ⟨0x6301, 0xa3, 0x2101, by decide, by decide, by decide, by decide, by decide, ?_, ?_⟩
    · refine ⟨0x6401, ⟨8, [0, 0, 0, 0, 0, 0, 0x500000000, 0]⟩, by decide, by decide,
        .inr ⟨by decide, 0x30, by decide, by decide, by decide, 5, 3, 1,
          ⟨8, [0, 0, 0, 0, 0, 0, 0x500000000, 0]⟩, ?_⟩⟩
      exact ⟨by decide, by decide, by decide, by decide, by decide, fun k => by dsimp only; omega,
        by decide +kernel, by decide +kernel⟩
    · refine ⟨by decide, 5, 3, 1, ⟨8, [0, 0, 0, 0, 0, 0x5001, 0x700000000, 0]⟩, ?_⟩
      exact ⟨by decide, by decide, by decide, by decide, by decide, fun k => by dsimp only; omega,
        by decide +kernel, by decide +kernel⟩

/-- To a function that asks to stop by returning `-1` the two objects are the same. -/
theorem protocolAgrees_sample :
    ProtocolAgrees storageTarget 0x1001 storageTarget 0x1101 (fun _ _ s => (-1, s)) () ↔
      FirstStops (fun _ _ s => (-1, s))
        (eventsOf true [([48], .addr 0x500000000)] ++ eventsOf true [([97], .addr 0x700000000)]) () :=
  protocolAgrees_iff storesProps_fast storesProps_dict _ ()

/-- To a function that returns `1` they are not: it is called once for the first one, and twice for the
second one. -/
theorem not_protocolAgrees_one :
    StoresProps storageTarget 0x1001 false false
        [([48], .addr 0x500000000)] [([97], .addr 0x700000000)] ∧
      StoresProps storageTarget 0x1101 true true
        [([48], .addr 0x500000000)] [([97], .addr 0x700000000)] ∧
      ¬ ProtocolAgrees storageTarget 0x1001 storageTarget 0x1101 (fun _ _ s => (1, s)) () := by
  refine ⟨storesProps_fast, storesProps_dict, fun h => ?_⟩
  have hcalls := h.sameCalls
  rw [storesProps_fast.propCalls, storesProps_dict.propCalls] at hcalls
  exact absurd hcalls (by decide)

end MdbV8
