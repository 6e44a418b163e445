import MdbV8.Print.Jsprint

/-!
# Member paths

A member path leads from a value to another one, by names of properties and indices of arrays
(`pathValue`). The functions that print consume it as a text: an object compares its first name with
the names of its properties, an array reads a bracketed index, and each passes the rest on.

They lead where the path does, but for one thing: an array takes the index as a number of machine
words, and compares it with the length of the `FixedArray` behind the array. What they reach so is
`memberValue`. It is not `pathValue` exactly where every step of the path can be taken and one of
them is past the end of its array (`memberPaths_iff`).
-/

namespace MdbV8

/-! ### Paths -/

/-- A step of a path: the name of a property, or the digits of an index. -/
inductive MemberStep where
  | name (n : List UInt8)
  | index (digits : List UInt8)
  deriving DecidableEq, Repr

namespace MemberStep

/-- A name is not empty and has neither a dot nor an opening bracket; an index has digits. -/
def Valid : MemberStep → Prop
  | name n => n ≠ [] ∧ ∀ b ∈ n, b ≠ 46 ∧ b ≠ 91
  | index digits => digits ≠ [] ∧ ∀ d ∈ digits, 48 ≤ d ∧ d ≤ 57

/-- The text of a step. -/
def text : MemberStep → List UInt8
  | name n => n
  | index digits => 91 :: digits ++ [93]

end MemberStep

/-- The number that digits stand for. -/
def indexValue (digits : List UInt8) : ℕ := digits.foldl (fun elt d => 10 * elt + (d.toNat - 48)) 0

/-- The text of steps that come after another one: names are joined by dots. -/
def tailText : List MemberStep → List UInt8
  | [] => []
  | .name n :: p => 46 :: n ++ tailText p
  | .index digits :: p => 91 :: digits ++ 93 :: tailText p

/-- The text of a path. -/
def pathText : List MemberStep → List UInt8
  | [] => []
  | s :: p => s.text ++ tailText p

/-- The member path that the settings have; there is none for a path without steps. -/
def pathMember (p : List MemberStep) : Option (List UInt8) :=
  if p = [] then none else some (pathText p)

section Values

variable (t : Target)

/-- The class by which a value is printed, if it is one of a heap object. -/
def valueKlass (v : Option V8Propvalue) : Option String :=
  match v with
  | some (.double _) => none
  | _ =>
    let addr := valueAddr v
    if t.cfg.isSmi addr || !t.cfg.isHeapobject addr then none
    else
      match t.readTypebyte addr with
      | none => none
      | some type =>
        if t.cfg.typeString type then none
        else some ((t.cfg.enumLookupStr (printType t.cfg type)).getD "<unknown>")

variable {t} in
/-- A value of a class is printed by the function for the class. -/
theorem jsobjPrintWord_klass (fmtY : ℤ → List UInt8) {δ : Type*} (D : OutDevice δ) (print : PrintFn δ)
    {addr : ℕ} {klass : String} (hklass : valueKlass t (some (.addr addr)) = some klass)
    {func : ℕ → JsobjPrint → δ → PrintResult δ}
    (hfunc : jsobjPrintTable t fmtY D print klass = some func) (jsop : JsobjPrint) (out : δ) :
    jsobjPrintWord t fmtY D print addr jsop out = func addr { jsop with descended := true } out := by
  unfold valueKlass at hklass
  dsimp only [valueAddr] at hklass
  split at hklass
  · cases hklass
  next hheap =>
  rw [Bool.or_eq_true, not_or] at hheap
  split at hklass
  · cases hklass
  next type htype =>
  split at hklass
  · cases hklass
  next hstring =>
  rw [jsobjPrintWord, if_neg hheap.1, if_neg hheap.2, jsobjPrintHeapobject, htype]
  dsimp only
  rw [if_neg hstring, Option.some.inj hklass, hfunc]

/-- The properties that `jsobj_properties` reports, with their names. -/
def reported (addr : ℕ) : List (List UInt8 × Option V8Propvalue) :=
  match jsobjEvents t addr with
  | .badlayout name => [(name, none)]
  | .props es => es.events.map fun e => (e.name, some e.value)

/-- The words of the `FixedArray` behind an array. -/
def backingArray (addr : ℕ) : Option Target.HeapArray :=
  (t.readHeapPtr addr t.cfg.offJsobjectElements).bind t.readHeapArray

/-- The value of the property that an object reports under a name. -/
def namedValue (v : Option V8Propvalue) (n : List UInt8) : Option (Option V8Propvalue) :=
  if valueKlass t v = some "JSObject" then
    ((reported t (valueAddr v)).find? fun e => e.1 == n).map Prod.snd
  else none

/-- The word of the `FixedArray` behind an array at an index. -/
def backingValue (v : Option V8Propvalue) (i : ℕ) : Option (Option V8Propvalue) :=
  if valueKlass t v = some "JSArray" then
    match backingArray t (valueAddr v) with
    | none => none
    | some elts => if i < elts.len then some (some (.addr (elts.get i))) else none
  else none

/-- An index that is one of an array. -/
def InArray (v : Option V8Propvalue) (i : ℕ) : Prop :=
  ∃ ap, v8arrayLoad t (valueAddr v) = some ap ∧ i < v8arrayLength ap

instance (v : Option V8Propvalue) (i : ℕ) : Decidable (InArray t v i) :=
  match h : v8arrayLoad t (valueAddr v) with
  | none => .isFalse fun ⟨_, hap, _⟩ => absurd (h.symm.trans hap) (by simp)
  | some ap =>
    if hi : i < v8arrayLength ap then .isTrue ⟨ap, h, hi⟩
    else .isFalse fun ⟨_, hap, hlt⟩ => hi (Option.some.inj (h.symm.trans hap) ▸ hlt)

/-- **Where a step of a path leads**: to the property that the object reports under the name, or to
the element of the array. -/
def pathStep (v : Option V8Propvalue) : MemberStep → Option (Option V8Propvalue)
  | .name n => namedValue t v n
  | .index digits =>
    if InArray t v (indexValue digits) then backingValue t v (indexValue digits) else none

/-- Where a path leads. -/
def pathValue (v : Option V8Propvalue) : List MemberStep → Option (Option V8Propvalue)
  | [] => some v
  | s :: p => (pathStep t v s).bind fun v => pathValue v p

/-- Where a step is taken to, with the index as a `size_t` and the length of the `FixedArray`. -/
def memberStep (v : Option V8Propvalue) : MemberStep → Option (Option V8Propvalue)
  | .name n => namedValue t v n
  | .index digits => backingValue t v (indexValue digits % 2 ^ t.cfg.bits)

/-- Where all the steps of a path are taken to. -/
def memberValue (v : Option V8Propvalue) : List MemberStep → Option (Option V8Propvalue)
  | [] => some v
  | s :: p => (memberStep t v s).bind fun v => memberValue v p

/-- The objects on the way of a path have properties with distinct names. -/
def DistinctNames (v : Option V8Propvalue) (p : List MemberStep) : Prop :=
  ∀ k v', memberValue t v (p.take k) = some v' → valueKlass t v' = some "JSObject" →
    ((reported t (valueAddr v')).map Prod.fst).Nodup

end Values

/-! ### The text of a path -/

theorem indexRest_tailText (p : List MemberStep) : indexRest (tailText p) = some (pathMember p) := by
  cases p with
  | nil => rfl
  | cons s p =>
    cases s with
    | name n => rfl
    | index digits =>
      rw [pathMember, if_neg (by simp), pathText, MemberStep.text, List.append_assoc]
      rfl

theorem memberRest_tailText (p : List MemberStep) : memberRest (tailText p) = pathMember p := by
  cases p with
  | nil => rfl
  | cons s p =>
    cases s with
    | name n => rfl
    | index digits =>
      rw [pathMember, if_neg (by simp), pathText, MemberStep.text, List.append_assoc]
      rfl

/-- What comes after a name does not start like one. -/
theorem memberName_pathText {n : List UInt8} (hn : (MemberStep.name n).Valid) (p : List MemberStep) :
    memberName (pathText (.name n :: p)) = (n, tailText p) := by
  have htail : (tailText p).takeWhile (fun b : UInt8 => b != 46 && b != 91) = [] := by
    cases p with
    | nil => rfl
    | cons s p => cases s <;> simp [tailText]
  have hdrop : (tailText p).dropWhile (fun b : UInt8 => b != 46 && b != 91) = tailText p := by
    cases p with
    | nil => rfl
    | cons s p => cases s <;> simp [tailText]
  have hall : ∀ b ∈ n, (b != 46 && b != 91) = true := fun b hb => by
    obtain ⟨h46, h91⟩ := hn.2 b hb
    simp [h46, h91]
  rw [memberName, List.span_eq_takeWhile_dropWhile, pathText, MemberStep.text,
    List.takeWhile_append_of_pos hall, List.dropWhile_append_of_pos hall, htail, hdrop,
    List.append_nil]

theorem head_pathText_name {n : List UInt8} (hn : (MemberStep.name n).Valid) (p : List MemberStep) :
    (pathText (.name n :: p)).head? ≠ some 91 := by
  cases n with
  | nil => exact absurd rfl hn.1
  | cons b bs =>
    intro h
    exact (hn.2 b List.mem_cons_self).2 (Option.some.inj h)

theorem memberIndex_pathText {digits : List UInt8} (hd : (MemberStep.index digits).Valid)
    (bits : ℕ) (p : List MemberStep) :
    memberIndex bits (pathText (.index digits :: p)) =
      some (indexValue digits % 2 ^ bits, tailText p) := by
  -- the digits end at the bracket
  have hspan : (digits ++ 93 :: tailText p).span (· != 93) = (digits, 93 :: tailText p) := by
    have hall : ∀ b ∈ digits, (b != 93) = true := fun b hb => by
      have hle := (hd.2 b hb).2
      simp only [bne_iff_ne, ne_eq]
      rintro rfl
      exact absurd hle (by decide)
    rw [List.span_eq_takeWhile_dropWhile, List.takeWhile_append_of_pos hall,
      List.dropWhile_append_of_pos hall]
    simp
  -- and they are digits
  have hany : (digits.any fun d => d < 48 || d > 57) = false := by
    rw [List.any_eq_false]
    intro d hmem
    obtain ⟨hlow, hhigh⟩ := hd.2 d hmem
    simp only [Bool.or_eq_true, decide_eq_true_eq, not_or]
    exact ⟨UInt8.not_lt.mpr hlow, UInt8.not_lt.mpr hhigh⟩
  have htext : pathText (.index digits :: p) = 91 :: (digits ++ 93 :: tailText p) := by
    rw [pathText, MemberStep.text]
    simp
  rw [htext, memberIndex]
  dsimp only
  rw [if_neg (by simp), hspan]
  dsimp only
  rw [if_neg (by simp), hany, if_neg (by simp), if_neg hd.1, List.tail_cons, indexValue]

/-- A name is not an index. -/
theorem memberIndex_pathText_name {n : List UInt8} (hn : (MemberStep.name n).Valid) (bits : ℕ)
    (p : List MemberStep) : memberIndex bits (pathText (.name n :: p)) = none := by
  have hhead := head_pathText_name hn p
  unfold memberIndex
  split
  · rfl
  · next b bs heq =>
    rw [heq] at hhead
    rw [if_pos fun hb => hhead (congrArg some hb)]

/-! ### Looking for a member -/

section Look

variable {δ : Type*} {t : Target} (print : PrintFn δ)

/-- A property with another name leaves everything as it is. -/
theorem propMember_skip {n m : List UInt8} (hn : (MemberStep.name n).Valid) {p : List MemberStep}
    {j : JsobjPrint} (hmember : j.member = some (pathText (.name n :: p))) (hne : m ≠ n)
    (val : Option V8Propvalue) (out : δ) :
    jsobjPrintPropMember print m val (j, out) = (0, j, out) := by
  unfold jsobjPrintPropMember
  dsimp only
  rw [hmember, Option.getD_some, memberName_pathText hn, if_neg (head_pathText_name hn p)]
  dsimp only
  by_cases htake : m.take n.length ≠ n
  · rw [if_pos htake]
  rw [if_neg htake, if_pos]
  -- a longer name that starts like this one
  intro hdrop
  refine hne ?_
  rw [← List.take_append_drop n.length m, not_not.mp htake, hdrop, List.append_nil]

/-- The property with the name is printed, with the rest of the path. -/
theorem propMember_match {n : List UInt8} (hn : (MemberStep.name n).Valid) {p : List MemberStep}
    {j : JsobjPrint} (hmember : j.member = some (pathText (.name n :: p))) (val : Option V8Propvalue)
    (out : δ) :
    let r := print val (j.descendMember (pathMember p)) out
    jsobjPrintPropMember print n val (j, out) = (r.1, { j with found := r.2.1.found }, r.2.2) := by
  unfold jsobjPrintPropMember
  dsimp only
  rw [hmember, Option.getD_some, memberName_pathText hn, if_neg (head_pathText_name hn p)]
  dsimp only
  rw [List.take_length, if_neg (not_not.mpr rfl), List.drop_length, if_neg (not_not.mpr rfl),
    memberRest_tailText]

/-- An index is not a name. -/
theorem propMember_index {digits m : List UInt8} {p : List MemberStep} {j : JsobjPrint}
    (hmember : j.member = some (pathText (.index digits :: p))) (val : Option V8Propvalue) (out : δ) :
    jsobjPrintPropMember print m val (j, out) = (-1, j, out) := by
  unfold jsobjPrintPropMember
  dsimp only
  rw [hmember, Option.getD_some, if_pos]
  rfl

/-- Properties that do not have the name. -/
theorem runEvents_skip {n : List UInt8} (hn : (MemberStep.name n).Valid) {p : List MemberStep}
    {j : JsobjPrint} (hmember : j.member = some (pathText (.name n :: p))) (out : δ)
    {es : List PropEvent} (hes : ∀ e ∈ es, e.name ≠ n) :
    runEvents (jsobjPrintPropMember print) es (j, out) = (true, j, out) := by
  induction es with
  | nil => rfl
  | cons e es ih =>
    have hskip := propMember_skip print hn hmember (hes e List.mem_cons_self)
      (some e.value) out
    rw [runEvents, hskip]
    have hgo : e.stops 0 = false := by
      unfold PropEvent.stops
      split <;> rfl
    dsimp only
    rw [hgo, if_neg (by simp)]
    exact ih fun e he => hes e (List.mem_cons_of_mem _ he)

/-- The member is printed once: the function is called for the other properties too, and leaves
everything as it is. -/
theorem runEvents_match {n : List UInt8} (hn : (MemberStep.name n).Valid) {p : List MemberStep}
    {j : JsobjPrint} (hmember : j.member = some (pathText (.name n :: p))) (out : δ)
    {es : List PropEvent} (hnodup : (es.map PropEvent.name).Nodup) {e : PropEvent} (he : e ∈ es)
    (hname : e.name = n) :
    let r := print (some e.value) (j.descendMember (pathMember p)) out
    (runEvents (jsobjPrintPropMember print) es (j, out)).2 =
      ({ j with found := r.2.1.found }, r.2.2) := by
  intro r
  induction es with
  | nil => exact absurd he (by simp)
  | cons e' es ih =>
    rw [List.map_cons, List.nodup_cons] at hnodup
    rw [runEvents]
    rcases List.mem_cons.mp he with rfl | hmem
    · have hrest : ∀ e' ∈ es, e'.name ≠ n := fun e' he' heq =>
        hnodup.1 (List.mem_map.mpr ⟨e', he', heq.trans hname.symm⟩)
      -- this is the property, and none of the others has its name
      have hmatch := propMember_match print hn hmember (some e.value) out
      rw [hname, hmatch]
      dsimp only
      split
      · rfl
      · have hskip := runEvents_skip print hn (j := { j with found := r.2.1.found })
          hmember r.2.2 hrest
        exact congrArg Prod.snd hskip
    · have hne : e'.name ≠ n := fun heq =>
        hnodup.1 (List.mem_map.mpr ⟨e, hmem, hname.trans heq.symm⟩)
      -- this is another one, and the induction hypothesis is for the rest
      have hskip := propMember_skip print hn hmember hne (some e'.value) out
      have hgo : e'.stops 0 = false := by
        unfold PropEvent.stops
        split <;> rfl
      rw [hskip]
      dsimp only
      rw [hgo, if_neg (by simp)]
      exact ih hnodup.2 hmem

theorem runEvents_index {digits : List UInt8} {p : List MemberStep} {j : JsobjPrint}
    (hmember : j.member = some (pathText (.index digits :: p))) (out : δ) (es : List PropEvent) :
    (runEvents (jsobjPrintPropMember print) es (j, out)).2 = (j, out) := by
  induction es with
  | nil => rfl
  | cons e es ih =>
    rw [runEvents, propMember_index print hmember]
    dsimp only
    split
    · rfl
    · exact ih

/-- What comes of taking a step of a path. Where it leads to a value, that is printed with the rest of
the path; where it leads nowhere, nothing has been found. -/
def TakesStep (print : PrintFn δ) (j : JsobjPrint) (out : δ) (p : List MemberStep)
    (dest : Option (Option V8Propvalue)) (r : PrintResult δ) : Prop :=
  match dest with
  | none => r.2.1.found = j.found
  | some v =>
    let r' := print v (j.descendMember (pathMember p)) out
    r.2.1.found = r'.2.1.found ∧ r.2.2 = r'.2.2

/-- An object takes a step by name, to the property of that name. -/
theorem takesStep_jsobject (D : OutDevice δ) {n : List UInt8} (hn : (MemberStep.name n).Valid)
    {p : List MemberStep} {j : JsobjPrint} (hmember : j.member = some (pathText (.name n :: p)))
    (addr : ℕ) (out : δ) (hnodup : ((reported t addr).map Prod.fst).Nodup) :
    TakesStep print j out p (((reported t addr).find? fun e => e.1 == n).map Prod.snd)
      (jsobjPrintJsobject t D print addr j out) := by
  unfold jsobjPrintJsobject
  rw [if_pos (by rw [hmember]; rfl)]
  have hprops := jsobjProperties_eq t (jsobjPrintPropMember print) addr (j, out) j.propinfo
  unfold reported at hnodup ⊢
  cases hevents : jsobjEvents t addr with
  | badlayout name =>
    simp only [hevents] at hprops ⊢
    rw [hprops]
    by_cases hname : name = n
    · subst hname
      rw [propMember_match print hn hmember]
      simp [TakesStep]
    · rw [propMember_skip print hn hmember hname]
      simp [TakesStep, hname]
  | props es =>
    simp only [hevents] at hprops hnodup ⊢
    have hstate := hprops.state
    have hnames : (es.events.map PropEvent.name).Nodup := by
      rwa [List.map_map] at hnodup
    rw [List.find?_map, Option.map_map]
    cases hfind : es.events.find? ((fun e => e.1 == n) ∘ fun e => (e.name, some e.value)) with
    | none =>
      -- no property has the name
      have hall : ∀ e ∈ es.events, e.name ≠ n := fun e he heq => by
        have hno := List.find?_eq_none.mp hfind e he
        simp [heq] at hno
      rw [runEvents_skip print hn hmember out hall] at hstate
      exact congrArg (fun s : JsobjPrint × δ => s.1.found) hstate
    | some e =>
      have hname : e.name = n := by
        simpa using List.find?_some hfind
      rw [runEvents_match print hn hmember out hnames (List.mem_of_find?_eq_some hfind) hname]
        at hstate
      have hfound := congrArg (fun s : JsobjPrint × δ => s.1.found) hstate
      have hout := congrArg Prod.snd hstate
      exact ⟨hfound, hout⟩

/-- An object does not take a step by index. -/
theorem takesStep_jsobject_index (D : OutDevice δ) {digits : List UInt8} {p : List MemberStep}
    {j : JsobjPrint} (hmember : j.member = some (pathText (.index digits :: p))) (addr : ℕ) (out : δ) :
    TakesStep print j out p none (jsobjPrintJsobject t D print addr j out) := by
  unfold jsobjPrintJsobject TakesStep
  rw [if_pos (by rw [hmember]; rfl)]
  have hprops := jsobjProperties_eq t (jsobjPrintPropMember print) addr (j, out) j.propinfo
  cases hevents : jsobjEvents t addr with
  | badlayout name =>
    simp only [hevents] at hprops
    rw [hprops, propMember_index print hmember]
  | props es =>
    simp only [hevents] at hprops
    have hstate := hprops.state
    rw [runEvents_index print hmember] at hstate
    exact congrArg (fun s : JsobjPrint × δ => s.1.found) hstate

/-- An array takes a step by index, to the word of the `FixedArray` behind it. -/
theorem takesStep_jsarray (D : OutDevice δ) {digits : List UInt8}
    (hd : (MemberStep.index digits).Valid) {p : List MemberStep} {j : JsobjPrint}
    (hmember : j.member = some (pathText (.index digits :: p))) (addr : ℕ) (out : δ) :
    TakesStep print j out p
      (match backingArray t addr with
        | none => none
        | some elts =>
          if indexValue digits % 2 ^ t.cfg.bits < elts.len then
            some (some (.addr (elts.get (indexValue digits % 2 ^ t.cfg.bits))))
          else none)
      (jsobjPrintJsarray t D print addr j out) := by
  unfold jsobjPrintJsarray jsobjPrintJsarrayMember backingArray
  rw [if_pos (by rw [hmember]; rfl), hmember, Option.getD_some, memberIndex_pathText hd]
  cases t.readHeapPtr addr t.cfg.offJsobjectElements with
  | none => rfl
  | some ptr =>
    dsimp only [Option.bind_some]
    cases t.readHeapArray ptr with
    | none => rfl
    | some elts =>
      dsimp only
      -- the index is one of the array behind it, or the member is not found
      by_cases hlt : indexValue digits % 2 ^ t.cfg.bits < elts.len
      · rw [if_neg (Nat.not_le.mpr hlt), if_pos hlt, indexRest_tailText]
        exact ⟨rfl, rfl⟩
      · rw [if_pos (Nat.not_lt.mp hlt), if_neg hlt]
        rfl

/-- An array does not take a step by name. -/
theorem takesStep_jsarray_name (D : OutDevice δ) {n : List UInt8} (hn : (MemberStep.name n).Valid)
    {p : List MemberStep} {j : JsobjPrint} (hmember : j.member = some (pathText (.name n :: p)))
    (addr : ℕ) (out : δ) :
    TakesStep print j out p none (jsobjPrintJsarray t D print addr j out) := by
  unfold jsobjPrintJsarray jsobjPrintJsarrayMember TakesStep
  rw [if_pos (by rw [hmember]; rfl), hmember, Option.getD_some, memberIndex_pathText_name hn]
  cases t.readHeapPtr addr t.cfg.offJsobjectElements with
  | none => rfl
  | some ptr =>
    dsimp only
    cases t.readHeapArray ptr with
    | none => rfl
    | some elts => rfl

/-- The functions for other objects leave the settings as they are. -/
theorem settings_jsobjPrintTable (fmtY : ℤ → List UInt8) (D : OutDevice δ) {klass : String}
    (hobject : klass ≠ "JSObject") (harray : klass ≠ "JSArray")
    {func : ℕ → JsobjPrint → δ → PrintResult δ}
    (hfunc : jsobjPrintTable t fmtY D print klass = some func) (addr : ℕ) (j : JsobjPrint) (out : δ) :
    (func addr j out).2.1 = j := by
  unfold jsobjPrintTable at hfunc
  rw [if_neg hobject, if_neg harray] at hfunc
  -- one after the other, the functions of the table
  split at hfunc
  · obtain rfl := Option.some.inj hfunc
    unfold jsobjPrintNumber
    split <;> rfl
  split at hfunc
  · obtain rfl := Option.some.inj hfunc
    unfold jsobjPrintOddball
    split <;> rfl
  split at hfunc
  · obtain rfl := Option.some.inj hfunc
    unfold jsobjPrintJstypedArray
    dsimp only
    split
    · rfl
    · split <;> rfl
  split at hfunc
  · obtain rfl := Option.some.inj hfunc
    unfold jsobjPrintJsfunction
    split <;> rfl
  -- a bound function only prints that it is not supported
  split at hfunc
  · obtain rfl := Option.some.inj hfunc
    rfl
  split at hfunc
  · obtain rfl := Option.some.inj hfunc
    unfold jsobjPrintJsdate
    split
    · rfl
    · split <;> rfl
  split at hfunc
  · obtain rfl := Option.some.inj hfunc
    unfold jsobjPrintJsregexp
    split
    · rfl
    split
    · rfl
    split
    · rfl
    split
    · rfl
    · rfl
  · exact absurd hfunc (by simp)

omit print in
/-- A value that is neither an object nor an array takes no step. -/
theorem memberStep_eq_none {v : Option V8Propvalue} (hobject : valueKlass t v ≠ some "JSObject")
    (harray : valueKlass t v ≠ some "JSArray") (s : MemberStep) : memberStep t v s = none := by
  cases s with
  | name n => exact if_neg hobject
  | index digits => exact if_neg harray

/-- A heap object of the table takes a step where `memberStep` does. -/
theorem takesStep_klass (fmtY : ℤ → List UInt8) (D : OutDevice δ) {s : MemberStep} (hs : s.Valid)
    {p : List MemberStep} {j : JsobjPrint} (hmember : j.member = some (pathText (s :: p)))
    {v : Option V8Propvalue} {klass : String} (hklass : valueKlass t v = some klass) (out : δ)
    (hnodup : klass = "JSObject" → ((reported t (valueAddr v)).map Prod.fst).Nodup)
    {func : ℕ → JsobjPrint → δ → PrintResult δ}
    (hfunc : jsobjPrintTable t fmtY D print klass = some func) :
    TakesStep print j out p (memberStep t v s) (func (valueAddr v) j out) := by
  -- an object takes a name, an array takes an index
  by_cases hobject : klass = "JSObject"
  · subst hobject
    obtain rfl : jsobjPrintJsobject t D print = func := Option.some.inj hfunc
    cases s with
    | name n =>
      rw [show memberStep t v (.name n) = _ from if_pos hklass]
      exact takesStep_jsobject print D hs hmember _ out (hnodup rfl)
    | index digits =>
      rw [show memberStep t v (.index digits) = none from if_neg (by rw [hklass]; simp)]
      exact takesStep_jsobject_index print D hmember _ out
  by_cases harray : klass = "JSArray"
  · subst harray
    obtain rfl : jsobjPrintJsarray t D print = func := Option.some.inj hfunc
    cases s with
    | name n =>
      rw [show memberStep t v (.name n) = none from if_neg (by rw [hklass]; simp)]
      exact takesStep_jsarray_name print D hs hmember _ out
    | index digits =>
      rw [show memberStep t v (.index digits) = _ from if_pos hklass]
      exact takesStep_jsarray print D hs hmember _ out
  · -- no other class has members
    rw [memberStep_eq_none (by rwa [hklass, ne_eq, Option.some.injEq])
      (by rwa [hklass, ne_eq, Option.some.injEq])]
    exact congrArg JsobjPrint.found
      (settings_jsobjPrintTable print fmtY D hobject harray hfunc (valueAddr v) j out)

/-- **A value takes a step where `memberStep` does.** -/
theorem takesStep_once (fmtY : ℤ → List UInt8) (D : OutDevice δ) {s : MemberStep} (hs : s.Valid)
    {p : List MemberStep} {j : JsobjPrint} (hmember : j.member = some (pathText (s :: p)))
    (v : Option V8Propvalue) (out : δ)
    (hnodup : valueKlass t v = some "JSObject" → ((reported t (valueAddr v)).map Prod.fst).Nodup) :
    TakesStep print { j with descended := true } out p (memberStep t v s)
      (jsobjPrintOnce t fmtY D print v j out) := by
  -- a value without a class takes no step, whatever is printed for it
  have hnone : ∀ {rv : ℤ} {out' : δ}, valueKlass t v = none →
      TakesStep print { j with descended := true } out p (memberStep t v s) (rv, j, out') := by
    intro rv out' hklass
    rw [memberStep_eq_none (by rw [hklass]; simp) (by rw [hklass]; simp)]
    rfl
  have haddrs : printAddrs D v j out = out := by
    unfold printAddrs
    rw [hmember]
    simp
  -- a word has the class that its type byte says
  have hword : (∀ w, v ≠ some (.double w)) → TakesStep print { j with descended := true } out p
      (memberStep t v s) (jsobjPrintWord t fmtY D print (valueAddr v) j out) := by
    intro hv
    have hklass : valueKlass t v =
        if t.cfg.isSmi (valueAddr v) || !t.cfg.isHeapobject (valueAddr v) then none
        else
          match t.readTypebyte (valueAddr v) with
          | none => none
          | some type =>
            if t.cfg.typeString type then none
            else some ((t.cfg.enumLookupStr (printType t.cfg type)).getD "<unknown>") := by
      unfold valueKlass
      split
      · next w => exact absurd rfl (hv w)
      · rfl
    unfold jsobjPrintWord jsobjPrintHeapobject
    by_cases hsmi : t.cfg.isSmi (valueAddr v)
    · rw [if_pos hsmi]
      exact hnone (by rw [hklass, if_pos (by simp [hsmi])])
    rw [if_neg hsmi]
    by_cases hheap : (!t.cfg.isHeapobject (valueAddr v)) = true
    · rw [if_pos hheap]
      exact hnone (by rw [hklass, if_pos (by simp [hheap])])
    rw [if_neg hheap]
    rw [if_neg (by simp [hsmi, hheap])] at hklass
    cases htype : t.readTypebyte (valueAddr v) with
    | none => exact hnone (by rw [hklass, htype])
    | some type =>
      rw [htype] at hklass
      dsimp only at hklass ⊢
      by_cases hstring : t.cfg.typeString type
      · rw [if_pos hstring]
        exact hnone (by rw [hklass, if_pos hstring])
      rw [if_neg hstring] at hklass ⊢
      generalize (t.cfg.enumLookupStr (printType t.cfg type)).getD "<unknown>" = klass at hklass ⊢
      -- the class has a function in the table, or it has no members
      cases htable : jsobjPrintTable t fmtY D print klass with
      | none =>
        have hother : ∀ klass', jsobjPrintTable t fmtY D print klass' ≠ none →
            valueKlass t v ≠ some klass' := by
          rintro klass' hne heq
          rw [hklass, Option.some.injEq] at heq
          exact hne (heq ▸ htable)
        rw [memberStep_eq_none (hother "JSObject" (by simp [jsobjPrintTable]))
          (hother "JSArray" (by simp [jsobjPrintTable]))]
        rfl
      | some func =>
        have hmember' :
            ({ j with descended := true } : JsobjPrint).member = some (pathText (s :: p)) := hmember
        exact takesStep_klass print fmtY D hs hmember' hklass out
          (fun heq => hnodup (hklass.trans (congrArg some heq))) htable
  unfold jsobjPrintOnce
  rw [haddrs]
  cases v with
  | none => exact hword fun w => by simp
  | some pv =>
    cases pv with
    | double w => exact hnone rfl
    | addr w => exact hword fun w => by simp

end Look

/-! ### Following a path -/

section Follow

variable (t : Target) (fmtY : ℤ → List UInt8) {δ : Type*} (D : OutDevice δ)

/-- `jsobj_print_value`, with as many nested calls as the settings allow (`printBounded`). -/
def printValue : PrintFn δ := fun val jsop out =>
  jsobjPrintValue t fmtY D (jsop.level + 1) val jsop out

theorem jsobjPrint_eq_printValue (addr : ℕ) {j : JsobjPrint} (hdepth : j.depth < 2 ^ 64) (out : δ) :
    jsobjPrint t fmtY D addr j out = printValue t fmtY D (some (.addr addr)) j out :=
  ((printBounded t fmtY D addr hdepth out).ends _ le_rfl).symm

/-- Settings that ask for the same print the same. -/
theorem printValue_same {j j' : JsobjPrint} (hsame : j.Same j') (hdepth : j.depth < 2 ^ 64)
    (val : Option V8Propvalue) (out : δ) :
    (printValue t fmtY D val j' out).2.2 = (printValue t fmtY D val j out).2.2 := by
  have hlevel : j'.level = j.level := by
    unfold JsobjPrint.level
    rw [hsame.member, hsame.depth]
  have hsameIf : j.SameIf False j' := ⟨hsame, False.elim⟩
  unfold printValue
  rw [hlevel]
  exact (jsobjPrintValue_same t fmtY D out _ hdepth hsameIf val).2.2.1

theorem keeps_printValue {j : JsobjPrint} (hdepth : j.depth < 2 ^ 64) (val : Option V8Propvalue)
    (out : δ) : j.Keeps (printValue t fmtY D val j out).2.1 :=
  (jsobjPrintValue_same t fmtY D out _ hdepth (.refl j : j.SameIf True j) val).2.2.2

/-- What is behind the first step of a path is the rest of it. -/
theorem memberRest_pathText {s : MemberStep} (hs : s.Valid) (p : List MemberStep) :
    memberRest (memberPart (pathText (s :: p))).2 = pathMember p := by
  cases s with
  | name n =>
    rw [memberPart_of_name (head_pathText_name hs p), memberName_pathText hs, memberRest_tailText]
  | index digits =>
    exact memberRest_of_index (memberIndex_pathText hs 64 p) (indexRest_tailText p)

variable {t}

/-- A step, with the function that prints values. -/
theorem takesStep_printValue {s : MemberStep} (hs : s.Valid) {p : List MemberStep} {j : JsobjPrint}
    (hdepth : j.depth < 2 ^ 64) (hmember : j.member = some (pathText (s :: p)))
    (v : Option V8Propvalue) (out : δ)
    (hnodup : valueKlass t v = some "JSObject" → ((reported t (valueAddr v)).map Prod.fst).Nodup) :
    TakesStep (printValue t fmtY D) { j with descended := true } out p (memberStep t v s)
      (printValue t fmtY D v j out) := by
  have hstep := takesStep_once (jsobjPrintValue t fmtY D j.level) fmtY D hs hmember v out hnodup
  unfold TakesStep at hstep ⊢
  cases hdest : memberStep t v s with
  | none =>
    rw [hdest] at hstep
    exact hstep
  | some w =>
    rw [hdest] at hstep
    -- the nested call has enough calls left for itself
    have hdescends : j.Descends (({ j with descended := true } : JsobjPrint).descendMember
        (pathMember p)) := by
      have h := JsobjPrint.descends_descendMember hmember
      rw [memberRest_pathText hs] at h
      exact h.same (((JsobjPrint.Same.refl j).setDescended j.descended true).descendMember _)
    have henough := jsobjPrintValue_enough t fmtY D out hdescends.level
      (hdescends.depth_lt hdepth) w
    dsimp only at hstep ⊢
    rw [henough] at hstep
    exact hstep

/-- The names are distinct on the way of the rest of a path. -/
theorem DistinctNames.tail {v w : Option V8Propvalue} {s : MemberStep} {p : List MemberStep}
    (h : DistinctNames t v (s :: p)) (hw : memberStep t v s = some w) : DistinctNames t w p := by
  intro k v' hv'
  refine h (k + 1) v' ?_
  rw [List.take_succ_cons, memberValue, hw]
  exact hv'

theorem DistinctNames.head {v : Option V8Propvalue} {p : List MemberStep} (h : DistinctNames t v p) :
    valueKlass t v = some "JSObject" → ((reported t (valueAddr v)).map Prod.fst).Nodup :=
  h 0 v rfl

/-- **Printing at the end of a path** is printing the value that it leads to, with the rest of the
member path. -/
theorem printValue_follow {p : List MemberStep} (hp : ∀ s ∈ p, s.Valid) (q : List MemberStep)
    {v v' : Option V8Propvalue} (hnames : DistinctNames t v (p ++ q))
    (hv : memberValue t v p = some v') {j : JsobjPrint} (hdepth : j.depth < 2 ^ 64)
    (hmember : j.member = pathMember (p ++ q)) (out : δ) :
    (printValue t fmtY D v j out).2.2 =
      (printValue t fmtY D v' { j with member := pathMember q } out).2.2 := by
  induction p generalizing v j with
  | nil =>
    obtain rfl := Option.some.inj hv
    rw [List.nil_append] at hmember
    rw [← hmember]
  | cons s p ih =>
    obtain ⟨w, hw, hv'⟩ := Option.bind_eq_some_iff.mp hv
    have hstep := takesStep_printValue fmtY D (hp s List.mem_cons_self) hdepth
      (show j.member = some (pathText (s :: (p ++ q))) from hmember) v out hnames.head
    rw [hw] at hstep
    have hrest := ih (fun s' hs' => hp s' (List.mem_cons_of_mem _ hs')) (hnames.tail hw) hv'
      (j := { j with member := pathMember (p ++ q) }) hdepth rfl
    rw [hstep.2, ← hrest]
    -- `found` and `descended` are not among the options
    have hsame : JsobjPrint.Same { j with member := pathMember (p ++ q) }
        (({ j with descended := true } : JsobjPrint).descendMember (pathMember (p ++ q))) := by
      cases pathMember (p ++ q) <;> exact ⟨_, _, _, _, rfl⟩
    exact printValue_same t fmtY D hsame hdepth w out

/-- **When a member is found**: when every step of the path can be taken. -/
theorem found_printValue {p : List MemberStep} (hp : ∀ s ∈ p, s.Valid) (hne : p ≠ [])
    {v : Option V8Propvalue} (hnames : DistinctNames t v p) {j : JsobjPrint}
    (hdepth : j.depth < 2 ^ 64) (hmember : j.member = some (pathText p)) (hfound : j.found = false)
    (out : δ) :
    (printValue t fmtY D v j out).2.1.found = (memberValue t v p).isSome := by
  induction p generalizing v j with
  | nil => exact absurd rfl hne
  | cons s p ih =>
    have hstep := takesStep_printValue fmtY D (hp s List.mem_cons_self) hdepth hmember v out
      hnames.head
    rw [memberValue]
    cases hw : memberStep t v s with
    | none =>
      rw [hw] at hstep
      exact hstep.trans hfound
    | some w =>
      rw [hw] at hstep
      rw [hstep.1, Option.bind_some]
      by_cases hp' : p = []
      · -- the last step sets `found` before the value is printed
        subst hp'
        have hdepth' : (({ j with descended := true } : JsobjPrint).descendMember
            (pathMember [])).depth < 2 ^ 64 := hdepth
        exact (keeps_printValue t fmtY D hdepth' w out).found rfl
      · have hrest : pathMember p = some (pathText p) := if_neg hp'
        rw [hrest]
        exact ih (fun s' hs' => hp s' (List.mem_cons_of_mem _ hs')) hp' (hnames.tail hw) hdepth rfl
          hfound

end Follow

/-! ### The end of a path that is not there -/

section Command

variable {t : Target} {fmtY : ℤ → List UInt8} {zalloc : Allocator} {before : UInt8} {addr : ℕ}

/-- A member that is not found in a buffer is not found in a larger one. -/
theorem jsprintLoop_not_found {p : List MemberStep} (hp : ∀ s ∈ p, s.Valid) (hne : p ≠ [])
    (hnames : DistinctNames t (some (.addr addr)) p)
    (hvalue : memberValue t (some (.addr addr)) p = none) {fuel bufsz len : ℕ} {jsop : JsobjPrint}
    (hdepth : jsop.depth < 2 ^ 64) (hmember : jsop.member = some (pathText p))
    (hfound : jsop.found = false) {rv : ℤ} {jsop' : JsobjPrint} {out : OutBuf} {bufsz' : ℕ}
    (hloop : jsprintLoop t fmtY zalloc addr fuel bufsz len jsop = some (rv, jsop', out, bufsz')) :
    jsop.Same jsop' ∧ jsop'.found = false := by
  induction fuel generalizing bufsz len jsop with
  | zero => exact absurd hloop (by simp [jsprintLoop])
  | succ fuel ih =>
    rw [jsprintLoop] at hloop
    split at hloop
    · exact absurd hloop (by simp)
    -- the settings are kept, so the next round looks for the same member
    have hsame : jsop.Same _ := (keeps_printValue t fmtY (bufDevice t) hdepth (some (.addr addr))
      (OutBuf.fresh (fun _ => 0) len)).same
    have hnot := found_printValue fmtY (bufDevice t) hp hne hnames hdepth hmember hfound
      (OutBuf.fresh (fun _ => 0) len)
    rw [← jsobjPrint_eq_printValue t fmtY (bufDevice t) addr hdepth] at hsame hnot
    rw [hvalue] at hnot
    dsimp only at hloop
    split at hloop
    · obtain ⟨-, rfl, -⟩ := Prod.mk.inj (Option.some.inj hloop)
      exact ⟨hsame, hnot⟩
    · obtain ⟨hsame', hfound'⟩ := ih (by rwa [hsame.depth]) (hsame.member.trans hmember) hnot hloop
      exact ⟨hsame.trans hsame', hfound'⟩

/-- The command prints that the member is undefined. -/
theorem jsprintOne_undefined {p : List MemberStep} (hp : ∀ s ∈ p, s.Valid) (hne : p ≠ [])
    (hnames : DistinctNames t (some (.addr addr)) p)
    (hvalue : memberValue t (some (.addr addr)) p = none) {st : JsprintState} {more : Bool}
    (hdepth : st.jsop.depth < 2 ^ 64) (hmember : st.jsop.member = some (pathText p))
    (hfound : st.jsop.found = false) {text : List UInt8} {st' : JsprintState}
    (hone : jsprintOne t fmtY zalloc before addr st more = some (text, st')) :
    text = (if st.jsop.baseaddr ≠ 0 then fmtP st.jsop.baseaddr ++ bytesOf ": " else []) ++
      bytesOf "undefined" ++ (if more then [32] else []) := by
  unfold jsprintOne at hone
  cases hloop : jsprintLoop t fmtY zalloc addr (t.cfg.bits + 1) st.bufsz st.len st.jsop with
  | none =>
    rw [hloop] at hone
    exact absurd hone (by simp)
  | some r =>
    obtain ⟨rv, jsop, out, bufsz⟩ := r
    obtain ⟨hsame, hnot⟩ := jsprintLoop_not_found hp hne hnames hvalue hdepth hmember hfound hloop
    -- the member has not been found, so that it is said to be undefined
    have hsome : jsop.member.isSome = true := by rw [hsame.member, hmember]; rfl
    have hnone : ¬ jsop.member = none := by rw [hsame.member, hmember]; simp
    rw [hloop] at hone
    dsimp only at hone
    rw [if_neg fun h => hnone h.1, if_pos ⟨hsome, by simp [hnot]⟩, hsame.baseaddr] at hone
    exact (Prod.mk.inj (Option.some.inj hone)).1.symm

end Command

/-! ### The claim of the paths -/

section Paths

variable {t : Target}

/-- The index of a step is one of the array. -/
def StepInArray (t : Target) (v : Option V8Propvalue) : MemberStep → Prop
  | .name _ => True
  | .index digits => InArray t v (indexValue digits)

/-- Every index on the way of a path is one of its array. -/
def InArrays (t : Target) : Option V8Propvalue → List MemberStep → Prop
  | _, [] => True
  | v, s :: p => StepInArray t v s ∧ ∀ w, memberStep t v s = some w → InArrays t w p

/-- The length of an array is one that a word can hold. -/
theorem InArray.lt {v : Option V8Propvalue} {i : ℕ} (h : InArray t v i) : i < 2 ^ t.cfg.bits := by
  obtain ⟨ap, hload, hi⟩ := h
  refine hi.trans_le ?_
  unfold v8arrayLoad at hload
  dsimp only at hload
  split at hload
  · exact absurd hload (by simp)
  split at hload
  · exact absurd hload (by simp)
  split at hload
  · exact absurd hload (by simp)
  split at hload
  · next length elements hlength helements =>
    -- the length that is compared is the one that has been read
    have hap : ap.length = length := by
      split at hload
      · obtain ⟨arrayp, -, rfl⟩ := Option.map_eq_some_iff.mp hload
        rfl
      · rw [← Option.some.inj hload]
    unfold Target.readHeapSmi at hlength
    split at hlength
    · exact absurd hlength (by simp)
    · next w hw =>
      split at hlength
      · rw [v8arrayLength, hap, ← Option.some.inj hlength]
        exact (Nat.shiftRight_le w _).trans (Target.readPtr_lt hw).le
      · exact absurd hlength (by simp)
  · exact absurd hload (by simp)

/-- A step leads where it is taken to, if its index is one of the array. -/
theorem pathStep_eq_some_iff {v w : Option V8Propvalue} {s : MemberStep} :
    pathStep t v s = some w ↔ memberStep t v s = some w ∧ StepInArray t v s := by
  cases s with
  | name n => exact (and_iff_left trivial).symm
  | index digits =>
    rw [pathStep, memberStep, StepInArray]
    by_cases hin : InArray t v (indexValue digits)
    · rw [if_pos hin, Nat.mod_eq_of_lt hin.lt, and_iff_left hin]
    · rw [if_neg hin]
      exact iff_of_false (by simp) fun h => hin h.2

/-- A path leads where its steps are taken to, if every index is one of its array. -/
theorem pathValue_eq_some_iff {v v' : Option V8Propvalue} {p : List MemberStep} :
    pathValue t v p = some v' ↔ memberValue t v p = some v' ∧ InArrays t v p := by
  induction p generalizing v with
  | nil => exact (and_iff_left trivial).symm
  | cons s p ih =>
    rw [pathValue, memberValue, InArrays, Option.bind_eq_some_iff, Option.bind_eq_some_iff]
    constructor
    · rintro ⟨w, hw, hv'⟩
      obtain ⟨hstep, hin⟩ := pathStep_eq_some_iff.mp hw
      obtain ⟨hvalue, hins⟩ := ih.mp hv'
      refine ⟨⟨w, hstep, hvalue⟩, hin, fun w' hw' => ?_⟩
      rwa [Option.some.inj (hw'.symm.trans hstep)]
    · rintro ⟨⟨w, hw, hv'⟩, hin, hins⟩
      exact ⟨w, pathStep_eq_some_iff.mpr ⟨hw, hin⟩, ih.mpr ⟨hv', hins w hw⟩⟩

/-- Member paths are compositional: a member is found if the path leads to a value, which is printed
as by itself, with the rest of a longer path where there is one; and the command prints `undefined`
if the path does not lead to a value. -/
structure MemberPaths (t : Target) (fmtY : ℤ → List UInt8) (addr : ℕ) (p : List MemberStep) :
    Prop where
  found : ∀ (jsop : JsobjPrint) (out : OutBuf), jsop.depth < 2 ^ 64 →
    jsop.member = some (pathText p) → jsop.found = false →
    ((jsobjPrint t fmtY (bufDevice t) addr jsop out).2.1.found = true ↔
      (pathValue t (some (.addr addr)) p).isSome)
  text : ∀ (jsop : JsobjPrint) (out : OutBuf) (v : Option V8Propvalue), jsop.depth < 2 ^ 64 →
    jsop.member = some (pathText p) → pathValue t (some (.addr addr)) p = some v →
    (jsobjPrint t fmtY (bufDevice t) addr jsop out).2.2 =
      (printValue t fmtY (bufDevice t) v { jsop with member := none } out).2.2
  follow : ∀ (q : List MemberStep) (jsop : JsobjPrint) (out : OutBuf) (v : Option V8Propvalue),
    (∀ s ∈ q, s.Valid) → q ≠ [] → DistinctNames t (some (.addr addr)) (p ++ q) →
    jsop.depth < 2 ^ 64 → jsop.member = some (pathText (p ++ q)) → jsop.found = false →
    pathValue t (some (.addr addr)) p = some v →
    let r := jsobjPrint t fmtY (bufDevice t) addr jsop out
    let r' := printValue t fmtY (bufDevice t) v { jsop with member := some (pathText q) } out
    r.2.2 = r'.2.2 ∧ r.2.1.found = r'.2.1.found
  undefined : pathValue t (some (.addr addr)) p = none →
    ∀ (zalloc : Allocator) (before : UInt8) (st st' : JsprintState) (more : Bool) (text : List UInt8),
      st.jsop.depth < 2 ^ 64 → st.jsop.member = some (pathText p) → st.jsop.found = false →
      jsprintOne t fmtY zalloc before addr st more = some (text, st') →
      text = (if st.jsop.baseaddr ≠ 0 then fmtP st.jsop.baseaddr ++ bytesOf ": " else []) ++
        bytesOf "undefined" ++ (if more then [32] else [])

theorem memberValue_append (t : Target) (v : Option V8Propvalue) (p q : List MemberStep) :
    memberValue t v (p ++ q) = (memberValue t v p).bind fun w => memberValue t w q := by
  induction p generalizing v with
  | nil => rfl
  | cons s p ih =>
    rw [List.cons_append, memberValue, memberValue, Option.bind_assoc]
    exact congrArg _ (funext fun w => ih w)

/-- The names are distinct on the way from a value that a path leads to. -/
theorem DistinctNames.of_append {v w : Option V8Propvalue} {p q : List MemberStep}
    (h : DistinctNames t v (p ++ q)) (hw : memberValue t v p = some w) : DistinctNames t w q := by
  intro k v' hv'
  refine h (p.length + k) v' ?_
  rw [List.take_length_add_append, memberValue_append, hw]
  exact hv'

/-- **When member paths are compositional**: unless all the steps of the path can be taken, in the
`FixedArray`s behind the arrays, and an index is not one of its array. -/
theorem memberPaths_iff (fmtY : ℤ → List UInt8) {addr : ℕ} {p : List MemberStep}
    (hp : ∀ s ∈ p, s.Valid) (hne : p ≠ []) (hnames : DistinctNames t (some (.addr addr)) p) :
    MemberPaths t fmtY addr p ↔
      memberValue t (some (.addr addr)) p = none ∨ InArrays t (some (.addr addr)) p := by
  have hfound : ∀ (jsop : JsobjPrint) (out : OutBuf), jsop.depth < 2 ^ 64 →
      jsop.member = some (pathText p) → jsop.found = false →
      (jsobjPrint t fmtY (bufDevice t) addr jsop out).2.1.found =
        (memberValue t (some (.addr addr)) p).isSome := by
    intro jsop out hdepth hmember hfalse
    rw [jsobjPrint_eq_printValue t fmtY (bufDevice t) addr hdepth]
    exact found_printValue fmtY (bufDevice t) hp hne hnames hdepth hmember hfalse out
  constructor
  · intro hpaths
    refine or_iff_not_imp_left.mpr fun hsome => ?_
    obtain ⟨v, hv⟩ := Option.ne_none_iff_exists'.mp hsome
    -- a member that is found is at the end of the path
    let jsop : JsobjPrint := { depth := 0, member := some (pathText p) }
    have hdepth : jsop.depth < 2 ^ 64 := Nat.two_pow_pos 64
    have hiff := hpaths.found jsop (OutBuf.fresh (fun _ => 0) 1) hdepth rfl rfl
    rw [hfound jsop _ hdepth rfl rfl, hv] at hiff
    obtain ⟨w, hw⟩ := Option.isSome_iff_exists.mp (hiff.mp rfl)
    exact (pathValue_eq_some_iff.mp hw).2
  · intro hcond
    have hsame : pathValue t (some (.addr addr)) p = memberValue t (some (.addr addr)) p := by
      ext v
      rw [pathValue_eq_some_iff]
      rcases hcond with hnone | hin
      · simp [hnone]
      · exact and_iff_left hin
    have hfollow : ∀ q (jsop : JsobjPrint) (out : OutBuf) (v : Option V8Propvalue),
        DistinctNames t (some (.addr addr)) (p ++ q) → jsop.depth < 2 ^ 64 →
        jsop.member = some (pathText (p ++ q)) → pathValue t (some (.addr addr)) p = some v →
        (jsobjPrint t fmtY (bufDevice t) addr jsop out).2.2 =
          (printValue t fmtY (bufDevice t) v { jsop with member := pathMember q } out).2.2 := by
      intro q jsop out v hdistinct hdepth hmember hv
      rw [jsobjPrint_eq_printValue t fmtY (bufDevice t) addr hdepth]
      refine printValue_follow fmtY (bufDevice t) hp q hdistinct (hsame ▸ hv) hdepth ?_ out
      rw [hmember, pathMember, if_neg (List.append_ne_nil_of_left_ne_nil hne q)]
    refine ⟨?_, ?_, ?_, ?_⟩
    · intro jsop out hdepth hmember hfalse
      rw [hfound jsop out hdepth hmember hfalse, hsame]
    · intro jsop out v hdepth hmember hv
      rw [← List.append_nil p] at hnames hmember
      exact hfollow [] jsop out v hnames hdepth hmember hv
    · intro q jsop out v hq hq0 hdistinct hdepth hmember hfalse hv r r'
      have hqmember : pathMember q = some (pathText q) := if_neg hq0
      refine ⟨?_, ?_⟩
      · rw [hfollow q jsop out v hdistinct hdepth hmember hv, hqmember]
      · -- both are found if the longer path leads to a value
        have hv' : memberValue t (some (.addr addr)) p = some v := hsame ▸ hv
        have hvalid : ∀ s ∈ p ++ q, s.Valid := fun s hs =>
          (List.mem_append.mp hs).elim (hp s) (hq s)
        have hleft := found_printValue fmtY (bufDevice t) hvalid
          (List.append_ne_nil_of_left_ne_nil hne q) hdistinct hdepth hmember hfalse out
        have hright := found_printValue fmtY (bufDevice t) hq hq0 (hdistinct.of_append hv')
          (j := { jsop with member := some (pathText q) }) hdepth rfl hfalse out
        rw [memberValue_append, hv', Option.bind_some] at hleft
        have hr : r = printValue t fmtY (bufDevice t) (some (.addr addr)) jsop out :=
          jsobjPrint_eq_printValue t fmtY (bufDevice t) addr hdepth out
        rw [hr, hleft]
        exact hright.symm
    · intro hnone zalloc before st st' more text hdepth hmember hfalse hone
      exact jsprintOne_undefined hp hne hnames (hsame ▸ hnone) hdepth hmember hfalse hone

/-- A target with a JSArray of the element 5 at `0x4001`, in a FixedArray with room for another
one. -/
def spareArrayTarget : Target :=
  .ofWords (.sample .lp64)
    [(0x1000, 0x2001), (0x1008, 2 <<< 32), (0x1010, 5 <<< 32), (0x1018, 7 <<< 32), (0x2010, 0xa3),
      (0x4000, 0x3001), (0x4010, 0x1001), (0x4018, 1 <<< 32), (0x3010, 0xb2)]

/-- The path `[0]`, or another one with an index of one digit. -/
def digitPath (d : UInt8) : List MemberStep := [.index [d]]

theorem distinctNames_digitPath (d : UInt8) :
    DistinctNames spareArrayTarget (some (.addr 0x4001)) (digitPath d) := by
  intro k v' hv' hklass
  cases k with
  | zero =>
    obtain rfl := Option.some.inj hv'
    exact absurd hklass (by decide)
  | succ k =>
    -- the words in the array are numbers
    rw [digitPath, List.take_succ_cons, List.take_nil, memberValue, memberStep, backingValue,
      if_pos (by decide), show backingArray spareArrayTarget (valueAddr (some (.addr 0x4001))) =
        some ⟨2, [5 <<< 32, 7 <<< 32]⟩ by decide] at hv'
    generalize indexValue [d] % 2 ^ spareArrayTarget.cfg.bits = i at hv'
    dsimp only at hv'
    split at hv'
    · next hi =>
      rw [Option.bind_some, memberValue, Option.some.injEq] at hv'
      subst hv'
      have hi' : i < 2 := hi
      interval_cases i
      · exact absurd hklass (by decide)
      · exact absurd hklass (by decide)
    · exact absurd hv' (by simp)

theorem memberPaths_first :
    MemberPaths spareArrayTarget (fun _ => []) 0x4001 (digitPath 48) := by
  have hvalid : ∀ s ∈ digitPath 48, s.Valid := fun s hs => by
    obtain rfl := List.mem_singleton.mp hs
    exact ⟨List.cons_ne_nil _ _, fun d hd => by
      obtain rfl := List.mem_singleton.mp hd
      exact ⟨by decide, by decide⟩⟩
  exact (memberPaths_iff _ hvalid (by decide) (distinctNames_digitPath 48)).mpr
    (.inr ⟨⟨⟨0x4001, some ⟨0x1001, 2⟩, 1⟩, by decide, by decide⟩, fun _ _ => trivial⟩)

/-- The word behind the only element of an array is found as its second one. -/
theorem not_memberPaths_spare :
    let jsop : JsobjPrint := { depth := 2, member := some (bytesOf "[1]") }
    let r := jsobjPrint spareArrayTarget (fun _ => []) (bufDevice spareArrayTarget) 0x4001 jsop
      (OutBuf.fresh (fun _ => 0) 16)
    v8arrayLoad spareArrayTarget 0x4001 = some ⟨0x4001, some ⟨0x1001, 2⟩, 1⟩ ∧
      r.2.1.found = true ∧ r.2.2.text = bytesOf "7" ∧
      ¬ MemberPaths spareArrayTarget (fun _ => []) 0x4001 (digitPath 49) := by
  refine ⟨by decide, by decide, by decide, fun h => ?_⟩
  have hiff := h.found { depth := 2, member := some (bytesOf "[1]") } (OutBuf.fresh (fun _ => 0) 16)
    (by decide) (by decide) rfl
  exact absurd (hiff.mp (by decide)) (by decide)

end Paths

end MdbV8
