import MdbV8.Print.Ends

/-!
# What member paths print

`::jsprint` takes member paths, and prints the values that they lead to, one after the other. Here a path is
followed through the values of a heap (`JsHeap.follow`): by name to a property of an object, and by index to an
element of an array. `dcmdJsprint_paths` says that the command shows the values that the paths lead to, and
`undefined` where a path leads nowhere, for a heap that memory is laid out for.

An array compares an index with the length of the `FixedArray` behind it. So it must not be the index of one
of the words that are behind the elements.

All paths are printed into one buffer, which is used up by them, and grows. That a string has been cut off is
not noticed. So a path to a string is shown if there is room for it in the first buffer.
-/

namespace MdbV8

/-! ### Paths through a heap -/

/-- A value that is printed as a string at the end: it may be cut off. -/
def JsValue.IsOpen : JsValue → Prop
  | .string _ => True
  | .oddball _ => True
  | _ => False

/-- What is printed for a value that a path should be taken on from, but cannot. Objects and arrays look for
the member, and the others do not. -/
def JsValue.stuckText : JsValue → List UInt8
  | .object _ => []
  | .array _ => []
  | v => v.text 0 none

namespace JsHeap

variable (H : JsHeap)

/-- The names of the properties of an object are distinct. -/
def NamesDistinct : Prop := ∀ w o, H w = some (.object o) → (o.props.map Prod.fst).Nodup

/-- Where a step leads. -/
def step (w : ℕ) : MemberStep → Option ℕ
  | .name n =>
    match H w with
    | some (.object o) => (o.props.find? fun p => p.1 == n).map Prod.snd
    | _ => none
  | .index digits =>
    match H w with
    | some (.array elts) => elts[indexValue digits]?
    | _ => none

/-- **Where a path leads.** -/
def follow : ℕ → List MemberStep → Option ℕ
  | w, [] => some w
  | w, s :: p => (H.step w s).bind fun w => follow w p

/-- An array that a step is taken from can be read as a whole, and the index is not the one of a word behind
the elements. -/
def StepLegible (t : Target) (w : ℕ) (s : MemberStep) : Prop :=
  ∀ elts, H w = some (.array elts) → ∃ arr, backingArray t w = some arr ∧
    ∀ digits, s = .index digits →
      indexValue digits < elts.length ∨ arr.len ≤ indexValue digits % 2 ^ t.cfg.bits

/-- So it is for all steps of a path. -/
def PathLegible (t : Target) : ℕ → List MemberStep → Prop
  | _, [] => True
  | w, s :: p => H.StepLegible t w s ∧ ∀ w', H.step w s = some w' → PathLegible t w' p

variable (opts : JsprintOpts) (addr : ℕ)

/-- **What is shown for a path**: the value that it leads to, or that there is none. -/
def shown (base : ℕ) (p : List MemberStep) : List UInt8 :=
  match H.follow addr p with
  | some w => H.text (addrsText base opts.printaddr) opts.depth 0 w
  | none => addrsText base false addr ++ bytesOf "undefined"

/-- What is shown for several paths. There is a blank between them, but not behind white space. The base
address is shown for the first one only. -/
def shownAll (before : UInt8) : ℕ → List (List MemberStep) → List UInt8
  | _, [] => []
  | base, p :: ps =>
    let T := H.shown opts addr base p
    T ++ (if ps ≠ [] ∧ isspace (T.getLastD before) = false then [32] else []) ++ shownAll before 0 ps

/-- What a path writes to the buffer. It does so too where it leads nowhere. -/
def written (base : ℕ) : ℕ → List MemberStep → List UInt8
  | w, [] => H.text (addrsText base opts.printaddr) opts.depth 0 w
  | w, s :: p =>
    match H.step w s with
    | some w' => written base w' p
    | none => (H w).elim [] JsValue.stuckText

/-- **There is room for some paths**, where a part of the buffer has been used up: in less than half of the
memory that a size can have, and for a path to a string in the first buffer. -/
def Fits (c : Config) : ℕ → ℕ → List (List MemberStep) → Prop
  | _, _, [] => True
  | used, base, p :: ps =>
    let used' := used + (H.written opts base addr p).length + outputSlack
    used' < 2 ^ (c.bits - 1) ∧
      (∀ w v, H.follow addr p = some w → H w = some v → v.IsOpen → used' < 262144) ∧ Fits c used' 0 ps

end JsHeap

/-! ### Steps in memory -/

section Steps

variable {t : Target} {b : PropBits}

/-- What has been loaded with an array is the `FixedArray` behind it. -/
theorem v8arrayLoad_elements {w ptr : ℕ} {ap : V8Array} {arrayp : V8FixedArray}
    (hload : v8arrayLoad t w = some ap) (harrayp : ap.elements = some arrayp)
    (hptr : t.readHeapPtr w t.cfg.offJsobjectElements = some ptr) :
    v8fixedarrayLoad t ptr = some arrayp := by
  unfold v8arrayLoad at hload
  dsimp only at hload
  rw [hptr] at hload
  split at hload
  · cases hload
  split at hload
  · cases hload
  split at hload
  · cases hload
  -- the array has a length, and the `FixedArray` is the word that was read
  cases hsmi : t.readHeapSmi w t.cfg.offJsarrayLength with
  | none =>
    rw [hsmi] at hload
    cases hload
  | some length =>
    rw [hsmi] at hload
    dsimp only at hload
    split at hload
    · obtain ⟨arrayp', hload', rfl⟩ := Option.map_eq_some_iff.mp hload
      rw [hload', Option.some.inj harrayp]
    · obtain rfl := Option.some.inj hload
      cases harrayp

/-- Both ways of reading a `FixedArray` read the same words. -/
theorem Readable.elts_eq {ptr : ℕ} {arrayp : V8FixedArray} {bs : List UInt8} (h : Readable t arrayp bs)
    (hload : v8fixedarrayLoad t ptr = some arrayp) {arr : Target.HeapArray}
    (harr : t.readHeapArray ptr = some arr) (hpos : 0 < arrayp.nelts) :
    arr.len = arrayp.nelts ∧ arr.elts = Target.wordsOf t.cfg.ptrSize bs := by
  unfold v8fixedarrayLoad at hload
  split at hload
  · cases hload
  split at hload
  · cases hload
  split at hload
  · cases hload
  obtain ⟨nelts, hnelts, rfl⟩ := Option.map_eq_some_iff.mp hload
  obtain ⟨-, hsmi, hblock⟩ := t.readHeapArray_elts harr
  obtain rfl : arr.len = nelts := Option.some.inj (hsmi.symm.trans hnelts)
  obtain ⟨hsize, bs', hwords, hread⟩ := hblock hpos.ne'
  -- the size of the block has not been cut
  have hle := (Target.mdbVread_eq_some_iff.mp h).1
  have hmod : arr.len * t.cfg.ptrSize % 2 ^ t.cfg.bits = arr.len * t.cfg.ptrSize := by
    refine Nat.mod_eq_of_lt (lt_of_le_of_ne ((Nat.le_add_left _ _).trans hle) fun heq => hsize ?_)
    rw [heq, Nat.mod_self]
  rw [hmod] at hread
  obtain rfl : bs' = bs := Option.some.inj (hread.symm.trans h)
  exact ⟨rfl, hwords⟩

/-- The elements of an array are at the beginning of the `FixedArray` behind it. -/
theorem ArrayAt.backing {w : ℕ} {elts : List ℕ} (h : ArrayAt t w elts) {arr : Target.HeapArray}
    (hback : backingArray t w = some arr) :
    elts.length ≤ arr.len ∧ ∀ i < elts.length, some (arr.get i) = elts[i]? := by
  obtain ⟨ap, hload, hlen, helts⟩ := h
  by_cases hnil : elts = []
  · subst hnil
    exact ⟨Nat.zero_le _, fun i hi => absurd hi (Nat.not_lt_zero i)⟩
  obtain ⟨arrayp, bs, harrayp, hread, htake⟩ := helts hnil
  have hpos : 0 < elts.length := List.length_pos_iff.mpr hnil
  -- the array behind it is at least as long
  have hlength : elts.length ≤ arrayp.nelts := by
    have htaken := congrArg List.length htake
    rw [List.length_take, hread.length_words] at htaken
    omega
  obtain ⟨ptr, hptr, harr⟩ := Option.bind_eq_some_iff.mp hback
  obtain ⟨hnelts, hwords⟩ :=
    hread.elts_eq (v8arrayLoad_elements hload harrayp hptr) harr (hpos.trans_le hlength)
  refine ⟨hnelts ▸ hlength, fun i hi => ?_⟩
  -- so each of the words is one of its words
  have hi' : i < arr.elts.length := by
    rw [hwords, hread.length_words]
    exact hi.trans_le hlength
  calc some (arr.get i)
      = arr.elts[i]? := by
        rw [Target.HeapArray.get, List.getD_eq_getElem _ _ hi', List.getElem?_eq_getElem hi']
    _ = ((Target.wordsOf t.cfg.ptrSize bs).take elts.length)[i]? := by
        rw [List.getElem?_take_of_lt hi, hwords]
    _ = elts[i]? := by rw [← htake]

variable (hprops : t.cfg.V8Props b)

include hprops

/-- The properties that an object reports, if they are delivered. -/
theorem StoredObject.reported_eq {w : ℕ} {o : JsObject} (h : StoredObject t b w o)
    (hlegible : (JsValue.object o).Legible t w) :
    ∃ es, jsobjEvents t w = .props es ∧
      es.events.map (fun e => (e.name, e.value)) = o.props.map delivered ∧
      reported t w = o.props.map fun p => (p.1, some (.addr p.2)) := by
  obtain ⟨hindexes, hholes, -⟩ := hlegible
  obtain ⟨es, hevents, -, hes⟩ := h.events hprops fun n hn => (hindexes n hn).1
  rw [(o.shown_eq_iff t).mpr ⟨fun n hn => (hindexes n hn).2, hholes⟩] at hes
  refine ⟨es, hevents, hes, ?_⟩
  rw [reported, hevents]
  calc es.events.map (fun e => (e.name, some e.value))
      = (es.events.map fun e => (e.name, e.value)).map fun p => (p.1, some p.2) := by
        rw [List.map_map]
        rfl
    _ = (o.props.map delivered).map fun p => (p.1, some p.2) := by rw [hes]
    _ = o.props.map fun p => (p.1, some (.addr p.2)) := by
        rw [List.map_map]
        rfl

/-- The class of a value that is neither an object nor an array. -/
theorem ValueAt.klass_ne {w : ℕ} {v : JsValue} (h : ValueAt t b w v) (hcontainer : ¬ v.IsContainer) :
    valueKlass t (some (.addr w)) ≠ some "JSObject" ∧ valueKlass t (some (.addr w)) ≠ some "JSArray" := by
  cases v with
  | int v =>
    obtain ⟨-, rfl⟩ := h
    -- a small integer has no class
    have hnone : valueKlass t (some (.addr (t.cfg.smiWord v))) = none := by
      unfold valueKlass valueAddr
      dsimp only
      rw [isSmi_smiWord hprops.smis v, Bool.true_or, if_pos rfl]
    rw [hnone]
    exact ⟨nofun, nofun⟩
  | number bits =>
    rw [h.1]
    exact ⟨by decide, by decide⟩
  | string s =>
    obtain ⟨type, htype, hstring⟩ := h.2.exists_type
    -- neither has a string
    have hnone : valueKlass t (some (.addr w)) = none := by
      unfold valueKlass valueAddr
      dsimp only
      rw [htype]
      dsimp only
      rw [if_pos hstring, ite_self]
    rw [hnone]
    exact ⟨nofun, nofun⟩
  | oddball name =>
    rw [h.1]
    exact ⟨by decide, by decide⟩
  | object o => exact absurd trivial hcontainer
  | array elts => exact absurd trivial hcontainer

variable {H : JsHeap} (hstored : H.StoredIn t b) (hlegible : H.Legible t)

include hstored hlegible

/-- **A step is taken to where it leads.** -/
theorem memberStep_eq_step {w : ℕ} {v : JsValue} (hw : H w = some v) {s : MemberStep}
    (hstep : H.StepLegible t w s) :
    memberStep t (some (.addr w)) s = (H.step w s).map fun w' => some (.addr w') := by
  have hat := hstored.stored w v hw
  -- an object leads to its properties, an array to its elements
  by_cases hcontainer : v.IsContainer
  · cases v with
    | object o =>
      obtain ⟨hklass, hobject⟩ := hat
      cases s with
      | name n =>
        obtain ⟨-, -, -, hreported⟩ := hobject.reported_eq hprops (hlegible w _ hw)
        rw [memberStep, namedValue, if_pos hklass, valueAddr, hreported, List.find?_map, JsHeap.step, hw,
          Option.map_map, Option.map_map]
        rfl
      | index digits =>
        rw [memberStep, backingValue, if_neg (by rw [hklass]; decide), JsHeap.step, hw]
        rfl
    | array elts =>
      obtain ⟨hklass, harray⟩ := hat
      cases s with
      | name n =>
        rw [memberStep, namedValue, if_neg (by rw [hklass]; decide), JsHeap.step, hw]
        rfl
      | index digits =>
        obtain ⟨arr, hback, hindex⟩ := hstep elts hw
        obtain ⟨hlen, hget⟩ := harray.backing hback
        obtain ⟨ptr, -, harr⟩ := Option.bind_eq_some_iff.mp hback
        rw [memberStep, backingValue, if_pos hklass, valueAddr, hback, JsHeap.step, hw]
        dsimp only
        rcases hindex digits rfl with hin | hout
        · have hlt := hin.trans_le hlen
          rw [Nat.mod_eq_of_lt (hlt.trans (t.readHeapArray_len_lt_two_pow harr)), if_pos hlt,
            ← hget _ hin, Option.map_some]
        · have hge : elts.length ≤ indexValue digits := hlen.trans (hout.trans (Nat.mod_le _ _))
          rw [if_neg (Nat.not_lt.mpr hout), List.getElem?_eq_none hge, Option.map_none]
    | _ => exact hcontainer.elim
  · obtain ⟨hobject, harray⟩ := hat.klass_ne hprops hcontainer
    -- any other value leads nowhere
    have hnone : H.step w s = none := by
      cases v with
      | object o => exact absurd trivial hcontainer
      | array elts => exact absurd trivial hcontainer
      | _ => cases s <;> simp only [JsHeap.step, hw]
    rw [memberStep_eq_none hobject harray, hnone, Option.map_none]

omit hprops hlegible in
/-- What a step leads to is a value of the heap. -/
theorem JsHeap.StoredIn.step_closed {w w' : ℕ} {s : MemberStep} (hstep : H.step w s = some w') :
    ∃ v, H w' = some v := by
  cases hw : H w with
  | none => cases s <;> simp [JsHeap.step, hw] at hstep
  | some v =>
    refine hstored.closed w v hw w' ?_
    cases s with
    | name n =>
      cases v with
      | object o =>
        rw [JsHeap.step, hw] at hstep
        obtain ⟨p, hp, rfl⟩ := Option.map_eq_some_iff.mp hstep
        exact List.mem_map_of_mem (List.mem_of_find?_eq_some hp)
      | _ => simp [JsHeap.step, hw] at hstep
    | index digits =>
      cases v with
      | array elts =>
        rw [JsHeap.step, hw] at hstep
        exact List.mem_of_getElem? hstep
      | _ => simp [JsHeap.step, hw] at hstep

/-- **All steps of a path are taken to where they lead.** -/
theorem memberValue_eq_follow {w : ℕ} {v : JsValue} (hw : H w = some v) {p : List MemberStep}
    (hpath : H.PathLegible t w p) :
    memberValue t (some (.addr w)) p = (H.follow w p).map fun w' => some (.addr w') := by
  induction p generalizing w v with
  | nil => rfl
  | cons s p ih =>
    rw [memberValue, memberStep_eq_step hprops hstored hlegible hw hpath.1, JsHeap.follow]
    cases hstep : H.step w s with
    | none => rfl
    | some w' =>
      obtain ⟨v', hw'⟩ := hstored.step_closed hstep
      exact ih hw' (hpath.2 w' hstep)

/-- The names of the properties that a value reports are distinct. -/
theorem nodup_reported (hdistinct : H.NamesDistinct) {w : ℕ} {v : JsValue} (hw : H w = some v)
    (hklass : valueKlass t (some (.addr w)) = some "JSObject") :
    ((reported t (valueAddr (some (.addr w)))).map Prod.fst).Nodup := by
  have hat := hstored.stored w v hw
  by_cases hcontainer : v.IsContainer
  · cases v with
    | object o =>
      obtain ⟨-, -, -, hreported⟩ := hat.2.reported_eq hprops (hlegible w _ hw)
      rw [valueAddr, hreported, List.map_map]
      exact hdistinct w o hw
    | array elts => exact absurd (hklass.symm.trans hat.1) (by decide)
    | _ => exact hcontainer.elim
  · exact absurd hklass (hat.klass_ne hprops hcontainer).1

/-- The names are distinct on the way of a path. -/
theorem distinctNames_of_heap (hdistinct : H.NamesDistinct) {w : ℕ} {v : JsValue} (hw : H w = some v)
    {p : List MemberStep} (hpath : H.PathLegible t w p) : DistinctNames t (some (.addr w)) p := by
  induction p generalizing w v with
  | nil =>
    intro k v' hv' hklass
    rw [List.take_nil] at hv'
    obtain rfl := Option.some.inj hv'
    exact nodup_reported hprops hstored hlegible hdistinct hw hklass
  | cons s p ih =>
    intro k v' hv' hklass
    cases k with
    | zero =>
      obtain rfl := Option.some.inj hv'
      exact nodup_reported hprops hstored hlegible hdistinct hw hklass
    | succ k =>
      rw [List.take_succ_cons, memberValue, memberStep_eq_step hprops hstored hlegible hw hpath.1] at hv'
      obtain ⟨x, hx, hv'⟩ := Option.bind_eq_some_iff.mp hv'
      obtain ⟨w', hstep, rfl⟩ := Option.map_eq_some_iff.mp hx
      obtain ⟨v'', hw'⟩ := hstored.step_closed hstep
      exact ih hw' (hpath.2 w' hstep) k v' hv' hklass

end Steps

/-! ### What is written -/

section Written

variable {t : Target} {b : PropBits} (fmtY : ℤ → List UInt8) (hprops : t.cfg.V8Props b)

include hprops

/-- What is printed for a value that cannot take a step. -/
theorem appends_stuck {w : ℕ} {v : JsValue} (hv : ValueAt t b w v) (hlegible : v.Legible t w)
    {s : MemberStep} (hs : s.Valid) {p : List MemberStep} {jsop : JsobjPrint}
    (hmember : jsop.member = some (pathText (s :: p))) (hmax : jsop.maxstrlen = 0)
    (hread : ∀ elts, v = .array elts → ∃ arr, backingArray t w = some arr)
    (hstuck : memberStep t (some (.addr w)) s = none) (print : PrintFn (List Piece)) (ps : List Piece) :
    Appends t ps (jsobjPrintWord t fmtY (pieceDevice t) print w jsop ps).2.2 v.stuckText := by
  have hmember' : ({ jsop with descended := true } : JsobjPrint).member = some (pathText (s :: p)) :=
    hmember
  cases v with
  | int v =>
    obtain ⟨hint, rfl⟩ := hv
    exact (appends_int fmtY hprops hint hlegible print jsop ps).2.2
  | number bits =>
    obtain ⟨hklass, hread⟩ := hv
    rw [jsobjPrintWord_klass fmtY (pieceDevice t) print hklass rfl, jsobjPrintNumber, hread]
    exact .bsnprintf ..
  | string s => exact (appends_string fmtY hprops hv.1 hv.2 print hmax ps).2.2
  | oddball name =>
    obtain ⟨hklass, strptr, hptr, hname⟩ := hv
    rw [jsobjPrintWord_klass fmtY (pieceDevice t) print hklass rfl, jsobjPrintOddball, hptr]
    exact (hname.appends jsstrNone rfl ps).2
  | object o =>
    obtain ⟨hklass, hobject⟩ := hv
    obtain ⟨es, hevents, -, hreported⟩ := hobject.reported_eq hprops hlegible
    have hstate := jsobjProperties_eq t (jsobjPrintPropMember print) w
      ({ jsop with descended := true }, ps) jsop.propinfo
    rw [hevents] at hstate
    -- no property has this name, so that nothing is printed for any of them
    have hrun : (runEvents (jsobjPrintPropMember print) es.events
        ({ jsop with descended := true }, ps)).2 = ({ jsop with descended := true }, ps) := by
      cases s with
      | name n =>
        have hskip : ∀ e ∈ es.events, e.name ≠ n := by
          rw [memberStep, namedValue, if_pos hklass, Option.map_eq_none_iff, valueAddr, reported,
            hevents] at hstuck
          intro e he heq
          have hne := List.find?_eq_none.mp hstuck _ (List.mem_map_of_mem he)
          exact hne (beq_iff_eq.mpr heq)
        exact congrArg Prod.snd (runEvents_skip print hs hmember' ps hskip)
      | index digits => exact runEvents_index print hmember' ps es.events
    rw [jsobjPrintWord_klass fmtY (pieceDevice t) print hklass rfl, jsobjPrintJsobject,
      if_pos (by rw [hmember]; rfl)]
    have hout := congrArg Prod.snd (hstate.state.trans hrun)
    exact ⟨[], hout.trans (List.append_nil ps).symm, rfl⟩
  | array elts =>
    obtain ⟨hklass, -⟩ := hv
    -- the array behind it is read, and the index is not one of it
    obtain ⟨arr, hback⟩ := hread elts rfl
    obtain ⟨ptr, hptr, harr⟩ := Option.bind_eq_some_iff.mp hback
    rw [jsobjPrintWord_klass fmtY (pieceDevice t) print hklass rfl, jsobjPrintJsarray,
      if_pos (by rw [hmember]; rfl), jsobjPrintJsarrayMember, hptr]
    dsimp only
    rw [harr, hmember, Option.getD_some]
    dsimp only
    cases s with
    | name n =>
      rw [memberIndex_pathText_name hs]
      exact .refl ps
    | index digits =>
      rw [memberStep, backingValue, if_pos hklass, valueAddr, hback] at hstuck
      dsimp only at hstuck
      rw [memberIndex_pathText hs]
      dsimp only
      split at hstuck
      · cases hstuck
      · -- the index is too large, which is an error that prints nothing
        next hge =>
        rw [if_pos (Nat.not_lt.mp hge)]
        exact .refl ps

variable {H : JsHeap} (hstored : H.StoredIn t b) (hlegible : H.Legible t) (hdistinct : H.NamesDistinct)
  {opts : JsprintOpts} (hdepth : opts.depth < 2 ^ 64)

include hstored hlegible hdistinct hdepth

/-- **A path writes to a buffer what it should.** The induction is on the path. -/
theorem appends_written {p : List MemberStep} (hp : ∀ s ∈ p, s.Valid) {w : ℕ} {v : JsValue}
    (hw : H w = some v) (hpath : H.PathLegible t w p)
    (hindents : ∀ w' ∈ H.follow w p, H.Indents opts.depth 0 w') {base : ℕ} {jsop : JsobjPrint}
    (hasks : PlainPrint base opts.printaddr opts.depth 0 { jsop with member := none })
    (hmember : jsop.member = pathMember p) (ps : List Piece) :
    Appends t ps (printValue t fmtY (pieceDevice t) (some (.addr w)) jsop ps).2.2
      (H.written opts base w p) := by
  induction p generalizing w v jsop with
  | nil =>
    -- without a member, the value is printed
    have hnone : jsop.member = none := hmember
    have hplain : PlainPrint base opts.printaddr opts.depth 0 jsop := hasks.same ⟨_, _, _, _, by rw [← hnone]⟩
    have hfuel : opts.depth < jsop.level + 1 := by
      unfold JsobjPrint.level
      rw [hplain.depth]
      omega
    exact (appends_jsobjPrintValue fmtY hprops hstored hlegible hdepth hfuel hw (hindents w rfl)
      hplain ps).2.2
  | cons s p ih =>
    have hs : s.Valid := hp s List.mem_cons_self
    have hmember' : jsop.member = some (pathText (s :: p)) := hmember
    have hdepth' : jsop.depth < 2 ^ 64 := hasks.depth ▸ hdepth
    have hstep := memberStep_eq_step hprops hstored hlegible hw hpath.1
    rw [JsHeap.written]
    cases hdest : H.step w s with
    | none =>
      -- the step leads nowhere
      rw [hdest, Option.map_none] at hstep
      have hread : ∀ elts, v = .array elts → ∃ arr, backingArray t w = some arr := by
        rintro elts rfl
        obtain ⟨arr, hback, -⟩ := hpath.1 elts hw
        exact ⟨arr, hback⟩
      have hstuck := appends_stuck fmtY hprops (hstored.stored w v hw) (hlegible w v hw) hs hmember'
        hasks.maxstrlen hread hstep (jsobjPrintValue t fmtY (pieceDevice t) jsop.level) ps
      have haddrs : printAddrs (pieceDevice t) (some (.addr w)) jsop ps = ps := by
        unfold printAddrs
        simp [hmember']
      -- so what is printed is what is printed for the value where it is stuck
      have hprint : printValue t fmtY (pieceDevice t) (some (.addr w)) jsop ps = jsobjPrintWord t fmtY
          (pieceDevice t) (jsobjPrintValue t fmtY (pieceDevice t) jsop.level) w jsop
          (printAddrs (pieceDevice t) (some (.addr w)) jsop ps) := rfl
      rw [hw, hprint, haddrs]
      exact hstuck
    | some w' =>
      -- the step is taken, and the induction hypothesis is for the rest of the path
      rw [hdest, Option.map_some] at hstep
      obtain ⟨v', hw'⟩ := hstored.step_closed hdest
      have htakes := takesStep_printValue fmtY (pieceDevice t) hs hdepth' hmember' (some (.addr w)) ps
        (nodup_reported hprops hstored hlegible hdistinct hw)
      rw [hstep] at htakes
      rw [htakes.2]
      have hindents' : ∀ w'' ∈ H.follow w' p, H.Indents opts.depth 0 w'' := fun w'' hw'' =>
        hindents w'' (by rw [JsHeap.follow, hdest]; exact hw'')
      refine ih (fun s' hs' => hp s' (List.mem_cons_of_mem _ hs')) hw' (hpath.2 w' hdest) hindents' ?_ ?_
      · cases pathMember p with
        | none => exact hasks.same ⟨_, _, _, _, rfl⟩
        | some rest => exact hasks.same ⟨_, _, _, _, rfl⟩
      · cases pathMember p with
        | none => rfl
        | some rest => rfl

omit hprops hstored hlegible hdistinct hdepth in
/-- A path that leads somewhere writes the text of the value. -/
theorem written_of_follow {base w w' : ℕ} {p : List MemberStep} (hfollow : H.follow w p = some w') :
    H.written opts base w p = H.text (addrsText base opts.printaddr) opts.depth 0 w' := by
  induction p generalizing w with
  | nil =>
    obtain rfl := Option.some.inj hfollow
    rfl
  | cons s p ih =>
    obtain ⟨w₁, hstep, hrest⟩ := Option.bind_eq_some_iff.mp hfollow
    rw [JsHeap.written, hstep]
    exact ih hrest

omit hprops hlegible hdistinct hdepth in
/-- A path leads to a value of the heap. -/
theorem JsHeap.StoredIn.follow_closed {w w' : ℕ} {v : JsValue} (hw : H w = some v) {p : List MemberStep}
    (hfollow : H.follow w p = some w') : ∃ v', H w' = some v' := by
  induction p generalizing w v with
  | nil =>
    obtain rfl := Option.some.inj hfollow
    exact ⟨v, hw⟩
  | cons s p ih =>
    obtain ⟨w₁, hstep, hrest⟩ := Option.bind_eq_some_iff.mp hfollow
    obtain ⟨v₁, hw₁⟩ := hstored.step_closed hstep
    exact ih hw₁ hrest

end Written

/-! ### What is written last -/

section Last

theorem fmtInt_ne_nil (x : ℤ) : fmtInt x ≠ [] := by
  have hdigits : fmtNat 10 x.natAbs ≠ [] := fun h => Nat.toDigits_ne_nil (List.map_eq_nil_iff.mp h)
  unfold fmtInt
  split
  · exact List.cons_ne_nil _ _
  · exact hdigits

theorem doubleText_ne_nil (d : CDouble) : doubleText d ≠ [] := by
  unfold doubleText
  split
  · exact fmtInt_ne_nil _
  · cases d with
    | nan => exact (by decide : bytesOf "nan" ≠ [])
    | inf neg => cases neg <;> exact of_decide_eq_true rfl
    | finite num exp =>
      unfold CDouble.fmtE CDouble.fmtExp
      exact List.append_ne_nil_of_right_ne_nil _ (List.append_ne_nil_of_left_ne_nil (List.cons_ne_nil _ _) _)

variable {t : Target} {b : PropBits} (fmtY : ℤ → List UInt8)

/-- A text comes last for a value that is not a string. -/
theorem endsInText_jsobjPrintWord (hprops : t.cfg.V8Props b) {w : ℕ} {v : JsValue} (hv : ValueAt t b w v)
    (hopen : ¬ v.IsOpen) (print : PrintFn (List Piece)) {jsop : JsobjPrint} (hmember : jsop.member = none)
    (ps : List Piece) (h : (jsobjPrintWord t fmtY (pieceDevice t) print w jsop ps).1 = 0) :
    EndsInText (jsobjPrintWord t fmtY (pieceDevice t) print w jsop ps).2.2 := by
  cases v with
  | int v =>
    obtain ⟨-, rfl⟩ := hv
    unfold jsobjPrintWord
    rw [if_pos (isSmi_smiWord hprops.smis v)]
    exact endsInText_bsnprintf t (fmtInt_ne_nil _) ps
  | number bits =>
    obtain ⟨hklass, hread⟩ := hv
    rw [jsobjPrintWord_klass fmtY (pieceDevice t) print hklass rfl, jsobjPrintNumber, hread]
    exact endsInText_bsnprintf t (doubleText_ne_nil _) ps
  -- these two can end with the marker of a string that has been cut
  | string s => exact absurd trivial hopen
  | oddball name => exact absurd trivial hopen
  | object o =>
    rw [jsobjPrintWord_klass fmtY (pieceDevice t) print hv.1 rfl] at h ⊢
    exact endsInText_jsobjPrintJsobject t print w ps hmember h
  | array elts =>
    rw [jsobjPrintWord_klass fmtY (pieceDevice t) print hv.1 rfl] at h ⊢
    exact endsInText_jsobjPrintJsarray t print w ps hmember h

/-- A member that is found in a buffer is found in a larger one. -/
theorem jsprintLoop_found {addr : ℕ} {zalloc : Allocator} {p : List MemberStep} (hp : ∀ s ∈ p, s.Valid)
    (hne : p ≠ []) (hnames : DistinctNames t (some (.addr addr)) p)
    (hvalue : (memberValue t (some (.addr addr)) p).isSome = true) {fuel bufsz len : ℕ} {jsop : JsobjPrint}
    (hdepth : jsop.depth < 2 ^ 64) (hmember : jsop.member = some (pathText p)) {rv : ℤ}
    {last : JsobjPrint} {out : OutBuf} {bufsz' : ℕ}
    (hloop : jsprintLoop t fmtY zalloc addr fuel bufsz len jsop = some (rv, last, out, bufsz')) :
    last.found = true := by
  induction fuel generalizing bufsz len jsop with
  | zero => cases hloop
  | succ fuel ih =>
    rw [jsprintLoop] at hloop
    split at hloop
    · cases hloop
    have hkeeps := keeps_printValue t fmtY (bufDevice t) hdepth (some (.addr addr))
      (OutBuf.fresh (fun _ => 0) len)
    -- it has been found before, or it is found in this round
    have hfound : (printValue t fmtY (bufDevice t) (some (.addr addr)) jsop
        (OutBuf.fresh (fun _ => 0) len)).2.1.found = true := by
      cases hfalse : jsop.found with
      | true => exact hkeeps.found hfalse
      | false =>
        rw [found_printValue fmtY (bufDevice t) hp hne hnames hdepth hmember hfalse]
        exact hvalue
    rw [← jsobjPrint_eq_printValue t fmtY (bufDevice t) addr hdepth] at hkeeps hfound
    dsimp only at hloop
    split at hloop
    · obtain ⟨-, rfl, -⟩ := Prod.mk.inj (Option.some.inj hloop)
      exact hfound
    · exact ih (by rwa [hkeeps.same.depth]) (hkeeps.same.member.trans hmember) hloop

end Last

/-! ### One path -/

section One

variable {t : Target} {b : PropBits} {fmtY : ℤ → List UInt8} {zalloc : Allocator} {before : UInt8}

variable (t) in
/-- **The state before a path.** What is missing from the buffer has been used up by the paths before. -/
structure JsprintReady (opts : JsprintOpts) (used base : ℕ) (st : JsprintState) : Prop where
  asks : PlainPrint base opts.printaddr opts.depth 0 { st.jsop with member := none }
  found : st.jsop.found = false
  size : ∃ k, 18 ≤ k ∧ k < t.cfg.bits ∧ st.bufsz = 2 ^ k
  len_le : st.len ≤ st.bufsz
  left : st.bufsz ≤ st.len + used

variable (hprops : t.cfg.V8Props b) {H : JsHeap} (hstored : H.StoredIn t b) (hlegible : H.Legible t)
  (hdistinct : H.NamesDistinct) {opts : JsprintOpts} (hdepth : opts.depth < 2 ^ 64)
  {addr : ℕ} {v : JsValue} (hv : H addr = some v)
  {p : List MemberStep} (hp : ∀ s ∈ p, s.Valid) (hne : p ≠ []) (hpath : H.PathLegible t addr p)
  (hindents : ∀ w ∈ H.follow addr p, H.Indents opts.depth 0 w) {base : ℕ} {jsop : JsobjPrint}
  (hasks : PlainPrint base opts.printaddr opts.depth 0 { jsop with member := none })
  (hmember : jsop.member = some (pathText p))

include hprops hstored hlegible hdistinct hdepth hv hp hne hpath hindents hasks hmember

/-- What a buffer without end gets for a path. -/
theorem unboundedText_path : unboundedText t fmtY addr jsop = H.written opts base addr p := by
  have hdepth' : jsop.depth < 2 ^ 64 := hasks.depth ▸ hdepth
  obtain ⟨qs, hqs, hpieces⟩ := appends_written fmtY hprops hstored hlegible hdistinct hdepth hp hv hpath
    hindents hasks (hmember.trans (if_neg hne).symm) []
  rw [← jsobjPrint_eq_printValue t fmtY (pieceDevice t) addr hdepth'] at hqs
  exact (congrArg (piecesText t) (hqs.trans (List.nil_append qs))).trans hpieces

omit hindents in
/-- On any device, what a path prints is what is printed for the value that it leads to. -/
theorem jsobjPrint_path {δ : Type*} (D : OutDevice δ) {w : ℕ} (hfollow : H.follow addr p = some w) (out : δ) :
    (jsobjPrint t fmtY D addr jsop out).2.2 =
      (printValue t fmtY D (some (.addr w)) { jsop with member := none } out).2.2 := by
  have hdepth' : jsop.depth < 2 ^ 64 := hasks.depth ▸ hdepth
  have hvalue := memberValue_eq_follow hprops hstored hlegible hv hpath
  rw [hfollow, Option.map_some] at hvalue
  have hnames := distinctNames_of_heap hprops hstored hlegible hdistinct hv hpath
  rw [jsobjPrint_eq_printValue t fmtY D addr hdepth']
  refine printValue_follow fmtY D hp [] (by rwa [List.append_nil]) hvalue hdepth' ?_ out
  rw [List.append_nil, hmember, pathMember, if_neg hne]

/-- A path to a value that is not a string writes a text at the end. -/
theorem endsInText_path {w : ℕ} (hfollow : H.follow addr p = some w) {v' : JsValue} (hw : H w = some v')
    (hopen : ¬ v'.IsOpen) : EndsInText (unboundedPrint t fmtY addr jsop).2 := by
  obtain ⟨hrv, -⟩ := appends_jsobjPrintValue fmtY hprops hstored hlegible hdepth
    (show opts.depth < opts.depth + 1 by omega) hw (hindents w hfollow) hasks []
  have hlevel : ({ jsop with member := none } : JsobjPrint).level = opts.depth := by
    unfold JsobjPrint.level
    rw [hasks.depth]
    exact Nat.zero_add _
  have hpieces : (unboundedPrint t fmtY addr jsop).2 = (jsobjPrintValue t fmtY (pieceDevice t)
      (opts.depth + 1) (some (.addr w)) { jsop with member := none } []).2.2 := by
    rw [← hlevel]
    exact jsobjPrint_path hprops hstored hlegible hdistinct hdepth hv hp hne hpath hasks hmember
      (pieceDevice t) hfollow []
  rw [hpieces]
  exact endsInText_jsobjPrintWord fmtY hprops (hstored.stored w v' hw) hopen _ hasks.member _ hrv

/-- A path whose text easily fits into the buffer. -/
theorem str_path_of_fits {w : ℕ} (hfollow : H.follow addr p = some w) {len : ℕ} (hlen : len ≤ 2 ^ t.cfg.bits)
    (hfits : (H.written opts base addr p).length + outputSlack < len) {n : ℕ} (hn : len ≤ n) :
    let out := (jsobjPrint t fmtY (bufDevice t) addr jsop (OutBuf.fresh (fun _ => 0) len)).2.2
    0 < out.len ∧ out.str n = H.written opts base addr p := by
  obtain ⟨v', hw⟩ := hstored.follow_closed hv hfollow
  obtain ⟨-, -, hemitted⟩ := same_jsobjPrint fmtY addr (.refl jsop) hasks.maxstrlen (fun _ => 0) hlen
  have hunbounded : unboundedText t fmtY addr jsop = H.written opts base addr p :=
    unboundedText_path hprops hstored hlegible hdistinct hdepth hv hp hne hpath hindents hasks hmember
  have hemits := hemitted.emits
  rw [show piecesText t (unboundedPrint t fmtY addr jsop).2 = H.written opts base addr p from hunbounded]
    at hemits
  have hroom : (H.written opts base addr p).length + outputSlack ≤ (OutBuf.fresh (fun _ => 0) len).room :=
    Nat.le_sub_one_of_lt hfits
  have hleft := hemits.room_pos (by decide : 0 < outputSlack) hroom
  have htext := (hemits.of_fits hroom).1.trans (List.nil_append _)
  -- what is written last is that of the value
  have hends : EndsIn (bufDevice t)
      (jsobjPrint t fmtY (bufDevice t) addr jsop (OutBuf.fresh (fun _ => 0) len)).2.2 := by
    rw [jsobjPrint_path hprops hstored hlegible hdistinct hdepth hv hp hne hpath hasks hmember
      (bufDevice t) hfollow]
    have hsame := same_jsobjPrintValue fmtY (({ jsop with member := none } : JsobjPrint).level + 1)
      (some (.addr w)) _ _ (OutBuf.fresh (fun _ => 0) len) [] (.refl { jsop with member := none })
      hasks.maxstrlen hlen
    have hlevel : opts.depth < ({ jsop with member := none } : JsobjPrint).level + 1 := by
      unfold JsobjPrint.level
      rw [hasks.depth]
      omega
    obtain ⟨hrv, -⟩ := appends_jsobjPrintValue fmtY hprops hstored hlegible hdepth hlevel hw
      (hindents w hfollow) hasks []
    exact endsIn_jsobjPrintWord fmtY (bufDevice t) hprops (hstored.stored w v' hw) _ _ hasks.member
      hasks.maxstrlen (hsame.rv.trans hrv)
  have hpos := hleft.trans_le (Nat.sub_le _ 1)
  refine ⟨hpos, hends.str_eq htext hpos ?_ (by omega)⟩
  rw [written_of_follow hfollow]
  exact hstored.noNul _ _ _ _ _

omit hasks hmember in
/-- **One path is shown**, if there is room for it. -/
theorem jsprintOne_path (hzalloc : ∀ n, 0 < n → n < 2 ^ t.cfg.bits → zalloc.gives n = true) {used : ℕ}
    {st : JsprintState}
    (hready : JsprintReady t opts used base st)
    (hroom : used + (H.written opts base addr p).length + outputSlack < 2 ^ (t.cfg.bits - 1))
    (hopen : ∀ w v, H.follow addr p = some w → H w = some v → v.IsOpen →
      used + (H.written opts base addr p).length + outputSlack < 262144) (more : Bool) :
    ∃ st', jsprintOne t fmtY zalloc before addr
        { st with jsop := { st.jsop with member := some (pathText p) } } more =
          some (H.shown opts addr base p ++
            (if more && !isspace ((H.shown opts addr base p).getLastD before) then [32] else []), st') ∧
      JsprintReady t opts (used + (H.written opts base addr p).length + outputSlack) 0 st' := by
  obtain ⟨hasks, hfalse, ⟨k, hk, hkbits, hsize⟩, hlen, hleft⟩ := hready
  generalize hjsop : ({ st.jsop with member := some (pathText p) } : JsobjPrint) = jsop
  have hasks' : PlainPrint base opts.printaddr opts.depth 0 { jsop with member := none } := by
    rw [← hjsop]
    exact hasks
  have hmember : jsop.member = some (pathText p) := by rw [← hjsop]
  have hfound : jsop.found = false := by
    rw [← hjsop]
    exact hfalse
  have hdepth' : jsop.depth < 2 ^ 64 := hasks'.depth ▸ hdepth
  have hmax : jsop.maxstrlen = 0 := hasks'.maxstrlen
  -- what would be printed without a limit is what the path writes
  have hunbounded : unboundedText t fmtY addr jsop = H.written opts base addr p :=
    unboundedText_path hprops hstored hlegible hdistinct hdepth hv hp hne hpath hindents hasks' hmember
  have hnames := distinctNames_of_heap hprops hstored hlegible hdistinct hv hpath
  have hvalue := memberValue_eq_follow hprops hstored hlegible hv hpath
  rw [hsize] at hlen hleft
  rw [← hunbounded] at hroom
  have hlt : 2 ^ k < 2 ^ t.cfg.bits := Nat.pow_lt_pow_right (by decide) hkbits
  -- the loop
  obtain ⟨rv, last, out, k', hloop, hkk', hk', hlen', hleft'⟩ :=
    jsprintLoop_ends hmax hzalloc hroom hkbits (show t.cfg.bits ≤ k + (t.cfg.bits + 1) by omega) hlen hleft
      (.refl jsop)
  obtain ⟨hsame, hrendered⟩ := rendered_jsprintLoop hmax (.refl jsop) hlen hlt.le hloop
  rw [hunbounded] at hleft'
  -- after this path, the buffer has what has been used of it
  have hnext : JsprintReady t opts (used + (H.written opts base addr p).length + outputSlack) 0
      { bufsz := 2 ^ k', len := out.len, jsop := { last with found := false, baseaddr := 0 } } :=
    { asks := { member := rfl
                maxstrlen := hsame.maxstrlen.trans hasks'.maxstrlen
                baseaddr := rfl
                printaddr := hsame.printaddr.trans hasks'.printaddr
                depth := hsame.depth.trans hasks'.depth
                indent := hsame.indent.trans hasks'.indent }
      found := rfl
      size := ⟨k', hk.trans hkk', hk', rfl⟩
      len_le := hlen'
      left := hleft' }
  refine ⟨_, ?_, hnext⟩
  have hsome : last.member.isSome = true := by rw [hsame.member, hmember]; rfl
  have hnone : ¬ (last.member = none ∧ rv ≠ 0) := fun h => by simp [h.1] at hsome
  have hbase : last.baseaddr = base := hsame.baseaddr.trans hasks'.baseaddr
  rw [jsprintOne, hsize, hloop]
  dsimp only
  rw [if_neg hnone]
  cases hfollow : H.follow addr p with
  | none =>
    -- the member is not found
    rw [hfollow, Option.map_none] at hvalue
    have hlast := (jsprintLoop_not_found hp hne hnames hvalue hdepth' hmember hfound hloop).2
    have hshown : H.shown opts addr base p = addrsText base false addr ++ bytesOf "undefined" := by
      rw [JsHeap.shown, hfollow]
    have hend : isspace ((addrsText base false addr ++ bytesOf "undefined").getLastD before) = false := by
      rw [show bytesOf "undefined" = bytesOf "undefine" ++ [100] by decide, ← List.append_assoc,
        List.getLastD_concat]
      rfl
    rw [if_pos ⟨hsome, by simp [hlast]⟩, hshown, hend, Bool.not_false, Bool.and_true, hbase,
      addrsText, if_neg Bool.false_ne_true, List.append_nil]
  | some w =>
    obtain ⟨v', hw⟩ := hstored.follow_closed hv hfollow
    rw [hfollow, Option.map_some] at hvalue
    have hlast := jsprintLoop_found fmtY hp hne hnames (by rw [hvalue]; rfl) hdepth' hmember hloop
    -- the member is found, so what is shown is what is written
    have hshown : H.shown opts addr base p = H.written opts base addr p := by
      rw [written_of_follow hfollow, JsHeap.shown, hfollow]
    have hstr : out.str (2 ^ k') = H.shown opts addr base p := by
      rw [hshown]
      by_cases hstring : v'.IsOpen
      · -- there is room for it in the first round
        have hfits : (H.written opts base addr p).length + outputSlack < st.len := by
          have hused := hopen w v' hfollow hw hstring
          have hfirst : 2 ^ 18 ≤ 2 ^ k := Nat.pow_le_pow_right (by decide) hk
          omega
        obtain ⟨hpos, hout⟩ := str_path_of_fits hprops hstored hlegible hdistinct hdepth hv hp hne hpath
          hindents hasks' hmember hfollow (hlen.trans hlt.le) hfits
          (hlen.trans (Nat.pow_le_pow_right (by decide) hkk'))
        rw [jsprintLoop, if_neg (by simp [hzalloc _ (Nat.two_pow_pos k) hlt])] at hloop
        dsimp only at hloop
        rw [if_pos hpos] at hloop
        obtain ⟨-, -, rfl, -⟩ : _ ∧ _ ∧ _ = out ∧ _ := by simpa using hloop
        exact hout
      · rw [hrendered.str_eq (endsInText_path hprops hstored hlegible hdistinct hdepth hv hp hne hpath
          hindents hasks' hmember hfollow hw hstring), hunbounded, written_of_follow hfollow]
        refine List.takeWhile_eq_self_iff.mpr fun ch hch => ?_
        have hne' : ch ≠ 0 := fun h => hstored.noNul _ _ _ _ _ (h ▸ hch)
        simpa using hne'
    rw [if_neg (by simp [hlast]), hstr]

end One

/-! ### The command -/

section Command

variable {t : Target} {b : PropBits} {fmtY : ℤ → List UInt8} {zalloc : Allocator} {before : UInt8}
  (hprops : t.cfg.V8Props b) {H : JsHeap} (hstored : H.StoredIn t b) (hlegible : H.Legible t)
  (hdistinct : H.NamesDistinct) {opts : JsprintOpts} (hdepth : opts.depth < 2 ^ 64)
  (hzalloc : ∀ n, 0 < n → n < 2 ^ t.cfg.bits → zalloc.gives n = true) {addr : ℕ} {v : JsValue}
  (hv : H addr = some v) {paths : List (List MemberStep)}
  (hpaths : ∀ p ∈ paths, p ≠ [] ∧ (∀ s ∈ p, s.Valid) ∧ H.PathLegible t addr p)
  (hindents : ∀ p ∈ paths, ∀ w ∈ H.follow addr p, H.Indents opts.depth 0 w)

include hprops hstored hlegible hdistinct hdepth hzalloc hv hpaths hindents

/-- The paths, one after the other. -/
theorem jsprintMembers_paths {used base : ℕ} {st : JsprintState} (hready : JsprintReady t opts used base st)
    (hfits : H.Fits opts addr t.cfg used base paths) :
    jsprintMembers t fmtY zalloc before addr (paths.map fun p => .string (pathText p)) st =
      (.ok, H.shownAll opts addr before base paths ++ bytesOf "\n") := by
  induction paths generalizing used base st with
  | nil => rfl
  | cons p ps ih =>
    obtain ⟨hne, hp, hpath⟩ := hpaths p List.mem_cons_self
    obtain ⟨hroom, hopen, hrest⟩ := hfits
    obtain ⟨st', hone, hready'⟩ := jsprintOne_path hprops hstored hlegible hdistinct hdepth hv hp hne hpath
      (hindents p List.mem_cons_self) hzalloc hready hroom hopen
      (!(ps.map fun p => MdbArg.string (pathText p)).isEmpty)
    have hmore : (!(ps.map fun p => MdbArg.string (pathText p)).isEmpty) = decide (ps ≠ []) := by
      cases ps <;> rfl
    rw [List.map_cons, jsprintMembers]
    dsimp only
    rw [hone]
    dsimp only
    rw [ih (fun p' hp' => hpaths p' (List.mem_cons_of_mem _ hp'))
      (fun p' hp' => hindents p' (List.mem_cons_of_mem _ hp')) hready' hrest, hmore, JsHeap.shownAll]
    simp

/-- **`::jsprint` shows the values that member paths lead to**, one after the other, and `undefined` where a
path leads nowhere. -/
theorem dcmdJsprint_paths (hlimit : opts.strlenOverride = 0) (hsome : paths ≠ [])
    (hfits : H.Fits opts addr t.cfg 0 (if opts.optB then addr else 0) paths) :
    dcmdJsprint t fmtY zalloc before addr opts (paths.map fun p => .string (pathText p)) =
      (.ok, H.shownAll opts addr before (if opts.optB then addr else 0) paths ++ bytesOf "\n") := by
  have hmax : (jsprintStart t addr opts).jsop.maxstrlen = 0 := by
    rw [jsprintStart, hlimit]
    exact t.cfg.wrap_natCast (x := 0) (Nat.two_pow_pos _)
  have hbits : 18 < t.cfg.bits := by
    rcases hprops.smis.cases with ⟨hbits, -, -⟩ | ⟨hbits, -, -⟩
    · rw [hbits]
      decide
    · rw [hbits]
      decide
  have hready : JsprintReady t opts 0 (if opts.optB then addr else 0) (jsprintStart t addr opts) :=
    { asks := ⟨rfl, hmax, rfl, rfl, rfl, rfl⟩
      found := rfl
      size := ⟨18, le_rfl, hbits, rfl⟩
      len_le := le_rfl
      left := le_rfl }
  rw [dcmdJsprint, if_neg (by simpa using hsome)]
  exact jsprintMembers_paths hprops hstored hlegible hdistinct hdepth hzalloc hv hpaths hindents hready hfits

end Command

/-! ### Paths in circles -/

theorem namesDistinct_slots : slotsHeap.NamesDistinct := by
  intro w o h
  rcases slotsHeap_cases h with ⟨-, heq⟩ | ⟨-, heq⟩ | ⟨-, heq⟩
  · obtain rfl := JsValue.object.inj heq
    decide
  · cases heq
  · cases heq

theorem pathLegible_slots (w : ℕ) (p : List MemberStep) : slotsHeap.PathLegible slotsTarget w p := by
  induction p generalizing w with
  | nil => trivial
  | cons s p ih =>
    refine ⟨fun elts h => ?_, fun w' _ => ih w'⟩
    rcases slotsHeap_cases h with ⟨-, heq⟩ | ⟨-, heq⟩ | ⟨-, heq⟩
    · cases heq
    · cases heq
    · cases heq

/-- The object refers to itself by `a`, and the value of `b` has no properties. -/
def slotsPaths : List (List MemberStep) :=
  [[.name [97], .name [97], .name [98]], [.name [98], .name [97]], [.name [97], .name [49]]]

theorem fits_slots :
    slotsHeap.Fits { depth := 1 } 0x1001 slotsTarget.cfg 0 0 slotsPaths := by
  have hopen : ∀ w v, slotsHeap w = some v → ¬ v.IsOpen := by
    intro w v h
    rcases slotsHeap_cases h with ⟨-, rfl⟩ | ⟨-, rfl⟩ | ⟨-, rfl⟩ <;> exact id
  exact ⟨by decide +kernel, fun w v _ hw h => absurd h (hopen w v hw), by decide +kernel,
    fun w v _ hw h => absurd h (hopen w v hw), by decide +kernel,
    fun w v _ hw h => absurd h (hopen w v hw), trivial⟩

theorem dcmdJsprint_paths_slots :
    dcmdJsprint slotsTarget (fun _ => []) .unlimited 0 0x1001 { depth := 1 }
        (slotsPaths.map fun p => .string (pathText p)) = (.ok, bytesOf "9 undefined 5\n") := by
  have hname : ∀ b : UInt8, b ≠ 46 → b ≠ 91 → (MemberStep.name [b]).Valid := fun b h46 h91 =>
    ⟨List.cons_ne_nil _ _, fun b' hb' => List.mem_singleton.mp hb' ▸ ⟨h46, h91⟩⟩
  have hpaths : ∀ p ∈ slotsPaths, p ≠ [] ∧ (∀ s ∈ p, s.Valid) ∧
      slotsHeap.PathLegible slotsTarget 0x1001 p := by
    have hsteps : ∀ p ∈ slotsPaths, p ≠ [] ∧ ∀ s ∈ p, s ∈ [97, 98, 49].map fun b => MemberStep.name [b] := by
      decide
    intro p hp
    obtain ⟨hne, hall⟩ := hsteps p hp
    refine ⟨hne, fun s hs => ?_, pathLegible_slots _ p⟩
    obtain ⟨b, hb, rfl⟩ := List.mem_map.mp (hall s hs)
    fin_cases hb <;> exact hname _ (by decide) (by decide)
  exact (dcmdJsprint_paths Config.v8Props_sample storedIn_slots legible_slots namesDistinct_slots
    (by decide) (fun _ hpos _ => bne_iff_ne.mpr hpos.ne') (v := .object slotsObject) rfl hpaths
    (fun _ _ w _ => slotsHeap.indents_of_depth (by decide) w) rfl (by simp [slotsPaths])
    fits_slots).trans (by decide +kernel)

end MdbV8
