import MdbV8.Find.Known
import MdbV8.Find.Marks

/-!
# The references to a marked object

What a search should report of a marked address is the elements of arrays and the properties of
objects that hold it, for all the instances that the scan has found (`expectedReports`). What it does
report differs from that in the arrays:

* an array is read from its block of elements, which may be longer than the array, and whatever is
  left over there is reported as well;
* the block is read as a whole, so that nothing is reported where it cannot be read to its end, and
  it is taken to be as long as it says even if so much memory could not be had;
* an array of length zero is in a group like that of an object without properties, and taken for an
  object;
* an index is printed as an `int`.

`ReferencesExact` holds exactly where none of this makes a difference (`referencesExact_iff`).
-/

namespace MdbV8

section Exact

variable (t : Target)

/-! ### What should be reported -/

/-- The instances that a scan has found, each with what it has been taken for. -/
def knownInstance (v : FindRange × ℕ) : Option (ℕ × FindKind) :=
  match scanItem t v with
  | some (.object _) => (visitKind t v).map fun kind => (v.2, kind)
  | _ => none

/-- All of them. -/
def knownInstances (p : ScanParams) (maps : List Prmap) : List (ℕ × FindKind) :=
  (scanVisits t p maps).filterMap (knownInstance t)

/-- The length of a `JSArray`. -/
def jsarrayLength (addr : ℕ) : ℕ := (t.readHeapSmi addr t.cfg.offJsarrayLength).getD 0

/-- The word of an element of a `JSArray`. -/
def elementWord (addr i : ℕ) : Option ℕ :=
  (t.readHeapPtr addr t.cfg.offJsobjectElements).bind fun elements =>
    t.readPtr (t.cfg.add (t.cfg.add elements t.cfg.offFixedarrayData) (i * t.cfg.ptrSize : ℕ))

/-- The references of an array: each index below the length whose element is the address. -/
def arrayHows (a addr : ℕ) : List FindHow :=
  ((List.range (jsarrayLength t addr)).filter fun i => elementWord t addr i == some a).map
    fun (i : ℕ) => .index i

/-- The references of an object: each tagged property whose value is the address. -/
def propHows (a addr : ℕ) : List FindHow :=
  (deliveredProps t addr).filterMap fun prop =>
    if prop.2 = some (.addr a) then some (.name prop.1) else none

/-- The references of an instance. -/
def expectedHows (a : ℕ) : ℕ × FindKind → List FindHow
  | (addr, .array) => arrayHows t a addr
  | (addr, _) => propHows t a addr

/-- **What should be reported** of an address. -/
def expectedReports (p : ScanParams) (maps : List Prmap) (a : ℕ) : List FindLine :=
  (knownInstances t p maps).flatMap fun e => (expectedHows t a e).map (.referred a e.1)

/-- A line that reports a reference to an address. -/
def FindLine.refersTo (a : ℕ) : FindLine → Bool
  | .referred addr _ _ => addr == a
  | _ => false

/-- **References are exact**: the search comes to its end; what it reports of a marked address is, in
some order, what should be reported; and it is said to be unreferenced if nothing is reported. -/
def ReferencesExact {L : FindLib t.cfg} (p : ScanParams) (maps : List Prmap) (fjs : FindState L) :
    Prop :=
  ∃ lines fjs', findjsobjectsReferences t fjs = .ok (lines, fjs') ∧
    ∀ a ∈ fjs.refs.addrs,
      (lines.filter (FindLine.refersTo a)).Perm (expectedReports t p maps a) ∧
      (.notReferred a ∈ lines ↔ ∀ l ∈ lines, l.refersTo a = false)

/-! ### When that is what is reported -/

/-- The block of elements of an array, where it can be read. -/
def elementsBlock (addr : ℕ) : Option Target.HeapArray :=
  (t.readHeapPtr addr t.cfg.offJsobjectElements).bind t.readHeapArray

/-- The block of an array is not longer than a block can be. -/
def BlockFits (addr : ℕ) : Prop :=
  ∀ arr, elementsBlock t addr = some arr → arr.len * t.cfg.ptrSize < 2 ^ t.cfg.bits

/-- **The condition on an array and an address.** -/
structure ArrayExact (a addr : ℕ) : Prop where
  /-- A block with the address in it can be read. -/
  readable : ∀ i < jsarrayLength t addr, elementWord t addr i = some a →
    (elementsBlock t addr).isSome
  /-- The address is not in the spare part of the block. -/
  spare : jsarrayLength t addr ≠ 0 → ∀ arr, elementsBlock t addr = some arr →
    ∀ i, jsarrayLength t addr ≤ i → i < arr.len → elementWord t addr i ≠ some a
  /-- The index of the address is an `int`. -/
  printed : ∀ i < jsarrayLength t addr, elementWord t addr i = some a → i < 2 ^ 31
  /-- The address is no property of an array without elements. -/
  empty : jsarrayLength t addr = 0 → ∀ prop ∈ deliveredProps t addr, prop.2 ≠ some (.addr a)

/-! ### The block of an array -/

/-- Whether the words of a block are as many as they should be. -/
theorem arrayFits_iff (addr : ℕ) : ArrayFits t addr ↔ BlockFits t addr := by
  refine forall_congr' fun arr => imp_congr_right fun harr => ?_
  obtain ⟨ptr, -, hread⟩ := Option.bind_eq_some_iff.mp harr
  rw [(t.readHeapArray_elts hread).1]
  exact Target.le_blockWords_iff t.cfg arr.len

/-- **The words of a block** are the words of the elements. -/
theorem elementWord_eq {addr : ℕ} {arr : Target.HeapArray} (harr : elementsBlock t addr = some arr)
    (hfits : BlockFits t addr) :
    arr.elts.length = arr.len ∧
      ∀ i (hi : i < arr.elts.length), elementWord t addr i = some arr.elts[i] := by
  have hpos : 0 < t.cfg.ptrSize := t.cfg.model.ptrSize_pos
  have hlt := hfits arr harr
  obtain ⟨ptr, hptr, hread⟩ := Option.bind_eq_some_iff.mp harr
  obtain ⟨hlen, -, hwords⟩ := t.readHeapArray_elts hread
  rw [Nat.mod_eq_of_lt hlt, Nat.mul_div_cancel _ hpos] at hlen
  refine ⟨hlen, fun i hi => ?_⟩
  obtain ⟨-, bs, helts, hbs⟩ := hwords (by omega)
  rw [Nat.mod_eq_of_lt hlt] at hbs
  -- the word lies inside of the block
  have hend : i * t.cfg.ptrSize + t.cfg.ptrSize ≤ arr.len * t.cfg.ptrSize := by
    rw [← Nat.succ_mul]
    exact Nat.mul_le_mul_right _ (by omega)
  have hword := Target.mdbVread_sub hbs hend
  have hbound := (Target.mdbVread_eq_some_iff.mp hbs).1
  unfold elementWord Target.readPtr
  rw [hptr, Option.bind_some, Config.add_natCast, Nat.mod_eq_of_lt (by omega), hword, Option.map_some]
  congr 1
  simp only [helts, Target.wordsOf_getElem]

/-! ### The lines about an address -/

/-- The lines that notes make for an address. -/
def noteLines (a : ℕ) (notes : List FindNote) : List FindLine :=
  notes.filterMap fun note =>
    if note.1 = a then some (.referred a note.2.addr note.2.how) else none

/-- The lines of one referent of a list that refer to an address are those of its own notes. -/
theorem filter_lines_collect (a : ℕ) (notes : List FindNote) {r : FindReferent}
    (hfresh : r.references = []) :
    ((r.collect notes).lines.filter (FindLine.refersTo a)) =
      if r.addr = a then noteLines a notes else [] := by
  have hreferences : (r.collect notes).references =
      (notes.filter fun note => note.1 == r.addr).map Prod.snd := by
    rw [FindReferent.collect, hfresh, List.nil_append]
  have haddr : (r.collect notes).addr = r.addr := rfl
  unfold FindReferent.lines
  rw [hreferences, haddr]
  -- the lines are about this referent, or about another one
  by_cases heq : r.addr = a
  · subst heq
    rw [if_pos rfl]
    have hlines : noteLines r.addr notes =
        ((notes.filter fun note => note.1 == r.addr).map Prod.snd).map
          (FindReference.line r.addr) := by
      rw [noteLines, List.map_map, ← List.filterMap_eq_map, List.filterMap_filter]
      refine List.filterMap_congr fun note _ => ?_
      by_cases hnote : note.1 = r.addr
      · simp [hnote, FindReference.line]
      · simp [hnote]
    split
    · next hnil =>
      rw [hlines, hnil]
      rfl
    · rw [hlines]
      refine List.filter_eq_self.mpr fun l hl => ?_
      obtain ⟨reference, -, rfl⟩ := List.mem_map.mp hl
      simp [FindReference.line, FindLine.refersTo]
  · rw [if_neg heq]
    split
    · rfl
    · refine List.filter_eq_nil_iff.mpr fun l hl => ?_
      obtain ⟨reference, -, rfl⟩ := List.mem_map.mp hl
      simp [FindReference.line, FindLine.refersTo, heq]

/-- **The lines that refer to a marked address** are those of its notes. -/
theorem filter_flatMap_lines {list : List FindReferent} {a : ℕ} (notes : List FindNote)
    (hnodup : (list.map FindReferent.addr).Nodup) (ha : a ∈ list.map FindReferent.addr)
    (hfresh : ∀ r ∈ list, r.references = []) :
    (((list.map (FindReferent.collect notes)).flatMap FindReferent.lines).filter
      (FindLine.refersTo a)) = noteLines a notes := by
  induction list with
  | nil => cases ha
  | cons r list ih =>
    obtain ⟨hnotin, hrest⟩ := List.nodup_cons.mp hnodup
    have hothers : ∀ {list' : List FindReferent}, (∀ r' ∈ list', r'.references = []) →
        (∀ r' ∈ list', r'.addr ≠ a) →
        (((list'.map (FindReferent.collect notes)).flatMap FindReferent.lines).filter
          (FindLine.refersTo a)) = [] := by
      intro list' hfresh' hne
      rw [List.filter_flatMap, List.flatMap_map, List.flatMap_eq_nil_iff]
      intro r' hr'
      rw [filter_lines_collect a notes (hfresh' r' hr'), if_neg (hne r' hr')]
    rw [List.map_cons, List.flatMap_cons, List.filter_append,
      filter_lines_collect a notes (hfresh r List.mem_cons_self)]
    -- a marked address is in the list once
    by_cases heq : r.addr = a
    · have hne : ∀ r' ∈ list, r'.addr ≠ a := by
        rintro r' hr' rfl
        exact hnotin (heq ▸ List.mem_map_of_mem hr')
      rw [if_pos heq, hothers (fun r' hr' => hfresh r' (List.mem_cons_of_mem _ hr')) hne,
        List.append_nil]
    · rw [if_neg heq, List.nil_append]
      refine ih hrest ?_ fun r' hr' => hfresh r' (List.mem_cons_of_mem _ hr')
      rcases List.mem_cons.mp ha with rfl | ha
      · exact absurd rfl heq
      · exact ha

/-- An address is said to be unreferenced if no line refers to it. -/
theorem notReferred_mem_iff {list : List FindReferent} {a : ℕ}
    (hnodup : (list.map FindReferent.addr).Nodup) (ha : a ∈ list.map FindReferent.addr) :
    .notReferred a ∈ list.flatMap FindReferent.lines ↔
      ∀ l ∈ list.flatMap FindReferent.lines, l.refersTo a = false := by
  obtain ⟨r, hr, rfl⟩ := List.mem_map.mp ha
  have hunique : ∀ r' ∈ list, r'.addr = r.addr → r' = r := fun r' hr' heq =>
    List.inj_on_of_nodup_map hnodup hr' hr heq
  constructor
  · intro hmem l hl
    obtain ⟨r', hr', hmem'⟩ := List.mem_flatMap.mp hmem
    have hsame := r'.about_lines _ hmem'
    obtain rfl := hunique r' hr' (Option.some.inj hsame).symm
    -- its references are none
    have hnil : r'.references = [] := by
      by_contra hne
      rw [FindReferent.lines, if_neg hne] at hmem'
      obtain ⟨reference, -, heq⟩ := List.mem_map.mp hmem'
      cases heq
    obtain ⟨r'', hr'', hl'⟩ := List.mem_flatMap.mp hl
    by_contra hrefers
    have habout := r''.about_lines l hl'
    cases l <;> simp [FindLine.refersTo, FindLine.about] at hrefers habout
    obtain rfl := hunique r'' hr'' (habout.symm.trans hrefers)
    rw [FindReferent.lines, if_pos hnil] at hl'
    simp at hl'
  · intro hnone
    refine List.mem_flatMap.mpr ⟨r, hr, ?_⟩
    have hnil : r.references = [] := by
      by_contra hne
      obtain ⟨reference, hreference⟩ := List.exists_mem_of_ne_nil _ hne
      have hline : r.lines = r.references.map (FindReference.line r.addr) := by
        rw [FindReferent.lines, if_neg hne]
      have hmem : FindReference.line r.addr reference ∈ list.flatMap FindReferent.lines :=
        List.mem_flatMap.mpr ⟨r, hr, hline ▸ List.mem_map_of_mem hreference⟩
      have := hnone _ hmem
      simp [FindReference.line, FindLine.refersTo] at this
    rw [FindReferent.lines, if_pos hnil]
    exact List.mem_singleton_self _

/-! ### What is reported of an instance -/

/-- The notes for an instance, by what the scan has taken it for. -/
def kindNotes (e : ℕ × FindKind) : List FindNote :=
  if e.2 = .array ∧ jsarrayLength t e.1 ≠ 0 then arrayNotes t e.1 else propsNotes t e.1

/-- What is reported of an instance and an address. -/
def reportedHows (a : ℕ) (e : ℕ × FindKind) : List FindHow :=
  (kindNotes t e).filterMap fun note => if note.1 = a then some note.2.how else none

/-- The signature that a visit enters says whether its group is one of arrays. -/
theorem enteredAt_cases (v : FindRange × ℕ) :
    (enteredAt t v = none ∧ knownInstance t v = none) ∨
      ∃ sig kind, enteredAt t v = some (v.2, sig) ∧ knownInstance t v = some (v.2, kind) ∧
        (sig.isArrays = true ↔ kind = .array ∧ jsarrayLength t v.2 ≠ 0) ∧
        (kind = .array → ∃ obj, FoundArray t v.2 obj) := by
  unfold enteredAt knownInstance
  cases hitem : scanItem t v with
  | none => exact .inl ⟨rfl, rfl⟩
  | some item =>
    cases item with
    | nothing => exact .inl ⟨rfl, rfl⟩
    | function func => exact .inl ⟨rfl, rfl⟩
    | object obj =>
      refine .inr ?_
      obtain ⟨-, ⟨hkind, hnprops⟩ | ⟨hkind, hfound⟩⟩ := scanItem_spec t hitem
      · refine ⟨obj.toFindSignature, .object, rfl, by rw [hkind]; rfl, ?_, nofun⟩
        -- without properties there is no number of them
        rw [isArrays_iff]
        refine iff_of_false ?_ nofun
        rintro ⟨hne, hnil⟩
        rw [hnil] at hnprops
        exact hne hnprops
      · refine ⟨obj.toFindSignature, .array, rfl, by rw [hkind]; rfl, ?_, fun _ => ⟨obj, hfound⟩⟩
        rw [isArrays_iff, jsarrayLength, hfound.length]
        simp [hfound.props]

/-- The notes for what has been entered are those for the known instances. -/
theorem flatMap_entered (visits : List (FindRange × ℕ)) :
    ((visits.filterMap (enteredAt t)).flatMap fun e => instanceNotes t e.2 e.1) =
      (visits.filterMap (knownInstance t)).flatMap (kindNotes t) := by
  induction visits with
  | nil => rfl
  | cons v visits ih =>
    rcases enteredAt_cases t v with ⟨hentered, hknown⟩ | ⟨sig, kind, hentered, hknown, harrays, -⟩
    · rw [List.filterMap_cons_none hentered, List.filterMap_cons_none hknown, ih]
    · rw [List.filterMap_cons_some hentered, List.filterMap_cons_some hknown, List.flatMap_cons,
        List.flatMap_cons, ih]
      congr 1
      unfold instanceNotes kindNotes
      simp only [harrays]

/-- The arrays of which a search looks at the block. -/
theorem forall_entered_iff (visits : List (FindRange × ℕ)) (P : ℕ → Prop) :
    (∀ e ∈ visits.filterMap (enteredAt t), e.2.isArrays = true → P e.1) ↔
      ∀ e ∈ visits.filterMap (knownInstance t), e.2 = .array → jsarrayLength t e.1 ≠ 0 → P e.1 := by
  induction visits with
  | nil => simp
  | cons v visits ih =>
    rcases enteredAt_cases t v with ⟨hentered, hknown⟩ | ⟨sig, kind, hentered, hknown, harrays, -⟩
    · rw [List.filterMap_cons_none hentered, List.filterMap_cons_none hknown, ih]
    · rw [List.filterMap_cons_some hentered, List.filterMap_cons_some hknown, List.forall_mem_cons,
        List.forall_mem_cons, ih]
      simp only [harrays, and_imp]

/-- The holder of a note is the instance that it has been made for. -/
theorem addr_of_mem_kindNotes {e : ℕ × FindKind} {note : FindNote} (h : note ∈ kindNotes t e) :
    note.2.addr = e.1 := by
  unfold kindNotes at h
  split at h
  · unfold arrayNotes at h
    split at h
    · cases h
    · obtain ⟨x, -, rfl⟩ := List.mem_map.mp h
      rfl
  · obtain ⟨prop, -, hprop⟩ := List.mem_filterMap.mp h
    unfold propNote at hprop
    split at hprop
    · obtain rfl := Option.some.inj hprop
      rfl
    · cases hprop

theorem noteLines_kindNotes (a : ℕ) (e : ℕ × FindKind) :
    noteLines a (kindNotes t e) = (reportedHows t a e).map (.referred a e.1) := by
  unfold noteLines reportedHows
  rw [List.map_filterMap]
  refine List.filterMap_congr fun note hnote => ?_
  rw [addr_of_mem_kindNotes t hnote]
  split <;> rfl

/-- **What is reported of an object** is what should be. -/
theorem filterMap_propsNotes (a addr : ℕ) :
    ((propsNotes t addr).filterMap fun note => if note.1 = a then some note.2.how else none) =
      propHows t a addr := by
  unfold propsNotes propHows
  rw [List.filterMap_filterMap]
  refine List.filterMap_congr fun prop _ => ?_
  obtain ⟨name, val⟩ := prop
  cases val with
  | none => rfl
  | some val =>
    cases val with
    | double w => rfl
    | addr w =>
      by_cases hw : w = a
      · simp [propNote, hw, FindReference.how]
      · simp [propNote, hw]

theorem reportedHows_object {a : ℕ} {e : ℕ × FindKind} (h : e.2 ≠ .array) :
    reportedHows t a e = expectedHows t a e := by
  obtain ⟨addr, kind⟩ := e
  unfold reportedHows kindNotes
  rw [if_neg fun harray => h harray.1, filterMap_propsNotes]
  cases kind with
  | function => rfl
  | object => rfl
  | array => exact absurd rfl h

/-- The notes for the words of an array that are an address. -/
theorem filterMap_eltNotes (a holder : ℕ) (elts : List ℕ) :
    ((eltNotes holder 0 elts).filterMap fun note => if note.1 = a then some note.2.how else none) =
      ((List.range elts.length).filter fun i => elts[i]? == some a).map
        fun (i : ℕ) => FindHow.index (toInt32 i) := by
  induction elts using List.reverseRecOn with
  | nil => rfl
  | append_singleton elts w ih =>
    have hnotes : eltNotes holder 0 (elts ++ [w]) = eltNotes holder 0 elts ++
        [(w, { addr := holder, desc := none, index := elts.length })] := by
      unfold eltNotes
      rw [List.zipIdx_append, List.map_append]
      simp
    have hfilter : ((List.range elts.length).filter fun i => (elts ++ [w])[i]? == some a) =
        (List.range elts.length).filter fun i => elts[i]? == some a := by
      refine List.filter_congr fun i hi => ?_
      rw [List.getElem?_append_left (List.mem_range.mp hi)]
    rw [hnotes, List.filterMap_append, ih, List.length_append, List.length_singleton,
      List.range_succ, List.filter_append, hfilter, List.map_append]
    congr 1
    by_cases hw : w = a <;> simp [hw, FindReference.how]

/-- **What is reported of an array** of some length: every element of its block. -/
theorem reportedHows_array {a addr : ℕ} (hlen : jsarrayLength t addr ≠ 0)
    (hfits : BlockFits t addr) :
    reportedHows t a (addr, .array) =
      match elementsBlock t addr with
      | none => []
      | some arr => ((List.range arr.len).filter fun i => elementWord t addr i == some a).map
          fun (i : ℕ) => .index (toInt32 i) := by
  unfold reportedHows kindNotes arrayNotes
  rw [if_pos ⟨rfl, hlen⟩]
  change List.filterMap _ (match elementsBlock t addr with
    | none => []
    | some arr => eltNotes addr 0 (arr.elts.take arr.len)) = _
  cases harr : elementsBlock t addr with
  | none => rfl
  | some arr =>
    obtain ⟨hlength, hwords⟩ := elementWord_eq t harr hfits
    dsimp only
    rw [List.take_of_length_le (by omega), filterMap_eltNotes, hlength]
    congr 1
    -- an element is reported if its word is the address
    refine List.filter_congr fun i hi => ?_
    have hi' : i < arr.elts.length := by
      rw [hlength]
      exact List.mem_range.mp hi
    rw [hwords i hi', List.getElem?_eq_getElem hi']

/-! ### One instance -/

theorem toInt32_lt (i : ℕ) : toInt32 i < 2 ^ 31 := by
  unfold toInt32
  split <;> omega

/-- Indexes below two bounds, with the one printed as an `int`: the lists agree if there is no index
between the bounds, and each can be printed. -/
theorem filter_range_perm_iff {n len : ℕ} (hle : n ≤ len) (p : ℕ → Bool) :
    (((List.range len).filter p).map fun (i : ℕ) => FindHow.index (toInt32 i)).Perm
        (((List.range n).filter p).map fun (i : ℕ) => FindHow.index i) ↔
      (∀ i, n ≤ i → i < len → p i = false) ∧ ∀ i < n, p i = true → i < 2 ^ 31 := by
  have hsplit : (List.range len).filter p =
      (List.range n).filter p ++ (List.range' n (len - n)).filter p := by
    have happend := List.range'_append_1 (s := 0) (m := n) (n := len - n)
    rw [Nat.zero_add, Nat.add_sub_cancel' hle] at happend
    rw [← List.filter_append, List.range_eq_range', List.range_eq_range', happend]
  constructor
  · intro hperm
    have hlength := hperm.length_eq
    rw [List.length_map, List.length_map, hsplit, List.length_append] at hlength
    have hnone : (List.range' n (len - n)).filter p = [] := List.eq_nil_of_length_eq_zero (by omega)
    refine ⟨fun i hi hlt => ?_, fun i hi hpi => ?_⟩
    · have := List.filter_eq_nil_iff.mp hnone i (List.mem_range'_1.mpr ⟨hi, by omega⟩)
      simpa using this
    · -- the index is printed for some index
      have hmem : FindHow.index i ∈ ((List.range n).filter p).map fun (i : ℕ) => FindHow.index i :=
        List.mem_map.mpr ⟨i, List.mem_filter.mpr ⟨List.mem_range.mpr hi, hpi⟩, rfl⟩
      obtain ⟨j, -, hj⟩ := List.mem_map.mp (hperm.mem_iff.mpr hmem)
      have hint : toInt32 j = i := FindHow.index.inj hj
      have hlt := toInt32_lt j
      rw [hint] at hlt
      exact_mod_cast hlt
  · rintro ⟨hspare, hprinted⟩
    have hnone : (List.range' n (len - n)).filter p = [] := by
      refine List.filter_eq_nil_iff.mpr fun i hi => ?_
      obtain ⟨hi, hlt⟩ := List.mem_range'_1.mp hi
      simp [hspare i hi (by omega)]
    rw [hsplit, hnone, List.append_nil]
    refine List.Perm.of_eq (List.map_congr_left fun i hi => ?_)
    obtain ⟨hi, hpi⟩ := List.mem_filter.mp hi
    rw [toInt32_of_lt (hprinted i (List.mem_range.mp hi) hpi)]

/-- **What is reported of an array** is what should be if the condition holds. -/
theorem reportedHows_array_iff {a addr : ℕ} (hfound : ∃ obj, FoundArray t addr obj)
    (hfits : jsarrayLength t addr ≠ 0 → BlockFits t addr) :
    (reportedHows t a (addr, .array)).Perm (expectedHows t a (addr, .array)) ↔
      ArrayExact t a addr := by
  obtain ⟨obj, hobj⟩ := hfound
  change (reportedHows t a (addr, .array)).Perm (arrayHows t a addr) ↔ _
  by_cases hlen : jsarrayLength t addr = 0
  · -- an array of length zero is taken for an object
    have hreported : reportedHows t a (addr, .array) = propHows t a addr := by
      unfold reportedHows kindNotes
      rw [if_neg fun h => h.2 hlen, filterMap_propsNotes]
    have hexpected : arrayHows t a addr = [] := by
      unfold arrayHows
      rw [hlen]
      rfl
    rw [hreported, hexpected, List.perm_nil, propHows, List.filterMap_eq_nil_iff]
    constructor
    · intro hnone
      refine ⟨fun i hi => ?_, fun hne => absurd hlen hne, fun i hi => ?_, fun _ prop hprop => ?_⟩
      · rw [hlen] at hi
        exact absurd hi (Nat.not_lt_zero i)
      · rw [hlen] at hi
        exact absurd hi (Nat.not_lt_zero i)
      · have := hnone prop hprop
        simpa using this
    · intro hexact prop hprop
      simpa using hexact.empty hlen prop hprop
  · rw [reportedHows_array t hlen (hfits hlen)]
    cases harr : elementsBlock t addr with
    | none =>
      -- nothing is reported
      dsimp only
      rw [List.nil_perm, arrayHows, List.map_eq_nil_iff, List.filter_eq_nil_iff]
      constructor
      · intro hnone
        have hno : ∀ i < jsarrayLength t addr, elementWord t addr i ≠ some a := fun i hi h =>
          hnone i (List.mem_range.mpr hi) (by simpa using h)
        refine ⟨fun i hi h => absurd h (hno i hi), fun _ arr h => ?_,
          fun i hi h => absurd h (hno i hi), fun h => absurd h hlen⟩
        rw [harr] at h
        cases h
      · intro hexact i hi h
        have hsome := hexact.readable i (List.mem_range.mp hi) (by simpa using h)
        rw [harr] at hsome
        cases hsome
    | some arr =>
      -- the block is at least as long as the array
      have hle : jsarrayLength t addr ≤ arr.len := by
        obtain ⟨ptr, nelems, hptr, hnelems, hle⟩ := hobj.elements
        have hread : t.readHeapArray ptr = some arr := by
          unfold elementsBlock at harr
          rwa [hptr, Option.bind_some] at harr
        have hsame := (t.readHeapArray_elts hread).2.1
        rw [hnelems] at hsame
        obtain rfl := Option.some.inj hsame
        rwa [jsarrayLength, hobj.length]
      dsimp only
      rw [arrayHows, filter_range_perm_iff hle]
      constructor
      · -- nothing is reported of the words behind the array, and nothing is missing
        rintro ⟨hspare, hprinted⟩
        refine ⟨fun _ _ _ => ?_, fun _ arr' harr' i hi hlt => ?_, fun i hi h => ?_,
          fun h => absurd h hlen⟩
        · rw [harr]
          rfl
        · rw [harr] at harr'
          obtain rfl := Option.some.inj harr'
          simpa using hspare i hi hlt
        · exact hprinted i hi (by simpa using h)
      · intro hexact
        exact ⟨fun i hi hlt => by simpa using hexact.spare hlen arr harr i hi hlt,
          fun i hi h => hexact.printed i hi (by simpa using h)⟩

/-! ### All the instances -/

/-- Two sums of a list that agree, with terms that agree but for one, have that term in common. -/
theorem eq_of_sum_map_eq {α : Type} [DecidableEq α] {xs : List α} {f g : α → ℕ} {x : α} (hx : x ∈ xs)
    (hne : ∀ y ∈ xs, y ≠ x → f y = g y) (hsum : (xs.map f).sum = (xs.map g).sum) : f x = g x := by
  have hcount : ∀ ys : List α, (∀ y ∈ ys, y ≠ x → f y = g y) →
      (ys.map f).sum + ys.count x * g x = (ys.map g).sum + ys.count x * f x := by
    intro ys
    induction ys with
    | nil => simp
    | cons y ys ih =>
      intro hys
      have hrest := ih fun z hz => hys z (List.mem_cons_of_mem _ hz)
      rw [List.map_cons, List.map_cons, List.sum_cons, List.sum_cons]
      by_cases hyx : y = x
      · subst hyx
        rw [List.count_cons_self, Nat.add_mul, Nat.add_mul]
        omega
      · rw [List.count_cons_of_ne hyx, hys y List.mem_cons_self hyx]
        omega
  have hboth := hcount xs hne
  rw [hsum] at hboth
  exact (Nat.eq_of_mul_eq_mul_left (List.count_pos_iff.mpr hx) (Nat.add_left_cancel hboth)).symm

/-- The reports of all the instances agree if those of each instance do. -/
theorem flatMap_perm_iff {a : ℕ} {known : List (ℕ × FindKind)} {f g : ℕ × FindKind → List FindHow}
    (hsame : ∀ e ∈ known, e.2 ≠ .array → f e = g e) :
    (known.flatMap fun e => (f e).map (FindLine.referred a e.1)).Perm
        (known.flatMap fun e => (g e).map (FindLine.referred a e.1)) ↔
      ∀ e ∈ known, (f e).Perm (g e) := by
  constructor
  · intro hperm e he
    by_cases harray : e.2 = .array
    · refine List.perm_iff_count.mpr fun how => ?_
      -- the lines of this holder and this place
      have hline : ∀ (k : ℕ × FindKind → List FindHow) (e' : ℕ × FindKind),
          ((k e').map (FindLine.referred a e'.1)).count (.referred a e.1 how) =
            if e'.1 = e.1 then (k e').count how else 0 := by
        intro k e'
        by_cases heq : e'.1 = e.1
        · rw [if_pos heq, heq]
          exact List.count_map_of_injective _ _ (fun _ _ h => (FindLine.referred.inj h).2.2) how
        · rw [if_neg heq, List.count_eq_zero]
          intro hmem
          obtain ⟨_, -, h⟩ := List.mem_map.mp hmem
          exact heq (FindLine.referred.inj h).2.1
      have hsum := hperm.count_eq (FindLine.referred a e.1 how)
      rw [List.count_flatMap, List.count_flatMap] at hsum
      have hone := eq_of_sum_map_eq he (fun e' he' hne => ?_) hsum
      · simpa [Function.comp_def, hline] using hone
      · -- the other instances make no difference
        simp only [Function.comp_def, hline]
        by_cases heq : e'.1 = e.1
        · have hkind : e'.2 ≠ .array := fun h => hne (Prod.ext heq (h.trans harray.symm))
          rw [if_pos heq, if_pos heq, hsame e' he' hkind]
        · rw [if_neg heq, if_neg heq]
    · rw [hsame e he harray]
  · intro hall
    induction known with
    | nil => exact .refl _
    | cons e known ih =>
      rw [List.flatMap_cons, List.flatMap_cons]
      exact ((hall e List.mem_cons_self).map _).append
        (ih (fun e' he' => hsame e' (List.mem_cons_of_mem _ he'))
          fun e' he' => hall e' (List.mem_cons_of_mem _ he'))

/-! ### The search -/

variable {L : FindLib t.cfg} {p : ScanParams} {maps : List Prmap} {scan : FindScan L}
  {fjs : FindState L}

/-- The instances of the groups, after a complete scan. -/
theorem knownOf_groups
    (hscan : findjsobjectsIter t p maps { cache := .empty, stats := {} } = some scan)
    (hcache : fjs.cache.entries = scan.cache.sort.entries) :
    (knownOf fjs.cache.groups).Perm ((scanVisits t p maps).filterMap (enteredAt t)) := by
  rw [groups_of_entries hcache]
  exact (scanKnown_of_scan t hscan).groups

/-- **The search comes to its end** if the blocks of the arrays fit. -/
theorem search_isOk_iff
    (hscan : findjsobjectsIter t p maps { cache := .empty, stats := {} } = some scan)
    (hcache : fjs.cache.entries = scan.cache.sort.entries) :
    (∃ refs, fjs.cache.groups.foldlM (findjsobjectsReferencesGroup t) fjs.refs = .ok refs) ↔
      ∀ e ∈ knownInstances t p maps, e.2 = .array → jsarrayLength t e.1 ≠ 0 → BlockFits t e.1 := by
  rw [groups_isOk_iff]
  have hmem : (∀ obj ∈ fjs.cache.groups, obj.isArrays = true → ∀ addr ∈ obj.instances,
      ArrayFits t addr) ↔ ∀ e ∈ knownOf fjs.cache.groups, e.2.isArrays = true → BlockFits t e.1 := by
    constructor
    · intro h e he harrays
      obtain ⟨obj, hobj, he⟩ := List.mem_flatMap.mp he
      obtain ⟨addr, haddr, rfl⟩ := List.mem_map.mp he
      exact (arrayFits_iff t addr).mp (h obj hobj harrays addr haddr)
    · intro h obj hobj harrays addr haddr
      exact (arrayFits_iff t addr).mpr (h (addr, obj.toFindSignature)
        (List.mem_flatMap.mpr ⟨obj, hobj, List.mem_map_of_mem haddr⟩) harrays)
  rw [hmem, knownInstances, ← forall_entered_iff]
  exact forall_congr' fun e => imp_congr_left (knownOf_groups t hscan hcache).mem_iff

/-- **What a search reports of a marked address**: the reports of all the known instances. -/
theorem search_reports
    (hscan : findjsobjectsIter t p maps { cache := .empty, stats := {} } = some scan)
    (hcache : fjs.cache.entries = scan.cache.sort.entries) (hmarks : fjs.refs.Marks)
    (hfresh : ∀ r ∈ fjs.refs.list, r.references = []) {refs : FindRefs L}
    (hok : fjs.cache.groups.foldlM (findjsobjectsReferencesGroup t) fjs.refs = .ok refs) {a : ℕ}
    (ha : a ∈ fjs.refs.addrs) :
    ((refs.list.flatMap FindReferent.lines).filter (FindLine.refersTo a)).Perm
      ((knownInstances t p maps).flatMap fun e => (reportedHows t a e).map (.referred a e.1)) := by
  have hcollects := (collects_groups t hok hmarks).2
  rw [hcollects, filter_flatMap_lines _ hmarks.nodup ha hfresh]
  -- the notes of the groups are those of the known instances
  have hnotes : (fjs.cache.groups.flatMap fun obj =>
      obj.instances.flatMap (instanceNotes t obj.toFindSignature)).Perm
      ((knownInstances t p maps).flatMap (kindNotes t)) := by
    have hknown : (fjs.cache.groups.flatMap fun obj =>
        obj.instances.flatMap (instanceNotes t obj.toFindSignature)) =
        (knownOf fjs.cache.groups).flatMap fun e => instanceNotes t e.2 e.1 := by
      unfold knownOf FindObj.known
      rw [List.flatMap_assoc]
      simp only [List.flatMap_map]
    rw [hknown, knownInstances, ← flatMap_entered]
    exact (knownOf_groups t hscan hcache).flatMap_right _
  have hlines : noteLines a ((knownInstances t p maps).flatMap (kindNotes t)) =
      (knownInstances t p maps).flatMap fun e => (reportedHows t a e).map (.referred a e.1) := by
    simp only [← noteLines_kindNotes]
    exact List.filterMap_flatMap
  rw [← hlines]
  exact hnotes.filterMap _

/-- **References are exact**, after a complete scan and for any marks, if and only if the block of no
array is longer than a block can be, and the condition holds of each array and each marked address. -/
theorem referencesExact_iff
    (hscan : findjsobjectsIter t p maps { cache := .empty, stats := {} } = some scan)
    (hcache : fjs.cache.entries = scan.cache.sort.entries) (hmarks : fjs.refs.Marks)
    (hfresh : ∀ r ∈ fjs.refs.list, r.references = []) :
    ReferencesExact t p maps fjs ↔
      (∀ e ∈ knownInstances t p maps, e.2 = .array → jsarrayLength t e.1 ≠ 0 → BlockFits t e.1) ∧
      ∀ a ∈ fjs.refs.addrs, ∀ e ∈ knownInstances t p maps, e.2 = .array → ArrayExact t a e.1 := by
  have hfound : ∀ e ∈ knownInstances t p maps, e.2 = .array → ∃ obj, FoundArray t e.1 obj := by
    intro e he harray
    obtain ⟨v, -, hv⟩ := List.mem_filterMap.mp he
    rcases enteredAt_cases t v with ⟨-, hknown⟩ | ⟨sig, kind, -, hknown, -, hfound⟩
    · rw [hknown] at hv
      cases hv
    · rw [hknown] at hv
      obtain rfl := Option.some.inj hv
      exact hfound harray
  -- what the search makes of one address
  have hone : (∀ e ∈ knownInstances t p maps, e.2 = .array → jsarrayLength t e.1 ≠ 0 →
      BlockFits t e.1) → ∀ a, (((knownInstances t p maps).flatMap fun e =>
        (reportedHows t a e).map (.referred a e.1)).Perm (expectedReports t p maps a) ↔
      ∀ e ∈ knownInstances t p maps, e.2 = .array → ArrayExact t a e.1) := by
    intro hfits a
    unfold expectedReports
    rw [flatMap_perm_iff fun e _ hkind => reportedHows_object t hkind]
    refine forall₂_congr fun e he => ?_
    obtain ⟨addr, kind⟩ := e
    by_cases harray : kind = .array
    · subst harray
      rw [reportedHows_array_iff t (hfound _ he rfl) (hfits _ he rfl)]
      exact ⟨fun h _ => h, fun h => h rfl⟩
    · rw [reportedHows_object t harray]
      exact iff_of_true (.refl _) fun h => absurd h harray
  unfold ReferencesExact findjsobjectsReferences
  constructor
  · -- the search has not stopped, so every array fits, and the lines are those of the notes
    rintro ⟨lines, fjs', hsearch, hexact⟩
    cases hok : fjs.cache.groups.foldlM (findjsobjectsReferencesGroup t) fjs.refs with
    | error fault =>
      rw [hok] at hsearch
      cases hsearch
    | ok refs =>
      rw [hok] at hsearch
      obtain ⟨rfl, -⟩ := Prod.mk.inj (Except.ok.inj hsearch)
      have hfits := (search_isOk_iff t hscan hcache).mp ⟨refs, hok⟩
      refine ⟨hfits, fun a ha => (hone hfits a).mp ?_⟩
      exact (search_reports t hscan hcache hmarks hfresh hok ha).symm.trans (hexact a ha).1
  · -- the search does not stop, and it reports the notes
    rintro ⟨hfits, hall⟩
    obtain ⟨refs, hok⟩ := (search_isOk_iff t hscan hcache).mpr hfits
    rw [hok]
    refine ⟨_, _, rfl, fun a ha => ⟨?_, ?_⟩⟩
    · exact (search_reports t hscan hcache hmarks hfresh hok ha).trans
        ((hone hfits a).mpr (hall a ha))
    · have haddrs := (collects_groups t hok).addrs_eq hmarks
      have hnodup : (refs.list.map FindReferent.addr).Nodup := by
        change refs.addrs.Nodup
        rw [haddrs]
        exact hmarks.nodup
      refine notReferred_mem_iff hnodup ?_
      change a ∈ refs.addrs
      rwa [haddrs]

end Exact

/-! ### References of two arrays -/

/-- The state after a scan of the two arrays, with one address marked. -/
def arraysMarked (a : ℕ) : FindState (.lists arraysTarget.cfg) :=
  { FindState.init (.lists arraysTarget.cfg) with
    cache := arraysCache.sort
    refs := { addr := 0, tree := [(a, 0)], list := [{ addr := a }] }
    initialized := true
    finished := true }

/-- What their scan depends on. -/
def arraysParams : ScanParams := { brk := false, addr := 0, outside := fun _ _ => 0 }

/-- The two arrays are known. -/
theorem knownInstances_arrays : knownInstances arraysTarget arraysParams [arraysMapping] =
    [(0x2001, .array), (0x2011, .array)] := by
  obtain ⟨range, hfilter, hnone, hkind⟩ := arraysTarget_finds (p := arraysParams) rfl
  have hvisits : scanVisits arraysTarget arraysParams [arraysMapping] =
      mappingVisits arraysTarget arraysParams arraysMapping := by simp [scanVisits]
  have hfound : (mappingVisits arraysTarget arraysParams arraysMapping).filterMap
      (knownInstance arraysTarget) =
      ((mappingVisits arraysTarget arraysParams arraysMapping).filter fun v =>
        decide (v.2 ∈ [0x2001, 0x2011])).filterMap (knownInstance arraysTarget) := by
    rw [List.filterMap_filter]
    refine List.filterMap_congr fun v hv => ?_
    split
    · rfl
    · next hnot =>
      unfold knownInstance scanItem
      rw [hnone v hv (by simpa using hnot)]
      rfl
  -- the two addresses with the type of an array are known as arrays
  have hknown : ∀ addr ∈ [0x2001, 0x2011], knownInstance arraysTarget (range, addr) =
      some (addr, .array) := by
    intro addr haddr
    have harray : ∀ addr ∈ [0x2001, 0x2011], typebyteKind arraysTarget addr = some .array := by
      decide +kernel
    unfold knownInstance scanItem
    dsimp only
    rw [hkind addr haddr, arraysTarget_kindItem addr haddr, harray addr haddr]
    rfl
  rw [knownInstances, hvisits, hfound, hfilter, List.filterMap_map]
  exact List.filterMap_congr fun addr haddr => hknown addr haddr

/-- The references to the first of the arrays are reported exactly. -/
theorem referencesExact_arrays :
    ReferencesExact arraysTarget arraysParams [arraysMapping] (arraysMarked 0x2001) := by
  obtain ⟨scan, hscan, hcache⟩ := arraysTarget_scan (p := arraysParams) rfl
    { cache := .empty, stats := {} } rfl
  have hblocks : elementsBlock arraysTarget 0x2001 = some { len := 2, elts := [0x0e, 0x2011] } ∧
      elementsBlock arraysTarget 0x2011 = some { len := 1, elts := [0x2001] } := by
    decide +kernel
  have hlength : jsarrayLength arraysTarget 0x2001 = 1 ∧ jsarrayLength arraysTarget 0x2011 = 1 := by
    decide +kernel
  have hmarks : (arraysMarked 0x2001).refs.Marks := by
    have hadd := Lib.Avl.Indexes.add (k := 0x2001) (Lib.Avl.Indexes.create
      (A := (FindLib.lists arraysTarget.cfg).referents)) rfl
    exact hadd
  refine (referencesExact_iff arraysTarget hscan ?_ hmarks (by decide)).mpr ⟨?_, ?_⟩
  · -- what the scan has found are the two arrays
    rw [hcache]
    rfl
  · rw [knownInstances_arrays]
    intro e he _ _ arr harr
    have hlen : arr.len < 3 := by
      -- the first array refers to the second one, and not the other way
      rcases List.mem_pair.mp he with rfl | rfl
      · obtain rfl := Option.some.inj (harr.symm.trans hblocks.1)
        decide
      · obtain rfl := Option.some.inj (harr.symm.trans hblocks.2)
        decide
    change arr.len * 4 < 2 ^ 32
    omega
  · rw [knownInstances_arrays]
    intro a ha e he _
    obtain rfl : a = 0x2001 := List.mem_singleton.mp ha
    rcases List.mem_pair.mp he with rfl | rfl
    · refine ⟨fun _ _ _ => by rw [hblocks.1]; rfl, ?_, by rw [hlength.1]; omega, by simp [hlength.1]⟩
      intro _ arr harr i hi hlt
      obtain rfl := Option.some.inj (harr.symm.trans hblocks.1)
      -- behind the first element is the second array
      obtain rfl : i = 1 := by
        rw [hlength.1] at hi
        dsimp only at hlt
        omega
      decide +kernel
    · refine ⟨fun _ _ _ => by rw [hblocks.2]; rfl, ?_, by rw [hlength.2]; omega, by simp [hlength.2]⟩
      intro _ arr harr i hi hlt
      obtain rfl := Option.some.inj (harr.symm.trans hblocks.2)
      rw [hlength.2] at hi
      dsimp only at hlt
      omega

/-- The word behind the first of the arrays is reported as a reference to the second. -/
theorem not_referencesExact_spare :
    (∃ scan, findjsobjectsIter arraysTarget arraysParams [arraysMapping]
        { cache := .empty, stats := {} } = some scan ∧
      (arraysMarked 0x2011).cache.entries = scan.cache.sort.entries) ∧
    ¬ ReferencesExact arraysTarget arraysParams [arraysMapping] (arraysMarked 0x2011) := by
  constructor
  · obtain ⟨scan, hscan, hcache⟩ := arraysTarget_scan (p := arraysParams) rfl
      { cache := .empty, stats := {} } rfl
    exact ⟨scan, hscan, by rw [hcache]; rfl⟩
  · rintro ⟨lines, fjs', hsearch, hexact⟩
    have hlines : (findjsobjectsReferences arraysTarget (arraysMarked 0x2011)).map Prod.fst =
        .ok [.referred 0x2011 0x2001 (.index 1)] := by
      decide +kernel
    rw [hsearch] at hlines
    obtain rfl : lines = _ := Except.ok.inj hlines
    have hnone : expectedReports arraysTarget arraysParams [arraysMapping] 0x2011 = [] := by
      rw [expectedReports, knownInstances_arrays]
      decide +kernel
    have hperm := (hexact 0x2011 (by decide)).1
    rw [hnone] at hperm
    exact absurd hperm.length_eq (by decide)

end MdbV8
