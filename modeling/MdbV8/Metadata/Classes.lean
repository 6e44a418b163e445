import MdbV8.Lib.Acyclic
import MdbV8.Metadata.Symbols
import MdbV8.Target.Tags

/-!
# The table of classes

The symbols of the fields and of the parents come in any order, and a class is created when it is
first mentioned, as the class of a field, as a child or as a parent. After the iteration the classes
are in the order of their names, and the fields of each in the order of their offsets (`Collected`),
and there is only one such table: so the order of the symbols makes no difference
(`Collected.unique`).

`autoconfigure` then computes where the fields of each class start and end. That takes the end of its
parent, which may not have been computed yet, and is then computed first. The recursion follows the
parents and ends because there is no cycle among them (`exists_classTable`).
-/

namespace MdbV8

open Relation Lib

/-! ### Declarations -/

/-- What a symbol declares: the parent of a class, or a field with its type and its offset. -/
inductive ClassDecl where
  | parent (klass parent : CStr)
  | field (klass field type : CStr) (offset : ℤ)
  deriving DecidableEq, Repr

namespace ClassDecl

/-- The symbol. -/
def symbol : ClassDecl → CStr
  | .parent klass par => "v8dbg_parent_".toList ++ (klass ++ '_' :: '_' :: par)
  | .field klass fld type _ =>
    "v8dbg_class_".toList ++ (klass ++ '_' :: '_' :: (fld ++ '_' :: '_' :: type))

/-- The classes that are named. -/
def names : ClassDecl → List CStr
  | .parent klass par => [klass, par]
  | .field klass _ _ _ => [klass]

/-- A part of a symbol ends at the first double underscore: there is none in it, and none begins with
its last character. -/
def FirstPart (part : CStr) : Prop := ¬ ['_', '_'] <:+: part ++ ['_']

/-- The names are separated by the double underscores, and fit the buffers. -/
def WellFormed (d : ClassDecl) : Prop :=
  d.symbol.length < confBufSize ∧
    match d with
    | .parent klass par =>
      FirstPart klass ∧ klass.length < confNameSize ∧ par.length < confNameSize
    | .field klass fld _ offset =>
      FirstPart klass ∧ klass.length < confNameSize ∧ FirstPart fld ∧
        fld.length < confNameSize ∧ 0 ≤ offset

end ClassDecl

/-- Some declarations are well formed: each of them is, the offsets are integers of the size of a
pointer, the fields of a class have different names and offsets, a class has no more than one parent,
and no class is its own ancestor. -/
structure WellFormedDecls (m : DataModel) (ds : List ClassDecl) : Prop where
  each : ∀ d ∈ ds, d.WellFormed
  offset_lt : ∀ k f t off, ClassDecl.field k f t off ∈ ds → off < 2 ^ (m.bits - 1)
  fields : ds.Pairwise fun d d' => ∀ k f t off f' t' off', d = .field k f t off →
    d' = .field k f' t' off' → f ≠ f' ∧ off ≠ off'
  parents : ∀ k p p', ClassDecl.parent k p ∈ ds → ClassDecl.parent k p' ∈ ds → p = p'
  acyclic : ∀ k, ¬ TransGen (fun k p => ClassDecl.parent k p ∈ ds) k k

/-- The values of the symbols are the offsets. -/
def ReadsOffsets (readsym : Readsym) (ds : List ClassDecl) : Prop :=
  ∀ k f t off, ClassDecl.field k f t off ∈ ds →
    readsym (ClassDecl.field k f t off).symbol = some off

/-! ### Taking a symbol apart -/

/-- The first double underscore ends a part. -/
theorem confNextPart_append {part : CStr} (h : ClassDecl.FirstPart part) (rest : CStr) :
    confNextPart (part ++ '_' :: '_' :: rest) = some (part, rest) := by
  unfold ClassDecl.FirstPart at h
  induction part with
  | nil => rfl
  | cons c part ih =>
    have htail : ¬ ['_', '_'] <:+: part ++ ['_'] := fun hin =>
      h (hin.trans (List.suffix_cons c _).isInfix)
    have hih := ih htail
    rw [List.cons_append, confNextPart]
    · rw [hih]
      rfl
    · -- the part does not begin with a double underscore either
      rintro rest' rfl hrest
      refine h ?_
      cases part with
      | nil => exact ⟨[], [], rfl⟩
      | cons c' part =>
        rw [List.cons_append, List.cons.injEq] at hrest
        obtain ⟨rfl, -⟩ := hrest
        exact ⟨[], part ++ ['_'], rfl⟩

/-- Nothing but the first double underscore does: so every symbol that can be taken apart is that of
one declaration. -/
theorem confNextPart_eq_some_iff {s part rest : CStr} :
    confNextPart s = some (part, rest) ↔
      ClassDecl.FirstPart part ∧ s = part ++ '_' :: '_' :: rest := by
  constructor
  · intro h
    fun_induction confNextPart s generalizing part with
    | case1 rest' =>
      obtain ⟨rfl, rfl⟩ := Prod.mk.inj (Option.some.inj h)
      refine ⟨fun hin => ?_, rfl⟩
      have hlen := hin.length_le
      simp at hlen
    | case2 c tail hno ih =>
      obtain ⟨⟨part', rest'⟩, hpart', heq⟩ := Option.map_eq_some_iff.mp h
      obtain ⟨hp, hr⟩ := Prod.mk.inj heq
      dsimp only at hp hr
      subst hp hr
      obtain ⟨hfirst, rfl⟩ := ih hpart'
      refine ⟨fun hin => ?_, rfl⟩
      rw [List.cons_append] at hin
      rcases List.infix_cons_iff.mp hin with hpre | hin
      · -- the string does not begin with a double underscore
        cases part' with
        | nil =>
          rw [List.nil_append, List.cons_prefix_cons] at hpre
          exact hno ('_' :: rest') hpre.1.symm rfl
        | cons c' part' =>
          rw [List.cons_append, List.cons_prefix_cons, List.cons_prefix_cons] at hpre
          exact hno (part' ++ '_' :: '_' :: rest') hpre.1.symm
            (by rw [List.cons_append, ← hpre.2.1])
      · exact hfirst hin
    | case3 => cases h
  · rintro ⟨hfirst, rfl⟩
    exact confNextPart_append hfirst rest

theorem strlcpy_of_lt {size : ℕ} {src : CStr} (h : src.length < size) : strlcpy size src = src :=
  List.take_of_length_le (by omega)

/-- The offset that is compared is the offset. -/
theorem sizeT_of_nonneg {m : DataModel} {x : ℤ} (h0 : 0 ≤ x) (h : x < 2 ^ (m.bits - 1)) :
    (sizeT m x : ℤ) = x := by
  have hlt : x < 2 ^ m.bits := h.trans_le (by
    exact_mod_cast Nat.pow_le_pow_right (by decide) (Nat.sub_le _ _))
  unfold sizeT
  rw [Int.emod_eq_of_lt h0 hlt, Int.toNat_of_nonneg h0]

/-! ### Inserting a class -/

section Findcreate

variable {m : DataModel} {name : CStr} {classes : List ConfClass}

/-- The classes are in the order of their names, without duplicates. -/
def SortedByName (classes : List ConfClass) : Prop :=
  classes.Pairwise fun c c' => c.name < c'.name

/-- A class that has just been created. -/
def newClass (m : DataModel) (name : CStr) : ConfClass := { name, endOff := noEnd m }

/-- **`conf_class_findcreate`**: the class is there, and all the others are as they have been. -/
theorem mem_confClassFindcreate (hlen : name.length < confNameSize) (h : SortedByName classes)
    {c : ConfClass} :
    c ∈ confClassFindcreate m name classes ↔
      c ∈ classes ∨ (c = newClass m name ∧ ∀ c' ∈ classes, c'.name ≠ name) := by
  have hcopy : strlcpy confNameSize name = name := strlcpy_of_lt hlen
  induction classes with
  | nil =>
    rw [confClassFindcreate, hcopy]
    simp [newClass]
  | cons iclp rest ih =>
    obtain ⟨hfirst, hrest⟩ := List.pairwise_cons.mp h
    rw [confClassFindcreate]
    by_cases heq : iclp.name = name
    · rw [if_pos heq]
      refine ⟨.inl, ?_⟩
      rintro (hmem | ⟨-, hno⟩)
      · exact hmem
      · exact absurd heq (hno iclp List.mem_cons_self)
    rw [if_neg heq]
    by_cases hlt : name < iclp.name
    · -- the name lies before that of every class that is left
      have hno : ∀ c' ∈ iclp :: rest, c'.name ≠ name := by
        intro c' hc' hname
        rcases List.mem_cons.mp hc' with rfl | hc'
        · exact heq hname
        · exact lt_asymm hlt (hname ▸ hfirst c' hc')
      rw [if_pos hlt, hcopy, List.mem_cons]
      change c = newClass m name ∨ _ ↔ _
      constructor
      · rintro (hnew | hmem)
        · exact .inr ⟨hnew, hno⟩
        · exact .inl hmem
      · rintro (hmem | ⟨hnew, -⟩)
        · exact .inr hmem
        · exact .inl hnew
    · -- the name lies behind, and the induction hypothesis is for the rest of the list
      have hih : c ∈ confClassFindcreate m name rest ↔
          (c ∈ rest ∨ (c = newClass m name ∧ ∀ c' ∈ rest, c'.name ≠ name)) := ih hrest
      rw [if_neg hlt, List.mem_cons, hih, List.mem_cons]
      constructor
      · rintro (hfirst' | hmem | ⟨hnew, hno⟩)
        · exact .inl (.inl hfirst')
        · exact .inl (.inr hmem)
        · refine .inr ⟨hnew, fun c' hc' => ?_⟩
          rcases List.mem_cons.mp hc' with rfl | hc'
          · exact heq
          · exact hno c' hc'
      · rintro ((hfirst' | hmem) | ⟨hnew, hno⟩)
        · exact .inl hfirst'
        · exact .inr (.inl hmem)
        · exact .inr (.inr ⟨hnew, fun c' hc' => hno c' (List.mem_cons_of_mem _ hc')⟩)

theorem sortedByName_confClassFindcreate (hlen : name.length < confNameSize)
    (h : SortedByName classes) : SortedByName (confClassFindcreate m name classes) := by
  have hcopy : strlcpy confNameSize name = name := strlcpy_of_lt hlen
  induction classes with
  | nil => exact List.pairwise_singleton _ _
  | cons iclp rest ih =>
    obtain ⟨hfirst, hrest⟩ := List.pairwise_cons.mp h
    rw [confClassFindcreate]
    by_cases heq : iclp.name = name
    · rwa [if_pos heq]
    rw [if_neg heq]
    by_cases hlt : name < iclp.name
    · rw [if_pos hlt, hcopy]
      refine List.pairwise_cons.mpr ⟨fun c' hc' => ?_, h⟩
      rcases List.mem_cons.mp hc' with rfl | hc'
      · exact hlt
      · exact hlt.trans (hfirst c' hc')
    · rw [if_neg hlt]
      refine List.pairwise_cons.mpr ⟨fun c' hc' => ?_, ih hrest⟩
      rcases (mem_confClassFindcreate hlen hrest).mp hc' with hc' | ⟨rfl, -⟩
      · exact hfirst c' hc'
      · exact lt_of_le_of_ne (not_lt.mp hlt) heq

end Findcreate

/-! ### Assigning to a class -/

section Update

variable {clp : CStr} {f : ConfClass → ConfClass} {classes : List ConfClass}

theorem mem_updateClass {c : ConfClass} :
    c ∈ updateClass clp f classes ↔
      ∃ c₀ ∈ classes, c = if c₀.name = clp then f c₀ else c₀ := by
  unfold updateClass
  rw [List.mem_map]
  exact exists_congr fun c₀ => and_congr_right fun _ => eq_comm

/-- An assignment that does not change the name keeps the order. -/
theorem sortedByName_updateClass (hname : ∀ c, (f c).name = c.name) (h : SortedByName classes) :
    SortedByName (updateClass clp f classes) := by
  unfold SortedByName updateClass
  rw [List.pairwise_map]
  refine h.imp fun {c c'} hlt => ?_
  have hkeep : ∀ c, (if c.name = clp then f c else c).name = c.name := fun c => by
    split
    · exact hname c
    · rfl
  rwa [hkeep, hkeep]

end Update

/-! ### Inserting a field -/

section FieldCreate

variable {m : DataModel} {flp : ConfField} {fields : List ConfField}

/-- The fields are in the order of their offsets. -/
def SortedByOffset (fields : List ConfField) : Prop :=
  fields.Pairwise fun f f' => f.offset < f'.offset

/-- `conf_field_create` adds the field. -/
theorem mem_confFieldCreate {f : ConfField} :
    f ∈ confFieldCreate m flp fields ↔ f = flp ∨ f ∈ fields := by
  induction fields with
  | nil => simp [confFieldCreate]
  | cons iflp rest ih =>
    rw [confFieldCreate]
    split
    · rw [List.mem_cons]
    · rw [List.mem_cons, ih, List.mem_cons, or_left_comm]

/-- `conf_field_create` keeps the order. -/
theorem sortedByOffset_confFieldCreate (hsize : ∀ f ∈ flp :: fields, (sizeT m f.offset : ℤ) = f.offset)
    (hne : ∀ f ∈ fields, f.offset ≠ flp.offset) (h : SortedByOffset fields) :
    SortedByOffset (confFieldCreate m flp fields) := by
  induction fields with
  | nil => exact List.pairwise_singleton _ _
  | cons iflp rest ih =>
    obtain ⟨hfirst, hrest⟩ := List.pairwise_cons.mp h
    have hflp := hsize flp List.mem_cons_self
    have hiflp := hsize iflp (List.mem_cons_of_mem _ List.mem_cons_self)
    rw [confFieldCreate]
    -- the field goes in front of the first one with a larger offset
    split
    · next hgt =>
      refine List.pairwise_cons.mpr ⟨fun f hf => ?_, h⟩
      have hlt : flp.offset < iflp.offset := by omega
      rcases List.mem_cons.mp hf with rfl | hf
      · exact hlt
      · exact hlt.trans (hfirst f hf)
    · next hgt =>
      refine List.pairwise_cons.mpr ⟨fun f hf => ?_, ih ?_ ?_ hrest⟩
      · rcases mem_confFieldCreate.mp hf with rfl | hf
        · have hne' := hne iflp List.mem_cons_self
          omega
        · exact hfirst f hf
      · intro f hf
        rcases List.mem_cons.mp hf with rfl | hf
        · exact hflp
        · exact hsize f (List.mem_cons_of_mem _ (List.mem_cons_of_mem _ hf))
      · exact fun f hf => hne f (List.mem_cons_of_mem _ hf)

end FieldCreate

/-! ### What a table holds -/

/-- A table before the ends of the classes are computed: it holds the classes `N`, each of them with
the fields that `F` says and the parent that `P` says. -/
structure TableIs (m : DataModel) (N : CStr → Prop) (F : CStr → ConfField → Prop)
    (P : CStr → CStr → Prop) (classes : List ConfClass) : Prop where
  sorted : SortedByName classes
  names : ∀ n, (∃ c ∈ classes, c.name = n) ↔ N n
  fields_sorted : ∀ c ∈ classes, SortedByOffset c.fields
  mem_fields : ∀ c ∈ classes, ∀ f, f ∈ c.fields ↔ F c.name f
  parent : ∀ c ∈ classes, ∀ p, c.parent = some p ↔ P c.name p
  unset : ∀ c ∈ classes, c.startOff = 0 ∧ c.endOff = noEnd m

namespace TableIs

variable {m : DataModel} {N : CStr → Prop} {F : CStr → ConfField → Prop} {P : CStr → CStr → Prop}
  {classes : List ConfClass}

theorem congr (h : TableIs m N F P classes) {N' : CStr → Prop} {F' : CStr → ConfField → Prop}
    {P' : CStr → CStr → Prop} (hN : ∀ n, N n ↔ N' n) (hF : ∀ n f, F n f ↔ F' n f)
    (hP : ∀ n p, P n p ↔ P' n p) : TableIs m N' F' P' classes where
  sorted := h.sorted
  names n := (h.names n).trans (hN n)
  fields_sorted := h.fields_sorted
  mem_fields c hc f := (h.mem_fields c hc f).trans (hF c.name f)
  parent c hc p := (h.parent c hc p).trans (hP c.name p)
  unset := h.unset

theorem nil : TableIs m (fun _ => False) (fun _ _ => False) (fun _ _ => False) [] where
  sorted := List.Pairwise.nil
  names n := by simp
  fields_sorted c hc := absurd hc (by simp)
  mem_fields c hc := absurd hc (by simp)
  parent c hc := absurd hc (by simp)
  unset c hc := absurd hc (by simp)

/-- A class that nothing is known of yet. -/
theorem findcreate (h : TableIs m N F P classes) {name : CStr} (hlen : name.length < confNameSize)
    (hF : ∀ f, F name f → N name) (hP : ∀ p, P name p → N name) :
    TableIs m (fun n => N n ∨ n = name) F P (confClassFindcreate m name classes) := by
  have hmem := fun c => mem_confClassFindcreate (m := m) (c := c) hlen h.sorted
  have hno : (∀ c' ∈ classes, c'.name ≠ name) → ¬ N name := by
    intro hne hN
    obtain ⟨c, hc, hname⟩ := (h.names name).mpr hN
    exact hne c hc hname
  -- what holds of the old classes and of a new one holds of all
  have hall : ∀ Q : ConfClass → Prop, (∀ c ∈ classes, Q c) → (¬ N name → Q (newClass m name)) →
      ∀ c ∈ confClassFindcreate m name classes, Q c := by
    intro Q hold hnew c hc
    rcases (hmem c).mp hc with hc | ⟨rfl, hne⟩
    · exact hold c hc
    · exact hnew (hno hne)
  refine ⟨sortedByName_confClassFindcreate hlen h.sorted, fun n => ?_,
    hall _ h.fields_sorted fun _ => List.Pairwise.nil,
    hall _ h.mem_fields fun hN f => ⟨fun hf => absurd hf (by simp [newClass]),
      fun hf => absurd (hF f hf) hN⟩,
    hall _ h.parent fun hN p => ⟨fun hp => absurd hp (by simp [newClass]),
      fun hp => absurd (hP p hp) hN⟩,
    hall _ h.unset fun _ => ⟨rfl, rfl⟩⟩
  rw [← h.names n]
  constructor
  · rintro ⟨c, hc, hname⟩
    rcases (hmem c).mp hc with hc | ⟨rfl, -⟩
    · exact .inl ⟨c, hc, hname⟩
    · exact .inr hname.symm
  · rintro (⟨c, hc, hname⟩ | rfl)
    · exact ⟨c, (hmem c).mpr (.inl hc), hname⟩
    · by_cases hex : ∃ c ∈ classes, c.name = n
      · obtain ⟨c, hc, hname⟩ := hex
        exact ⟨c, (hmem c).mpr (.inl hc), hname⟩
      · exact ⟨newClass m n, (hmem _).mpr (.inr ⟨rfl, fun c hc hname => hex ⟨c, hc, hname⟩⟩), rfl⟩

/-- An assignment to a class keeps the classes and their names. -/
theorem names_updateClass (h : TableIs m N F P classes) {clp : CStr} {f : ConfClass → ConfClass}
    (hname : ∀ c, (f c).name = c.name) (n : CStr) :
    (∃ c ∈ updateClass clp f classes, c.name = n) ↔ N n := by
  have hkeep : ∀ c, (if c.name = clp then f c else c).name = c.name := fun c => by
    split
    · exact hname c
    · rfl
  rw [← h.names n]
  constructor
  · rintro ⟨c, hc, hn⟩
    obtain ⟨c₀, hc₀, rfl⟩ := mem_updateClass.mp hc
    exact ⟨c₀, hc₀, (hkeep c₀).symm.trans hn⟩
  · rintro ⟨c₀, hc₀, hn⟩
    exact ⟨_, mem_updateClass.mpr ⟨c₀, hc₀, rfl⟩, (hkeep c₀).trans hn⟩

/-- A class is given its parent. -/
theorem setParent (h : TableIs m N F P classes) {klass par : CStr} (hone : ∀ p, P klass p → p = par) :
    TableIs m N F (fun n p => P n p ∨ (n = klass ∧ p = par))
      (updateClass klass (fun clp => { clp with parent := some par }) classes) := by
  refine ⟨sortedByName_updateClass (fun _ => rfl) h.sorted, h.names_updateClass fun _ => rfl,
    ?_, ?_, ?_, ?_⟩ <;> intro c hc <;> obtain ⟨c₀, hc₀, rfl⟩ := mem_updateClass.mp hc
  · split
    · exact h.fields_sorted c₀ hc₀
    · exact h.fields_sorted c₀ hc₀
  · split
    · exact h.mem_fields c₀ hc₀
    · exact h.mem_fields c₀ hc₀
  · -- the parent of a class is the new one if it is the class, and the old one if not
    intro p
    split
    · next hk =>
      change some par = some p ↔ P c₀.name p ∨ (c₀.name = klass ∧ p = par)
      rw [Option.some.injEq]
      constructor
      · rintro rfl
        exact .inr ⟨hk, rfl⟩
      · rintro (hp | ⟨-, rfl⟩)
        · exact (hone p (hk ▸ hp)).symm
        · rfl
    · next hk =>
      rw [h.parent c₀ hc₀ p]
      exact (or_iff_left fun hp => hk hp.1).symm
  · split
    · exact h.unset c₀ hc₀
    · exact h.unset c₀ hc₀

/-- A class is given one more field. -/
theorem addField (h : TableIs m N F P classes) (klass : CStr) (flp : ConfField)
    (hsize : ∀ f, F klass f → (sizeT m f.offset : ℤ) = f.offset)
    (hflp : (sizeT m flp.offset : ℤ) = flp.offset) (hne : ∀ f, F klass f → f.offset ≠ flp.offset) :
    TableIs m N (fun n f => F n f ∨ (n = klass ∧ f = flp)) P
      (updateClass klass (fun clp => { clp with fields := confFieldCreate m flp clp.fields })
        classes) := by
  refine ⟨sortedByName_updateClass (fun _ => rfl) h.sorted, h.names_updateClass fun _ => rfl,
    ?_, ?_, ?_, ?_⟩ <;> intro c hc <;> obtain ⟨c₀, hc₀, rfl⟩ := mem_updateClass.mp hc
  · split
    · next hk =>
      have hold : ∀ f ∈ c₀.fields, F klass f := fun f hf => hk ▸ (h.mem_fields c₀ hc₀ f).mp hf
      refine sortedByOffset_confFieldCreate (fun f hf => ?_) (fun f hf => hne f (hold f hf))
        (h.fields_sorted c₀ hc₀)
      rcases List.mem_cons.mp hf with rfl | hf
      · exact hflp
      · exact hsize f (hold f hf)
    · exact h.fields_sorted c₀ hc₀
  · -- the class has one field more, and the others have the fields that they have had
    intro f
    split
    · next hk =>
      change f ∈ confFieldCreate m flp c₀.fields ↔ F c₀.name f ∨ (c₀.name = klass ∧ f = flp)
      rw [mem_confFieldCreate, h.mem_fields c₀ hc₀, or_comm, and_iff_right hk]
    · next hk =>
      rw [h.mem_fields c₀ hc₀ f]
      exact (or_iff_left fun hf => hk hf.1).symm
  · split
    · exact h.parent c₀ hc₀
    · exact h.parent c₀ hc₀
  · split
    · exact h.unset c₀ hc₀
    · exact h.unset c₀ hc₀

/-- **There is only one such table.** -/
theorem unique (h : TableIs m N F P classes) {classes' : List ConfClass}
    (h' : TableIs m N F P classes') : classes = classes' := by
  -- a class of one table with the name of a class of the other is the same class
  have hsame : ∀ {cs cs' : List ConfClass}, TableIs m N F P cs → TableIs m N F P cs' →
      ∀ c ∈ cs, c ∈ cs' := by
    intro cs cs' hcs hcs' c hc
    obtain ⟨c', hc', hname⟩ := (hcs'.names c.name).mpr ((hcs.names c.name).mp ⟨c, hc, rfl⟩)
    have hfields : c.fields = c'.fields := by
      refine List.Pairwise.eq_of_mem_iff (r := fun f f' : ConfField => f.offset < f'.offset)
        (hcs.fields_sorted c hc) (hcs'.fields_sorted c' hc') fun f => ?_
      rw [hcs.mem_fields c hc, hcs'.mem_fields c' hc', hname]
    have hparent : c.parent = c'.parent := by
      refine Option.ext fun p => ?_
      have hp := hcs.parent c hc p
      have hp' := hcs'.parent c' hc' p
      rw [hname] at hp'
      exact hp.trans hp'.symm
    have hunset := hcs.unset c hc
    have hunset' := hcs'.unset c' hc'
    have heq : c = c' := by
      obtain ⟨name, parent, fields, startOff, endOff⟩ := c
      obtain ⟨name', parent', fields', startOff', endOff'⟩ := c'
      dsimp only at hname hfields hparent hunset hunset'
      rw [hname, hfields, hparent, hunset.1, hunset.2, hunset'.1, hunset'.2]
    exact heq ▸ hc'
  exact List.Pairwise.eq_of_mem_iff (r := fun c c' : ConfClass => c.name < c'.name) h.sorted h'.sorted
    fun c => ⟨hsame h h' c, hsame h' h c⟩

end TableIs

/-! ### The iteration -/

/-- The field that a declaration makes. -/
def declField (s : ConfState) (k f t : CStr) (off : ℤ) : ConfField :=
  { name := f, offset := off, isbyte := (confFieldKind s k f t).1, isstr := (confFieldKind s k f t).2 }

/-- A declaration names a class. -/
def Named (ds : List ClassDecl) (n : CStr) : Prop := ∃ d ∈ ds, n ∈ d.names

/-- A declaration says that a class has a field. -/
def HasField (s : ConfState) (ds : List ClassDecl) (n : CStr) (f : ConfField) : Prop :=
  ∃ fn t off, ClassDecl.field n fn t off ∈ ds ∧ f = declField s n fn t off

/-- A declaration says that a class has a parent. -/
def HasParent (ds : List ClassDecl) (n p : CStr) : Prop := ClassDecl.parent n p ∈ ds

/-- The table that some declarations make. -/
def Collected (s : ConfState) (ds : List ClassDecl) (classes : List ConfClass) : Prop :=
  TableIs s.model (Named ds) (HasField s ds) (HasParent ds) classes

section Iteration

variable {s : ConfState} {readsym : Readsym} {ds : List ClassDecl}

theorem HasField.named {n : CStr} {f : ConfField} (h : HasField s ds n f) : Named ds n := by
  obtain ⟨fn, t, off, hmem, -⟩ := h
  exact ⟨_, hmem, List.mem_singleton_self n⟩

theorem HasParent.named {n p : CStr} (h : HasParent ds n p) : Named ds n ∧ Named ds p :=
  ⟨⟨_, h, List.mem_cons_self⟩, ⟨_, h, List.mem_cons_of_mem _ List.mem_cons_self⟩⟩

theorem named_concat {d : ClassDecl} {n : CStr} :
    Named (ds ++ [d]) n ↔ Named ds n ∨ n ∈ d.names := by
  unfold Named
  constructor
  · rintro ⟨d', hd', hn⟩
    rcases List.mem_append.mp hd' with h | h
    · exact .inl ⟨d', h, hn⟩
    · exact .inr (List.mem_singleton.mp h ▸ hn)
  · rintro (⟨d', hd', hn⟩ | hn)
    · exact ⟨d', List.mem_append_left _ hd', hn⟩
    · exact ⟨d, List.mem_append_right _ (List.mem_singleton_self d), hn⟩

theorem mem_concat {d d' : ClassDecl} : d' ∈ ds ++ [d] ↔ d' ∈ ds ∨ d' = d := by
  rw [List.mem_append, List.mem_singleton]

/-- The symbol of a parent. -/
theorem autoconfIterSymbol_parent {k p : CStr} (hwf : (ClassDecl.parent k p).WellFormed) :
    autoconfIterSymbol readsym (ClassDecl.parent k p).symbol s =
      (0, { s with
        classes := updateClass k (fun clp => { clp with parent := some p })
          (confClassFindcreate s.model p (confClassFindcreate s.model k s.classes)) }) := by
  obtain ⟨hlen, hk, hklen, hplen⟩ := hwf
  have hkind : "v8dbg_parent_".toList.isPrefixOf (ClassDecl.parent k p).symbol = true :=
    List.isPrefixOf_iff_prefix.mpr (List.prefix_append _ _)
  have hdrop : ((ClassDecl.parent k p).symbol).drop "v8dbg_parent_".length =
      k ++ '_' :: '_' :: p := List.drop_left' rfl
  unfold autoconfIterSymbol confUpdateParent
  rw [if_pos hkind, strlcpy_of_lt hlen]
  dsimp only
  rw [hdrop, confNextPart_append hk]
  dsimp only
  rw [confClassPtr, confClassPtr, strlcpy_of_lt hklen, strlcpy_of_lt hplen]

/-- The symbol of a field. -/
theorem autoconfIterSymbol_field {k f t : CStr} {off : ℤ}
    (hwf : (ClassDecl.field k f t off).WellFormed)
    (hread : readsym (ClassDecl.field k f t off).symbol = some off) :
    autoconfIterSymbol readsym (ClassDecl.field k f t off).symbol s =
      (0, { s with
        classes := updateClass k
          (fun clp => { clp with
            fields := confFieldCreate s.model (declField s k f t off) clp.fields })
          (confClassFindcreate s.model k s.classes) }) := by
  obtain ⟨hlen, hk, hklen, hf, hflen, -⟩ := hwf
  -- the symbol is not taken for that of a parent
  have hparent : ¬ "v8dbg_parent_".toList.isPrefixOf (ClassDecl.field k f t off).symbol = true := by
    rw [show (ClassDecl.field k f t off).symbol =
      "v8dbg_class_".toList ++ (k ++ '_' :: '_' :: (f ++ '_' :: '_' :: t)) from rfl,
      show "v8dbg_parent_".toList = "v8dbg_".toList ++ "parent_".toList from by decide,
      show "v8dbg_class_".toList = "v8dbg_".toList ++ "class_".toList from by decide,
      List.isPrefixOf_iff_prefix, List.append_assoc, List.prefix_append_right_inj,
      show "parent_".toList = 'p' :: "arent_".toList from by decide,
      show "class_".toList = 'c' :: "lass_".toList from by decide, List.cons_append,
      List.cons_prefix_cons]
    exact fun h => absurd h.1 (by decide)
  -- it is taken for that of a field
  have hkind : "v8dbg_class_".toList.isPrefixOf (ClassDecl.field k f t off).symbol = true :=
    List.isPrefixOf_iff_prefix.mpr (List.prefix_append _ _)
  have hdrop : ((ClassDecl.field k f t off).symbol).drop "v8dbg_class_".length =
      k ++ '_' :: '_' :: (f ++ '_' :: '_' :: t) := List.drop_left' rfl
  unfold autoconfIterSymbol confUpdateField
  rw [if_neg hparent, if_pos hkind, strlcpy_of_lt hlen]
  dsimp only
  rw [hdrop, confNextPart_append hk]
  dsimp only
  rw [confNextPart_append hf]
  dsimp only
  rw [hread]
  dsimp only
  rw [confClassPtr, strlcpy_of_lt hklen, strlcpy_of_lt hflen]
  rfl

/-- **A step of the iteration**: one more declaration. -/
theorem Collected.step {done rest : List ClassDecl} {d : ClassDecl} {classes : List ConfClass}
    (hwf : WellFormedDecls s.model (done ++ d :: rest)) (hread : ReadsOffsets readsym [d])
    (h : Collected s done classes) :
    ∃ classes', autoconfIterSymbol readsym d.symbol { s with classes } =
        (0, { s with classes := classes' }) ∧ Collected s (done ++ [d]) classes' := by
  have hd : d ∈ done ++ d :: rest := List.mem_append_right _ List.mem_cons_self
  have hdone : ∀ d' ∈ done, d' ∈ done ++ d :: rest := fun d' => List.mem_append_left _
  have hdwf := hwf.each d hd
  cases d with
  | parent k p =>
    -- both classes are there afterwards, and the one has the other for a parent
    refine ⟨_, autoconfIterSymbol_parent hdwf, ?_⟩
    obtain ⟨-, -, hklen, hplen⟩ := hdwf
    have h₁ := h.findcreate hklen (fun f hf => hf.named) (fun q hq => hq.named.1)
    have h₂ := h₁.findcreate hplen (fun f hf => .inl hf.named) (fun q hq => .inl hq.named.1)
    have h₃ := h₂.setParent fun q hq => hwf.parents k q p (hdone _ hq) hd
    refine h₃.congr (fun n => ?_) (fun n f => ?_) (fun n q => ?_)
    · rw [named_concat, or_assoc]
      simp [ClassDecl.names]
    · unfold HasField
      simp only [mem_concat, reduceCtorEq, or_false]
    · unfold HasParent
      rw [mem_concat, ClassDecl.parent.injEq]
  | field k fn t off =>
    -- the class is there afterwards, with one field more
    have hval := hread k fn t off List.mem_cons_self
    refine ⟨_, autoconfIterSymbol_field hdwf hval, ?_⟩
    obtain ⟨-, -, hklen, -, -, hoff⟩ := hdwf
    have hsize : ∀ fn' t' off', ClassDecl.field k fn' t' off' ∈ done ++ .field k fn t off :: rest →
        (sizeT s.model off' : ℤ) = off' := fun fn' t' off' hmem =>
      sizeT_of_nonneg (hwf.each _ hmem).2.2.2.2.2 (hwf.offset_lt k fn' t' off' hmem)
    have hother : ∀ f, HasField s done k f → f.offset ≠ off := by
      rintro f ⟨fn', t', off', hmem, rfl⟩
      obtain ⟨-, -, hpair⟩ := List.pairwise_append.mp hwf.fields
      exact (hpair _ hmem _ List.mem_cons_self k fn' t' off' fn t off rfl rfl).2
    have h₁ := h.findcreate hklen (fun f hf => hf.named) (fun q hq => hq.named.1)
    have h₂ := h₁.addField k (declField s k fn t off)
      (by
        rintro f ⟨fn', t', off', hmem, rfl⟩
        exact hsize fn' t' off' (hdone _ hmem))
      (hsize fn t off hd) hother
    refine h₂.congr (fun n => ?_) (fun n f => ?_) (fun n q => ?_)
    · rw [named_concat]
      simp [ClassDecl.names]
    · unfold HasField
      constructor
      · rintro (⟨fn', t', off', hmem, rfl⟩ | ⟨rfl, rfl⟩)
        · exact ⟨fn', t', off', mem_concat.mpr (.inl hmem), rfl⟩
        · exact ⟨fn, t, off, mem_concat.mpr (.inr rfl), rfl⟩
      · rintro ⟨fn', t', off', hmem, rfl⟩
        rcases mem_concat.mp hmem with hmem | heq
        · exact .inl ⟨fn', t', off', hmem, rfl⟩
        · obtain ⟨rfl, rfl, rfl, rfl⟩ := ClassDecl.field.injEq .. ▸ heq
          exact .inr ⟨rfl, rfl⟩
    · unfold HasParent
      simp only [mem_concat, reduceCtorEq, or_false]

/-- **The iteration** makes the table of its declarations. -/
theorem Collected.cfgIter {done rest : List ClassDecl} {classes : List ConfClass}
    (hwf : WellFormedDecls s.model (done ++ rest)) (hread : ReadsOffsets readsym rest)
    (h : Collected s done classes) :
    ∃ classes', MdbV8.cfgIter readsym (rest.map ClassDecl.symbol) { s with classes } =
        (0, { s with classes := classes' }) ∧ Collected s (done ++ rest) classes' := by
  induction rest generalizing done classes with
  | nil => exact ⟨classes, rfl, by rwa [List.append_nil]⟩
  | cons d rest ih =>
    have hread₁ : ReadsOffsets readsym [d] := fun k f t off hmem =>
      hread k f t off (List.mem_singleton.mp hmem ▸ List.mem_cons_self)
    have hread₂ : ReadsOffsets readsym rest := fun k f t off hmem =>
      hread k f t off (List.mem_cons_of_mem _ hmem)
    obtain ⟨classes₁, hstep, hcollected⟩ := h.step hwf hread₁
    have hsplit : done ++ d :: rest = done ++ [d] ++ rest := by simp
    rw [hsplit] at hwf ⊢
    obtain ⟨classes₂, hrest, hcollected'⟩ := ih hwf hread₂ hcollected
    refine ⟨classes₂, ?_, hcollected'⟩
    rw [List.map_cons, MdbV8.cfgIter, hstep]
    exact hrest

end Iteration

/-! ### The ends of the classes -/

/-- The parent of a class in a table. -/
def parentOf (classes : List ConfClass) (n : CStr) : Option CStr :=
  (findClass n classes).bind ConfClass.parent

/-- Where the fields of a class end, by where those of its parent do. -/
def endStep (m : DataModel) (classes : List ConfClass) (n : CStr) (parentEnd : Option ℕ) : ℕ :=
  match ((findClass n classes).bind fun c => c.fields.getLast?) with
  | none => parentEnd.getD 0
  | some flp => sizeT m (flp.offset + m.ptrSize)

/-- The table with the starts and ends of the classes in `D` filled in. -/
def marked (classes : List ConfClass) (start e : CStr → ℕ) (D : Finset CStr) : List ConfClass :=
  classes.map fun c =>
    if c.name ∈ D then { c with startOff := start c.name, endOff := e c.name } else c

section Ends

variable {m : DataModel} {N : CStr → Prop} {F : CStr → ConfField → Prop} {P : CStr → CStr → Prop}
  {classes : List ConfClass} {start e : CStr → ℕ} {D : Finset CStr}

/-- A class is found by its name. -/
theorem findClass_of_mem (h : SortedByName classes) {c : ConfClass} (hc : c ∈ classes) :
    findClass c.name classes = some c := by
  induction classes with
  | nil => cases hc
  | cons c' rest ih =>
    obtain ⟨hfirst, hrest⟩ := List.pairwise_cons.mp h
    unfold findClass
    rw [List.find?_cons]
    rcases List.mem_cons.mp hc with rfl | hc
    · simp
    · have hne : ¬ c'.name = c.name := fun heq => lt_irrefl _ (heq ▸ hfirst c hc)
      simp only [hne, decide_false]
      exact ih hrest hc

theorem findClass_marked (h : SortedByName classes) {c : ConfClass} (hc : c ∈ classes) :
    findClass c.name (marked classes start e D) =
      some (if c.name ∈ D then { c with startOff := start c.name, endOff := e c.name } else c) := by
  have hname : ∀ c : ConfClass,
      (if c.name ∈ D then { c with startOff := start c.name, endOff := e c.name } else c).name =
        c.name := fun c => by split <;> rfl
  have hsorted : SortedByName (marked classes start e D) := by
    unfold SortedByName marked
    rw [List.pairwise_map]
    exact h.imp fun {c c'} hlt => by rwa [hname, hname]
  have hmem := findClass_of_mem hsorted (List.mem_map_of_mem hc)
  rwa [hname] at hmem

/-- Filling in one more class. -/
theorem updateClass_marked (n : CStr) :
    updateClass n (fun clp => { clp with startOff := start n, endOff := e n })
      (marked classes start e D) = marked classes start e (insert n D) := by
  unfold updateClass marked
  rw [List.map_map]
  refine List.map_congr_left fun c _ => ?_
  dsimp only [Function.comp_apply]
  by_cases hn : c.name = n
  · subst hn
    by_cases hD : c.name ∈ D
    · simp only [hD, if_true, Finset.mem_insert_self]
    · simp only [hD, if_false, if_true, Finset.mem_insert_self]
  · by_cases hD : c.name ∈ D
    · simp only [hD, hn, if_true, if_false, Finset.mem_insert, false_or]
    · simp only [hD, hn, if_false, Finset.mem_insert, or_self]

/-- What the ends of the classes of a table are to be. -/
structure EndsOf (m : DataModel) (classes : List ConfClass) (start e : CStr → ℕ) : Prop where
  start_eq : ∀ n, start n = ((parentOf classes n).map e).getD 0
  end_eq : ∀ n, e n = endStep m classes n ((parentOf classes n).map e)
  end_ne : ∀ c ∈ classes, e c.name ≠ noEnd m

/-- **`conf_class_compute_offsets`** fills in a class, and whatever of its ancestors has not been
filled in. -/
theorem TableIs.computeOffsets (h : TableIs m N F P classes) (hends : EndsOf m classes start e)
    (hwf : WellFounded fun p n => P n p) (hN : ∀ n p, P n p → N p) {n : CStr} (hn : N n) :
    ∃ k, ∀ fuel ≥ k, ∀ D : Finset CStr, n ∉ D → ∃ D', D ⊆ D' ∧ n ∈ D' ∧
      confClassComputeOffsets m fuel n (marked classes start e D) =
        some (marked classes start e D') := by
  induction n using hwf.induction with
  | _ n ih =>
    obtain ⟨c, hc, rfl⟩ := (h.names n).mpr hn
    have hfind := findClass_of_mem h.sorted hc
    have hpar : parentOf classes c.name = c.parent := by rw [parentOf, hfind, Option.bind_some]
    have hend : e c.name = match c.fields.getLast? with
        | none => start c.name
        | some flp => sizeT m (flp.offset + m.ptrSize) := by
      rw [hends.end_eq, endStep, hends.start_eq, hfind, Option.bind_some]
    obtain ⟨hstart0, hend0⟩ := h.unset c hc
    cases hp : c.parent with
    | none =>
      refine ⟨1, fun fuel hfuel D hD => ⟨insert c.name D, Finset.subset_insert _ _,
        Finset.mem_insert_self _ _, ?_⟩⟩
      obtain ⟨fuel, rfl⟩ := Nat.exists_eq_add_of_le' hfuel
      have hstart : start c.name = 0 := by rw [hends.start_eq, hpar, hp]; rfl
      rw [confClassComputeOffsets, findClass_marked h.sorted hc, if_neg hD]
      simp only [hstart0, hend0, hp, and_self, not_true, if_false, Option.map_some]
      have hfilled : updateClass c.name _ (marked classes start e D) = _ := updateClass_marked c.name
      rw [hend, hstart] at hfilled
      exact congrArg some hfilled
    | some p =>
      -- the parent is filled in first, by the induction hypothesis
      have hP : P c.name p := (h.parent c hc p).mp hp
      obtain ⟨k, hk⟩ := ih p hP (hN _ _ hP)
      obtain ⟨cp, hcp, rfl⟩ := (h.names p).mpr (hN _ _ hP)
      refine ⟨k + 1, fun fuel hfuel D hD => ?_⟩
      obtain ⟨fuel, rfl⟩ := Nat.exists_eq_add_of_le' (show 1 ≤ fuel by omega)
      have hstart : start c.name = e cp.name := by rw [hends.start_eq, hpar, hp]; rfl
      have hfindp : ∀ D' : Finset CStr, findClass cp.name (marked classes start e D') =
          some (if cp.name ∈ D' then { cp with startOff := start cp.name, endOff := e cp.name }
            else cp) := fun D' => findClass_marked h.sorted hcp
      -- the parent is filled in already, or it is now
      have hparent : ∃ D', D ⊆ D' ∧ cp.name ∈ D' ∧
          (if (findClass cp.name (marked classes start e D)).map ConfClass.endOff = some (noEnd m)
            then confClassComputeOffsets m fuel cp.name (marked classes start e D)
          else some (marked classes start e D)) = some (marked classes start e D') := by
        by_cases hpD : cp.name ∈ D
        · refine ⟨D, subset_rfl, hpD, if_neg ?_⟩
          rw [hfindp, if_pos hpD, Option.map_some, Option.some.injEq]
          exact hends.end_ne cp hcp
        · have hcond : (findClass cp.name (marked classes start e D)).map ConfClass.endOff =
              some (noEnd m) := by
            rw [hfindp, if_neg hpD, Option.map_some, (h.unset cp hcp).2]
          rw [if_pos hcond]
          exact hk fuel (by omega) D hpD
      obtain ⟨D', hsub, hpD', hcomputed⟩ := hparent
      refine ⟨insert c.name D', hsub.trans (Finset.subset_insert _ _), Finset.mem_insert_self _ _, ?_⟩
      rw [confClassComputeOffsets, findClass_marked h.sorted hc, if_neg hD]
      simp only [hstart0, hend0, hp, and_self, not_true, if_false]
      rw [hcomputed, Option.bind_some, hfindp, if_pos hpD', Option.map_some, Option.map_some]
      have hfilled : updateClass c.name _ (marked classes start e D') = _ := updateClass_marked c.name
      rw [hend, hstart] at hfilled
      exact congrArg some hfilled

/-- **The pass** over some classes fills them in. -/
theorem TableIs.offsetPass (h : TableIs m N F P classes) (hends : EndsOf m classes start e)
    (hwf : WellFounded fun p n => P n p) (hN : ∀ n p, P n p → N p) (ptrs : List CStr)
    (hptrs : ∀ n ∈ ptrs, N n) :
    ∃ k, ∀ fuel ≥ k, ∀ D : Finset CStr, ∃ D', D ⊆ D' ∧ (∀ n ∈ ptrs, n ∈ D') ∧
      MdbV8.offsetPass m fuel ptrs (marked classes start e D) = some (marked classes start e D') := by
  induction ptrs with
  | nil => exact ⟨0, fun _ _ D => ⟨D, subset_rfl, by simp, rfl⟩⟩
  | cons n ptrs ih =>
    have hn := hptrs n List.mem_cons_self
    obtain ⟨k₁, hk₁⟩ := h.computeOffsets hends hwf hN hn
    obtain ⟨k₂, hk₂⟩ := ih fun n' hn' => hptrs n' (List.mem_cons_of_mem _ hn')
    refine ⟨max k₁ k₂, fun fuel hfuel D => ?_⟩
    obtain ⟨c, hc, rfl⟩ := (h.names n).mpr hn
    have hfind : findClass c.name (marked classes start e D) = some
        (if c.name ∈ D then { c with startOff := start c.name, endOff := e c.name } else c) :=
      findClass_marked h.sorted hc
    rw [MdbV8.offsetPass, hfind, Option.map_some]
    by_cases hD : c.name ∈ D
    · -- this class has been filled in before, for another one
      obtain ⟨D', hsub, hall, hpass⟩ := hk₂ fuel (by omega) D
      rw [if_pos hD, if_pos fun heq => hends.end_ne c hc (Option.some.inj heq)]
      refine ⟨D', hsub, fun n' hn' => ?_, hpass⟩
      rcases List.mem_cons.mp hn' with rfl | hn'
      · exact hsub hD
      · exact hall n' hn'
    · obtain ⟨D₁, hsub₁, hmem, hcompute⟩ := hk₁ fuel (by omega) D hD
      obtain ⟨D', hsub, hall, hpass⟩ := hk₂ fuel (by omega) D₁
      rw [if_neg hD, if_neg (not_not.mpr (congrArg some (h.unset c hc).2)), hcompute]
      refine ⟨D', hsub₁.trans hsub, fun n' hn' => ?_, hpass⟩
      rcases List.mem_cons.mp hn' with rfl | hn'
      · exact hsub hmem
      · exact hall n' hn'

end Ends

/-! ### The table -/

/-- The table that `autoconfigure` is to make of some declarations: the classes that are named, in the
order of their names; each of them with its fields, in the order of their offsets; its fields begin
where those of its parent end, and they end a word behind the last one. -/
structure ClassTable (s : ConfState) (ds : List ClassDecl) (classes : List ConfClass) : Prop where
  sorted : SortedByName classes
  names : ∀ n, (∃ c ∈ classes, c.name = n) ↔ Named ds n
  fields_sorted : ∀ c ∈ classes, SortedByOffset c.fields
  mem_fields : ∀ c ∈ classes, ∀ f, f ∈ c.fields ↔ HasField s ds c.name f
  parent : ∀ c ∈ classes, ∀ p, c.parent = some p ↔ HasParent ds c.name p
  start_of_parent : ∀ c ∈ classes, ∀ p, c.parent = some p →
    ∃ cp ∈ classes, cp.name = p ∧ c.startOff = cp.endOff
  start_of_none : ∀ c ∈ classes, c.parent = none → c.startOff = 0
  end_of_fields : ∀ c ∈ classes, ∀ f ∈ c.fields, (∀ f' ∈ c.fields, f'.offset ≤ f.offset) →
    (c.endOff : ℤ) = f.offset + s.model.ptrSize
  end_of_nil : ∀ c ∈ classes, c.fields = [] → c.endOff = c.startOff

section Table

variable {s : ConfState} {readsym : Readsym} {ds : List ClassDecl} {classes : List ConfClass}

/-- The parents of declarations without a cycle can be followed to their end. -/
theorem WellFormedDecls.wellFounded {m : DataModel} (h : WellFormedDecls m ds) :
    WellFounded fun p n => HasParent ds n p := by
  refine wellFounded_of_acyclic ?_ fun n hn => h.acyclic n hn.swap
  refine (List.finite_toSet (ds.flatMap ClassDecl.names)).subset ?_
  rintro n ⟨p, hp⟩
  exact List.mem_flatMap.mpr ⟨_, hp, List.mem_cons_self⟩

/-- An order of the declarations is as good as another. -/
theorem WellFormedDecls.perm {m : DataModel} (h : WellFormedDecls m ds) {ds' : List ClassDecl}
    (hperm : ds'.Perm ds) : WellFormedDecls m ds' where
  each d hd := h.each d (hperm.mem_iff.mp hd)
  offset_lt k f t off hmem := h.offset_lt k f t off (hperm.mem_iff.mp hmem)
  fields := by
    refine (hperm.pairwise_iff ?_).mpr h.fields
    intro d d' hd k f t off f' t' off' heq heq'
    have hne := hd k f' t' off' f t off heq' heq
    exact ⟨hne.1.symm, hne.2.symm⟩
  parents k p p' hp hp' := h.parents k p p' (hperm.mem_iff.mp hp) (hperm.mem_iff.mp hp')
  acyclic k hk := h.acyclic k (TransGen.mono (fun _ _ hp => hperm.mem_iff.mp hp) k k hk)

theorem Collected.perm (h : Collected s ds classes) {ds' : List ClassDecl} (hperm : ds'.Perm ds) :
    Collected s ds' classes :=
  TableIs.congr h (fun _ => exists_congr fun _ => and_congr_left' hperm.mem_iff.symm)
    (fun _ _ => exists_congr fun _ => exists_congr fun _ => exists_congr fun _ =>
      and_congr_left' hperm.mem_iff.symm)
    fun _ _ => hperm.mem_iff.symm

theorem collected_nil : Collected s [] [] :=
  TableIs.nil.congr (fun n => by simp [Named]) (fun n f => by simp [HasField])
    fun n p => by simp [HasParent]

/-- The parents in a table are the declared ones. -/
theorem Collected.parentOf_eq (h : Collected s ds classes) {n p : CStr} :
    parentOf classes n = some p ↔ HasParent ds n p := by
  constructor
  · intro hp
    obtain ⟨c, hfind, hcp⟩ := Option.bind_eq_some_iff.mp hp
    have hname : c.name = n := by simpa using List.find?_some hfind
    exact hname ▸ (h.parent c (List.mem_of_find?_eq_some hfind) p).mp hcp
  · intro hp
    obtain ⟨c, hc, rfl⟩ := (h.names n).mpr hp.named.1
    rw [parentOf, findClass_of_mem h.sorted hc, Option.bind_some]
    exact (h.parent c hc p).mpr hp

/-- The end of the last field. -/
theorem Collected.sizeT_end (h : Collected s ds classes) (hwf : WellFormedDecls s.model ds)
    {c : ConfClass} (hc : c ∈ classes) {f : ConfField} (hf : f ∈ c.fields) :
    (sizeT s.model (f.offset + s.model.ptrSize) : ℤ) = f.offset + s.model.ptrSize ∧
      sizeT s.model (f.offset + s.model.ptrSize) ≠ noEnd s.model := by
  obtain ⟨fn, t, off, hmem, rfl⟩ := (h.mem_fields c hc f).mp hf
  have h0 : 0 ≤ off := (hwf.each _ hmem).2.2.2.2.2
  have hlt := hwf.offset_lt _ _ _ _ hmem
  change (sizeT s.model (off + s.model.ptrSize) : ℤ) = off + s.model.ptrSize ∧
    sizeT s.model (off + s.model.ptrSize) ≠ noEnd s.model
  have hval : (sizeT s.model (off + s.model.ptrSize) : ℤ) = off + s.model.ptrSize := by
    unfold sizeT
    rcases s.model.ptrSize_cases with ⟨-, hw, hb⟩ | ⟨-, hw, hb⟩ <;> rw [hb] at hlt ⊢ <;>
      rw [hw] <;> push_cast <;> omega
  refine ⟨hval, fun heq => ?_⟩
  rw [heq, noEnd] at hval
  rcases s.model.ptrSize_cases with ⟨-, hw, hb⟩ | ⟨-, hw, hb⟩ <;> rw [hb] at hlt hval <;>
    rw [hw] at hval <;> omega

/-- The ends of the classes of a table can be computed. -/
theorem Collected.exists_endsOf (h : Collected s ds classes) (hwf : WellFormedDecls s.model ds) :
    ∃ start e, EndsOf s.model classes start e := by
  have hwell : WellFounded fun p n => parentOf classes n = some p := by
    have heq : (fun p n => parentOf classes n = some p) = fun p n => HasParent ds n p := by
      funext p n
      exact propext h.parentOf_eq
    rw [heq]
    exact hwf.wellFounded
  obtain ⟨e, he⟩ := exists_along_parents (parentOf classes) hwell (endStep s.model classes)
  refine ⟨fun n => ((parentOf classes n).map e).getD 0, e, fun _ => rfl, he, fun c hc => ?_⟩
  -- no end is the one that stands for none; the induction goes up to the ancestors
  have hne : ∀ n, Named ds n → e n ≠ noEnd s.model := by
    intro n
    induction n using hwell.induction with
    | _ n ih =>
      intro hn
      obtain ⟨c, hc, rfl⟩ := (h.names n).mpr hn
      rw [he, endStep, findClass_of_mem h.sorted hc, Option.bind_some]
      cases hlast : c.fields.getLast? with
      | some f => exact (h.sizeT_end hwf hc (List.mem_of_getLast? hlast)).2
      | none =>
        dsimp only
        cases hp : parentOf classes c.name with
        | none =>
          rw [Option.map_none, Option.getD_none, noEnd]
          rcases s.model.ptrSize_cases with ⟨-, -, hb⟩ | ⟨-, -, hb⟩ <;> rw [hb] <;> decide
        | some p => exact ih p hp (h.parentOf_eq.mp hp).named.2
  exact hne c.name ((h.names c.name).mp ⟨c, hc, rfl⟩)

/-- The last field has the largest offset. -/
theorem SortedByOffset.offset_le {fields : List ConfField} (h : SortedByOffset fields) {f flp : ConfField}
    (hf : f ∈ fields) (hlast : fields.getLast? = some flp) : f.offset ≤ flp.offset := by
  obtain ⟨init, rfl⟩ := List.getLast?_eq_some_iff.mp hlast
  unfold SortedByOffset at h
  rw [List.pairwise_append] at h
  rcases List.mem_append.mp hf with hf | hf
  · exact (h.2.2 f hf flp (List.mem_singleton_self _)).le
  · rw [List.mem_singleton.mp hf]

/-- The classes of a table, with where they start and where they end. -/
def withEnds (classes : List ConfClass) (start e : CStr → ℕ) : List ConfClass :=
  classes.map fun c => { c with startOff := start c.name, endOff := e c.name }

theorem mem_withEnds {start e : CStr → ℕ} {c : ConfClass} (hc : c ∈ withEnds classes start e) :
    ∃ c₀ ∈ classes, c = { c₀ with startOff := start c₀.name, endOff := e c₀.name } := by
  obtain ⟨c₀, hc₀, rfl⟩ := List.mem_map.mp hc
  exact ⟨c₀, hc₀, rfl⟩

/-- With the ends of its classes, what has been collected is the table of the classes. -/
theorem Collected.classTable (h : Collected s ds classes) (hwf : WellFormedDecls s.model ds)
    {start e : CStr → ℕ} (hends : EndsOf s.model classes start e) :
    ClassTable s ds (withEnds classes start e) := by
  have hparent : ∀ c ∈ classes, parentOf classes c.name = c.parent := fun c hc => by
    rw [parentOf, findClass_of_mem h.sorted hc, Option.bind_some]
  -- a class ends behind its last field, or where it starts
  have hend : ∀ c ∈ classes, e c.name = match c.fields.getLast? with
      | none => start c.name
      | some flp => sizeT s.model (flp.offset + s.model.ptrSize) := fun c hc => by
    rw [hends.end_eq, endStep, hends.start_eq, findClass_of_mem h.sorted hc, Option.bind_some]
  exact
    { sorted := List.pairwise_map.mpr h.sorted
      -- filling in the ends changes neither the names nor the fields
      names := fun n => by
        rw [← h.names n]
        constructor
        · rintro ⟨c, hc, hn⟩
          obtain ⟨c₀, hc₀, rfl⟩ := mem_withEnds hc
          exact ⟨c₀, hc₀, hn⟩
        · rintro ⟨c₀, hc₀, hn⟩
          exact ⟨_, List.mem_map_of_mem hc₀, hn⟩
      fields_sorted := fun c hc => by
        obtain ⟨c₀, hc₀, rfl⟩ := mem_withEnds hc
        exact h.fields_sorted c₀ hc₀
      mem_fields := fun c hc => by
        obtain ⟨c₀, hc₀, rfl⟩ := mem_withEnds hc
        exact h.mem_fields c₀ hc₀
      parent := fun c hc => by
        obtain ⟨c₀, hc₀, rfl⟩ := mem_withEnds hc
        exact h.parent c₀ hc₀
      start_of_parent := fun c hc p hp => by
        -- a class starts where its parent ends
        obtain ⟨c₀, hc₀, rfl⟩ := mem_withEnds hc
        obtain ⟨cp, hcp, rfl⟩ := (h.names p).mpr ((h.parent c₀ hc₀ p).mp hp).named.2
        refine ⟨_, List.mem_map_of_mem hcp, rfl, ?_⟩
        have hp₀ : c₀.parent = some cp.name := hp
        dsimp only
        rw [hends.start_eq, hparent c₀ hc₀, hp₀]
        rfl
      start_of_none := fun c hc hp => by
        obtain ⟨c₀, hc₀, rfl⟩ := mem_withEnds hc
        have hp₀ : c₀.parent = none := hp
        dsimp only
        rw [hends.start_eq, hparent c₀ hc₀, hp₀]
        rfl
      end_of_fields := fun c hc f hf hmax => by
        obtain ⟨c₀, hc₀, rfl⟩ := mem_withEnds hc
        have hf₀ : f ∈ c₀.fields := hf
        dsimp only
        cases hlast : c₀.fields.getLast? with
        | none =>
          rw [List.getLast?_eq_none_iff] at hlast
          rw [hlast] at hf₀
          cases hf₀
        | some flp =>
          have hflp := List.mem_of_getLast? hlast
          have hle := hmax flp hflp
          have hge := (h.fields_sorted c₀ hc₀).offset_le hf₀ hlast
          rw [hend c₀ hc₀, hlast]
          dsimp only
          rw [(h.sizeT_end hwf hc₀ hflp).1]
          omega
      end_of_nil := fun c hc hnil => by
        obtain ⟨c₀, hc₀, rfl⟩ := mem_withEnds hc
        have hnil₀ : c₀.fields = [] := hnil
        dsimp only
        rw [hend c₀ hc₀, hnil₀]
        rfl }

/-- **The table of the classes**, whatever the order of the symbols. -/
theorem exists_classTable (hs : s.classes = []) (hwf : WellFormedDecls s.model ds)
    (hread : ReadsOffsets readsym ds) :
    ∃ k classes, ClassTable s ds classes ∧ ∀ ds' : List ClassDecl, ds'.Perm ds → ∀ fuel ≥ k,
      autoconfigureClasses readsym fuel (ds'.map ClassDecl.symbol) s =
        (0, some { s with classes }) := by
  -- the classes are collected, and each has an end
  have hwf₀ : WellFormedDecls s.model ([] ++ ds) := hwf
  obtain ⟨cs, -, h⟩ := collected_nil.cfgIter hwf₀ hread
  rw [List.nil_append] at h
  obtain ⟨start, e, hends⟩ := h.exists_endsOf hwf
  obtain ⟨k, hk⟩ := TableIs.offsetPass h hends hwf.wellFounded
    (fun _ _ hp => hp.named.2) (cs.map ConfClass.name) (by
      intro n hn
      obtain ⟨c, hc, rfl⟩ := List.mem_map.mp hn
      exact (h.names _).mp ⟨c, hc, rfl⟩)
  have hempty : marked cs start e ∅ = cs := by simp [marked]
  -- the pass over the classes fills in every one of them
  have hpass : ∀ fuel ≥ k,
      offsetPass s.model fuel (cs.map ConfClass.name) cs = some (withEnds cs start e) := by
    intro fuel hfuel
    obtain ⟨D, -, hall, hrun⟩ := hk fuel hfuel ∅
    rw [hempty] at hrun
    rw [hrun]
    refine congrArg some (List.map_congr_left fun c hc => if_pos ?_)
    exact hall c.name (List.mem_map_of_mem hc)
  refine ⟨k, withEnds cs start e, h.classTable hwf hends, fun ds' hperm fuel hfuel => ?_⟩
  -- the same table is collected in any order
  have hread' : ReadsOffsets readsym ds' := fun k f t off hmem =>
    hread k f t off (hperm.mem_iff.mp hmem)
  have hwf' : WellFormedDecls s.model ([] ++ ds') := hwf.perm hperm
  obtain ⟨cs', hrun, h'⟩ := collected_nil.cfgIter hwf' hread'
  rw [List.nil_append] at h'
  obtain rfl : cs' = cs := TableIs.unique (h'.perm hperm.symm) h
  have hstart : { s with classes := [] } = s := by
    obtain ⟨m, major, minor, classes, types, frametypes⟩ := s
    exact congrArg (fun cs => ConfState.mk m major minor cs types frametypes) hs.symm
  rw [hstart] at hrun
  unfold autoconfigureClasses
  rw [hrun]
  dsimp only
  rw [if_neg (by decide), hpass fuel hfuel]
  rfl

end Table

/-- The declarations of a class with a parent, each of them with a field. -/
def mapDecls : List ClassDecl :=
  [.field "Map".toList "instance_size".toList "int".toList 8,
    .parent "Map".toList "HeapObject".toList,
    .field "HeapObject".toList "map".toList "Map".toList 0]

/-- The value of every symbol but that of the last field. -/
def mapReadsym : Readsym := fun symbol =>
  if symbol = "v8dbg_class_Map__instance_size__int".toList then some 8 else some 0

theorem mapDecls_wellFormed : WellFormedDecls .lp64 mapDecls where
  each := by
    intro d hd
    simp only [mapDecls, List.mem_cons, List.not_mem_nil, or_false] at hd
    rcases hd with rfl | rfl | rfl <;> unfold ClassDecl.WellFormed ClassDecl.FirstPart <;>
      dsimp only <;> decide +kernel
  offset_lt := by
    intro k f t off hmem
    simp only [mapDecls, List.mem_cons, ClassDecl.field.injEq, reduceCtorEq, List.not_mem_nil,
      or_false, false_or] at hmem
    rcases hmem with ⟨-, -, -, rfl⟩ | ⟨-, -, -, rfl⟩ <;> decide
  fields := by
    unfold mapDecls
    simp only [List.pairwise_cons, List.mem_cons, List.not_mem_nil, or_false]
    refine ⟨?_, ?_, ?_, List.Pairwise.nil⟩
    · rintro d' (rfl | rfl) k f t off f' t' off' heq heq'
      · cases heq'
      · cases heq
        cases heq'
    · rintro d' - k f t off f' t' off' heq
      cases heq
    · rintro d' ⟨⟩
  parents := by
    intro k p p' hp hp'
    simp only [mapDecls, List.mem_cons, ClassDecl.parent.injEq, reduceCtorEq, List.not_mem_nil,
      or_false, false_or] at hp hp'
    rw [hp.2, hp'.2]
  acyclic := by
    -- the only parent has none
    have hstep : ∀ k p, ClassDecl.parent k p ∈ mapDecls →
        k = "Map".toList ∧ p = "HeapObject".toList := by
      intro k p hmem
      simpa only [mapDecls, List.mem_cons, ClassDecl.parent.injEq, reduceCtorEq, List.not_mem_nil,
        or_false, false_or] using hmem
    intro k hk
    obtain ⟨p, -, hlast⟩ := TransGen.tail'_iff.mp hk
    obtain ⟨q, hfirst, -⟩ := TransGen.head'_iff.mp hk
    exact absurd ((hstep _ _ hfirst).1.symm.trans (hstep _ _ hlast).2) (by decide)

/-- The table of the two classes. -/
theorem exists_classTable_sample :
    ∃ k classes, ClassTable (.start .lp64 3 14) mapDecls classes ∧
      ∀ ds' : List ClassDecl, ds'.Perm mapDecls → ∀ fuel ≥ k,
        autoconfigureClasses mapReadsym fuel (ds'.map ClassDecl.symbol) (.start .lp64 3 14) =
          (0, some { ConfState.start .lp64 3 14 with classes }) := by
  refine exists_classTable rfl mapDecls_wellFormed fun k f t off hmem => ?_
  simp only [mapDecls, List.mem_cons, ClassDecl.field.injEq, reduceCtorEq, List.not_mem_nil,
    or_false, false_or] at hmem
  rcases hmem with ⟨rfl, rfl, rfl, rfl⟩ | ⟨rfl, rfl, rfl, rfl⟩ <;> decide +kernel

end MdbV8
