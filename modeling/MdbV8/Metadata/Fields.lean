import MdbV8.Metadata.Classes

/-!
# Editing the fields of a class

`::v8field` adds a field to a class, or gives a field another offset, after the module has been
configured. The fields of a class are in the order of their offsets, each of them once, and the class
ends a word behind the last one (`FieldsOk`). `conf_field_create` keeps the order, and
`conf_class_compute_offsets` has computed the end.

The command does not compute it again, and it writes another offset into a field where the field is.
It looks for the name that it has been given, but only the first 63 characters of a name are stored. So
there are edits after which the table is not in order any more; `v8field_run_iff` says which are not of
that kind.
-/

namespace MdbV8

/-! ### The command -/

/-- An argument of a command. -/
inductive CmdArg where
  | string (str : CStr)
  | immediate (val : ℕ)
  deriving DecidableEq, Repr

/-- An assignment to the first element that a loop finds. -/
def updateFirst {α : Type*} (p : α → Bool) (f : α → α) : List α → List α
  | [] => []
  | x :: xs => if p x then f x :: xs else x :: updateFirst p f xs

/-- A `size_t` that is converted to a `ssize_t`. -/
def ssizeT (m : DataModel) (x : ℕ) : ℤ :=
  if x % 2 ^ m.bits < 2 ^ (m.bits - 1) then (x % 2 ^ m.bits : ℕ)
  else ((x % 2 ^ m.bits : ℕ) : ℤ) - 2 ^ m.bits

/-- A class with other fields. -/
def ConfClass.withFields (clp : ConfClass) (fields : List ConfField) : ConfClass :=
  { clp with fields }

/-- An assignment to the offset of a field. -/
def setOffset (field : CStr) (offset : ℤ) (fields : List ConfField) : List ConfField :=
  updateFirst (fun flp => flp.name = field) (fun flp => { flp with offset }) fields

/-- What the command prints for a field. -/
def v8fieldLine (klass field : CStr) (offset : ℤ) : CStr :=
  klass ++ "::".toList ++ field ++ " at offset 0x".toList ++
    Nat.toDigits 16 (offset % 2 ^ 32).toNat ++ ['\n']

/-- `dcmd_v8field` with arguments that it accepts: the names of a class and of a field, and perhaps an
offset to be saved. -/
def v8fieldEdit (m : DataModel) (klass field : CStr) (offset : Option ℕ) (classes : List ConfClass) :
    (DcmdStatus × CStr) × List ConfClass :=
  match classes.find? (fun clp => clp.name = klass) with
  | none => ((.err, "error: no such class: \"".toList ++ klass ++ ['"']), classes)
  | some clp =>
    match clp.fields.find? (fun flp => flp.name = field), offset with
    | none, none =>
      ((.err, "error: no such field in class \"".toList ++ klass ++ "\": \"".toList ++ field ++ ['"']),
        classes)
    | none, some offset =>
      let flp : ConfField := { name := strlcpy confNameSize field, offset := ssizeT m offset }
      ((.ok, v8fieldLine klass field flp.offset),
        updateFirst (fun clp => clp.name = klass)
          (fun clp => clp.withFields (confFieldCreate m flp clp.fields)) classes)
    | some flp, none => ((.ok, v8fieldLine klass field flp.offset), classes)
    | some _, some offset =>
      ((.ok, v8fieldLine klass field (ssizeT m offset)),
        updateFirst (fun clp => clp.name = klass)
          (fun clp => clp.withFields (setOffset field (ssizeT m offset) clp.fields)) classes)

/-- `dcmd_v8field`. `mdb_strtoull` aborts the command if its argument is no number. -/
def dcmdV8field (m : DataModel) (strtoull : CStr → Option ℕ) (argv : List CmdArg)
    (classes : List ConfClass) : Option (DcmdStatus × CStr) × List ConfClass :=
  match argv with
  | [.string klass, .string field] =>
    let (out, classes) := v8fieldEdit m klass field none classes
    (some out, classes)
  | [.string klass, .string field, .string str] =>
    match strtoull str with
    | none => (none, classes)
    | some offset =>
      let (out, classes) := v8fieldEdit m klass field (some (offset % 2 ^ m.bits)) classes
      (some out, classes)
  | _ => (some (.usage, []), classes)

/-- The classes after some commands. -/
def v8fieldRun (m : DataModel) (strtoull : CStr → Option ℕ) (cmds : List (List CmdArg))
    (classes : List ConfClass) : List ConfClass :=
  cmds.foldl (fun classes argv => (dcmdV8field m strtoull argv classes).2) classes

/-- The offset, from an object, at which `obj_v8internal` reads the internal field at an index, by the
name of the class of the object. -/
def v8internalOff (m : DataModel) (classes : List ConfClass) (rqclass : CStr) (idx : ℕ) : Option ℕ :=
  (classes.find? fun clp => clp.name = rqclass).map fun clp =>
    sizeT m (clp.endOff + idx * m.ptrSize - 1)

/-! ### What is kept in order -/

/-- **The fields of a class are in order**: by their offsets, each name once; and the class ends a word
behind the largest offset, or where it starts. -/
structure FieldsOk (m : DataModel) (clp : ConfClass) : Prop where
  sorted : clp.fields.Pairwise fun f f' => sizeT m f.offset ≤ sizeT m f'.offset
  ending : ∀ f ∈ clp.fields, (∀ f' ∈ clp.fields, sizeT m f'.offset ≤ sizeT m f.offset) →
    clp.endOff = sizeT m (f.offset + m.ptrSize)
  ending_nil : clp.fields = [] → clp.endOff = clp.startOff
  once : (clp.fields.map ConfField.name).Nodup

/-- The fields before the first one of a name. -/
def fieldsBefore (field : CStr) (fields : List ConfField) : List ConfField :=
  fields.takeWhile fun f => f.name ≠ field

/-- The fields behind the first one of a name. -/
def fieldsAfter (field : CStr) (fields : List ConfField) : List ConfField :=
  (fields.dropWhile fun f => f.name ≠ field).tail

/-- An offset that can be given to a field of a class without anything else to be done: to a new field
whose name is not cut to that of another one, if it is not larger than all the others; or to a field, if
it is its own or that of a place between its neighbours, and the field is not the last one. -/
def EditFits (m : DataModel) (clp : ConfClass) (field : CStr) (offset : ℕ) : Prop :=
  match clp.fields.find? (fun flp => flp.name = field) with
  | none =>
    strlcpy confNameSize field ∉ clp.fields.map ConfField.name ∧
      if clp.fields = [] then clp.endOff = sizeT m (offset + m.ptrSize)
      else ∃ f ∈ clp.fields, sizeT m offset ≤ sizeT m f.offset
  | some flp =>
    sizeT m offset = sizeT m flp.offset ∨
      (fieldsAfter field clp.fields ≠ [] ∧
        (∀ f ∈ fieldsBefore field clp.fields, sizeT m f.offset ≤ sizeT m offset) ∧
        ∀ f ∈ fieldsAfter field clp.fields, sizeT m offset ≤ sizeT m f.offset)

/-- If a command gives an offset to a field of a class, it is one that can be given. -/
def CmdFits (m : DataModel) (strtoull : CStr → Option ℕ) (argv : List CmdArg)
    (classes : List ConfClass) : Prop :=
  ∀ klass field str offset clp, argv = [.string klass, .string field, .string str] →
    strtoull str = some offset → classes.find? (fun clp => clp.name = klass) = some clp →
    EditFits m clp field (offset % 2 ^ m.bits)

/-- That holds of every command of a run, when it is its turn. -/
def CmdsFit (m : DataModel) (strtoull : CStr → Option ℕ) :
    List (List CmdArg) → List ConfClass → Prop
  | [], _ => True
  | argv :: cmds, classes =>
    CmdFits m strtoull argv classes ∧ CmdsFit m strtoull cmds (dcmdV8field m strtoull argv classes).2

/-! ### One edit -/

theorem updateFirst_append {α : Type*} {p : α → Bool} (f : α → α) {before after : List α} {x : α}
    (hbefore : ∀ y ∈ before, p y = false) (hx : p x = true) :
    updateFirst p f (before ++ x :: after) = before ++ f x :: after := by
  induction before with
  | nil => rw [List.nil_append, updateFirst, if_pos hx, List.nil_append]
  | cons y before ih =>
    have hy := hbefore y List.mem_cons_self
    rw [List.cons_append, updateFirst, if_neg (by rw [hy]; exact Bool.false_ne_true), List.cons_append,
      ih fun z hz => hbefore z (List.mem_cons_of_mem _ hz)]

section Offsets

variable {m : DataModel}

theorem sizeT_ssizeT (x : ℕ) : sizeT m (ssizeT m x) = sizeT m x := by
  have hcast : ((x % 2 ^ m.bits : ℕ) : ℤ) = (x : ℤ) % 2 ^ m.bits := by push_cast; rfl
  unfold sizeT ssizeT
  split
  · rw [hcast, Int.emod_emod_of_dvd _ dvd_rfl]
  · rw [hcast, Int.sub_emod_right, Int.emod_emod_of_dvd _ dvd_rfl]

/-- Offsets are equal as unsigned integers if and only if they are after something has been added. -/
theorem sizeT_add_inj {x y k : ℤ} : sizeT m (x + k) = sizeT m (y + k) ↔ sizeT m x = sizeT m y := by
  have hpos : (0 : ℤ) < 2 ^ m.bits := by positivity
  unfold sizeT
  have hnn : ∀ z : ℤ, 0 ≤ z % 2 ^ m.bits := fun z => Int.emod_nonneg z hpos.ne'
  constructor
  · intro h
    have hmod : (x + k) % 2 ^ m.bits = (y + k) % 2 ^ m.bits := by
      rw [← Int.toNat_of_nonneg (hnn (x + k)), h, Int.toNat_of_nonneg (hnn _)]
    rw [Int.ModEq.add_right_cancel' k hmod]
  · intro h
    have hmod : x % 2 ^ m.bits = y % 2 ^ m.bits := by
      rw [← Int.toNat_of_nonneg (hnn x), h, Int.toNat_of_nonneg (hnn _)]
    rw [Int.ModEq.add_right k hmod]

end Offsets

section Edit

variable {m : DataModel} {clp : ConfClass} {field : CStr} {offset : ℕ}

/-- The fields around the one that is found. -/
theorem fields_split {fields : List ConfField} {flp : ConfField}
    (h : fields.find? (fun flp => flp.name = field) = some flp) :
    fields = fieldsBefore field fields ++ flp :: fieldsAfter field fields ∧
      (∀ f ∈ fieldsBefore field fields, f.name ≠ field) ∧ flp.name = field := by
  induction fields with
  | nil => cases h
  | cons f fields ih =>
    unfold fieldsBefore fieldsAfter at ih ⊢
    by_cases hname : f.name = field
    · rw [List.find?_cons_of_pos (by simpa using hname)] at h
      obtain rfl := Option.some.inj h
      rw [List.takeWhile_cons_of_neg (by simpa using hname),
        List.dropWhile_cons_of_neg (by simpa using hname)]
      exact ⟨rfl, fun _ hf => absurd hf List.not_mem_nil, hname⟩
    · rw [List.find?_cons_of_neg (by simpa using hname)] at h
      obtain ⟨hsplit, hbefore, hflp⟩ := ih h
      rw [List.takeWhile_cons_of_pos (by simpa using hname),
        List.dropWhile_cons_of_pos (by simpa using hname)]
      refine ⟨by rw [List.cons_append, ← hsplit], fun g hg => ?_, hflp⟩
      rcases List.mem_cons.mp hg with rfl | hg
      · exact hname
      · exact hbefore g hg

/-- A class with another offset for a field. -/
theorem setOffset_eq {fields : List ConfField} {flp : ConfField}
    (h : fields.find? (fun flp => flp.name = field) = some flp) (x : ℤ) :
    setOffset field x fields =
      fieldsBefore field fields ++ { flp with offset := x } :: fieldsAfter field fields := by
  obtain ⟨hsplit, hbefore, hname⟩ := fields_split h
  unfold setOffset
  conv_lhs => rw [hsplit]
  exact updateFirst_append _ (fun f hf => decide_eq_false (hbefore f hf)) (decide_eq_true hname)

theorem confFieldCreate_perm (flp : ConfField) (fields : List ConfField) :
    (confFieldCreate m flp fields).Perm (flp :: fields) := by
  induction fields with
  | nil => exact .refl _
  | cons iflp rest ih =>
    rw [confFieldCreate]
    split
    · exact .refl _
    · exact (ih.cons iflp).trans (.swap flp iflp rest)

/-- `conf_field_create` keeps the order, also of offsets that are equal. -/
theorem confFieldCreate_sorted {flp : ConfField} {fields : List ConfField}
    (h : fields.Pairwise fun f f' => sizeT m f.offset ≤ sizeT m f'.offset) :
    (confFieldCreate m flp fields).Pairwise fun f f' => sizeT m f.offset ≤ sizeT m f'.offset := by
  induction fields with
  | nil => exact List.pairwise_singleton _ _
  | cons iflp rest ih =>
    obtain ⟨hfirst, hrest⟩ := List.pairwise_cons.mp h
    rw [confFieldCreate]
    split
    · next hgt =>
      refine List.pairwise_cons.mpr ⟨fun f hf => ?_, h⟩
      rcases List.mem_cons.mp hf with rfl | hf
      · exact hgt.le
      · exact hgt.le.trans (hfirst f hf)
    · next hle =>
      refine List.pairwise_cons.mpr ⟨fun f hf => ?_, ih hrest⟩
      rcases mem_confFieldCreate.mp hf with rfl | hf
      · exact Nat.not_lt.mp hle
      · exact hfirst f hf

/-- The last one of some fields in order has the largest offset. -/
theorem exists_last {fields : List ConfField} (hne : fields ≠ [])
    (h : fields.Pairwise fun f f' => sizeT m f.offset ≤ sizeT m f'.offset) :
    ∃ l ∈ fields, ∀ f ∈ fields, sizeT m f.offset ≤ sizeT m l.offset := by
  induction fields with
  | nil => exact absurd rfl hne
  | cons f fields ih =>
    obtain ⟨hfirst, hrest⟩ := List.pairwise_cons.mp h
    by_cases hnil : fields = []
    · subst hnil
      refine ⟨f, List.mem_singleton_self f, fun g hg => ?_⟩
      rw [List.mem_singleton.mp hg]
    · obtain ⟨l, hl, hmax⟩ := ih hnil hrest
      refine ⟨l, List.mem_cons_of_mem _ hl, fun g hg => ?_⟩
      rcases List.mem_cons.mp hg with rfl | hg
      · exact hfirst l hl
      · exact hmax g hg

/-- **A new field**: the class stays in order if and only if the offset can be given to it. -/
theorem fieldsOk_create_iff (h : FieldsOk m clp)
    (hnone : clp.fields.find? (fun flp => flp.name = field) = none) :
    FieldsOk m (clp.withFields
        (confFieldCreate m ⟨strlcpy confNameSize field, ssizeT m offset, false, false⟩ clp.fields)) ↔
      EditFits m clp field offset := by
  set flp : ConfField := ⟨strlcpy confNameSize field, ssizeT m offset, false, false⟩ with hflp
  have hsize : sizeT m flp.offset = sizeT m offset := sizeT_ssizeT offset
  have hend : sizeT m (flp.offset + m.ptrSize) = sizeT m (offset + m.ptrSize) :=
    sizeT_add_inj.mpr hsize
  have hmem : ∀ f, f ∈ confFieldCreate m flp clp.fields ↔ f = flp ∨ f ∈ clp.fields := fun f =>
    mem_confFieldCreate
  have hnodup : ((confFieldCreate m flp clp.fields).map ConfField.name).Nodup ↔
      strlcpy confNameSize field ∉ clp.fields.map ConfField.name := by
    rw [((confFieldCreate_perm flp clp.fields).map ConfField.name).nodup_iff, List.map_cons,
      List.nodup_cons]
    exact and_iff_left h.once
  unfold EditFits
  rw [hnone]
  dsimp only
  constructor
  · intro hok
    refine ⟨hnodup.mp hok.once, ?_⟩
    split
    · next hnil =>
      rw [← hend]
      refine hok.ending flp ((hmem flp).mpr (.inl rfl)) fun f hf => ?_
      rcases (hmem f).mp hf with rfl | hf
      · exact le_rfl
      · rw [hnil] at hf
        exact absurd hf List.not_mem_nil
    · next hne =>
      -- an offset larger than all the others would have moved the end
      by_contra hno
      push Not at hno
      obtain ⟨l, hl, hmax⟩ := exists_last hne h.sorted
      have hold := h.ending l hl hmax
      have hnew := hok.ending flp ((hmem flp).mpr (.inl rfl)) fun f hf => by
        rcases (hmem f).mp hf with rfl | hf
        · exact le_rfl
        · rw [hsize]
          exact (hno f hf).le
      have heq : sizeT m flp.offset = sizeT m l.offset := sizeT_add_inj.mp (hnew.symm.trans hold)
      have hlt := hno l hl
      omega
  · rintro ⟨hname, hoff⟩
    refine ⟨confFieldCreate_sorted h.sorted, fun f hf hmax => ?_, fun hnil => ?_, hnodup.mpr hname⟩
    · rcases (hmem f).mp hf with rfl | hfold
      · change clp.endOff = _
        rw [hend]
        split at hoff
        · exact hoff
        · -- a field with the same offset has been the last one
          obtain ⟨f', hf', hle⟩ := hoff
          have hge := hmax f' ((hmem f').mpr (.inr hf'))
          have heq : sizeT m f'.offset = sizeT m offset := by omega
          rw [← sizeT_add_inj.mpr heq]
          refine h.ending f' hf' fun g hg => ?_
          have hg := hmax g ((hmem g).mpr (.inr hg))
          omega
      · exact h.ending f hfold fun g hg => hmax g ((hmem g).mpr (.inr hg))
    · have hlen := (confFieldCreate_perm (m := m) flp clp.fields).length_eq
      rw [show confFieldCreate m flp clp.fields = [] from hnil] at hlen
      exact absurd hlen (by simp)

/-- **Another offset for a field**: the class stays in order if and only if the offset can be given to
it. -/
theorem fieldsOk_setOffset_iff {flp : ConfField} (h : FieldsOk m clp)
    (hsome : clp.fields.find? (fun flp => flp.name = field) = some flp) :
    FieldsOk m (clp.withFields (setOffset field (ssizeT m offset) clp.fields)) ↔
      EditFits m clp field offset := by
  obtain ⟨hsplit, -, -⟩ := fields_split hsome
  rw [setOffset_eq hsome]
  unfold EditFits
  rw [hsome]
  dsimp only
  obtain ⟨hsorted, hending, hending_nil, honce⟩ := h
  generalize fieldsBefore field clp.fields = before at hsplit ⊢
  generalize fieldsAfter field clp.fields = after at hsplit ⊢
  rw [hsplit] at hsorted hending honce
  set flp' : ConfField := { flp with offset := ssizeT m offset } with hflp'
  have hsize : sizeT m flp'.offset = sizeT m offset := sizeT_ssizeT offset
  obtain ⟨hbefore, hrest, hacross⟩ := List.pairwise_append.mp hsorted
  obtain ⟨hfirst, hafter⟩ := List.pairwise_cons.mp hrest
  -- the order of the offsets is that of the two parts, with the new one between them
  have hsorted' : ((before ++ flp' :: after).Pairwise fun f f' =>
      sizeT m f.offset ≤ sizeT m f'.offset) ↔
      (∀ f ∈ before, sizeT m f.offset ≤ sizeT m offset) ∧
        ∀ f ∈ after, sizeT m offset ≤ sizeT m f.offset := by
    rw [← hsize, List.pairwise_append, List.pairwise_cons]
    constructor
    · rintro ⟨-, ⟨hle, -⟩, hacross'⟩
      exact ⟨fun f hf => hacross' f hf flp' List.mem_cons_self, hle⟩
    · rintro ⟨hle, hge⟩
      refine ⟨hbefore, ⟨hge, hafter⟩, fun f hf g hg => ?_⟩
      rcases List.mem_cons.mp hg with rfl | hg
      · exact hle f hf
      · exact hacross f hf g (List.mem_cons_of_mem _ hg)
  have honce' : ((before ++ flp' :: after).map ConfField.name).Nodup := by
    rw [List.map_append, List.map_cons] at honce ⊢
    exact honce
  -- which fields there are before the edit, and after it
  have hmem : ∀ f, f ∈ before ++ flp :: after ↔ f ∈ before ∨ f = flp ∨ f ∈ after := fun f => by
    rw [List.mem_append, List.mem_cons]
  have hmem' : ∀ f, f ∈ before ++ flp' :: after ↔ f ∈ before ∨ f = flp' ∨ f ∈ after := fun f => by
    rw [List.mem_append, List.mem_cons]
  constructor
  · intro hok
    obtain ⟨hle, hge⟩ := hsorted'.mp hok.sorted
    by_cases hnil : after = []
    · -- the last field has been moved, and the end has not
      subst hnil
      have hmax : ∀ f ∈ before ++ [flp], sizeT m f.offset ≤ sizeT m flp.offset := fun f hf => by
        rcases (hmem f).mp hf with hf | rfl | hf
        · exact hacross f hf flp List.mem_cons_self
        · exact le_rfl
        · exact absurd hf List.not_mem_nil
      have hmax' : ∀ f ∈ before ++ [flp'], sizeT m f.offset ≤ sizeT m flp'.offset := fun f hf => by
        rcases (hmem' f).mp hf with hf | rfl | hf
        · exact (hle f hf).trans_eq hsize.symm
        · exact le_rfl
        · exact absurd hf List.not_mem_nil
      have hold := hending flp ((hmem flp).mpr (.inr (.inl rfl))) hmax
      have hnew := hok.ending flp' ((hmem' flp').mpr (.inr (.inl rfl))) hmax'
      rw [← hsize]
      exact .inl (sizeT_add_inj.mp (hnew.symm.trans hold))
    · -- a field in the middle only has to stay in its place
      exact .inr ⟨hnil, hle, hge⟩
  · -- conversely, the offset is in its place, and the end is that of the largest offset
    intro hfits
    have hplace : (∀ f ∈ before, sizeT m f.offset ≤ sizeT m offset) ∧
        ∀ f ∈ after, sizeT m offset ≤ sizeT m f.offset := by
      rcases hfits with hsame | ⟨-, hle, hge⟩
      · rw [hsame]
        exact ⟨fun f hf => hacross f hf flp List.mem_cons_self, hfirst⟩
      · exact ⟨hle, hge⟩
    refine ⟨hsorted'.mpr hplace, fun f hf hmax => ?_, fun hnil => ?_, honce'⟩
    · change clp.endOff = _
      have hgeBefore : ∀ g ∈ before, sizeT m g.offset ≤ sizeT m f.offset := fun g hg =>
        hmax g ((hmem' g).mpr (.inl hg))
      have hgeAfter : ∀ g ∈ after, sizeT m g.offset ≤ sizeT m f.offset := fun g hg =>
        hmax g ((hmem' g).mpr (.inr (.inr hg)))
      -- the offset that the field has had is not larger than the largest one there is now
      have hgeOld : sizeT m flp.offset ≤ sizeT m f.offset := by
        rcases hfits with hsame | ⟨hne, -, -⟩
        · rw [← hsame, ← hsize]
          exact hmax flp' ((hmem' flp').mpr (.inr (.inl rfl)))
        · obtain ⟨g, hg⟩ := List.exists_mem_of_ne_nil _ hne
          exact (hfirst g hg).trans (hgeAfter g hg)
      -- and a field that is still where it has been has this offset
      have hstays : ∃ g ∈ before ++ flp :: after, sizeT m g.offset = sizeT m f.offset := by
        rcases (hmem' f).mp hf with hf | rfl | hf
        · exact ⟨f, (hmem f).mpr (.inl hf), rfl⟩
        · rcases hfits with hsame | ⟨hne, -, hge⟩
          · exact ⟨flp, (hmem flp).mpr (.inr (.inl rfl)), hsame.symm.trans hsize.symm⟩
          · obtain ⟨g, hg⟩ := List.exists_mem_of_ne_nil _ hne
            exact ⟨g, (hmem g).mpr (.inr (.inr hg)),
              le_antisymm (hgeAfter g hg) (hsize.trans_le (hge g hg))⟩
        · exact ⟨f, (hmem f).mpr (.inr (.inr hf)), rfl⟩
      obtain ⟨g, hg, heq⟩ := hstays
      rw [← sizeT_add_inj.mpr heq]
      refine hending g hg fun g' hg' => ?_
      rw [heq]
      rcases (hmem g').mp hg' with hg' | rfl | hg'
      · exact hgeBefore g' hg'
      · exact hgeOld
      · exact hgeAfter g' hg'
    · exact absurd hnil (by simp [ConfClass.withFields])

end Edit

/-! ### Commands -/

/-- What holds of all elements holds after an assignment to one of them if it holds of that one. -/
theorem forall_updateFirst_iff {α : Type*} {p : α → Bool} {P : α → Prop} {f : α → α} {l : List α}
    {x : α} (h : ∀ y ∈ l, P y) (hx : l.find? p = some x) :
    (∀ y ∈ updateFirst p f l, P y) ↔ P (f x) := by
  obtain ⟨hpx, before, after, rfl, hbefore⟩ := List.find?_eq_some_iff_append.mp hx
  rw [updateFirst_append f (fun y hy => by simpa using hbefore y hy) hpx]
  constructor
  · exact fun hall => hall (f x) (List.mem_append_right _ List.mem_cons_self)
  · intro hfx y hy
    rcases List.mem_append.mp hy with hy | hy
    · exact h y (List.mem_append_left _ hy)
    · rcases List.mem_cons.mp hy with rfl | hy
      · exact hfx
      · exact h y (List.mem_append_right _ (List.mem_cons_of_mem _ hy))

section Commands

variable {m : DataModel} {strtoull : CStr → Option ℕ} {classes : List ConfClass}

/-- An edit keeps the classes in order if and only if the offset can be given to the field. -/
theorem v8fieldEdit_ok_iff (h : ∀ c ∈ classes, FieldsOk m c) (klass field : CStr)
    (offset : Option ℕ) :
    (∀ c ∈ (v8fieldEdit m klass field offset classes).2, FieldsOk m c) ↔
      ∀ off clp, offset = some off → classes.find? (fun clp => clp.name = klass) = some clp →
        EditFits m clp field off := by
  unfold v8fieldEdit
  cases hclass : classes.find? (fun clp => clp.name = klass) with
  -- without the class, or without the field, nothing is changed
  | none => exact iff_of_true h fun _ _ _ hsome => absurd hsome (by simp)
  | some clp =>
    have hclp : FieldsOk m clp := h clp (List.mem_of_find?_eq_some hclass)
    dsimp only
    cases hfield : clp.fields.find? (fun flp => flp.name = field) with
    | none =>
      cases offset with
      | none => exact iff_of_true h fun _ _ hoff => absurd hoff (by simp)
      | some off =>
        dsimp only
        rw [forall_updateFirst_iff h hclass, fieldsOk_create_iff hclp hfield]
        constructor
        · rintro hfits _ _ ⟨⟩ ⟨⟩
          exact hfits
        · exact fun hall => hall off clp rfl rfl
    | some flp =>
      -- the class is replaced by the edited one
      cases offset with
      | none => exact iff_of_true h fun _ _ hoff => absurd hoff (by simp)
      | some off =>
        dsimp only
        rw [forall_updateFirst_iff h hclass, fieldsOk_setOffset_iff hclp hfield]
        constructor
        · rintro hfits _ _ ⟨⟩ ⟨⟩
          exact hfits
        · exact fun hall => hall off clp rfl rfl

/-- **One command** keeps the classes in order if and only if it fits. -/
theorem dcmdV8field_ok_iff (h : ∀ c ∈ classes, FieldsOk m c) (argv : List CmdArg) :
    (∀ c ∈ (dcmdV8field m strtoull argv classes).2, FieldsOk m c) ↔
      CmdFits m strtoull argv classes := by
  unfold dcmdV8field CmdFits
  split
  · -- without an offset the command prints the one there is
    next klass field =>
    refine iff_of_true ?_ fun _ _ _ _ _ hargs => absurd hargs (by simp)
    exact (v8fieldEdit_ok_iff h klass field none).mpr fun _ _ hoff => absurd hoff (by simp)
  · -- the offset has to be a number
    next klass field str =>
    cases hstr : strtoull str with
    | none =>
      refine iff_of_true h fun _ _ str' _ _ hargs hsome => ?_
      simp only [List.cons.injEq, CmdArg.string.injEq, and_true] at hargs
      rw [← hargs.2.2, hstr] at hsome
      cases hsome
    | some offset =>
      refine (v8fieldEdit_ok_iff h klass field (some (offset % 2 ^ m.bits))).trans ?_
      constructor
      · intro hfits klass' field' str' offset' clp hargs hsome hclass
        simp only [List.cons.injEq, CmdArg.string.injEq, and_true] at hargs
        obtain ⟨rfl, rfl, rfl⟩ := hargs
        obtain rfl := Option.some.inj (hstr.symm.trans hsome)
        exact hfits _ clp rfl hclass
      · rintro hfits _ clp ⟨⟩ hclass
        exact hfits klass field str offset clp rfl hstr hclass
  · next hno2 hno3 =>
    refine iff_of_true h fun klass field str _ _ hargs => ?_
    exact absurd hargs (hno3 klass field str)

/-- **When the classes stay in order**: they are so after every command of a run if and only if they have
been at first, and every command fits when it is its turn. -/
theorem v8field_run_iff (m : DataModel) (strtoull : CStr → Option ℕ) (cmds : List (List CmdArg))
    (classes : List ConfClass) :
    (∀ k ≤ cmds.length, ∀ c ∈ v8fieldRun m strtoull (cmds.take k) classes, FieldsOk m c) ↔
      (∀ c ∈ classes, FieldsOk m c) ∧ CmdsFit m strtoull cmds classes := by
  induction cmds generalizing classes with
  | nil =>
    constructor
    · exact fun hall => ⟨hall 0 le_rfl, trivial⟩
    · rintro ⟨hstart, -⟩ k -
      rw [List.take_nil]
      exact hstart
  | cons argv cmds ih =>
    have hrun : ∀ k, v8fieldRun m strtoull ((argv :: cmds).take (k + 1)) classes =
        v8fieldRun m strtoull (cmds.take k) (dcmdV8field m strtoull argv classes).2 := fun _ => rfl
    -- the rest of the run begins with what the first command has left
    have hih := ih (dcmdV8field m strtoull argv classes).2
    constructor
    · intro hall
      have hstart : ∀ c ∈ classes, FieldsOk m c := hall 0 (Nat.zero_le _)
      obtain ⟨hstep, hrest⟩ := hih.mp fun k hk => by
        rw [← hrun]
        exact hall (k + 1) (Nat.succ_le_succ hk)
      exact ⟨hstart, (dcmdV8field_ok_iff hstart argv).mp hstep, hrest⟩
    · rintro ⟨hstart, hfits, hrest⟩ k hk
      cases k with
      | zero => exact hstart
      | succ k =>
        rw [hrun]
        exact hih.mpr ⟨(dcmdV8field_ok_iff hstart argv).mpr hfits, hrest⟩ k (Nat.le_of_succ_le_succ hk)

end Commands

/-! ### What has been configured, and what is read -/

/-- **The table that is configured** from well-formed metadata is in order. -/
theorem ClassTable.fieldsOk {s : ConfState} {ds : List ClassDecl} {classes : List ConfClass}
    (h : ClassTable s ds classes) (hwf : WellFormedDecls s.model ds) :
    ∀ c ∈ classes, FieldsOk s.model c := by
  intro c hc
  have hsize : ∀ f ∈ c.fields, (sizeT s.model f.offset : ℤ) = f.offset := by
    intro f hf
    obtain ⟨fn, ty, off, hmem, rfl⟩ := (h.mem_fields c hc f).mp hf
    exact sizeT_of_nonneg (hwf.each _ hmem).2.2.2.2.2 (hwf.offset_lt _ _ _ _ hmem)
  have hsorted := h.fields_sorted c hc
  refine ⟨hsorted.imp_of_mem fun {f f'} hf hf' hlt => ?_, fun f hf hmax => ?_, h.end_of_nil c hc, ?_⟩
  · have hle := hsize f hf
    have hle' := hsize f' hf'
    omega
  · have hend := h.end_of_fields c hc f hf fun f' hf' => by
      have hle := hmax f' hf'
      have hf := hsize f hf
      have hf' := hsize f' hf'
      omega
    have hlt : c.endOff < 2 ^ s.model.bits := by
      obtain ⟨fn, ty, off, hmem, rfl⟩ := (h.mem_fields c hc f).mp hf
      have hoff := hwf.offset_lt _ _ _ _ hmem
      have hend' : (c.endOff : ℤ) = off + s.model.ptrSize := hend
      rcases s.model.ptrSize_cases with ⟨-, hw, hb⟩ | ⟨-, hw, hb⟩ <;> rw [hb] at hoff ⊢ <;>
        rw [hw] at hend' <;> push_cast at hend' <;> omega
    rw [← hend, sizeT, Int.emod_eq_of_lt (Int.natCast_nonneg _) (by exact_mod_cast hlt),
      Int.toNat_natCast]
  · rw [List.Nodup, List.pairwise_map]
    refine hsorted.imp_of_mem fun {f f'} hf hf' hlt hname => ?_
    obtain ⟨fn, ty, off, hmem, rfl⟩ := (h.mem_fields c hc f).mp hf
    obtain ⟨fn', ty', off', hmem', rfl⟩ := (h.mem_fields c hc f').mp hf'
    -- two declarations with different offsets have different names
    have hdecl : ClassDecl.field c.name fn ty off ≠ ClassDecl.field c.name fn' ty' off' := by
      intro heq
      rw [ClassDecl.field.injEq] at heq
      exact absurd heq.2.2.2 hlt.ne
    have hsymm : Std.Symm fun d d' : ClassDecl => ∀ k f t off f' t' off', d = .field k f t off →
        d' = .field k f' t' off' → f ≠ f' ∧ off ≠ off' :=
      ⟨fun d d' hd k f t off f' t' off' heq heq' =>
        have hne := hd k f' t' off' f t off heq' heq
        ⟨hne.1.symm, hne.2.symm⟩⟩
    have hpair := hwf.fields.forall hmem hmem' hdecl
    exact (hpair _ _ _ _ _ _ _ rfl rfl).1 hname

/-- What `obj_v8internal` reads of an object, where the fields of its class are in order: the words
behind the last field. -/
theorem v8internalOff_eq {m : DataModel} {classes : List ConfClass} {rqclass : CStr} {clp : ConfClass}
    (hclass : classes.find? (fun clp => clp.name = rqclass) = some clp) (h : FieldsOk m clp)
    {f : ConfField} (hf : f ∈ clp.fields)
    (hmax : ∀ f' ∈ clp.fields, sizeT m f'.offset ≤ sizeT m f.offset) (idx : ℕ) :
    v8internalOff m classes rqclass idx =
      some (sizeT m (f.offset + m.ptrSize + idx * m.ptrSize - 1)) := by
  have hend := h.ending f hf hmax
  unfold v8internalOff
  rw [hclass, Option.map_some, hend]
  have hnn := Int.emod_nonneg (f.offset + m.ptrSize) (by positivity : (2 : ℤ) ^ m.bits ≠ 0)
  have hcast : (sizeT m (f.offset + m.ptrSize) : ℤ) = (f.offset + m.ptrSize) % 2 ^ m.bits :=
    Int.toNat_of_nonneg hnn
  rw [hcast, sizeT, sizeT, add_sub_assoc, Int.emod_add_emod, ← add_sub_assoc]

/-! ### An edit -/

/-- Two classes, as they are configured: the Map of an object, and its instance size. -/
def mapClasses : List ConfClass :=
  [{ name := "HeapObject".toList, fields := [{ name := "map".toList, offset := 0 }], endOff := 8 },
    { name := "Map".toList, parent := some "HeapObject".toList,
      fields := [{ name := "instance_size".toList, offset := 8 }], startOff := 8, endOff := 16 }]

/-- The arguments of a command that moves the instance size. -/
def mapEdit : List CmdArg :=
  [.string "Map".toList, .string "instance_size".toList, .string "0x20".toList]

/-- The classes are in order, and after the command they are not: the class ends where it has ended. -/
theorem not_fieldsOk_mapEdit :
    (∀ c ∈ mapClasses, FieldsOk .lp64 c) ∧
      ¬ ∀ c ∈ v8fieldRun .lp64 (fun _ => some 0x20) [mapEdit] mapClasses, FieldsOk .lp64 c := by
  constructor
  · intro c hc
    simp only [mapClasses, List.mem_cons, List.not_mem_nil, or_false] at hc
    rcases hc with rfl | rfl
    · exact ⟨by decide, by decide, by decide, by decide⟩
    · exact ⟨by decide, by decide, by decide, by decide⟩
  · intro hok
    have hmem : (⟨"Map".toList, some "HeapObject".toList, [⟨"instance_size".toList, 0x20, false, false⟩],
        8, 16⟩ : ConfClass) ∈ v8fieldRun .lp64 (fun _ => some 0x20) [mapEdit] mapClasses := by
      decide
    exact absurd ((hok _ hmem).ending _ List.mem_cons_self (by decide)) (by decide)

end MdbV8
