import MdbV8.Print.Print

/-!
# The settings of a print

Some fields of the settings are options (`depth`, `indent`, `member` and those of the command line),
and others are written by the functions that print. Settings that differ in the latter ask for the
same (`JsobjPrint.Same`). `JsobjPrint.Advance` says what printing a value does to them,
`JsobjPrint.Keeps` what it leaves as it is.
-/

namespace MdbV8

/-- Settings that ask for the same; they differ in what printing keeps there. -/
def JsobjPrint.Same (jsop jsop' : JsobjPrint) : Prop :=
  ∃ nprops found descended propinfo, jsop' = { jsop with nprops, found, descended, propinfo }

/-- What printing does to the settings: `f` says that a member has been found, `d` that the value is
one of the table. -/
def JsobjPrint.Advance (f d : Bool) (jsop jsop' : JsobjPrint) : Prop :=
  ∃ nprops propinfo, jsop' =
    { jsop with nprops, propinfo, found := jsop.found || f, descended := jsop.descended || d }

namespace JsobjPrint

theorem Same.refl (jsop : JsobjPrint) : jsop.Same jsop := ⟨_, _, _, _, rfl⟩

theorem Advance.refl (jsop : JsobjPrint) : jsop.Advance false false jsop :=
  ⟨jsop.nprops, jsop.propinfo, by rw [Bool.or_false, Bool.or_false]⟩

/-- What looking for a member in an object does. -/
theorem Advance.of_found {f : Bool} {j k : JsobjPrint} (h : k = { j with found := j.found || f })
    (propinfo : ℕ) : j.Advance f false { k with propinfo } := by
  subst h
  exact ⟨j.nprops, propinfo, by rw [Bool.or_false]⟩

/-- What printing the properties of an object does. -/
theorem Advance.of_nprops {nprops : ℤ} {j k : JsobjPrint} (h : k = { j with nprops })
    (propinfo : ℕ) : j.Advance false false { k with propinfo } := by
  subst h
  exact ⟨nprops, propinfo, by rw [Bool.or_false, Bool.or_false]⟩

/-- What following a part of a member path does to `found`. -/
theorem Advance.found {f d : Bool} {j k : JsobjPrint} {rest : Option (List UInt8)}
    (h : (j.descendMember rest).Advance f d k) : k.found = (j.found || (rest.isNone || f)) := by
  obtain ⟨_, _, rfl⟩ := h
  cases rest <;> simp [descendMember]

theorem Advance.set_found {f d : Bool} {j k : JsobjPrint} {rest : Option (List UInt8)}
    (h : (j.descendMember rest).Advance f d k) :
    j.Advance (rest.isNone || f) false { j with found := k.found } := by
  rw [h.found]
  exact ⟨j.nprops, j.propinfo, by rw [Bool.or_false]⟩

theorem Advance.of_descended {f d : Bool} {j k : JsobjPrint}
    (h : { j with descended := true }.Advance f d k) : j.Advance f true k := by
  obtain ⟨nprops, propinfo, rfl⟩ := h
  exact ⟨nprops, propinfo, by rw [Bool.or_true, Bool.true_or]⟩

theorem Same.advance {f f' d d' : Bool} {j j' k k' : JsobjPrint} (h : j.Same j')
    (hk : j.Advance f d k) (hk' : j'.Advance f' d' k') : k.Same k' := by
  obtain ⟨_, _, _, _, rfl⟩ := h
  obtain ⟨_, _, rfl⟩ := hk
  obtain ⟨_, _, rfl⟩ := hk'
  exact ⟨_, _, _, _, rfl⟩

theorem Same.indent {j j' : JsobjPrint} (h : j.Same j') : j'.indent = j.indent := by
  obtain ⟨_, _, _, _, rfl⟩ := h
  rfl

theorem Same.member {j j' : JsobjPrint} (h : j.Same j') : j'.member = j.member := by
  obtain ⟨_, _, _, _, rfl⟩ := h
  rfl

theorem Same.depth {j j' : JsobjPrint} (h : j.Same j') : j'.depth = j.depth := by
  obtain ⟨_, _, _, _, rfl⟩ := h
  rfl

theorem Same.printaddr {j j' : JsobjPrint} (h : j.Same j') : j'.printaddr = j.printaddr := by
  obtain ⟨_, _, _, _, rfl⟩ := h
  rfl

theorem Same.baseaddr {j j' : JsobjPrint} (h : j.Same j') : j'.baseaddr = j.baseaddr := by
  obtain ⟨_, _, _, _, rfl⟩ := h
  rfl

theorem Same.maxstrlen {j j' : JsobjPrint} (h : j.Same j') : j'.maxstrlen = j.maxstrlen := by
  obtain ⟨_, _, _, _, rfl⟩ := h
  rfl

theorem Same.descend {j j' : JsobjPrint} (h : j.Same j') : j.descend.Same j'.descend := by
  obtain ⟨_, _, _, _, rfl⟩ := h
  exact ⟨_, _, _, _, rfl⟩

theorem Same.setNprops {j j' : JsobjPrint} (h : j.Same j') (n n' : ℤ) :
    { j with nprops := n }.Same { j' with nprops := n' } := by
  obtain ⟨_, _, _, _, rfl⟩ := h
  exact ⟨_, _, _, _, rfl⟩

theorem Same.setFound {j j' : JsobjPrint} (h : j.Same j') (f f' : Bool) :
    { j with found := f }.Same { j' with found := f' } := by
  obtain ⟨_, _, _, _, rfl⟩ := h
  exact ⟨_, _, _, _, rfl⟩

theorem Same.setDescended {j j' : JsobjPrint} (h : j.Same j') (d d' : Bool) :
    { j with descended := d }.Same { j' with descended := d' } := by
  obtain ⟨_, _, _, _, rfl⟩ := h
  exact ⟨_, _, _, _, rfl⟩

theorem Same.descendMember {j j' : JsobjPrint} (h : j.Same j') (rest : Option (List UInt8)) :
    (j.descendMember rest).Same (j'.descendMember rest) := by
  obtain ⟨_, _, _, _, rfl⟩ := h
  cases rest <;> exact ⟨_, _, _, _, rfl⟩

theorem Same.setPropinfo {j j' : JsobjPrint} (h : j.Same j') (p p' : ℕ) :
    { j with propinfo := p }.Same { j' with propinfo := p' } := by
  obtain ⟨_, _, _, _, rfl⟩ := h
  exact ⟨_, _, _, _, rfl⟩

/-- Settings that ask for the same, and are the same under a condition. -/
def SameIf (exact : Prop) (j j' : JsobjPrint) : Prop := j.Same j' ∧ (exact → j' = j)

theorem SameIf.refl {exact : Prop} (j : JsobjPrint) : j.SameIf exact j := ⟨.refl j, fun _ => rfl⟩

section SameIf

variable {exact : Prop} {j j' : JsobjPrint} (h : j.SameIf exact j')

include h

theorem SameIf.descend : j.descend.SameIf exact j'.descend :=
  ⟨h.1.descend, fun he => by rw [h.2 he]⟩

theorem SameIf.descendMember (rest : Option (List UInt8)) :
    (j.descendMember rest).SameIf exact (j'.descendMember rest) :=
  ⟨h.1.descendMember rest, fun he => by rw [h.2 he]⟩

theorem SameIf.setNprops (n : ℤ) :
    { j with nprops := n }.SameIf exact { j' with nprops := n } :=
  ⟨h.1.setNprops n n, fun he => by rw [h.2 he]⟩

theorem SameIf.setDescended : { j with descended := true }.SameIf exact { j' with descended := true } :=
  ⟨h.1.setDescended true true, fun he => by rw [h.2 he]⟩

theorem SameIf.setFound {l l' : JsobjPrint} (hl : l.SameIf exact l') :
    { j with found := l.found }.SameIf exact { j' with found := l'.found } :=
  ⟨h.1.setFound _ _, fun he => by rw [h.2 he, hl.2 he]⟩

theorem SameIf.setPropinfo {p p' : ℕ} (hp : exact → p' = p) :
    { j with propinfo := p }.SameIf exact { j' with propinfo := p' } :=
  ⟨h.1.setPropinfo p p', fun he => by rw [h.2 he, hp he]⟩

end SameIf

theorem Same.symm {j k : JsobjPrint} (h : j.Same k) : k.Same j := by
  obtain ⟨_, _, _, _, rfl⟩ := h
  exact ⟨_, _, _, _, rfl⟩

theorem Same.trans {j k l : JsobjPrint} (h : j.Same k) (h' : k.Same l) : j.Same l := by
  obtain ⟨_, _, _, _, rfl⟩ := h
  obtain ⟨_, _, _, _, rfl⟩ := h'
  exact ⟨_, _, _, _, rfl⟩

/-- The same is asked for, and a member that has been found stays found. -/
structure Keeps (j k : JsobjPrint) : Prop where
  same : j.Same k
  found : j.found = true → k.found = true

theorem Keeps.refl (j : JsobjPrint) : j.Keeps j := ⟨.refl j, id⟩

theorem Keeps.trans {j k l : JsobjPrint} (h : j.Keeps k) (h' : k.Keeps l) : j.Keeps l :=
  ⟨h.same.trans h'.same, fun hj => h'.found (h.found hj)⟩

theorem Keeps.setNprops {j k : JsobjPrint} (h : j.Keeps k) (n : ℤ) : j.Keeps { k with nprops := n } :=
  ⟨h.same.trans ((Same.refl k).setNprops k.nprops n), h.found⟩

theorem Keeps.setPropinfo {j k : JsobjPrint} (h : j.Keeps k) (p : ℕ) :
    j.Keeps { k with propinfo := p } :=
  ⟨h.same.trans ((Same.refl k).setPropinfo k.propinfo p), h.found⟩

/-- The settings after looking for a member, with what has been found behind a part of the path. -/
theorem Keeps.setFound {j k l : JsobjPrint} (h : j.Keeps k) {rest : Option (List UInt8)}
    (hl : (k.descendMember rest).Keeps l) : j.Keeps { k with found := l.found } := by
  refine ⟨h.same.trans ((Same.refl k).setFound k.found l.found), fun hfound => hl.found ?_⟩
  cases rest with
  | none => rfl
  | some rest => exact h.found hfound

theorem Keeps.of_descended {j k : JsobjPrint} (h : { j with descended := true }.Keeps k) :
    j.Keeps k :=
  ⟨((Same.refl j).setDescended j.descended true).trans h.same, h.found⟩

end JsobjPrint

end MdbV8
