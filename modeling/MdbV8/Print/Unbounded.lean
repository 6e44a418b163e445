import MdbV8.Objects.Events
import MdbV8.Print.Settings

/-!
# Printing into a buffer without end

What the functions of `Print.Print` print does not depend on how much of the buffer is left. This is
shown by running them on the two devices side by side: on both they return the same, change the
settings in the same way, and the buffer gets what is printed without end
(`same_jsobjPrintValue`). Only an array looks at the buffer: its elements are no longer printed once
the buffer is full, where anything more would have been dropped.
-/

namespace MdbV8

/-- The same printing on the two devices. -/
structure SameResult (t : Target) (j j' : JsobjPrint) (o : OutBuf) (ps : List Piece)
    (r : PrintResult OutBuf) (r' : PrintResult (List Piece)) : Prop where
  rv : r.1 = r'.1
  settings : ∃ f d, j.Advance f d r.2.1 ∧ j'.Advance f d r'.2.1
  print : SamePrint t o ps r.2.2 r'.2.2

namespace SameResult

variable {t : Target} {j j' : JsobjPrint} {o o' : OutBuf} {ps ps' : List Piece}

/-- The settings are left as they are. -/
theorem of_print (rv : ℤ) (h : SamePrint t o ps o' ps') :
    SameResult t j j' o ps (rv, j, o') (rv, j', ps') :=
  ⟨rfl, ⟨false, false, .refl j, .refl j'⟩, h⟩

/-- Something has been printed before. -/
theorem after {r : PrintResult OutBuf} {r' : PrintResult (List Piece)}
    (h : SameResult t j j' o' ps' r r') (hprint : SamePrint t o ps o' ps') :
    SameResult t j j' o ps r r' :=
  ⟨h.rv, h.settings, hprint.trans h.print⟩

end SameResult

/-- A function that prints values does the same on the two devices. Nothing is said about strings
with a limit on their length. -/
def PrintsSame (t : Target) (print : PrintFn OutBuf) (print' : PrintFn (List Piece)) : Prop :=
  ∀ val (j j' : JsobjPrint) (o : OutBuf) ps, j.Same j' → j.maxstrlen = 0 →
    o.len ≤ 2 ^ t.cfg.bits → SameResult t j j' o ps (print val j o) (print' val j' ps)

/-- A value is printed after something else. -/
theorem SamePrint.print {t : Target} {p : PrintFn OutBuf} {p' : PrintFn (List Piece)}
    {j j' : JsobjPrint} {o o' : OutBuf} {ps ps' : List Piece} (h : SamePrint t o ps o' ps')
    (hp : PrintsSame t p p') (val : Option V8Propvalue) (hsame : j.Same j')
    (hmax : j.maxstrlen = 0) (ho : o.len ≤ 2 ^ t.cfg.bits) :
    SameResult t j j' o ps (p val j o') (p' val j' ps') :=
  (hp val j j' o' ps' hsame hmax (h.len_le.trans ho)).after h

section Unbounded

variable (t : Target) (fmtY : ℤ → List UInt8) {j j' : JsobjPrint} {o : OutBuf} (ps : List Piece)

/-! ### Values without parts -/

theorem same_text (rv : ℤ) (T : List UInt8) :
    SameResult t j j' o ps (rv, j, (bufDevice t).bsnprintf o T)
      (rv, j', (pieceDevice t).bsnprintf ps T) :=
  .of_print rv (SamePrint.refl.bsnprintf T)

/-- A string at the end. -/
theorem same_string {o' : OutBuf} {ps' : List Piece} (h : SamePrint t o ps o' ps')
    (addr flags : ℕ) (ho : o.len ≤ 2 ^ t.cfg.bits) :
    let r := (bufDevice t).jsstrPrint 0 addr flags o'
    let r' := (pieceDevice t).jsstrPrint 0 addr flags ps'
    SameResult t j j' o ps (r.1, j, r.2) (r'.1, j', r'.2) := by
  intro r r'
  obtain ⟨hrv, hprint⟩ := h.jsstrPrint addr flags ho
  rw [show r.1 = r'.1 from hrv]
  exact .of_print _ hprint

theorem same_jsobjPrintNumber (addr : ℕ) :
    SameResult t j j' o ps (jsobjPrintNumber t (bufDevice t) addr j o)
      (jsobjPrintNumber t (pieceDevice t) addr j' ps) := by
  unfold jsobjPrintNumber jsobjPrintDouble
  cases t.readHeapDouble addr t.cfg.offHeapnumberValue with
  | none => exact .of_print _ SamePrint.refl
  | some w => exact same_text t ps _ _

theorem same_jsobjPrintOddball (addr : ℕ) (ho : o.len ≤ 2 ^ t.cfg.bits) :
    SameResult t j j' o ps (jsobjPrintOddball t (bufDevice t) addr j o)
      (jsobjPrintOddball t (pieceDevice t) addr j' ps) := by
  unfold jsobjPrintOddball
  cases t.readHeapPtr addr t.cfg.offOddballToString with
  | none => exact .of_print _ SamePrint.refl
  | some strptr => exact same_string t ps SamePrint.refl strptr _ ho

theorem same_jsobjPrintJstypedArray (addr : ℕ) :
    SameResult t j j' o ps (jsobjPrintJstypedArray t (bufDevice t) addr j o)
      (jsobjPrintJstypedArray t (pieceDevice t) addr j' ps) := by
  unfold jsobjPrintJstypedArray
  dsimp only
  split
  · exact same_text t ps _ _
  · cases t.readHeapSmi addr t.cfg.offJstypedarrayLength with
    | none => exact same_text t ps _ _
    | some length => exact .of_print _ ((SamePrint.refl.bsnprintf _).bsnprintf _)

theorem same_jsobjPrintJsfunction (addr : ℕ) (ho : o.len ≤ 2 ^ t.cfg.bits) :
    SameResult t j j' o ps (jsobjPrintJsfunction t (bufDevice t) addr j o)
      (jsobjPrintJsfunction t (pieceDevice t) addr j' ps) := by
  unfold jsobjPrintJsfunction
  cases t.readHeapPtr addr t.cfg.offJsfunctionShared with
  | none => exact .of_print _ SamePrint.refl
  | some shared =>
    obtain ⟨hrv, hprint⟩ :=
      (SamePrint.refl.bsnprintf (bytesOf "function ") : SamePrint t o ps _ _).jsfuncName shared ho
    dsimp only
    rw [hrv]
    exact .of_print _ hprint

theorem same_jsobjPrintJsdate (addr : ℕ) :
    SameResult t j j' o ps (jsobjPrintJsdate t fmtY (bufDevice t) addr j o)
      (jsobjPrintJsdate t fmtY (pieceDevice t) addr j' ps) := by
  unfold jsobjPrintJsdate
  split
  · exact same_text t ps _ _
  · cases jsdateNumval t addr with
    | error msg => exact same_text t ps _ _
    | ok numval => exact same_text t ps _ _

theorem same_jsobjPrintJsregexp (addr : ℕ) (ho : o.len ≤ 2 ^ t.cfg.bits) :
    SameResult t j j' o ps (jsobjPrintJsregexp t (bufDevice t) addr j o)
      (jsobjPrintJsregexp t (pieceDevice t) addr j' ps) := by
  unfold jsobjPrintJsregexp
  split
  · exact same_text t ps _ _
  cases t.readHeapPtr addr t.cfg.offJsregexpData with
  | none => exact same_text t ps _ _
  | some datap =>
    dsimp only
    cases t.readHeapArray datap with
    | none => exact same_text t ps _ _
    | some data =>
      dsimp only
      split
      · exact same_text t ps _ _
      · obtain ⟨-, hprint⟩ :=
          (SamePrint.refl.bsnprintf (bytesOf "JSRegExp: ") : SamePrint t o ps _ _).jsstrPrint
            (data.get 1) jsstrQuoted ho
        exact .of_print _ hprint

/-! ### Objects -/

variable {t} {print : PrintFn OutBuf} {print' : PrintFn (List Piece)}
  (hprint : PrintsSame t print print')

include hprint

/-- The settings and the buffers of the two devices, after some properties of an object. -/
def SameProps (t : Target) (j j' : JsobjPrint) (o : OutBuf) (ps : List Piece)
    (s : JsobjPrint × OutBuf) (s' : JsobjPrint × List Piece) : Prop :=
  ∃ nprops, s.1 = { j with nprops } ∧ s'.1 = { j' with nprops } ∧ SamePrint t o ps s.2 s'.2

theorem similar_jsobjPrintProp (hsame : j.Same j') (hmax : j.maxstrlen = 0)
    (ho : o.len ≤ 2 ^ t.cfg.bits) :
    PropFunc.Similar (SameProps t j j' o ps) (jsobjPrintProp (bufDevice t) print)
      (jsobjPrintProp (pieceDevice t) print') := by
  rintro name val ⟨k, o₁⟩ ⟨k', ps₁⟩ ⟨n, hk, hk', hprints⟩
  dsimp only at hk hk' hprints
  have hk_same : k.Same k' := by
    rw [hk, hk']
    exact hsame.setNprops n n
  have hk_max : k.maxstrlen = 0 := by rw [hk]; exact hmax
  have hn : k'.nprops = k.nprops := by rw [hk, hk']
  have hindent : k'.indent = k.indent := hk_same.indent
  unfold jsobjPrintProp
  dsimp only
  rw [hn, hindent]
  -- the name, the value and the comma
  have hname := hprints.bsnprintf ((if k.nprops = 0 then bytesOf "\x7b" else []) ++ bytesOf "\n" ++
    fmtBlanks (addInt k.indent 4) ++ bytesOf "\"" ++ name ++ bytesOf "\": ")
  have hval := hname.print hprint val hk_same.descend hk_max ho
  obtain ⟨_, _, _, _, rfl⟩ := hsame
  subst hk hk'
  exact ⟨rfl, incrInt n, rfl, rfl, hval.print.bsnprintf _⟩

/-- The settings and the buffers of the two devices, after looking for a member in some properties
of an object. -/
def SameMember (t : Target) (j j' : JsobjPrint) (o : OutBuf) (ps : List Piece)
    (s : JsobjPrint × OutBuf) (s' : JsobjPrint × List Piece) : Prop :=
  ∃ f, s.1 = { j with found := j.found || f } ∧ s'.1 = { j' with found := j'.found || f } ∧
    SamePrint t o ps s.2 s'.2

theorem similar_jsobjPrintPropMember (hsame : j.Same j') (hmax : j.maxstrlen = 0)
    (ho : o.len ≤ 2 ^ t.cfg.bits) :
    PropFunc.Similar (SameMember t j j' o ps) (jsobjPrintPropMember print)
      (jsobjPrintPropMember print') := by
  rintro name val ⟨k, o₁⟩ ⟨k', ps₁⟩ ⟨f, hk, hk', hprints⟩
  dsimp only at hk hk' hprints
  have hk_same : k.Same k' := by
    rw [hk, hk']
    exact hsame.setFound _ _
  have hk_max : k.maxstrlen = 0 := by rw [hk]; exact hmax
  -- a property that is not the member leaves everything as it is
  have hskip : ∀ rv : ℤ, rv = rv ∧ SameMember t j j' o ps (k, o₁) (k', ps₁) :=
    fun _ => ⟨rfl, f, hk, hk', hprints⟩
  unfold jsobjPrintPropMember
  dsimp only
  rw [show k'.member.getD [] = k.member.getD [] by rw [hk_same.member]]
  split
  · exact hskip _
  split
  · exact hskip _
  split
  · exact hskip _
  generalize memberRest (memberName (k.member.getD [])).2 = rest
  have hval := hprints.print hprint val (hk_same.descendMember rest)
    (by cases rest <;> exact hk_max) ho
  obtain ⟨g, d, hg, hg'⟩ := hval.settings
  refine ⟨hval.rv, f || (rest.isNone || g), ?_, ?_, hval.print⟩
  · dsimp only
    rw [hg.found, hk, Bool.or_assoc]
  · dsimp only
    rw [hg'.found, hk', Bool.or_assoc]

theorem same_jsobjPrintJsobject (addr : ℕ) (hsame : j.Same j') (hmax : j.maxstrlen = 0)
    (ho : o.len ≤ 2 ^ t.cfg.bits) :
    SameResult t j j' o ps (jsobjPrintJsobject t (bufDevice t) print addr j o)
      (jsobjPrintJsobject t (pieceDevice t) print' addr j' ps) := by
  unfold jsobjPrintJsobject
  have hmember_eq : j'.member.isSome = j.member.isSome := by rw [hsame.member]
  by_cases hmember : j.member.isSome
  · -- looking for a member
    rw [if_pos hmember, if_pos (hmember_eq.trans hmember)]
    obtain ⟨hrv, f, hk, hk', hprints⟩ :=
      (similar_jsobjPrintPropMember ps hprint hsame hmax ho).properties_rv t addr
        (⟨false, by simp, by simp, SamePrint.refl⟩ : SameMember t j j' o ps (j, o) (j', ps))
        j.propinfo j'.propinfo
    exact ⟨hrv, ⟨f, false, .of_found hk _, .of_found hk' _⟩, hprints⟩
  have hmember' : ¬ j'.member.isSome := by rwa [hmember_eq]
  rw [if_neg hmember, if_neg hmember']
  by_cases hdepth : j.depth = 0
  · rw [if_pos hdepth, if_pos (hsame.depth.trans hdepth)]
    exact same_text t ps _ _
  · have hdepth' : ¬ j'.depth = 0 := by rwa [hsame.depth]
    rw [if_neg hdepth, if_neg hdepth']
    obtain ⟨hrv, n, hk, hk', hprints⟩ :=
      (similar_jsobjPrintProp ps hprint hsame hmax ho).properties_rv t addr
        (⟨0, rfl, rfl, SamePrint.refl⟩ : SameProps t j j' o ps ({ j with nprops := 0 }, o)
          ({ j' with nprops := 0 }, ps)) j.propinfo j'.propinfo
    dsimp only
    generalize jsobjProperties t addr (jsobjPrintProp (bufDevice t) print)
      ({ j with nprops := 0 }, o) j.propinfo = r at hrv hk hprints ⊢
    generalize jsobjProperties t addr (jsobjPrintProp (pieceDevice t) print')
      ({ j' with nprops := 0 }, ps) j'.propinfo = r' at hrv hk' hprints ⊢
    obtain ⟨rv, ⟨k, o₁⟩, propinfo⟩ := r
    obtain ⟨rv', ⟨k', ps₁⟩, propinfo'⟩ := r'
    dsimp only at hrv hk hk' hprints ⊢
    -- both runs have counted the same properties
    have hn : k'.nprops = k.nprops := by rw [hk, hk']
    -- and both have the same indentation
    have hindent : k'.indent = k.indent := by rw [hk, hk', hsame.indent]
    have hsettings : ∃ f d, j.Advance f d { k with propinfo } ∧
        j'.Advance f d { k' with propinfo := propinfo' } :=
      ⟨false, false, .of_nprops hk _, .of_nprops hk' _⟩
    rw [hrv]
    split
    · exact ⟨rfl, hsettings, hprints⟩
    · refine ⟨rfl, hsettings, ?_⟩
      dsimp only
      rw [hn, hindent]
      split
      · exact (hprints.bsnprintf _).bsnprintf _
      split
      · exact (hprints.bsnprintf _).bsnprintf _
      · exact (hprints.bsnprintf _).bsnprintf _

/-! ### Arrays -/

theorem same_jsobjPrintJsarrayMember (addr : ℕ) (hsame : j.Same j') (hmax : j.maxstrlen = 0)
    (ho : o.len ≤ 2 ^ t.cfg.bits) :
    SameResult t j j' o ps (jsobjPrintJsarrayMember t (bufDevice t) print addr j o)
      (jsobjPrintJsarrayMember t (pieceDevice t) print' addr j' ps) := by
  unfold jsobjPrintJsarrayMember
  rw [show j'.member.getD [] = j.member.getD [] by rw [hsame.member]]
  cases t.readHeapPtr addr t.cfg.offJsobjectElements with
  | none => exact same_text t ps _ _
  | some ptr =>
    dsimp only
    cases t.readHeapArray ptr with
    | none => exact same_text t ps _ _
    | some elts =>
      dsimp only
      -- what is printed is the element at this index
      cases memberIndex t.cfg.bits (j.member.getD []) with
      | none => exact .of_print _ SamePrint.refl
      | some p =>
        obtain ⟨elt, next⟩ := p
        dsimp only
        split
        · exact .of_print _ SamePrint.refl
        cases indexRest next with
        | none => exact .of_print _ SamePrint.refl
        | some rest =>
          have hval := hprint (some (.addr (elts.get elt))) _ _ o ps (hsame.descendMember rest)
            (by cases rest <;> exact hmax) ho
          obtain ⟨g, d, hg, hg'⟩ := hval.settings
          exact ⟨hval.rv, ⟨rest.isNone || g, false, hg.set_found, hg'.set_found⟩, hval.print⟩

/-- An element of an array, where the buffer is not full or nothing looks at that. -/
theorem same_jsobjPrintJsarrayOne (ap : V8Array) (index value : ℕ) (hsame : j.Same j')
    (hmax : j.maxstrlen = 0) (ho : o.len ≤ 2 ^ t.cfg.bits)
    (hroom : v8arrayLength ap = 1 ∨ o.len ≠ 0) :
    let r := jsobjPrintJsarrayOne (bufDevice t) print ap index value (j, o)
    let r' := jsobjPrintJsarrayOne (pieceDevice t) print' ap index value (j', ps)
    r.1 = 0 ∧ r'.1 = 0 ∧ r.2.1.Same r'.2.1 ∧ r.2.1.maxstrlen = 0 ∧ SamePrint t o ps r.2.2 r'.2.2 := by
  intro r r'
  have hkeep : ∀ {f d : Bool} {k : JsobjPrint}, j.Advance f d k → k.maxstrlen = 0 := by
    rintro f d k ⟨_, _, rfl⟩
    exact hmax
  unfold r r' jsobjPrintJsarrayOne
  dsimp only
  -- a single element is printed without looking at the buffer
  by_cases hone : v8arrayLength ap = 1
  · rw [if_pos hone, if_pos hone]
    have hval := hprint (some (.addr value)) _ _ o ps hsame hmax ho
    obtain ⟨f, d, hk, hk'⟩ := hval.settings
    exact ⟨rfl, rfl, hsame.advance hk hk', hkeep hk, hval.print⟩
  · have hfull : ¬ (bufDevice t).full o := fun h => hroom.resolve_left hone (beq_iff_eq.mp h)
    rw [if_neg hone, if_neg hone, if_neg hfull, if_neg (show ¬ (pieceDevice t).full ps from
      Bool.false_ne_true), hsame.indent]
    have hval := ((SamePrint.refl : SamePrint t o ps _ _).bsnprintf (fmtBlanks j.indent)).print
      hprint (some (.addr value)) hsame hmax ho
    obtain ⟨f, d, hk, hk'⟩ := hval.settings
    exact ⟨rfl, rfl, hsame.advance hk hk', hkeep hk, hval.print.bsnprintf _⟩

/-- Nothing that has been printed without end is taken back. -/
theorem append_visitWhile (ap : V8Array) (words : List ℕ) (index : ℕ) (hmax : j.maxstrlen = 0) :
    ∃ qs, (visitWhile (jsobjPrintJsarrayOne (pieceDevice t) print' ap) index words (j, ps)).2.2 =
      ps ++ qs := by
  induction words generalizing index j ps with
  | nil => exact ⟨[], (List.append_nil ps).symm⟩
  | cons word words ih =>
    -- beside a buffer that is not full
    obtain ⟨-, hrv, hsame, hmax', ⟨qs, hqs, -⟩⟩ := same_jsobjPrintJsarrayOne ps hprint ap index word
      (JsobjPrint.Same.refl j) hmax (show (OutBuf.fresh (fun _ => 0) 1).len ≤ _ from Nat.one_le_two_pow)
      (.inr Nat.one_ne_zero)
    obtain ⟨qs', hqs'⟩ := ih (j := _) _ (index + 1) (by
      obtain ⟨_, _, _, _, heq⟩ := hsame
      exact (congrArg JsobjPrint.maxstrlen heq).trans hmax')
    rw [visitWhile]
    dsimp only
    rw [if_neg (not_not.mpr hrv), hqs', hqs, List.append_assoc]
    exact ⟨qs ++ qs', rfl⟩

/-- The elements of an array. On a full buffer the iteration stops, and nothing more would have been
printed. -/
theorem same_visitWhile (ap : V8Array) (words : List ℕ) (index : ℕ) (hsame : j.Same j')
    (hmax : j.maxstrlen = 0) (ho : o.len ≤ 2 ^ t.cfg.bits) :
    let r := visitWhile (jsobjPrintJsarrayOne (bufDevice t) print ap) index words (j, o)
    let r' := visitWhile (jsobjPrintJsarrayOne (pieceDevice t) print' ap) index words (j', ps)
    SamePrint t o ps r.2.2 r'.2.2 := by
  induction words generalizing index j j' o ps with
  | nil => exact SamePrint.refl
  | cons word words ih =>
    intro r r'
    -- the element is printed in both runs, or the buffer is full
    by_cases hroom : v8arrayLength ap = 1 ∨ o.len ≠ 0
    · obtain ⟨hrv, hrv', hsame', hmax', hprints⟩ :=
        same_jsobjPrintJsarrayOne ps hprint ap index word hsame hmax ho hroom
      unfold r r'
      rw [visitWhile, visitWhile]
      dsimp only
      rw [if_neg (not_not.mpr hrv), if_neg (not_not.mpr hrv')]
      exact hprints.trans (ih _ _ hsame' hmax' (hprints.len_le.trans ho))
    · obtain ⟨hone, hlen⟩ := not_or.mp hroom
      -- a full buffer takes nothing of what the other run appends
      have hlen : o.len = 0 := not_not.mp hlen
      have hr : r = (-1, j, o) := by
        unfold r
        rw [visitWhile, jsobjPrintJsarrayOne]
        simp [hone, bufDevice, hlen]
      obtain ⟨qs, hqs⟩ := append_visitWhile ps hprint ap (word :: words) index (j := j') (by
        obtain ⟨_, _, _, _, rfl⟩ := hsame
        exact hmax)
      rw [hr]
      exact ⟨qs, hqs, Emitted.stopped hlen qs⟩

theorem same_jsobjPrintJsarray (addr : ℕ) (hsame : j.Same j') (hmax : j.maxstrlen = 0)
    (ho : o.len ≤ 2 ^ t.cfg.bits) :
    SameResult t j j' o ps (jsobjPrintJsarray t (bufDevice t) print addr j o)
      (jsobjPrintJsarray t (pieceDevice t) print' addr j' ps) := by
  unfold jsobjPrintJsarray
  have hmember_eq : j'.member.isSome = j.member.isSome := by rw [hsame.member]
  by_cases hmember : j.member.isSome
  · rw [if_pos hmember, if_pos (hmember_eq.trans hmember)]
    exact same_jsobjPrintJsarrayMember ps hprint addr hsame hmax ho
  have hmember' : ¬ j'.member.isSome := by rwa [hmember_eq]
  rw [if_neg hmember, if_neg hmember']
  by_cases hdepth : j.depth = 0
  · rw [if_pos hdepth, if_pos (hsame.depth.trans hdepth)]
    exact same_text t ps _ _
  have hdepth' : ¬ j'.depth = 0 := by rwa [hsame.depth]
  rw [if_neg hdepth, if_neg hdepth']
  cases v8arrayLoad t addr with
  | none => exact .of_print _ SamePrint.refl
  | some ap =>
    dsimp only
    simp only [v8arrayIterElements_eq_visitWhile]
    split
    · exact same_text t ps _ _
    split
    · have hopen : SamePrint t o ps _ _ := SamePrint.refl.bsnprintf (bytesOf "[ ")
      exact .of_print _ ((hopen.trans (same_visitWhile _ hprint ap _ 0 hsame.descend hmax
        (hopen.len_le.trans ho))).bsnprintf _)
    · have hopen : SamePrint t o ps _ _ := SamePrint.refl.bsnprintf (bytesOf "[\n")
      rw [hsame.indent]
      exact .of_print _ (((hopen.trans (same_visitWhile _ hprint ap _ 0 hsame.descend hmax
        (hopen.len_le.trans ho))).bsnprintf _).bsnprintf _)

/-! ### Any value -/

/-- The two tables have the same entries. -/
theorem same_jsobjPrintTable (klass : String) (addr : ℕ) (hsame : j.Same j')
    (hmax : j.maxstrlen = 0) (ho : o.len ≤ 2 ^ t.cfg.bits) :
    match jsobjPrintTable t fmtY (bufDevice t) print klass,
      jsobjPrintTable t fmtY (pieceDevice t) print' klass with
    | some func, some func' => SameResult t j j' o ps (func addr j o) (func' addr j' ps)
    | none, none => True
    | _, _ => False := by
  unfold jsobjPrintTable
  by_cases h : klass = "HeapNumber"
  · simp only [if_pos h]
    exact same_jsobjPrintNumber t ps addr
  simp only [if_neg h]
  by_cases h : klass = "Oddball"
  · simp only [if_pos h]
    exact same_jsobjPrintOddball t ps addr ho
  simp only [if_neg h]
  -- objects and arrays print what is inside of them
  by_cases h : klass = "JSObject"
  · simp only [if_pos h]
    exact same_jsobjPrintJsobject ps hprint addr hsame hmax ho
  simp only [if_neg h]
  by_cases h : klass = "JSArray"
  · simp only [if_pos h]
    exact same_jsobjPrintJsarray ps hprint addr hsame hmax ho
  simp only [if_neg h]
  -- the others print a text that does not depend on the buffer
  by_cases h : klass = "JSTypedArray"
  · simp only [if_pos h]
    exact same_jsobjPrintJstypedArray t ps addr
  simp only [if_neg h]
  by_cases h : klass = "JSFunction"
  · simp only [if_pos h]
    exact same_jsobjPrintJsfunction t ps addr ho
  simp only [if_neg h]
  by_cases h : klass = "JSBoundFunction"
  · simp only [if_pos h]
    exact same_text t ps _ _
  simp only [if_neg h]
  by_cases h : klass = "JSDate"
  · simp only [if_pos h]
    exact same_jsobjPrintJsdate t fmtY ps addr
  simp only [if_neg h]
  by_cases h : klass = "JSRegExp"
  · simp only [if_pos h]
    exact same_jsobjPrintJsregexp t ps addr ho
  simp only [if_neg h]

theorem same_jsobjPrintHeapobject (addr : ℕ) (hsame : j.Same j') (hmax : j.maxstrlen = 0)
    (ho : o.len ≤ 2 ^ t.cfg.bits) :
    SameResult t j j' o ps (jsobjPrintHeapobject t fmtY (bufDevice t) print addr j o)
      (jsobjPrintHeapobject t fmtY (pieceDevice t) print' addr j' ps) := by
  unfold jsobjPrintHeapobject
  cases t.readTypebyte addr with
  | none => exact same_text t ps _ _
  | some type =>
    have hmax' : j'.maxstrlen = 0 := by
      obtain ⟨_, _, _, _, rfl⟩ := hsame
      exact hmax
    dsimp only
    split
    · rw [hmax, hmax']
      exact same_string t ps SamePrint.refl addr _ ho
    · have htable := same_jsobjPrintTable fmtY ps hprint
        ((t.cfg.enumLookupStr (printType t.cfg type)).getD "<unknown>") addr
        (hsame.setDescended true true) hmax ho
      generalize jsobjPrintTable t fmtY (bufDevice t) print _ = func at htable ⊢
      generalize jsobjPrintTable t fmtY (pieceDevice t) print' _ = func' at htable ⊢
      cases func with
      | none =>
        cases func' with
        | none => exact same_text t ps _ _
        | some => exact htable.elim
      | some func =>
        cases func' with
        | none => exact htable.elim
        | some func' =>
          -- the settings say that the value is one of the table
          obtain ⟨f, d, hk, hk'⟩ := htable.settings
          exact ⟨htable.rv, ⟨f, true, hk.of_descended, hk'.of_descended⟩, htable.print⟩

theorem same_jsobjPrintWord (addr : ℕ) (hsame : j.Same j') (hmax : j.maxstrlen = 0)
    (ho : o.len ≤ 2 ^ t.cfg.bits) :
    SameResult t j j' o ps (jsobjPrintWord t fmtY (bufDevice t) print addr j o)
      (jsobjPrintWord t fmtY (pieceDevice t) print' addr j' ps) := by
  unfold jsobjPrintWord
  split
  · exact same_text t ps _ _
  split
  · exact same_text t ps _ _
  · exact same_jsobjPrintHeapobject fmtY ps hprint addr hsame hmax ho

omit hprint

theorem samePrint_printAddrs (val : Option V8Propvalue) (hsame : j.Same j') :
    SamePrint t o ps (printAddrs (bufDevice t) val j o) (printAddrs (pieceDevice t) val j' ps) := by
  obtain ⟨_, _, _, _, rfl⟩ := hsame
  have hif : ∀ {o' : OutBuf} {ps' : List Piece} (c : Prop) [Decidable c] (T : List UInt8),
      SamePrint t o ps o' ps' →
      SamePrint t o ps (if c then (bufDevice t).bsnprintf o' T else o')
        (if c then (pieceDevice t).bsnprintf ps' T else ps') := by
    intro o' ps' c _ T h
    split
    · exact h.bsnprintf T
    · exact h
  exact hif _ _ (hif _ _ SamePrint.refl)

/-- **Printing a value does the same on the two devices**, where there is no limit on the length of
strings. -/
theorem same_jsobjPrintValue (fuel : ℕ) :
    PrintsSame t (jsobjPrintValue t fmtY (bufDevice t) fuel)
      (jsobjPrintValue t fmtY (pieceDevice t) fuel) := by
  induction fuel with
  | zero => exact fun val j j' o ps _ _ _ => .of_print _ SamePrint.refl
  | succ fuel ih =>
    intro val j j' o ps hsame hmax ho
    have haddrs : SamePrint t o ps _ _ := samePrint_printAddrs ps val hsame
    unfold jsobjPrintValue
    dsimp only
    cases val with
    | none =>
      exact (same_jsobjPrintWord fmtY _ ih _ hsame hmax (haddrs.len_le.trans ho)).after haddrs
    | some v =>
      cases v with
      | double w => exact (same_text t _ _ _).after haddrs
      | addr w =>
        exact (same_jsobjPrintWord fmtY _ ih _ hsame hmax (haddrs.len_le.trans ho)).after haddrs

end Unbounded

end MdbV8
