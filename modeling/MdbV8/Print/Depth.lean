import MdbV8.Objects.Events
import MdbV8.Print.Settings

/-!
# How deep printing goes

Printing a value calls itself for the values inside an object or an array, and the objects of a heap
may refer to each other in any way. What ends the recursion is in the settings: a part of the member
path is used up by a call, or a level of the depth where there is no member path (`Descends`). So a
chain of nested calls is not longer than one more than the parts of the path and the depth
(`printBounded`), and the depth is never decremented where it is zero.

The calls that a call makes are read off the model: `loggedPrint` is a function that prints values
and writes down what it is called with, on a device that keeps the list.
-/

namespace MdbV8

/-! ### The parts of a member path -/

/-- The first part of a member path, and what is behind it. An index is a part with its brackets. -/
def memberPart : List UInt8 → List UInt8 × List UInt8
  | [] => ([], [])
  | b :: bs =>
    if b = 91 then
      let (digits, rest) := bs.span (· != 93)
      (b :: digits ++ rest.take 1, rest.tail)
    else memberName (b :: bs)

theorem memberPart_of_name {member : List UInt8} (h : member.head? ≠ some 91) :
    memberPart member = memberName member := by
  cases member with
  | nil => rfl
  | cons b bs => exact if_neg fun hb => h (congrArg some hb)

theorem memberName_append (member : List UInt8) :
    (memberName member).1 ++ (memberName member).2 = member := by
  rw [memberName, List.span_eq_takeWhile_dropWhile]
  exact List.takeWhile_append_dropWhile

/-- There is less of a path behind its first part. -/
theorem length_memberRest_lt {member rest : List UInt8}
    (h : memberRest (memberPart member).2 = some rest) : rest.length < member.length := by
  have hrest : ∀ {next : List UInt8}, memberRest next = some rest → rest.length ≤ next.length := by
    intro next hnext
    cases next with
    | nil => exact absurd hnext (by simp [memberRest])
    | cons b bs =>
      rw [memberRest, Option.some.injEq] at hnext
      subst hnext
      split
      · exact Nat.le_succ _
      · exact le_rfl
  cases member with
  | nil => exact absurd h (by simp [memberPart, memberRest])
  | cons b bs =>
    by_cases hb : b = 91
    · -- behind an index
      rw [memberPart, if_pos hb, List.span_eq_takeWhile_dropWhile] at h
      have hdrop := (List.dropWhile_suffix (· != (93 : UInt8)) (l := bs)).length_le
      have hle := hrest h
      rw [List.length_tail] at hle
      rw [List.length_cons]
      omega
    · -- behind a name, where a name without letters is followed by a dot
      rw [memberPart, if_neg hb] at h
      have happ := congrArg List.length (memberName_append (b :: bs))
      rw [List.length_append] at happ
      rw [memberName, List.span_eq_takeWhile_dropWhile] at h happ
      by_cases hdot : b = 46
      · subst hdot
        rw [List.dropWhile_cons_of_neg (by decide), memberRest, if_pos rfl, Option.some.injEq] at h
        rw [← h, List.length_cons]
        exact Nat.lt_succ_self _
      · have hname : 0 < (List.takeWhile (fun b : UInt8 => b != 46 && b != 91) (b :: bs)).length := by
          rw [List.takeWhile_cons_of_pos (by simp [hb, hdot])]
          exact Nat.succ_pos _
        have hle := hrest h
        dsimp only at happ hle
        omega

/-- The parts of a member path. -/
def memberParts (member : List UInt8) : List (List UInt8) :=
  (memberPart member).1 ::
    match _ : memberRest (memberPart member).2 with
    | none => []
    | some rest => memberParts rest
termination_by member.length
decreasing_by exact length_memberRest_lt ‹_›

/-- The number of parts of a member path, if there is one. -/
def memberSteps : Option (List UInt8) → ℕ
  | none => 0
  | some member => (memberParts member).length

theorem memberSteps_some (member : List UInt8) :
    memberSteps (some member) = memberSteps (memberRest (memberPart member).2) + 1 := by
  rw [memberSteps, memberParts, List.length_cons]
  congr 1
  split
  · next h => rw [h]; rfl
  · next h => rw [h]; rfl

theorem memberSteps_le (member : List UInt8) : memberSteps (some member) ≤ member.length + 1 := by
  induction hlen : member.length using Nat.strong_induction_on generalizing member with
  | _ n ih =>
    rw [memberSteps_some]
    cases h : memberRest (memberPart member).2 with
    | none => exact Nat.succ_le_succ (Nat.zero_le _)
    | some rest =>
      have hlt := length_memberRest_lt h
      have hle := ih rest.length (by omega) rest rfl
      omega

/-- Behind an index there is the same for both functions that look for a member. -/
theorem memberRest_of_index {bits : ℕ} {member next : List UInt8} {elt : ℕ}
    {rest : Option (List UInt8)} (hindex : memberIndex bits member = some (elt, next))
    (hrest : indexRest next = some rest) : memberRest (memberPart member).2 = rest := by
  have hnext : (memberPart member).2 = next := by
    cases member with
    | nil => exact absurd hindex (by simp [memberIndex])
    | cons b bs =>
      unfold memberIndex at hindex
      dsimp only at hindex
      rw [memberPart]
      split at hindex
      · exact absurd hindex (by simp)
      · next hb =>
        rw [if_pos (not_not.mp hb)]
        split at hindex
        · exact absurd hindex (by simp)
        split at hindex
        · exact absurd hindex (by simp)
        split at hindex
        · exact absurd hindex (by simp)
        · exact congrArg Prod.snd (Option.some.inj hindex)
  rw [hnext]
  cases next with
  | nil => exact Option.some.inj hrest
  | cons b bs =>
    rw [indexRest] at hrest
    rw [memberRest]
    -- what follows the index is a dot or a bracket
    split at hrest
    · next hb => rw [if_pos hb, ← Option.some.inj hrest]
    · next hb =>
      split at hrest
      · rw [if_neg hb, ← Option.some.inj hrest]
      · exact absurd hrest (by simp)

/-! ### What a nested call gets -/

namespace JsobjPrint

/-- The settings of a nested call: a part of the member path has been used up, or a level of the
depth, of which there was one. -/
inductive Descends (j k : JsobjPrint) : Prop
  | member (m : List UInt8) (hmember : j.member = some m)
      (hsteps : memberSteps k.member + 1 = memberSteps j.member) (hdepth : k.depth = j.depth)
  | print (hmember : j.member = none) (hnone : k.member = none) (hpos : 0 < j.depth)
      (hdepth : k.depth = j.depth - 1)

/-- What is left for nested calls. -/
def level (j : JsobjPrint) : ℕ := memberSteps j.member + j.depth

/-- Whether settings descend depends on their member path and their depth only. -/
theorem Descends.of_eq {j j' k k' : JsobjPrint} (h : j.Descends k) (hjm : j'.member = j.member)
    (hjd : j'.depth = j.depth) (hkm : k'.member = k.member) (hkd : k'.depth = k.depth) :
    j'.Descends k' := by
  cases h with
  | member m hmember hsteps hdepth =>
    refine .member m (hjm.trans hmember) ?_ ?_
    · rw [hjm, hkm, hsteps]
    · rw [hjd, hkd, hdepth]
  | print hmember hnone hpos hdepth =>
    refine .print (hjm.trans hmember) (hkm.trans hnone) ?_ ?_
    · rw [hjd]
      exact hpos
    · rw [hjd, hkd, hdepth]

theorem Descends.keeps {j k l : JsobjPrint} (h : j.Descends k) (hkl : k.Keeps l) : j.Descends l :=
  h.of_eq rfl rfl hkl.same.member hkl.same.depth

theorem Descends.same {j k l : JsobjPrint} (h : j.Descends k) (hkl : k.Same l) : j.Descends l :=
  h.of_eq rfl rfl hkl.member hkl.depth

theorem Descends.level {j k : JsobjPrint} (h : j.Descends k) : k.level < j.level := by
  cases h with
  | member m hmember hsteps hdepth => unfold JsobjPrint.level; omega
  | print hmember hnone hpos hdepth =>
    unfold JsobjPrint.level
    rw [hmember, hnone]
    omega

/-- The settings for what is inside an object or an array. -/
theorem descends_descend {j : JsobjPrint} (hmember : j.member = none) (hpos : 0 < j.depth)
    (hdepth : j.depth < 2 ^ 64) : j.Descends j.descend := by
  refine .print hmember hmember hpos ?_
  unfold descend
  dsimp only
  omega

/-- The settings for what is behind a part of a member path. -/
theorem descends_descendMember {j : JsobjPrint} {m : List UInt8} (hmember : j.member = some m) :
    j.Descends (j.descendMember (memberRest (memberPart m).2)) := by
  refine .member m hmember ?_ ?_
  · rw [hmember, memberSteps_some]
    unfold descendMember
    cases memberRest (memberPart m).2 <;> rfl
  · unfold descendMember
    cases memberRest (memberPart m).2 <;> rfl

theorem Descends.depth_lt {j k : JsobjPrint} (h : j.Descends k) (hdepth : j.depth < 2 ^ 64) :
    k.depth < 2 ^ 64 := by
  cases h with
  | member m hmember hsteps hkd => rwa [hkd]
  | print hmember hnone hpos hkd => omega

end JsobjPrint

/-! ### The calls that a call makes -/

/-- A call of a function that prints values. -/
abbrev PrintCall (δ : Type*) := Option V8Propvalue × JsobjPrint × δ

section Logged

variable {δ : Type*}

/-- A device with a list of calls beside it. -/
def loggedDevice (D : OutDevice δ) : OutDevice (δ × List (PrintCall δ)) where
  bsnprintf o T := (D.bsnprintf o.1 T, o.2)
  jsstrPrint max addr flags o :=
    let (rv, out) := D.jsstrPrint max addr flags o.1
    (rv, out, o.2)
  jsfuncName funcinfop o :=
    let (rv, out) := D.jsfuncName funcinfop o.1
    (rv, out, o.2)
  full o := D.full o.1

/-- A function that prints values and writes down what it is called with. -/
def loggedPrint (print : PrintFn δ) : PrintFn (δ × List (PrintCall δ)) := fun val jsop o =>
  let (rv, jsop', out) := print val jsop o.1
  (rv, jsop', out, o.2 ++ [(val, jsop, o.1)])

variable (t : Target) (fmtY : ℤ → List UInt8) (D : OutDevice δ)

/-- A call of `jsobj_print_value`, with the function for the calls nested in it. -/
def jsobjPrintOnce (print : PrintFn δ) : PrintFn δ := fun val jsop out =>
  let out := printAddrs D val jsop out
  match val with
  | some (.double w) => (0, jsop, jsobjPrintDouble D out (.ofBits w))
  | _ => jsobjPrintWord t fmtY D print (valueAddr val) jsop out

theorem jsobjPrintValue_succ (fuel : ℕ) :
    jsobjPrintValue t fmtY D (fuel + 1) =
      jsobjPrintOnce t fmtY D (jsobjPrintValue t fmtY D fuel) := rfl

/-- The calls that a call makes, with the function for the calls nested in it. -/
def printCalls (print : PrintFn δ) (call : PrintCall δ) : List (PrintCall δ) :=
  (jsobjPrintOnce t fmtY (loggedDevice D) (loggedPrint print) call.1 call.2.1
    (call.2.2, [])).2.2.2

/-- One call makes the other. -/
def NestedPrint (call call' : PrintCall δ) : Prop :=
  ∃ fuel, call' ∈ printCalls t fmtY D (jsobjPrintValue t fmtY D fuel) call

/-! ### What is written down -/

/-- The result with other settings that ask for the same, on a device with a list of calls beside it:
it is the same, and the calls in the list satisfy `L`. The settings are kept. -/
structure LoggedSame (exact : Prop) (L : JsobjPrint → Prop) (j : JsobjPrint) (r : PrintResult δ)
    (r' : PrintResult (δ × List (PrintCall δ))) : Prop where
  rv : r'.1 = r.1
  settings : r.2.1.SameIf exact r'.2.1
  out : r'.2.2.1 = r.2.2
  calls : ∀ call ∈ r'.2.2.2, L call.2.1
  keeps : j.Keeps r.2.1

variable {exact : Prop} {L : JsobjPrint → Prop} {j j' : JsobjPrint} (out : δ)
  {log : List (PrintCall δ)} (hsame : j.SameIf exact j') (hlog : ∀ call ∈ log, L call.2.1)

include hsame hlog

theorem LoggedSame.of_out (rv : ℤ) : LoggedSame exact L j (rv, j, out) (rv, j', out, log) :=
  ⟨rfl, hsame, rfl, hlog, .refl j⟩

theorem logged_jsobjPrintNumber (addr : ℕ) :
    LoggedSame exact L j (jsobjPrintNumber t D addr j out)
      (jsobjPrintNumber t (loggedDevice D) addr j' (out, log)) := by
  unfold jsobjPrintNumber
  cases t.readHeapDouble addr t.cfg.offHeapnumberValue with
  | none => exact .of_out _ hsame hlog _
  | some w => exact .of_out _ hsame hlog _

theorem logged_jsobjPrintOddball (addr : ℕ) :
    LoggedSame exact L j (jsobjPrintOddball t D addr j out)
      (jsobjPrintOddball t (loggedDevice D) addr j' (out, log)) := by
  unfold jsobjPrintOddball
  cases t.readHeapPtr addr t.cfg.offOddballToString with
  | none => exact .of_out _ hsame hlog _
  | some strptr => exact .of_out _ hsame hlog _

theorem logged_jsobjPrintJstypedArray (addr : ℕ) :
    LoggedSame exact L j (jsobjPrintJstypedArray t D addr j out)
      (jsobjPrintJstypedArray t (loggedDevice D) addr j' (out, log)) := by
  unfold jsobjPrintJstypedArray
  dsimp only
  split
  · exact .of_out _ hsame hlog _
  · cases t.readHeapSmi addr t.cfg.offJstypedarrayLength with
    | none => exact .of_out _ hsame hlog _
    | some length => exact .of_out _ hsame hlog _

theorem logged_jsobjPrintJsfunction (addr : ℕ) :
    LoggedSame exact L j (jsobjPrintJsfunction t D addr j out)
      (jsobjPrintJsfunction t (loggedDevice D) addr j' (out, log)) := by
  unfold jsobjPrintJsfunction
  cases t.readHeapPtr addr t.cfg.offJsfunctionShared with
  | none => exact .of_out _ hsame hlog _
  | some shared => exact .of_out _ hsame hlog _

theorem logged_jsobjPrintJsdate (addr : ℕ) :
    LoggedSame exact L j (jsobjPrintJsdate t fmtY D addr j out)
      (jsobjPrintJsdate t fmtY (loggedDevice D) addr j' (out, log)) := by
  unfold jsobjPrintJsdate
  split
  · exact .of_out _ hsame hlog _
  · cases jsdateNumval t addr with
    | error msg => exact .of_out _ hsame hlog _
    | ok numval => exact .of_out _ hsame hlog _

theorem logged_jsobjPrintJsregexp (addr : ℕ) :
    LoggedSame exact L j (jsobjPrintJsregexp t D addr j out)
      (jsobjPrintJsregexp t (loggedDevice D) addr j' (out, log)) := by
  unfold jsobjPrintJsregexp
  split
  · exact .of_out _ hsame hlog _
  cases t.readHeapPtr addr t.cfg.offJsregexpData with
  | none => exact .of_out _ hsame hlog _
  | some datap =>
    dsimp only
    cases t.readHeapArray datap with
    | none => exact .of_out _ hsame hlog _
    | some data =>
      dsimp only
      split
      · exact .of_out _ hsame hlog _
      · exact .of_out _ hsame hlog _

omit hsame hlog

/-- The function for the nested calls may be replaced by the other one, also with other settings that
ask for the same, and the settings are kept. -/
def NestedSame (exact : Prop) (L : JsobjPrint → Prop) (print print' : PrintFn δ) : Prop :=
  ∀ val k k' out, L k → k.SameIf exact k' →
    (print' val k' out).1 = (print val k out).1 ∧
    (print val k out).2.1.SameIf exact (print' val k' out).2.1 ∧
    (print' val k' out).2.2 = (print val k out).2.2 ∧ k.Keeps (print val k out).2.1

variable {print print' : PrintFn δ} (hprint : NestedSame exact j.Descends print print')

include hprint

/-- A nested call is written down. -/
theorem logged_print {k k' : JsobjPrint} (val : Option V8Propvalue) (hk : j.Descends k)
    (hsame : k.SameIf exact k') (hlog : ∀ call ∈ log, j.Descends call.2.1) :
    LoggedSame exact j.Descends k (print val k out) (loggedPrint print' val k' (out, log)) := by
  obtain ⟨hrv, hsettings, hout, hkeeps⟩ := hprint val k k' out hk hsame
  refine ⟨hrv, hsettings, hout, fun call hcall => ?_, hkeeps⟩
  rcases List.mem_append.mp hcall with h | h
  · exact hlog call h
  · rw [List.mem_singleton.mp h]
    exact hk.same hsame.1

/-- The states of the two devices, while the properties of an object are printed. -/
structure LoggedState (exact : Prop) (j : JsobjPrint) (s : JsobjPrint × δ)
    (s' : JsobjPrint × δ × List (PrintCall δ)) : Prop where
  settings : s.1.SameIf exact s'.1
  out : s'.2.1 = s.2
  calls : ∀ call ∈ s'.2.2, j.Descends call.2.1
  keeps : j.Keeps s.1

theorem similar_logged_prop (hmember : j.member = none) (hpos : 0 < j.depth)
    (hdepth : j.depth < 2 ^ 64) :
    PropFunc.Similar (fun s s' => LoggedState exact j s s' ∧ s'.1.nprops = s.1.nprops)
      (jsobjPrintProp D print) (jsobjPrintProp (loggedDevice D) (loggedPrint print')) := by
  rintro name val ⟨k, out⟩ ⟨k', out', log⟩ ⟨⟨hsame, hout, hlog, hkeeps⟩, hn⟩
  dsimp only at hsame hout hlog hkeeps hn
  subst hout
  have hdescend : j.Descends k.descend :=
    (JsobjPrint.descends_descend hmember hpos hdepth).same hkeeps.same.descend
  have hval := logged_print
    (D.bsnprintf out' ((if k.nprops = 0 then bytesOf "\x7b" else []) ++ bytesOf "\n" ++
      fmtBlanks (addInt k.indent 4) ++ bytesOf "\"" ++ name ++ bytesOf "\": ")) hprint val hdescend
      hsame.descend hlog
  have hsettings := hsame.setNprops (incrInt k.nprops)
  obtain ⟨⟨n, found, descended, propinfo, rfl⟩, -⟩ := hsame
  dsimp only at hn
  subst hn
  refine ⟨rfl, ⟨hsettings, ?_, hval.calls, hkeeps.setNprops _⟩, rfl⟩
  exact congrArg (fun o => D.bsnprintf o (bytesOf ",")) hval.out

theorem similar_logged_prop_member {m : List UInt8} (hmember : j.member = some m) :
    PropFunc.Similar (LoggedState exact j) (jsobjPrintPropMember print)
      (jsobjPrintPropMember (loggedPrint print')) := by
  rintro name val ⟨k, out⟩ ⟨k', out', log⟩ ⟨hsame, hout, hlog, hkeeps⟩
  dsimp only at hsame hout hlog hkeeps
  subst hout
  have hskip : ∀ rv : ℤ, rv = rv ∧ LoggedState exact j (k, out') (k', out', log) :=
    fun _ => ⟨rfl, hsame, rfl, hlog, hkeeps⟩
  unfold jsobjPrintPropMember
  dsimp only
  rw [show k'.member.getD [] = m by rw [hsame.1.member, hkeeps.same.member, hmember]; rfl,
    show k.member.getD [] = m by rw [hkeeps.same.member, hmember]; rfl]
  split
  · exact hskip _
  next hname =>
  split
  · exact hskip _
  split
  · exact hskip _
  rw [← memberPart_of_name hname]
  generalize hrest : memberRest (memberPart m).2 = rest
  -- the value of the member is printed one level further down
  have hdescend : j.Descends (k.descendMember rest) := by
    have h := JsobjPrint.descends_descendMember hmember
    rw [hrest] at h
    exact h.same (hkeeps.same.descendMember rest)
  have hval := logged_print out' hprint val hdescend (hsame.descendMember rest) hlog
  exact ⟨hval.rv.symm, hsame.setFound hval.settings, hval.out, hval.calls,
    hkeeps.setFound hval.keeps⟩

theorem logged_jsobjPrintJsobject (addr : ℕ) (hdepth : j.depth < 2 ^ 64)
    (hsame : j.SameIf exact j') (hlog : ∀ call ∈ log, j.Descends call.2.1) :
    LoggedSame exact j.Descends j (jsobjPrintJsobject t D print addr j out)
      (jsobjPrintJsobject t (loggedDevice D) (loggedPrint print') addr j' (out, log)) := by
  unfold jsobjPrintJsobject
  by_cases hsome : j.member.isSome
  · -- looking for a member
    obtain ⟨m, hmember⟩ := Option.isSome_iff_exists.mp hsome
    have hsimilar := similar_logged_prop_member hprint hmember
    have hstart : LoggedState exact j (j, out) (j', out, log) := ⟨hsame, rfl, hlog, .refl j⟩
    obtain ⟨hrv, hk, hout, hcalls, hkeeps⟩ :=
      hsimilar.properties_rv t addr hstart j.propinfo j'.propinfo
    rw [if_pos hsome, if_pos (by rwa [hsame.1.member])]
    refine ⟨hrv.symm, hk.setPropinfo fun he => ?_, hout, hcalls, hkeeps.setPropinfo _⟩
    rw [hsame.2 he] at hstart ⊢
    exact (hsimilar.properties t addr hstart j.propinfo).2.2.symm
  have hnone : j.member = none := Option.not_isSome_iff_eq_none.mp hsome
  have hsome' : ¬ j'.member.isSome := by rwa [hsame.1.member]
  rw [if_neg hsome, if_neg hsome']
  by_cases h0 : j.depth = 0
  · rw [if_pos h0, if_pos (hsame.1.depth.trans h0)]
    exact .of_out _ hsame hlog _
  have h0' : ¬ j'.depth = 0 := by rwa [hsame.1.depth]
  rw [if_neg h0, if_neg h0']
  -- the callbacks of the two runs stay similar
  have hsimilar := similar_logged_prop D hprint hnone (Nat.pos_of_ne_zero h0) hdepth
  have hstart : LoggedState exact j ({ j with nprops := 0 }, out) ({ j' with nprops := 0 }, out, log) :=
    ⟨hsame.setNprops 0, rfl, hlog, (JsobjPrint.Keeps.refl j).setNprops 0⟩
  obtain ⟨hrv, ⟨hk, hout, hcalls, hkeeps⟩, hn⟩ :=
    hsimilar.properties_rv t addr ⟨hstart, rfl⟩ j.propinfo j'.propinfo
  -- with the same properties, the flags are the same
  have hpropinfo : exact → (jsobjProperties t addr
      (jsobjPrintProp (loggedDevice D) (loggedPrint print')) ({ j' with nprops := 0 }, out, log)
      j'.propinfo).2.2 = (jsobjProperties t addr (jsobjPrintProp D print)
      ({ j with nprops := 0 }, out) j.propinfo).2.2 := fun he => by
    rw [hsame.2 he] at hstart ⊢
    exact (hsimilar.properties t addr ⟨hstart, rfl⟩ j.propinfo).2.2.symm
  dsimp only
  generalize jsobjProperties t addr (jsobjPrintProp D print)
    ({ j with nprops := 0 }, out) j.propinfo = r at hrv hk hout hkeeps hn hpropinfo ⊢
  generalize jsobjProperties t addr (jsobjPrintProp (loggedDevice D) (loggedPrint print'))
    ({ j' with nprops := 0 }, out, log) j'.propinfo = r' at hrv hk hout hcalls hn hpropinfo ⊢
  obtain ⟨rv, ⟨k, out₁⟩, propinfo⟩ := r
  obtain ⟨rv', ⟨k', out₁', log'⟩, propinfo'⟩ := r'
  dsimp only at hrv hk hout hcalls hkeeps hn hpropinfo ⊢
  subst hrv hout
  have hsettings := hk.setPropinfo hpropinfo
  have hkept := hkeeps.setPropinfo propinfo
  by_cases hrv : rv ≠ 0
  · rw [if_pos hrv, if_pos hrv]
    exact ⟨rfl, hsettings, rfl, hcalls, hkept⟩
  rw [if_neg hrv, if_neg hrv]
  -- the closing brace depends on the number of properties only
  obtain ⟨⟨n, found, descended, pi, rfl⟩, -⟩ := hk
  dsimp only at hn
  subst hn
  refine ⟨rfl, hsettings, ?_, ?_, hkept⟩
  · dsimp only
    split
    · rfl
    split
    · rfl
    · rfl
  · dsimp only
    split
    · exact hcalls
    split
    · exact hcalls
    · exact hcalls

theorem logged_jsobjPrintJsarrayMember {m : List UInt8} (hmember : j.member = some m) (addr : ℕ)
    (hsame : j.SameIf exact j') (hlog : ∀ call ∈ log, j.Descends call.2.1) :
    LoggedSame exact j.Descends j (jsobjPrintJsarrayMember t D print addr j out)
      (jsobjPrintJsarrayMember t (loggedDevice D) (loggedPrint print') addr j' (out, log)) := by
  unfold jsobjPrintJsarrayMember
  rw [show j'.member.getD [] = m by rw [hsame.1.member, hmember]; rfl,
    show j.member.getD [] = m by rw [hmember]; rfl]
  cases t.readHeapPtr addr t.cfg.offJsobjectElements with
  | none => exact .of_out _ hsame hlog _
  | some ptr =>
    dsimp only
    cases t.readHeapArray ptr with
    | none => exact .of_out _ hsame hlog _
    | some elts =>
      dsimp only
      -- a member that is no index is an error in both runs
      cases hindex : memberIndex t.cfg.bits m with
      | none => exact .of_out _ hsame hlog _
      | some p =>
        obtain ⟨elt, next⟩ := p
        dsimp only
        split
        · exact .of_out _ hsame hlog _
        cases hrest : indexRest next with
        | none => exact .of_out _ hsame hlog _
        | some rest =>
          have hdescend := JsobjPrint.descends_descendMember hmember
          rw [memberRest_of_index hindex hrest] at hdescend
          have hval := logged_print out hprint (some (.addr (elts.get elt))) hdescend
            (hsame.descendMember rest) hlog
          exact ⟨hval.rv, hsame.setFound hval.settings, hval.out, hval.calls,
            (JsobjPrint.Keeps.refl j).setFound hval.keeps⟩

/-- The elements of an array, which are printed with settings that descend. -/
theorem logged_visitWhile {k k' : JsobjPrint} (hk : j.Descends k) (hsame : k.SameIf exact k')
    (ap : V8Array) (index : ℕ) (words : List ℕ) (hlog : ∀ call ∈ log, j.Descends call.2.1) :
    let r := visitWhile (jsobjPrintJsarrayOne D print ap) index words (k, out)
    let r' := visitWhile (jsobjPrintJsarrayOne (loggedDevice D) (loggedPrint print') ap) index words
      (k', out, log)
    r'.2.2.1 = r.2.2 ∧ ∀ call ∈ r'.2.2.2, j.Descends call.2.1 := by
  induction words generalizing index k k' out log with
  | nil => exact ⟨rfl, hlog⟩
  | cons word words ih =>
    intro r r'
    unfold r r'
    rw [visitWhile, visitWhile, jsobjPrintJsarrayOne, jsobjPrintJsarrayOne]
    dsimp only
    -- the next elements are printed with what the call has made of the settings
    have hnext : ∀ {o : δ} (g : δ → δ), let q := print (some (.addr word)) k o
        let q' := loggedPrint print' (some (.addr word)) k' (o, log)
        let r := visitWhile (jsobjPrintJsarrayOne D print ap) (index + 1) words (q.2.1, g q.2.2)
        let r' := visitWhile (jsobjPrintJsarrayOne (loggedDevice D) (loggedPrint print') ap)
          (index + 1) words (q'.2.1, g q'.2.2.1, q'.2.2.2)
        r'.2.2.1 = r.2.2 ∧ ∀ call ∈ r'.2.2.2, j.Descends call.2.1 := by
      intro o g q q'
      have hval : LoggedSame exact j.Descends k q q' :=
        logged_print o hprint (some (.addr word)) hk hsame hlog
      rw [hval.out]
      exact ih (g q.2.2) (hk.keeps hval.keeps) hval.settings (index + 1) hval.calls
    by_cases hone : v8arrayLength ap = 1
    · rw [if_pos hone, if_pos hone, if_neg (by simp), if_neg (by simp)]
      exact hnext id
    rw [if_neg hone, if_neg hone]
    by_cases hfull : D.full out
    · have hfull' : (loggedDevice D).full (out, log) = true := hfull
      rw [if_pos hfull, if_pos hfull', if_pos (by simp), if_pos (by simp)]
      exact ⟨rfl, hlog⟩
    · have hfull' : ¬ (loggedDevice D).full (out, log) = true := hfull
      rw [if_neg hfull, if_neg hfull', if_neg (by simp), if_neg (by simp), hsame.1.indent]
      exact hnext fun o => D.bsnprintf o (bytesOf ",\n")

theorem logged_jsobjPrintJsarray (addr : ℕ) (hdepth : j.depth < 2 ^ 64)
    (hsame : j.SameIf exact j') (hlog : ∀ call ∈ log, j.Descends call.2.1) :
    LoggedSame exact j.Descends j (jsobjPrintJsarray t D print addr j out)
      (jsobjPrintJsarray t (loggedDevice D) (loggedPrint print') addr j' (out, log)) := by
  unfold jsobjPrintJsarray
  by_cases hsome : j.member.isSome
  · obtain ⟨m, hmember⟩ := Option.isSome_iff_exists.mp hsome
    rw [if_pos hsome, if_pos (by rwa [hsame.1.member])]
    exact logged_jsobjPrintJsarrayMember t D out hprint hmember addr hsame hlog
  have hnone : j.member = none := Option.not_isSome_iff_eq_none.mp hsome
  have hsome' : ¬ j'.member.isSome := by rwa [hsame.1.member]
  rw [if_neg hsome, if_neg hsome']
  by_cases h0 : j.depth = 0
  · rw [if_pos h0, if_pos (hsame.1.depth.trans h0)]
    exact .of_out _ hsame hlog _
  have h0' : ¬ j'.depth = 0 := by rwa [hsame.1.depth]
  rw [if_neg h0, if_neg h0', hsame.1.indent]
  -- every element is printed one level further down
  have hdescend := JsobjPrint.descends_descend hnone (Nat.pos_of_ne_zero h0) hdepth
  cases v8arrayLoad t addr with
  | none => exact .of_out _ hsame hlog _
  | some ap =>
    dsimp only
    simp only [v8arrayIterElements_eq_visitWhile]
    split
    · exact .of_out _ hsame hlog _
    split
    · obtain ⟨hout, hcalls⟩ := logged_visitWhile D (D.bsnprintf out (bytesOf "[ ")) hprint
        hdescend hsame.descend ap 0 (arrayWords t ap) hlog
      exact ⟨rfl, hsame, congrArg (fun o => D.bsnprintf o (bytesOf " ]")) hout, hcalls, .refl j⟩
    · obtain ⟨hout, hcalls⟩ := logged_visitWhile D (D.bsnprintf out (bytesOf "[\n")) hprint
        hdescend hsame.descend ap 0 (arrayWords t ap) hlog
      exact ⟨rfl, hsame, congrArg (fun o => D.bsnprintf (D.bsnprintf o (fmtBlanks j.indent))
        (bytesOf "]")) hout, hcalls, .refl j⟩

/-! ### Any value -/

/-- The two tables have the same entries. -/
theorem logged_jsobjPrintTable (klass : String) (addr : ℕ) (hdepth : j.depth < 2 ^ 64)
    (hsame : j.SameIf exact j') (hlog : ∀ call ∈ log, j.Descends call.2.1) :
    match jsobjPrintTable t fmtY D print klass,
      jsobjPrintTable t fmtY (loggedDevice D) (loggedPrint print') klass with
    | some func, some func' =>
      LoggedSame exact j.Descends j (func addr j out) (func' addr j' (out, log))
    | none, none => True
    | _, _ => False := by
  unfold jsobjPrintTable
  by_cases h : klass = "HeapNumber"
  · simp only [if_pos h]
    exact logged_jsobjPrintNumber t D out hsame hlog addr
  simp only [if_neg h]
  by_cases h : klass = "Oddball"
  · simp only [if_pos h]
    exact logged_jsobjPrintOddball t D out hsame hlog addr
  simp only [if_neg h]
  -- only objects and arrays print what is inside of them
  by_cases h : klass = "JSObject"
  · simp only [if_pos h]
    exact logged_jsobjPrintJsobject t D out hprint addr hdepth hsame hlog
  simp only [if_neg h]
  by_cases h : klass = "JSArray"
  · simp only [if_pos h]
    exact logged_jsobjPrintJsarray t D out hprint addr hdepth hsame hlog
  simp only [if_neg h]
  -- the others make no calls
  by_cases h : klass = "JSTypedArray"
  · simp only [if_pos h]
    exact logged_jsobjPrintJstypedArray t D out hsame hlog addr
  simp only [if_neg h]
  by_cases h : klass = "JSFunction"
  · simp only [if_pos h]
    exact logged_jsobjPrintJsfunction t D out hsame hlog addr
  simp only [if_neg h]
  by_cases h : klass = "JSBoundFunction"
  · simp only [if_pos h]
    exact .of_out _ hsame hlog _
  simp only [if_neg h]
  by_cases h : klass = "JSDate"
  · simp only [if_pos h]
    exact logged_jsobjPrintJsdate t fmtY D out hsame hlog addr
  simp only [if_neg h]
  by_cases h : klass = "JSRegExp"
  · simp only [if_pos h]
    exact logged_jsobjPrintJsregexp t D out hsame hlog addr
  simp only [if_neg h]

theorem logged_jsobjPrintHeapobject (addr : ℕ) (hdepth : j.depth < 2 ^ 64)
    (hsame : j.SameIf exact j') (hlog : ∀ call ∈ log, j.Descends call.2.1) :
    LoggedSame exact j.Descends j (jsobjPrintHeapobject t fmtY D print addr j out)
      (jsobjPrintHeapobject t fmtY (loggedDevice D) (loggedPrint print') addr j' (out, log)) := by
  unfold jsobjPrintHeapobject
  cases t.readTypebyte addr with
  | none => exact .of_out _ hsame hlog _
  | some type =>
    dsimp only
    split
    · rw [show j'.maxstrlen = j.maxstrlen from hsame.1.maxstrlen]
      exact .of_out _ hsame hlog _
    · -- the settings of the function differ in `descended` only
      have heq : ({ j with descended := true } : JsobjPrint).Descends = j.Descends :=
        funext fun k => propext ⟨fun h => h.of_eq rfl rfl rfl rfl, fun h => h.of_eq rfl rfl rfl rfl⟩
      have hprint' :
          NestedSame exact ({ j with descended := true } : JsobjPrint).Descends print print' :=
        heq ▸ hprint
      have htable := logged_jsobjPrintTable t fmtY D out hprint'
        ((t.cfg.enumLookupStr (printType t.cfg type)).getD "<unknown>") addr hdepth
        hsame.setDescended fun call hcall => heq ▸ hlog call hcall
      rw [heq] at htable
      generalize jsobjPrintTable t fmtY D print _ = func at htable ⊢
      generalize jsobjPrintTable t fmtY (loggedDevice D) (loggedPrint print') _ = func' at htable ⊢
      cases func with
      | none =>
        cases func' with
        | none => exact .of_out _ hsame hlog _
        | some => exact htable.elim
      | some func =>
        cases func' with
        | none => exact htable.elim
        | some func' =>
          exact ⟨htable.rv, htable.settings, htable.out, htable.calls, htable.keeps.of_descended⟩

/-- **What a call does with the function for the nested calls**: it calls it with settings that
descend, and does nothing else with it. -/
theorem logged_jsobjPrintOnce (val : Option V8Propvalue) (hdepth : j.depth < 2 ^ 64)
    (hsame : j.SameIf exact j') :
    LoggedSame exact j.Descends j (jsobjPrintOnce t fmtY D print val j out)
      (jsobjPrintOnce t fmtY (loggedDevice D) (loggedPrint print') val j' (out, [])) := by
  have hnil : ∀ call ∈ ([] : List (PrintCall δ)), j.Descends call.2.1 := by simp
  -- the addresses before the value
  have haddrs : printAddrs (loggedDevice D) val j' (out, []) = (printAddrs D val j out, []) := by
    unfold printAddrs
    rw [hsame.1.baseaddr, hsame.1.member, hsame.1.printaddr]
    dsimp only
    split
    · split <;> rfl
    · split <;> rfl
  have hword : LoggedSame exact j.Descends j
      (jsobjPrintWord t fmtY D print (valueAddr val) j (printAddrs D val j out))
      (jsobjPrintWord t fmtY (loggedDevice D) (loggedPrint print') (valueAddr val) j'
        (printAddrs D val j out, [])) := by
    unfold jsobjPrintWord
    split
    · exact .of_out _ hsame hnil _
    split
    · exact .of_out _ hsame hnil _
    · exact logged_jsobjPrintHeapobject t fmtY D _ hprint _ hdepth hsame hnil
  unfold jsobjPrintOnce
  dsimp only
  rw [haddrs]
  cases val with
  | none => exact hword
  | some v =>
    cases v with
    | double w => exact .of_out _ hsame hnil _
    | addr w => exact hword

omit hprint

/-! ### The recursion -/

/-- **Settings that ask for the same print the same**, and a call keeps the member path and the
depth, which the next element of an array is printed with. -/
theorem jsobjPrintValue_same (fuel : ℕ) (hdepth : j.depth < 2 ^ 64) (hsame : j.SameIf exact j')
    (val : Option V8Propvalue) :
    (jsobjPrintValue t fmtY D fuel val j' out).1 = (jsobjPrintValue t fmtY D fuel val j out).1 ∧
    (jsobjPrintValue t fmtY D fuel val j out).2.1.SameIf exact
      (jsobjPrintValue t fmtY D fuel val j' out).2.1 ∧
    (jsobjPrintValue t fmtY D fuel val j' out).2.2 = (jsobjPrintValue t fmtY D fuel val j out).2.2 ∧
    j.Keeps (jsobjPrintValue t fmtY D fuel val j out).2.1 := by
  induction fuel generalizing exact val j j' out with
  | zero => exact ⟨rfl, hsame, rfl, .refl j⟩
  | succ fuel ih =>
    have hnested : ∀ {c : Prop} {j : JsobjPrint}, j.depth < 2 ^ 64 → NestedSame c j.Descends
        (jsobjPrintValue t fmtY D fuel) (jsobjPrintValue t fmtY D fuel) :=
      fun hj val k k' out hk hsame => ih out (hk.depth_lt hj) hsame val
    -- both are compared with the run that is written down
    have hleft := logged_jsobjPrintOnce t fmtY D out (hnested hdepth) val hdepth hsame
    have hdepth' : j'.depth < 2 ^ 64 := by rwa [hsame.1.depth]
    have hright := logged_jsobjPrintOnce t fmtY D out (hnested hdepth') val hdepth'
      (.refl j' : j'.SameIf True j')
    rw [jsobjPrintValue_succ]
    refine ⟨hright.rv.symm.trans hleft.rv, ?_, hright.out.symm.trans hleft.out, hleft.keeps⟩
    rw [← hright.settings.2 trivial]
    exact hleft.settings

/-- As many nested calls as the settings allow are enough. -/
theorem jsobjPrintValue_enough {fuel : ℕ} (hlevel : j.level < fuel) (hdepth : j.depth < 2 ^ 64)
    (val : Option V8Propvalue) :
    jsobjPrintValue t fmtY D fuel val j out = jsobjPrintValue t fmtY D (j.level + 1) val j out := by
  induction hn : j.level using Nat.strong_induction_on generalizing fuel val j out with
  | _ n ih =>
    subst hn
    obtain ⟨fuel, rfl⟩ : ∃ k, fuel = k + 1 := ⟨fuel - 1, by omega⟩
    -- the function for the nested calls is replaced by one with just enough for each of them
    have hnested : ∀ {fuel' : ℕ}, j.level ≤ fuel' → NestedSame True j.Descends
        (jsobjPrintValue t fmtY D fuel')
        (fun val k out => jsobjPrintValue t fmtY D (k.level + 1) val k out) := by
      intro fuel' hfuel' val k k' out hk hsame
      have hkdepth := hk.depth_lt hdepth
      have henough := ih k.level hk.level out (hk.level.trans_le hfuel') hkdepth val rfl
      have hkeeps := (jsobjPrintValue_same t fmtY D out fuel' hkdepth hsame val).2.2.2
      rw [hsame.2 trivial, henough] at *
      exact ⟨rfl, .refl _, rfl, hkeeps⟩
    have hmore := logged_jsobjPrintOnce t fmtY D out (hnested (Nat.le_of_lt_succ hlevel)) val hdepth
      (.refl j)
    have henough := logged_jsobjPrintOnce t fmtY D out (hnested le_rfl) val hdepth (.refl j)
    rw [jsobjPrintValue_succ, jsobjPrintValue_succ]
    exact Prod.ext (hmore.rv.symm.trans henough.rv)
      (Prod.ext ((hmore.settings.2 trivial).symm.trans (henough.settings.2 trivial))
        (hmore.out.symm.trans henough.out))

/-- Nested calls get settings that descend. -/
theorem NestedPrint.descends {call call' : PrintCall δ} (h : NestedPrint t fmtY D call call')
    (hdepth : call.2.1.depth < 2 ^ 64) : call.2.1.Descends call'.2.1 := by
  obtain ⟨fuel, hmem⟩ := h
  have hnested : NestedSame True call.2.1.Descends (jsobjPrintValue t fmtY D fuel)
      (jsobjPrintValue t fmtY D fuel) := fun val k k' out hk hsame =>
    jsobjPrintValue_same t fmtY D out fuel (hk.depth_lt hdepth) hsame val
  exact (logged_jsobjPrintOnce t fmtY D call.2.2 hnested call.1 hdepth (.refl _)).calls call' hmem

/-- A chain of nested calls is a chain of settings that descend. -/
theorem descends_of_isChain {call : PrintCall δ} {calls : List (PrintCall δ)}
    (hchain : List.IsChain (NestedPrint t fmtY D) (call :: calls)) (hdepth : call.2.1.depth < 2 ^ 64) :
    List.IsChain (fun c c' : PrintCall δ => c.2.1.Descends c'.2.1) (call :: calls) ∧
      (call :: calls).length ≤ call.2.1.level + 1 := by
  induction calls generalizing call with
  | nil => exact ⟨.singleton _, Nat.succ_le_succ (Nat.zero_le _)⟩
  | cons call' calls ih =>
    obtain ⟨hcall, hrest⟩ := List.isChain_cons_cons.mp hchain
    have hdescends := hcall.descends t fmtY D hdepth
    obtain ⟨hih, hlen⟩ := ih hrest (hdescends.depth_lt hdepth)
    refine ⟨List.isChain_cons_cons.mpr ⟨hdescends, hih⟩, ?_⟩
    have hlevel := hdescends.level
    rw [List.length_cons]
    omega

end Logged

/-- What bounds the printing of a value with some settings. -/
structure PrintBounded (t : Target) (fmtY : ℤ → List UInt8) {δ : Type*} (D : OutDevice δ) (addr : ℕ)
    (jsop : JsobjPrint) (out : δ) : Prop where
  /-- It ends, and there is no need for more calls nested in each other than one more than the parts
  of the member path and the depth. -/
  ends : ∀ fuel, memberSteps jsop.member + jsop.depth + 1 ≤ fuel →
    jsobjPrintValue t fmtY D fuel (some (.addr addr)) jsop out = jsobjPrint t fmtY D addr jsop out
  /-- No chain of nested calls is longer. -/
  nested : ∀ calls, List.IsChain (NestedPrint t fmtY D) ((some (.addr addr), jsop, out) :: calls) →
    (((some (.addr addr), jsop, out) : PrintCall δ) :: calls).length ≤
      1 + memberSteps jsop.member + jsop.depth
  /-- From call to call a part of the path is used up, or a level of the depth, of which there is one
  then. -/
  descends : ∀ calls, List.IsChain (NestedPrint t fmtY D) ((some (.addr addr), jsop, out) :: calls) →
    List.IsChain (fun call call' : PrintCall δ => call.2.1.Descends call'.2.1)
      ((some (.addr addr), jsop, out) :: calls)
  /-- Where there is no depth left, and no member path, an object or an array is not read: what is
  printed is the same in any target. -/
  dots : ∀ calls, List.IsChain (NestedPrint t fmtY D) ((some (.addr addr), jsop, out) :: calls) →
    ∀ call ∈ ((some (.addr addr), jsop, out) : PrintCall δ) :: calls,
      call.2.1.member = none → call.2.1.depth = 0 →
      (∀ call', ¬ NestedPrint t fmtY D call call') ∧
      ∀ (t' : Target) (print : PrintFn δ) (addr' : ℕ) (out' : δ),
        jsobjPrintJsobject t' D print addr' { call.2.1 with descended := true } out' =
          (0, { call.2.1 with descended := true }, D.bsnprintf out' (bytesOf "[...]")) ∧
        jsobjPrintJsarray t' D print addr' { call.2.1 with descended := true } out' =
          (0, { call.2.1 with descended := true }, D.bsnprintf out' (bytesOf "[...]"))

/-- **Printing ends in any heap**, also where objects refer to each other in cycles. -/
theorem printBounded (t : Target) (fmtY : ℤ → List UInt8) {δ : Type*} (D : OutDevice δ) (addr : ℕ)
    {jsop : JsobjPrint} (hdepth : jsop.depth < 2 ^ 64) (out : δ) :
    PrintBounded t fmtY D addr jsop out where
  ends fuel hfuel := by
    have hlevel : jsop.level = memberSteps jsop.member + jsop.depth := rfl
    -- the model of `jsobj_print` has more than that, as a part of the path has a byte or a dot
    have hsteps : memberSteps jsop.member ≤ (jsop.member.getD []).length + 1 := by
      cases jsop.member with
      | none => exact Nat.zero_le _
      | some member => exact memberSteps_le member
    rw [jsobjPrint, jsobjPrintValue_enough t fmtY D out (by omega) hdepth,
      ← jsobjPrintValue_enough t fmtY D out _ hdepth]
    omega
  nested calls hchain := by
    have hlen := (descends_of_isChain t fmtY D hchain hdepth).2
    have hlevel : jsop.level = memberSteps jsop.member + jsop.depth := rfl
    dsimp only at hlen
    omega
  descends calls hchain := (descends_of_isChain t fmtY D hchain hdepth).1
  dots calls hchain call hcall hmember h0 := by
    have hnone : ¬ call.2.1.member.isSome := by simp [hmember]
    refine ⟨fun call' hnested => ?_, fun t' print addr' out' => ⟨?_, ?_⟩⟩
    · cases hnested.descends t fmtY D (by omega) with
      | member m hsome hsteps hdepth => exact absurd (hmember.symm.trans hsome) (by simp)
      | print _ hnone hpos _ => omega
    · unfold jsobjPrintJsobject
      rw [if_neg hnone, if_pos h0]
    · unfold jsobjPrintJsarray
      rw [if_neg hnone, if_pos h0]

/-- A target with an object at `0x4001` that has two properties: the number 5, and itself. -/
def selfTarget : Target :=
  .ofWords (.sample .lp64)
    [(0x4000, 0x3001), (0x4008, 0x1001), (0x4010, 0x1101), (0x3010, 0x100000ab), (0x3040, 1 <<< 24),
      (0x1000, 0x2001), (0x1008, 0), (0x2010, 0xa3), (0x1100, 0x2001), (0x1108, 2 <<< 32),
      (0x1110, 5 <<< 32), (0x1118, 0x4001)]

theorem printBounded_self :
    PrintBounded selfTarget (fun _ => []) (pieceDevice selfTarget) 0x4001 { depth := 2 } [] :=
  printBounded selfTarget _ _ 0x4001 (by decide) []

example : piecesText selfTarget
      (jsobjPrint selfTarget (fun _ => []) (pieceDevice selfTarget) 0x4001 { depth := 1 } []).2.2 =
    bytesOf "\x7b\n    \"0\": 5,\n    \"1\": [...],\n\x7d" := by
  decide

/-- Where there is a member path, an object is read although there is no depth left. -/
theorem not_dots_member :
    let jsop : JsobjPrint := { depth := 0, member := some (bytesOf "0") }
    let r := jsobjPrint selfTarget (fun _ => []) (bufDevice selfTarget) 0x4001 jsop
      (OutBuf.fresh (fun _ => 0) 16)
    (selfTarget.readTypebyte 0x4001).bind selfTarget.cfg.enumLookupStr = some "JSObject" ∧
      r.2.2.text = bytesOf "5" ∧ r.2.2.text ≠ bytesOf "[...]" := by
  decide

end MdbV8
