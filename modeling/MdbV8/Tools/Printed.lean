import MdbV8.Print.Rendering
import MdbV8.Tools.ParserRows

/-!
# What the module prints has a layout

The trees of `Tools.Shown` are what the functions of `Print.Print` print. Without a member path, what is
printed for a value is its addresses and then the text of a tree, moved to the right by the indentation
(`lays_jsobjPrintValue`). So an object or an array that `::jsprint` prints with its address is one of the
values that the parser is about (`exists_printedValue`).

It depends on the memory whether there are line breaks in names and strings. What is assumed is that
there are none in the names of properties, nor in what is printed for a value that is neither an object
nor an array. And an `int` has to be enough for the indentation and for the properties of an object, which
are counted.
-/

namespace MdbV8.Tools

/-! ### Texts as lines -/

/-- The characters of a text. -/
def asLine (T : List UInt8) : Line := T.map fun b => Char.ofNat b.toNat

theorem asLine_append (T U : List UInt8) : asLine (T ++ U) = asLine T ++ asLine U := List.map_append

theorem asLine_fmtBlanks (k : ℕ) : asLine (fmtBlanks k) = blanks k := by
  unfold asLine fmtBlanks blanks
  rw [List.map_replicate, Int.natAbs_natCast]
  rfl

/-- The digits of an address. -/
theorem isHexDigit_of_mem_toDigits (n : ℕ) :
    ∀ c ∈ Nat.toDigits 16 n, isHexDigit c = true ∧ Char.ofNat (UInt8.ofNat c.toNat).toNat = c := by
  have hdigit : ∀ m < 16, isHexDigit m.digitChar = true ∧
      Char.ofNat (UInt8.ofNat m.digitChar.toNat).toNat = m.digitChar := by decide
  induction n using Nat.strong_induction_on with
  | _ n ih =>
    intro c hc
    rw [Nat.toDigits_eq_if (by decide)] at hc
    split at hc
    · next hn =>
      rw [List.mem_singleton] at hc
      rw [hc]
      exact hdigit n hn
    · next hn =>
      rcases List.mem_append.mp hc with hc | hc
      · exact ih (n / 16) (Nat.div_lt_self (by omega) (by decide)) c hc
      · rw [List.mem_singleton] at hc
        rw [hc]
        exact hdigit _ (Nat.mod_lt _ (by decide))

theorem asLine_fmtP (w : ℕ) : asLine (fmtP w) = Nat.toDigits 16 w := by
  unfold asLine fmtP fmtNat
  rw [List.map_map]
  exact (List.map_congr_left fun c hc => (isHexDigit_of_mem_toDigits w c hc).2).trans (List.map_id _)

/-! ### What is added -/

section Adds

variable (t : Target) (fmtY : ℤ → List UInt8)

/-- Printing adds some characters to a buffer without end. -/
def Adds (ps ps' : List Piece) (L : Line) : Prop :=
  ∃ qs, ps' = ps ++ qs ∧ asLine (piecesText t qs) = L

variable {t}

theorem Adds.refl (ps : List Piece) : Adds t ps ps [] := ⟨[], (List.append_nil ps).symm, rfl⟩

theorem Adds.of_eq {ps ps' : List Piece} {L L' : Line} (h : Adds t ps ps' L) (hL : L = L') :
    Adds t ps ps' L' := hL ▸ h

theorem Adds.trans {ps ps' ps'' : List Piece} {L L' : Line} (h : Adds t ps ps' L)
    (h' : Adds t ps' ps'' L') : Adds t ps ps'' (L ++ L') := by
  obtain ⟨qs, rfl, rfl⟩ := h
  obtain ⟨qs', rfl, rfl⟩ := h'
  refine ⟨qs ++ qs', List.append_assoc _ _ _, ?_⟩
  rw [piecesText, List.flatMap_append, asLine_append]
  rfl

theorem Adds.bsnprintf (ps : List Piece) (T : List UInt8) :
    Adds t ps ((pieceDevice t).bsnprintf ps T) (asLine T) :=
  ⟨[.text T], rfl, by rw [piecesText_singleton]; rfl⟩

variable (t)

/-- Whether a value is an object or an array. -/
def containerType (val : Option V8Propvalue) : Option ValueType :=
  if valueKlass t val = some "JSObject" then some .object
  else if valueKlass t val = some "JSArray" then some .array
  else none

/-- **There are no line breaks** in the names of properties, nor in what is printed for a value that is
neither an object nor an array. -/
structure NoLineBreaks : Prop where
  plain : ∀ fuel val jsop ps L, containerType t val = none →
    Adds t ps (jsobjPrintValue t fmtY (pieceDevice t) fuel val jsop ps).2.2 L → '\n' ∉ L
  names : ∀ addr, ∀ call ∈ (jsobjEvents t addr).calls, '\n' ∉ asLine call.1

/-- An `int` can count the properties of every object. -/
def FewProps : Prop := ∀ addr, (jsobjEvents t addr).calls.length < 2 ^ 31

/-- The settings of a print without a member path, and without a limit on the length of strings, where the
indentation is an `int` down to the depth. -/
structure Whole (jsop : JsobjPrint) (k : ℕ) : Prop where
  member : jsop.member = none
  maxstrlen : jsop.maxstrlen = 0
  indent : jsop.indent = k
  fits : k + 4 * jsop.depth < 2 ^ 31

variable {t} {jsop jsop' : JsobjPrint} {k : ℕ}

theorem Whole.addInt_indent (h : Whole jsop k) (hdepth : jsop.depth ≠ 0) :
    addInt jsop.indent 4 = ((k + 4 : ℕ) : ℤ) := by
  have hfits := h.fits
  rw [h.indent, addInt_of_lt (by omega) (by omega)]
  rfl

theorem Whole.descend (h : Whole jsop k) (hdepth : jsop.depth ≠ 0) : Whole jsop.descend (k + 4) where
  member := h.member
  maxstrlen := h.maxstrlen
  indent := h.addInt_indent hdepth
  fits := by
    have hfits := h.fits
    change k + 4 + 4 * ((jsop.depth + (2 ^ 64 - 1)) % 2 ^ 64) < 2 ^ 31
    omega

theorem Whole.same (h : Whole jsop k) (hsame : jsop.Same jsop') : Whole jsop' k where
  member := hsame.member.trans h.member
  maxstrlen := hsame.maxstrlen.trans h.maxstrlen
  indent := hsame.indent.trans h.indent
  fits := hsame.depth.symm ▸ h.fits

variable (t)

/-- A function prints values by their layouts, after their addresses. -/
def Lays (print : PrintFn (List Piece)) : Prop :=
  ∀ val jsop ps k, Whole jsop k → jsop.Same (print val jsop ps).2.1 ∧
    ∃ (addr : Line) (v : Shown), Adds t ps (print val jsop ps).2.2 (addr ++ v.render k) ∧
      '\n' ∉ addr ∧ v.NoBreaks

end Adds

/-- Where the depth is used up. -/
theorem noBreak_deep : (Shown.text (asLine (bytesOf "[...]"))).NoBreaks := by
  change '\n' ∉ asLine (bytesOf "[...]")
  decide

/-! ### Objects -/

section Objects

variable {t : Target} {print : PrintFn (List Piece)} (hlays : Lays t print) {jsop : JsobjPrint} {k : ℕ}

include hlays

/-- A property is printed in lines of its own, behind the bracket if it is the first one. -/
theorem adds_jsobjPrintProp (hwhole : Whole jsop k) (hdepth : jsop.depth ≠ 0) (desc : List UInt8)
    (val : Option V8Propvalue) (ps : List Piece) :
    let r := jsobjPrintProp (pieceDevice t) print desc val (jsop, ps)
    r.2.1 = { jsop with nprops := incrInt jsop.nprops } ∧
      ∃ (addr : Line) (v : Shown), '\n' ∉ addr ∧ v.NoBreaks ∧ Adds t ps r.2.2
        ((if jsop.nprops = 0 then ['\x7b'] else []) ++
          (ShownProps.cons (asLine desc) addr v .nil).render k) := by
  intro r
  refine ⟨rfl, ?_⟩
  -- the name, the value and the comma
  have hname := Adds.bsnprintf (t := t) ps ((if jsop.nprops = 0 then bytesOf "\x7b" else []) ++
    bytesOf "\n" ++ fmtBlanks (addInt jsop.indent 4) ++ bytesOf "\"" ++ desc ++ bytesOf "\": ")
  obtain ⟨-, addr, v, hval, haddr, hv⟩ := hlays val jsop.descend _ (k + 4) (hwhole.descend hdepth)
  have hall := (hname.trans hval).trans (Adds.bsnprintf _ (bytesOf ","))
  refine ⟨addr, v, haddr, hv, ?_⟩
  have hblanks : asLine (fmtBlanks (addInt jsop.indent 4)) = blanks (k + 4) := by
    rw [hwhole.addInt_indent hdepth]
    exact asLine_fmtBlanks (k + 4)
  have hopen : asLine (if jsop.nprops = 0 then bytesOf "\x7b" else []) =
      if jsop.nprops = 0 then ['\x7b'] else [] := by split <;> decide
  have htexts : asLine (bytesOf "\n") = ['\n'] ∧ asLine (bytesOf "\"") = ['"'] ∧
      asLine (bytesOf "\": ") = ['"', ':', ' '] ∧ asLine (bytesOf ",") = [','] := by decide
  obtain ⟨hbreak, hquote, hcolon, hcomma⟩ := htexts
  refine hall.of_eq ?_
  simp only [asLine_append, hblanks, hopen, hbreak, hquote, hcolon, hcomma]
  simp [ShownProps.render]

/-- The properties behind the first one. -/
theorem adds_props (calls : List (List UInt8 × Option V8Propvalue))
    (hnames : ∀ call ∈ calls, '\n' ∉ asLine call.1) (hwhole : Whole jsop k) (hdepth : jsop.depth ≠ 0)
    (hpos : 0 < jsop.nprops) (hfew : jsop.nprops + calls.length < 2 ^ 31) (ps : List Piece) :
    let r := calls.foldl (fun s call => (jsobjPrintProp (pieceDevice t) print call.1 call.2 s).2)
      (jsop, ps)
    (∃ nprops, 0 < nprops ∧ r.1 = { jsop with nprops }) ∧
      ∃ props : ShownProps, props.NoBreaks ∧ Adds t ps r.2 (props.render k) := by
  induction calls generalizing jsop ps with
  | nil => exact ⟨⟨jsop.nprops, hpos, rfl⟩, .nil, trivial, Adds.refl ps⟩
  | cons call calls ih =>
    obtain ⟨hsettings, addr, v, haddr, hv, hprop⟩ :=
      adds_jsobjPrintProp hlays hwhole hdepth call.1 call.2 ps
    rw [List.length_cons] at hfew
    rw [incrInt_of_lt hpos.le (by omega)] at hsettings
    -- there is room for one more property
    have hnext : Whole { jsop with nprops := jsop.nprops + 1 } k :=
      ⟨hwhole.member, hwhole.maxstrlen, hwhole.indent, hwhole.fits⟩
    obtain ⟨⟨n, hn, hrest⟩, props, hprops, hadds⟩ :=
      ih (fun c hc => hnames c (List.mem_cons_of_mem call hc)) hnext hdepth (by dsimp only; omega)
        (by dsimp only; omega)
        (jsobjPrintProp (pieceDevice t) print call.1 call.2 (jsop, ps)).2.2
    rw [← hsettings] at hrest hadds
    refine ⟨⟨n, hn, hrest⟩, .cons (asLine call.1) addr v props,
      ⟨hnames call List.mem_cons_self, haddr, hv, hprops⟩, (hprop.trans hadds).of_eq ?_⟩
    rw [if_neg hpos.ne']
    simp [ShownProps.render]

/-- All properties of an object: there is nothing, or there are a bracket and the properties. -/
theorem adds_allProps (calls : List (List UInt8 × Option V8Propvalue))
    (hnames : ∀ call ∈ calls, '\n' ∉ asLine call.1) (hwhole : Whole jsop k) (hdepth : jsop.depth ≠ 0)
    (hfew : calls.length < 2 ^ 31) (ps : List Piece) :
    let r := calls.foldl (fun s call => (jsobjPrintProp (pieceDevice t) print call.1 call.2 s).2)
      ({ jsop with nprops := 0 }, ps)
    r = ({ jsop with nprops := 0 }, ps) ∨ ∃ nprops desc addr v rest, 0 < nprops ∧
      r.1 = { jsop with nprops } ∧ (ShownProps.cons desc addr v rest).NoBreaks ∧
      Adds t ps r.2 ('\x7b' :: (ShownProps.cons desc addr v rest).render k) := by
  cases calls with
  | nil => exact .inl rfl
  | cons call calls =>
    -- the first property opens the bracket
    have hfirst : Whole { jsop with nprops := 0 } k :=
      ⟨hwhole.member, hwhole.maxstrlen, hwhole.indent, hwhole.fits⟩
    have hnext : Whole { jsop with nprops := 1 } k :=
      ⟨hwhole.member, hwhole.maxstrlen, hwhole.indent, hwhole.fits⟩
    obtain ⟨hsettings, addr, v, haddr, hv, hprop⟩ :=
      adds_jsobjPrintProp hlays hfirst hdepth call.1 call.2 ps
    rw [List.length_cons] at hfew
    obtain ⟨⟨n, hn, hrest⟩, props, hprops, hadds⟩ :=
      adds_props hlays calls (fun c hc => hnames c (List.mem_cons_of_mem call hc)) hnext hdepth Int.one_pos
        (by dsimp only; omega)
        (jsobjPrintProp (pieceDevice t) print call.1 call.2 ({ jsop with nprops := 0 }, ps)).2.2
    refine .inr ⟨n, asLine call.1, addr, v, props, hn, hrest,
      ⟨hnames call List.mem_cons_self, haddr, hv, hprops⟩, (hprop.trans hadds).of_eq ?_⟩
    simp [ShownProps.render]

/-- What is printed for an object, unless the depth is used up. -/
theorem adds_jsobjPrintJsobject (hfew : FewProps t)
    (hnames : ∀ addr, ∀ call ∈ (jsobjEvents t addr).calls, '\n' ∉ asLine call.1)
    (hwhole : Whole jsop k) (addr : ℕ) (ps : List Piece) :
    let r := jsobjPrintJsobject t (pieceDevice t) print addr jsop ps
    jsop.Same r.2.1 ∧ ∃ v : Shown, Adds t ps r.2.2 (v.render k) ∧ v.NoBreaks ∧
      (r.1 = 0 → jsop.depth ≠ 0 → v.type = some .object) := by
  intro r
  have hr : r = jsobjPrintJsobject t (pieceDevice t) print addr jsop ps := rfl
  unfold jsobjPrintJsobject at hr
  rw [if_neg (by simp [hwhole.member])] at hr
  split at hr
  · next hdepth =>
    rw [hr]
    exact ⟨.refl jsop, .text (asLine (bytesOf "[...]")), Adds.bsnprintf ps _, noBreak_deep,
      fun _ h => absurd hdepth h⟩
  · next hdepth =>
    -- the callback never stops the iteration
    have hzero : ∀ name val s, (jsobjPrintProp (pieceDevice t) print name val s).1 = 0 :=
      fun _ _ _ => rfl
    have hstate := jsobjProperties_of_zero t _ hzero addr ({ jsop with nprops := 0 }, ps) jsop.propinfo
    have hall := adds_allProps hlays (jsobjEvents t addr).calls (hnames addr) hwhole hdepth (hfew addr) ps
    dsimp only at hr hall
    rw [← hstate] at hall
    generalize jsobjProperties t addr (jsobjPrintProp (pieceDevice t) print)
      ({ jsop with nprops := 0 }, ps) jsop.propinfo = res at hr hall
    obtain ⟨rv, ⟨jsop', ps'⟩, propinfo⟩ := res
    dsimp only at hr hall
    have htexts : asLine (bytesOf "\x7b") = ['\x7b'] ∧ asLine (bytesOf "\x7d") = ['\x7d'] ∧
        asLine (bytesOf "\n") = ['\n'] := by decide
    obtain ⟨hopen, hclose, hbreak⟩ := htexts
    have hfailed : (-1 : ℤ) ≠ 0 := by decide
    rcases hall with hnone | ⟨nprops, desc, addr', v, rest, hpos, hsome, hbreaks, hadds⟩
    · -- no properties
      obtain ⟨rfl, rfl⟩ := Prod.mk.inj hnone
      by_cases hrv : rv ≠ 0
      · rw [if_pos hrv] at hr
        rw [hr]
        exact ⟨⟨_, _, _, _, rfl⟩, .object .nil false, Adds.refl _, trivial, fun h => absurd h hfailed⟩
      · rw [if_neg hrv, if_neg (by simp), if_pos rfl] at hr
        rw [hr]
        refine ⟨⟨_, _, _, _, rfl⟩, .object .nil true,
          ((Adds.bsnprintf _ _).trans (Adds.bsnprintf _ _)).of_eq ?_, trivial, fun _ _ => rfl⟩
        rw [hopen, hclose]
        rfl
    · -- there are properties, which may not be all
      subst hsome
      dsimp only at hr
      by_cases hrv : rv ≠ 0
      · rw [if_pos hrv] at hr
        rw [hr]
        refine ⟨⟨_, _, _, _, rfl⟩, .object (.cons desc addr' v rest) false, hadds.of_eq ?_, hbreaks,
          fun h => absurd h hfailed⟩
        simp [Shown.render]
      · rw [if_neg hrv, if_pos hpos] at hr
        rw [hr]
        refine ⟨⟨_, _, _, _, rfl⟩, .object (.cons desc addr' v rest) true,
          ((hadds.trans (Adds.bsnprintf _ _)).trans (Adds.bsnprintf _ _)).of_eq ?_, hbreaks,
          fun _ _ => rfl⟩
        rw [hclose, asLine_append, hbreak, hwhole.indent, asLine_fmtBlanks]
        simp [Shown.render]

end Objects

/-! ### Arrays -/

section Arrays

variable {t : Target} {print : PrintFn (List Piece)} (hlays : Lays t print) {jsop : JsobjPrint} {k : ℕ}

include hlays

/-- The elements of an array that does not have exactly one, a line for each of them. -/
theorem adds_elements {ap : V8Array} (hlen : v8arrayLength ap ≠ 1) (index : ℕ) (words : List ℕ)
    (hwhole : Whole jsop (k + 4)) (ps : List Piece) :
    let r := visitWhile (jsobjPrintJsarrayOne (pieceDevice t) print ap) index words (jsop, ps)
    ∃ elts : ShownElts, elts.NoBreaks ∧ Adds t ps r.2.2 (elts.render k) := by
  induction words generalizing index jsop ps with
  | nil => exact ⟨.nil, trivial, Adds.refl ps⟩
  | cons word words ih =>
    -- the blanks, the value and the comma
    have hblanks := Adds.bsnprintf (t := t) ps (fmtBlanks jsop.indent)
    obtain ⟨hsame, addr, v, hval, haddr, hv⟩ := hlays (some (.addr word)) jsop
      ((pieceDevice t).bsnprintf ps (fmtBlanks jsop.indent)) (k + 4) hwhole
    have hline := (hblanks.trans hval).trans (Adds.bsnprintf _ (bytesOf ",\n"))
    obtain ⟨elts, helts, hadds⟩ := ih (index + 1) (hwhole.same hsame) _
    refine ⟨.cons addr v elts, ⟨haddr, hv, helts⟩, ?_⟩
    have hone : jsobjPrintJsarrayOne (pieceDevice t) print ap index word (jsop, ps) =
        (0, (print (some (.addr word)) jsop ((pieceDevice t).bsnprintf ps (fmtBlanks jsop.indent))).2.1,
          (pieceDevice t).bsnprintf
            (print (some (.addr word)) jsop ((pieceDevice t).bsnprintf ps (fmtBlanks jsop.indent))).2.2
            (bytesOf ",\n")) := by
      unfold jsobjPrintJsarrayOne
      dsimp only
      rw [if_neg hlen, if_neg (show ¬ (pieceDevice t).full ps = true from Bool.false_ne_true)]
    rw [visitWhile, hone]
    dsimp only
    rw [if_neg (by decide)]
    refine (hline.trans hadds).of_eq ?_
    have hcomma : asLine (bytesOf ",\n") = [',', '\n'] := by decide
    rw [hwhole.indent, asLine_fmtBlanks, hcomma]
    simp [ShownElts.render]

/-- The element of an array with one element, or nothing if it cannot be read. -/
theorem adds_element {ap : V8Array} (hlen : v8arrayLength ap = 1) (hwhole : Whole jsop (k + 4))
    (ps : List Piece) :
    let r := visitWhile (jsobjPrintJsarrayOne (pieceDevice t) print ap) 0 (arrayWords t ap) (jsop, ps)
    ∃ (addr : Line) (v : Shown), '\n' ∉ addr ∧ v.NoBreaks ∧
      Adds t ps r.2.2 (addr ++ v.render (k + 4)) := by
  have hle : (arrayWords t ap).length ≤ 1 := by
    rw [← hlen]
    unfold arrayWords
    split
    · exact Nat.zero_le _
    · exact List.length_take_le _ _
  cases hwords : arrayWords t ap with
  | nil => exact ⟨[], .text [], by decide, List.not_mem_nil, Adds.refl ps⟩
  | cons word words =>
    -- there is no second element
    have hnil : words = [] := by
      rw [hwords] at hle
      exact List.length_eq_zero_iff.mp (by simpa using hle)
    obtain ⟨-, addr, v, hval, haddr, hv⟩ := hlays (some (.addr word)) jsop ps (k + 4) hwhole
    have hone : jsobjPrintJsarrayOne (pieceDevice t) print ap 0 word (jsop, ps) =
        (0, (print (some (.addr word)) jsop ps).2) := by
      unfold jsobjPrintJsarrayOne
      dsimp only
      rw [if_pos hlen]
    rw [hnil, visitWhile, hone]
    exact ⟨addr, v, haddr, hv, hval⟩

/-- What is printed for an array, unless the depth is used up. -/
theorem adds_jsobjPrintJsarray (hwhole : Whole jsop k) (addr : ℕ) (ps : List Piece) :
    let r := jsobjPrintJsarray t (pieceDevice t) print addr jsop ps
    jsop.Same r.2.1 ∧ ∃ v : Shown, Adds t ps r.2.2 (v.render k) ∧ v.NoBreaks ∧
      (r.1 = 0 → jsop.depth ≠ 0 → v.type = some .array) := by
  intro r
  have hr : r = jsobjPrintJsarray t (pieceDevice t) print addr jsop ps := rfl
  have htexts : asLine (bytesOf "[]") = ['[', ']'] ∧ asLine (bytesOf "[ ") = ['[', ' '] ∧
      asLine (bytesOf " ]") = [' ', ']'] ∧ asLine (bytesOf "[\n") = ['[', '\n'] ∧
      asLine (bytesOf "]") = [']'] := by decide
  obtain ⟨hempty, hopen, hclose, hbreak, hbracket⟩ := htexts
  unfold jsobjPrintJsarray at hr
  rw [if_neg (by simp [hwhole.member])] at hr
  by_cases hdepth : jsop.depth = 0
  · rw [if_pos hdepth] at hr
    rw [hr]
    exact ⟨.refl jsop, .text (asLine (bytesOf "[...]")), Adds.bsnprintf ps _, noBreak_deep,
      fun _ h => absurd hdepth h⟩
  rw [if_neg hdepth] at hr
  cases hload : v8arrayLoad t addr with
  | none =>
    rw [hload] at hr
    have hfailed : (-1 : ℤ) ≠ 0 := by decide
    rw [hr]
    exact ⟨.refl jsop, .text [], Adds.refl ps, List.not_mem_nil, fun h => absurd h hfailed⟩
  | some ap =>
    rw [hload] at hr
    dsimp only at hr
    simp only [v8arrayIterElements_eq_visitWhile] at hr
    -- an array without elements is printed at once
    by_cases hzero : v8arrayLength ap = 0
    · rw [if_pos hzero] at hr
      rw [hr]
      exact ⟨.refl jsop, .emptyArray, (Adds.bsnprintf ps _).of_eq hempty, trivial, fun _ _ => rfl⟩
    rw [if_neg hzero] at hr
    -- one element is on the line of the brackets, more of them have lines of their own
    by_cases hone : v8arrayLength ap = 1
    · rw [if_pos hone] at hr
      obtain ⟨addr', v, haddr', hv, hadds⟩ := adds_element hlays hone (hwhole.descend hdepth)
        ((pieceDevice t).bsnprintf ps (bytesOf "[ "))
      rw [hr]
      refine ⟨.refl jsop, .oneArray addr' v,
        (((Adds.bsnprintf ps _).trans hadds).trans (Adds.bsnprintf _ _)).of_eq ?_, ⟨haddr', hv⟩,
        fun _ _ => rfl⟩
      rw [hopen, hclose]
      simp [Shown.render]
    · rw [if_neg hone] at hr
      obtain ⟨elts, helts, hadds⟩ := adds_elements hlays hone 0 (arrayWords t ap)
        (hwhole.descend hdepth)
        ((pieceDevice t).bsnprintf ps (bytesOf "[\n"))
      rw [hr]
      refine ⟨.refl jsop, .array elts, ((((Adds.bsnprintf ps _).trans hadds).trans
        (Adds.bsnprintf _ _)).trans (Adds.bsnprintf _ _)).of_eq ?_, helts, fun _ _ => rfl⟩
      rw [hbreak, hbracket, hwhole.indent, asLine_fmtBlanks]
      simp [Shown.render]

end Arrays

/-! ### Any value -/

section Values

variable {t : Target} {fmtY : ℤ → List UInt8} {jsop : JsobjPrint} {k : ℕ}

/-- The addresses have no line breaks. -/
theorem adds_printAddrs (val : Option V8Propvalue) (jsop : JsobjPrint) (ps : List Piece) :
    ∃ A, '\n' ∉ A ∧ Adds t ps (printAddrs (pieceDevice t) val jsop ps) A := by
  -- an address has hexadecimal digits, a colon and a blank
  have haddr : ∀ w, '\n' ∉ asLine (fmtP w ++ bytesOf ": ") := by
    intro w
    have hcolon : asLine (bytesOf ": ") = [':', ' '] := by decide
    rw [asLine_append, asLine_fmtP, hcolon, List.mem_append]
    rintro (h | h)
    · exact absurd (isHexDigit_of_mem_toDigits w _ h).1 (by decide)
    · exact absurd h (by decide)
  -- it may be left out
  have hif : ∀ (c : Prop) [Decidable c] (w : ℕ) (ps : List Piece), ∃ A, '\n' ∉ A ∧
      Adds t ps (if c then (pieceDevice t).bsnprintf ps (fmtP w ++ bytesOf ": ") else ps) A := by
    intro c _ w ps
    split
    · exact ⟨_, haddr w, Adds.bsnprintf ps _⟩
    · exact ⟨[], List.not_mem_nil, Adds.refl ps⟩
  obtain ⟨A, hA, hadds⟩ := hif (jsop.baseaddr ≠ 0 ∧ jsop.member = none) jsop.baseaddr ps
  obtain ⟨A', hA', hadds'⟩ := hif (jsop.printaddr ∧ jsop.member = none) (valueAddr val)
    (if jsop.baseaddr ≠ 0 ∧ jsop.member = none then
      (pieceDevice t).bsnprintf ps (fmtP jsop.baseaddr ++ bytesOf ": ") else ps)
  refine ⟨A ++ A', ?_, hadds.trans hadds'⟩
  rw [List.mem_append, not_or]
  exact ⟨hA, hA'⟩

variable (hbreaks : NoLineBreaks t fmtY) (hfew : FewProps t)

include hbreaks hfew

/-- What is printed for an object or an array, after its addresses. -/
theorem adds_container {print : PrintFn (List Piece)} (hlays : Lays t print) (hwhole : Whole jsop k)
    {addr : ℕ} {type : ValueType} (htype : containerType t (some (.addr addr)) = some type)
    (ps : List Piece) :
    let r := jsobjPrintWord t fmtY (pieceDevice t) print addr jsop ps
    jsop.Same r.2.1 ∧ ∃ v : Shown, Adds t ps r.2.2 (v.render k) ∧ v.NoBreaks ∧
      (r.1 = 0 → jsop.depth ≠ 0 → v.type = some type) := by
  have hwhole' : Whole { jsop with descended := true } k :=
    ⟨hwhole.member, hwhole.maxstrlen, hwhole.indent, hwhole.fits⟩
  -- the flag that is set does not change what is printed
  have hdescended : jsop.Same { jsop with descended := true } := ⟨_, _, _, _, rfl⟩
  unfold containerType at htype
  -- only these two classes have a layout
  by_cases hobject : valueKlass t (some (.addr addr)) = some "JSObject"
  · rw [if_pos hobject] at htype
    obtain ⟨hsame, v, hadds, hv, hvtype⟩ := adds_jsobjPrintJsobject hlays hfew hbreaks.names hwhole'
      addr ps
    rw [jsobjPrintWord_klass fmtY _ _ hobject rfl]
    exact ⟨hdescended.trans hsame, v, hadds, hv, fun hrv hdepth => (hvtype hrv hdepth).trans htype⟩
  rw [if_neg hobject] at htype
  by_cases harray : valueKlass t (some (.addr addr)) = some "JSArray"
  · rw [if_pos harray] at htype
    obtain ⟨hsame, v, hadds, hv, hvtype⟩ := adds_jsobjPrintJsarray hlays hwhole' addr ps
    rw [jsobjPrintWord_klass fmtY _ _ harray rfl]
    exact ⟨hdescended.trans hsame, v, hadds, hv, fun hrv hdepth => (hvtype hrv hdepth).trans htype⟩
  · rw [if_neg harray] at htype
    cases htype

/-- **What is printed for a value is its addresses and a layout.** -/
theorem lays_jsobjPrintValue (fuel : ℕ) : Lays t (jsobjPrintValue t fmtY (pieceDevice t) fuel) := by
  induction fuel with
  | zero =>
    intro val jsop ps k _
    exact ⟨.refl jsop, [], .text [], Adds.refl ps, List.not_mem_nil, List.not_mem_nil⟩
  | succ fuel ih =>
    intro val jsop ps k hwhole
    cases htype : containerType t val with
    | none =>
      obtain ⟨-, ⟨_, _, -, hadvance⟩, qs, hqs, -⟩ :=
        same_jsobjPrintValue fmtY (fuel + 1) val jsop jsop (OutBuf.fresh (fun _ => 0) 1) ps (.refl jsop)
          hwhole.maxstrlen Nat.one_le_two_pow
      -- any other value is a text
      have hadds : Adds t ps (jsobjPrintValue t fmtY (pieceDevice t) (fuel + 1) val jsop ps).2.2
          (asLine (piecesText t qs)) := ⟨qs, hqs, rfl⟩
      exact ⟨(JsobjPrint.Same.refl jsop).advance (.refl jsop) hadvance, [],
        .text (asLine (piecesText t qs)), hadds, List.not_mem_nil,
        hbreaks.plain _ _ _ _ _ htype hadds⟩
    | some type =>
      obtain ⟨A, hA, haddrs⟩ := adds_printAddrs (t := t) val jsop ps
      -- an object or an array comes behind its addresses
      have hword : ∀ addr, containerType t (some (.addr addr)) = some type →
          jsobjPrintValue t fmtY (pieceDevice t) (fuel + 1) val jsop ps =
            jsobjPrintWord t fmtY (pieceDevice t) (jsobjPrintValue t fmtY (pieceDevice t) fuel) addr jsop
              (printAddrs (pieceDevice t) val jsop ps) →
          jsop.Same (jsobjPrintValue t fmtY (pieceDevice t) (fuel + 1) val jsop ps).2.1 ∧
            ∃ (addr : Line) (v : Shown),
              Adds t ps (jsobjPrintValue t fmtY (pieceDevice t) (fuel + 1) val jsop ps).2.2
                (addr ++ v.render k) ∧ '\n' ∉ addr ∧ v.NoBreaks := by
        intro addr haddr heq
        obtain ⟨hsame, v, hadds, hv, -⟩ := adds_container hbreaks hfew ih hwhole haddr
          (printAddrs (pieceDevice t) val jsop ps)
        rw [heq]
        exact ⟨hsame, A, v, haddrs.trans hadds, hA, hv⟩
      cases val with
      | none => exact hword 0 htype rfl
      | some val =>
        cases val with
        | addr w => exact hword w htype rfl
        | double w => cases htype

/-- An object or an array that is printed into a buffer without end, with its address. -/
theorem exists_printedValue (hwhole : Whole jsop 0) (hbase : jsop.baseaddr = 0)
    (hprintaddr : jsop.printaddr = true) (hdepth : jsop.depth ≠ 0) {addr : ℕ} {type : ValueType}
    (htype : containerType t (some (.addr addr)) = some type)
    (hrv : (unboundedPrint t fmtY addr jsop).1 = 0) :
    ∃ v : PrintedValue, v.addr = asLine (fmtP addr) ∧ v.type = type ∧
      asLine (unboundedText t fmtY addr jsop) = v.text := by
  have hcolon : asLine (bytesOf ": ") = [':', ' '] := by decide
  have haddrs : printAddrs (pieceDevice t) (some (.addr addr)) jsop [] =
      (pieceDevice t).bsnprintf [] (fmtP addr ++ bytesOf ": ") := by
    simp [printAddrs, hbase, hprintaddr, hwhole.member, valueAddr]
  obtain ⟨-, v, hadds, hv, htyped⟩ := adds_container hbreaks hfew
    (lays_jsobjPrintValue hbreaks hfew ((jsop.member.getD []).length + jsop.depth + 1)) hwhole htype
    (printAddrs (pieceDevice t) (some (.addr addr)) jsop [])
  rw [haddrs] at hadds
  obtain ⟨qs, hqs, hline⟩ := (Adds.bsnprintf [] (fmtP addr ++ bytesOf ": ")).trans hadds
  have htext : asLine (unboundedText t fmtY addr jsop) =
      Nat.toDigits 16 addr ++ ':' :: ' ' :: v.render 0 := by
    rw [asLine_append, asLine_fmtP, hcolon, List.append_assoc] at hline
    -- the text is the one of the pieces
    have hpieces : (unboundedPrint t fmtY addr jsop).2 = qs := by
      rw [List.nil_append] at hqs
      rw [← hqs, ← haddrs]
      rfl
    rw [unboundedText, hpieces]
    exact hline
  exact ⟨⟨Nat.toDigits 16 addr, v, type, Nat.toDigits_ne_nil,
    fun c hc => (isHexDigit_of_mem_toDigits addr c hc).1, htyped hrv hdepth, hv⟩,
    (asLine_fmtP addr).symm, rfl, htext⟩

end Values

/-! ### The command -/

section Command

variable {t : Target} {fmtY : ℤ → List UInt8} {zalloc : Allocator} {before : UInt8}

/-- A run of the command on a value, with the text that it has printed. -/
structure JsprintRun where
  addr : ℕ
  opts : JsprintOpts
  type : ValueType
  text : List UInt8

variable (t fmtY zalloc before) in
/-- The run is one of `::jsprint -a` for an object or an array, without a limit on the length of strings,
with an indentation that is an `int`, and it has succeeded. -/
structure JsprintRun.Ok (run : JsprintRun) : Prop where
  container : containerType t (some (.addr run.addr)) = some run.type
  printaddr : run.opts.printaddr = true
  optB : run.opts.optB = false
  depth : run.opts.depth ≠ 0
  indent : 4 * run.opts.depth < 2 ^ 31
  strlen : run.opts.strlenOverride = 0
  /-- There is no byte in the text that ends a C string. -/
  nul : 0 ∉ unboundedText t fmtY run.addr (jsprintStart t run.addr run.opts).jsop
  printed : dcmdJsprint t fmtY zalloc before run.addr run.opts [] = (.ok, run.text)

/-- **An object or an array that `::jsprint` has printed with its address is a printed value.** -/
theorem JsprintRun.Ok.exists_printedValue (hbreaks : NoLineBreaks t fmtY) (hfew : FewProps t)
    {run : JsprintRun} (h : run.Ok t fmtY zalloc before) : ∃ v : PrintedValue, v.addr = asLine (fmtP run.addr) ∧
      v.type = run.type ∧ asLine run.text = v.text ++ ['\n'] := by
  obtain ⟨addr, opts, type, text⟩ := run
  have hwhole : Whole (jsprintStart t addr opts).jsop 0 := by
    refine ⟨rfl, ?_, rfl, (Nat.zero_add _).trans_lt h.indent⟩
    rw [jsprintStart, h.strlen]
    exact t.cfg.wrap_natCast (x := 0) (Nat.two_pow_pos _)
  have hbase : (jsprintStart t addr opts).jsop.baseaddr = 0 := by
    have hoptB : opts.optB = false := h.optB
    simp [jsprintStart, hoptB]
  obtain ⟨out, bufsz, hrendered, -⟩ := rendered_dcmdJsprint h.strlen h.printed
  obtain ⟨v, haddr, htype, htext⟩ := MdbV8.Tools.exists_printedValue hbreaks hfew hwhole hbase
    h.printaddr h.depth h.container hrendered.rv_eq.symm
  refine ⟨v, haddr, htype, ?_⟩
  -- the type says that it is an object or an array
  have hklass : IsContainer t addr := by
    have hcontainer := h.container
    unfold containerType at hcontainer
    split at hcontainer
    · next hobject => exact .inl hobject
    split at hcontainer
    · next harray => exact .inr harray
    · cases hcontainer
  -- there is no NUL in the text
  have hc : cText (unboundedText t fmtY addr (jsprintStart t addr opts).jsop) =
      unboundedText t fmtY addr (jsprintStart t addr opts).jsop := by
    refine List.takeWhile_eq_self_iff.mpr fun b hb => ?_
    simp only [bne_iff_ne, ne_eq]
    rintro rfl
    exact h.nul hb
  -- the command ends its line
  have hbreak : asLine (bytesOf "\n") = ['\n'] := by decide
  rw [dcmdJsprint_text hklass h.strlen h.printed, hc, asLine_append, htext, hbreak]

/-- **What `::jsprint` prints for a sequence of objects and arrays** is what the parser is about. -/
theorem exists_printed (hbreaks : NoLineBreaks t fmtY) (hfew : FewProps t) {runs : List JsprintRun}
    (h : ∀ run ∈ runs, run.Ok t fmtY zalloc before) :
    ∃ vs : List PrintedValue,
      vs.map (fun v => (v.addr, v.type)) = runs.map (fun run => (asLine (fmtP run.addr), run.type)) ∧
        asLine (runs.flatMap JsprintRun.text) = printed vs := by
  induction runs with
  | nil => exact ⟨[], rfl, rfl⟩
  | cons run runs ih =>
    obtain ⟨v, haddr, htype, hv⟩ := (h run List.mem_cons_self).exists_printedValue hbreaks
      hfew
    obtain ⟨vs, hmap, hvs⟩ := ih fun run' h' => h run' (List.mem_cons_of_mem run h')
    refine ⟨v :: vs, ?_, ?_⟩
    · rw [List.map_cons, List.map_cons, haddr, htype, hmap]
    · rw [List.flatMap_cons, asLine_append, hv, hvs, printed, printed, List.flatMap_cons]

end Command

end MdbV8.Tools
