import MdbV8.Tools.ParserStream

/-!
# How values are laid out

What `jsobj_print_jsobject` and `jsobj_print_jsarray` print has the form of a tree: an object is printed
with a line for each of its properties, an array with a line for each of its elements, and the values in
there are printed in the same way, with more blanks before their lines. But an object without properties
is printed in one line, and so is an array with no elements, or with only one.

`Shown` is such a tree, and `Shown.render` its text; `Tools.Printed` shows that it is what these
functions print. What matters of the text is that a line break inside is followed by a blank
(`Indented`).
-/

namespace MdbV8.Tools

/- The functions for the values in an object or array, whose errors are ignored, may give up in the
middle of an object: then it is not closed. What is printed before a value is its address. -/
mutual

/-- A value that is printed. -/
inductive Shown where
  | text (T : Line)
  | object (props : ShownProps) (closed : Bool)
  | emptyArray
  | oneArray (addr : Line) (elt : Shown)
  | array (elts : ShownElts)

/-- Properties that are printed: their names, and their values with the addresses. -/
inductive ShownProps where
  | nil
  | cons (desc addr : Line) (val : Shown) (rest : ShownProps)

/-- Elements that are printed, with the addresses. -/
inductive ShownElts where
  | nil
  | cons (addr : Line) (elt : Shown) (rest : ShownElts)

end

/-- `%*s` of an empty string. -/
def blanks (k : ℕ) : Line := List.replicate k ' '

mutual

/-- The text of a value, with the number of blanks before its lines. -/
def Shown.render (k : ℕ) : Shown → Line
  | .text T => T
  | .object .nil closed => if closed then ['\x7b', '\x7d'] else []
  | .object (.cons desc addr val rest) closed =>
    '\x7b' :: (ShownProps.render k (.cons desc addr val rest) ++
      if closed then '\n' :: (blanks k ++ ['\x7d']) else [])
  | .emptyArray => ['[', ']']
  | .oneArray addr elt => '[' :: ' ' :: (addr ++ (elt.render (k + 4) ++ [' ', ']']))
  | .array elts => '[' :: '\n' :: (elts.render k ++ (blanks k ++ [']']))

/-- The text of properties, with the number of blanks before the lines of the object. -/
def ShownProps.render (k : ℕ) : ShownProps → Line
  | .nil => []
  | .cons desc addr val rest =>
    '\n' :: (blanks (k + 4) ++ ('"' :: (desc ++ ('"' :: ':' :: ' ' :: (addr ++
      (val.render (k + 4) ++ (',' :: rest.render k)))))))

/-- The text of elements. -/
def ShownElts.render (k : ℕ) : ShownElts → Line
  | .nil => []
  | .cons addr elt rest =>
    blanks (k + 4) ++ (addr ++ (elt.render (k + 4) ++ (',' :: '\n' :: rest.render k)))

end

mutual

/-- The names, the addresses and the texts have no line breaks. -/
def Shown.NoBreaks : Shown → Prop
  | .text T => '\n' ∉ T
  | .object props _ => props.NoBreaks
  | .emptyArray => True
  | .oneArray addr elt => '\n' ∉ addr ∧ elt.NoBreaks
  | .array elts => elts.NoBreaks

/-- The same for properties. -/
def ShownProps.NoBreaks : ShownProps → Prop
  | .nil => True
  | .cons desc addr val rest => '\n' ∉ desc ∧ '\n' ∉ addr ∧ val.NoBreaks ∧ rest.NoBreaks

/-- The same for elements. -/
def ShownElts.NoBreaks : ShownElts → Prop
  | .nil => True
  | .cons addr elt rest => '\n' ∉ addr ∧ elt.NoBreaks ∧ rest.NoBreaks

end

/-! ### Line breaks -/

theorem noBreak_blanks (k : ℕ) : '\n' ∉ blanks k := fun h =>
  absurd (List.eq_of_mem_replicate h) (by decide)

/-- Every line break is followed by a blank. -/
def Indented : Line → Prop
  | [] => True
  | c :: cs => (c = '\n' → cs.head? = some ' ') ∧ Indented cs

namespace Indented

theorem of_noBreaks {T : Line} (h : '\n' ∉ T) : Indented T := by
  induction T with
  | nil => trivial
  | cons c cs ih =>
    rw [List.mem_cons, not_or] at h
    exact ⟨fun hc => absurd hc.symm h.1, ih h.2⟩

theorem append {T U : Line} (hT : Indented T) (hU : Indented U) : Indented (T ++ U) := by
  induction T with
  | nil => exact hU
  | cons c cs ih =>
    refine ⟨fun hc => ?_, ih hT.2⟩
    have hhead := hT.1 hc
    cases cs with
    | nil => cases hhead
    | cons d ds => exact hhead

theorem cons {c : Char} {T : Line} (hc : c ≠ '\n') (hT : Indented T) : Indented (c :: T) :=
  ⟨fun h => absurd h hc, hT⟩

/-- A line break before blanks. -/
theorem break_blanks {k : ℕ} {T : Line} (hT : Indented T) :
    Indented ('\n' :: (blanks (k + 1) ++ T)) :=
  ⟨fun _ => rfl, append (of_noBreaks (noBreak_blanks _)) hT⟩

/-- The lines after the first one begin with a blank. -/
theorem tail {T : Line} (hT : Indented T) : ∀ l ∈ (T.splitOn '\n').tail, l.head? = some ' ' := by
  induction T with
  | nil => exact fun l hl => absurd hl List.not_mem_nil
  | cons c cs ih =>
    rw [List.splitOn_cons_eq_if_modifyHead]
    cases hsplit : cs.splitOn '\n' with
    | nil => exact absurd hsplit (List.splitOn_ne_nil _ _)
    | cons l ls =>
      have hrest := ih hT.2
      rw [hsplit] at hrest
      by_cases hc : c = '\n'
      · -- the first of the other lines begins with what follows the line break
        rw [if_pos (by simpa using hc)]
        have hhead := hT.1 hc
        intro l' hl'
        rcases List.mem_cons.mp hl' with rfl | hl'
        · cases cs with
          | nil => cases hhead
          | cons d ds =>
            obtain rfl : d = ' ' := Option.some.inj hhead
            rw [List.splitOn_cons_eq_if_modifyHead, if_neg (by decide)] at hsplit
            cases hds : ds.splitOn '\n' with
            | nil => exact absurd hds (List.splitOn_ne_nil _ _)
            | cons m ms =>
              rw [hds, List.modifyHead_cons, List.cons.injEq] at hsplit
              rw [← hsplit.1]
              rfl
        · exact hrest l' hl'
      · rw [if_neg (by simpa using hc)]
        exact hrest

end Indented

mutual

/-- The text of a value that is moved to the right. -/
theorem Shown.indented_render {k : ℕ} : (v : Shown) → v.NoBreaks → Indented (v.render (k + 1))
  | .text _, h => .of_noBreaks h
  | .object .nil closed, _ => by
    unfold Shown.render
    split
    · exact .of_noBreaks (by decide)
    · trivial
  | .object (.cons desc addr val rest) closed, h => by
    have hprops := ShownProps.indented_render (k := k + 1) (.cons desc addr val rest) h
    unfold Shown.render
    refine .cons (by decide) (hprops.append ?_)
    split
    · exact .break_blanks (.of_noBreaks (by decide))
    · trivial
  | .emptyArray, _ => by
    unfold Shown.render
    exact .of_noBreaks (by decide)
  | .oneArray _ elt, h => by
    have helt := Shown.indented_render (k := k + 4) elt h.2
    unfold Shown.render
    exact .cons (by decide) (.cons (by decide) ((Indented.of_noBreaks h.1).append
      (helt.append (.of_noBreaks (by decide)))))
  | .array elts, h => by
    have helts := ShownElts.indented_render (k := k + 1) elts h (blanks (k + 1) ++ [']'])
      ((Indented.of_noBreaks (noBreak_blanks _)).append (.of_noBreaks (by decide))) rfl
    unfold Shown.render
    exact .cons (by decide) helts

/-- The text of properties. -/
theorem ShownProps.indented_render {k : ℕ} :
    (props : ShownProps) → props.NoBreaks → Indented (props.render k)
  | .nil, _ => trivial
  | .cons _ _ val rest, h => by
    have hval := Shown.indented_render (k := k + 3) val h.2.2.1
    have hrest := ShownProps.indented_render (k := k) rest h.2.2.2
    unfold ShownProps.render
    exact .break_blanks (.cons (by decide) ((Indented.of_noBreaks h.1).append (.cons (by decide)
      (.cons (by decide) (.cons (by decide) ((Indented.of_noBreaks h.2.1).append
        (hval.append (.cons (by decide) hrest))))))))

/-- The text of elements between a line break and something that begins with a blank. -/
theorem ShownElts.indented_render {k : ℕ} : (elts : ShownElts) → elts.NoBreaks → (U : Line) →
    Indented U → U.head? = some ' ' → Indented ('\n' :: (elts.render k ++ U))
  | .nil, _, _, hU, hhead => ⟨fun _ => hhead, hU⟩
  | .cons addr elt rest, h, U, hU, hhead => by
    have helt := Shown.indented_render (k := k + 3) elt h.2.1
    have hrest := ShownElts.indented_render (k := k) rest h.2.2 U hU hhead
    unfold ShownElts.render
    simp only [List.append_assoc, List.cons_append]
    exact .break_blanks ((Indented.of_noBreaks h.1).append (helt.append (.cons (by decide) hrest)))

end

/-! ### The ends of texts -/

/-- The text of properties ends with a comma. -/
theorem ShownProps.render_cons_ends (k : ℕ) (desc addr : Line) (val : Shown) : (rest : ShownProps) →
    ∃ P, (ShownProps.cons desc addr val rest).render k = P ++ [',']
  | .nil => ⟨'\n' :: (blanks (k + 4) ++ ('"' :: (desc ++ ('"' :: ':' :: ' ' :: (addr ++
      val.render (k + 4)))))), by simp [ShownProps.render]⟩
  | .cons desc' addr' val' rest => by
    obtain ⟨P, hP⟩ := ShownProps.render_cons_ends k desc' addr' val' rest
    refine ⟨'\n' :: (blanks (k + 4) ++ ('"' :: (desc ++ ('"' :: ':' :: ' ' :: (addr ++
      (val.render (k + 4) ++ (',' :: P))))))), ?_⟩
    rw [ShownProps.render, hP]
    simp

/-- The text of elements ends with a line break. -/
theorem ShownElts.render_cons_ends (k : ℕ) (addr : Line) (elt : Shown) : (rest : ShownElts) →
    ∃ B, (ShownElts.cons addr elt rest).render k = B ++ ['\n']
  | .nil => ⟨blanks (k + 4) ++ (addr ++ (elt.render (k + 4) ++ [','])), by simp [ShownElts.render]⟩
  | .cons addr' elt' rest => by
    obtain ⟨B, hB⟩ := ShownElts.render_cons_ends k addr' elt' rest
    refine ⟨blanks (k + 4) ++ (addr ++ (elt.render (k + 4) ++ (',' :: '\n' :: B))), ?_⟩
    rw [ShownElts.render, hB]
    simp

/-- If the text of a value has several lines, there is something in the last one. -/
theorem Shown.render_ends {v : Shown} (hv : v.NoBreaks) {k : ℕ} (hbreak : '\n' ∈ v.render k) :
    ∃ P c, v.render k = P ++ [c] ∧ isJsSpace c = false := by
  cases v with
  | text T => exact absurd hbreak hv
  | object props closed =>
    -- an object without properties has no line break
    cases props with
    | nil =>
      unfold Shown.render at hbreak
      split at hbreak <;> exact absurd hbreak (by decide)
    | cons desc addr val rest =>
      cases closed with
      | true =>
        refine ⟨'\x7b' :: ((ShownProps.cons desc addr val rest).render k ++ '\n' :: blanks k), '\x7d',
          ?_, by decide⟩
        simp [Shown.render]
      | false =>
        obtain ⟨P, hP⟩ := ShownProps.render_cons_ends k desc addr val rest
        refine ⟨'\x7b' :: P, ',', ?_, by decide⟩
        simp [Shown.render, hP]
  | emptyArray =>
    unfold Shown.render at hbreak
    exact absurd hbreak (by decide)
  | oneArray addr elt =>
    refine ⟨'[' :: ' ' :: (addr ++ (elt.render (k + 4) ++ [' '])), ']', ?_, by decide⟩
    simp [Shown.render]
  | array elts =>
    refine ⟨'[' :: '\n' :: (elts.render k ++ blanks k), ']', ?_, by decide⟩
    simp [Shown.render]

end MdbV8.Tools
