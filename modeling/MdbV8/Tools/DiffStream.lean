import MdbV8.Tools.JoinStream
import MdbV8.Tools.ParserStream

/-!
# The comparison of printed values

`DiffStream`, of the tool that compares what two versions of the module print. It gets the rows of a join,
with the value that each of the versions has printed for an address, and pushes messages about what is
different.

The framework calls `_transform` for a row only after the function has called back for the row before it.
It does not call back for a row that only one of the versions has, or in which the types differ. So the
comparison ends with the first such row (`diffRun`), and the rows behind it are not looked at
(`diffExact_iff`).
-/

namespace MdbV8.Tools

open Lib

/-- The module that says which differences are not of interest. -/
structure IgnoreModule where
  ignoreAddress : Line → Bool
  ignoreDiff : Line → Line → Bool

/-- `DiffStream`. -/
structure DiffStream where
  label1 : Line
  label2 : Line
  ignore : Option IgnoreModule := none

/-- What is pushed: a message about a row, or one for each of the versions. -/
inductive DiffMessage where
  | message (label message : Line)
  | messages (label source1 message1 source2 message2 : Line)
  deriving DecidableEq, Repr

/-- The column of the first version in a row. -/
def version1 : Fin 2 := ⟨0, Nat.two_pos⟩

/-- The column of the second version. -/
def version2 : Fin 2 := ⟨1, Nat.one_lt_two⟩

/-- What comes into the stream: a row of a join, or something that does not have three parts. -/
inductive DiffChunk where
  | garbled
  | joined (row : JoinRow (Fin 2) (Line × Parsed) Line)

namespace DiffStream

variable (ds : DiffStream)

/-- `ignoreAddress`. -/
def ignoreAddress (addr : Line) : Bool :=
  match ds.ignore with
  | none => false
  | some ignore => ignore.ignoreAddress addr

/-- `ignoreDiff`. -/
def ignoreDiff (value1 value2 : Line) : Bool :=
  match ds.ignore with
  | none => false
  | some ignore => ignore.ignoreDiff value1 value2

/-- The text for a row that only one of the versions has. -/
def onlyIn (label : Line) : Line := "only in ".toList ++ label

/-- The text for a type. -/
def typeText : ValueType → Line
  | .object => "type object".toList
  | .array => "type array".toList

/-- The text for a line that is missing. -/
def missingFrom (i : ℕ) (label : Line) : Line :=
  "line ".toList ++ (toString (i + 1)).toList ++ ": property missing from \"".toList ++ label ++ ['"']

/-- The text for a line that is different. -/
def lineText (i : ℕ) (line : Line) : Line :=
  "line ".toList ++ (toString (i + 1)).toList ++ ": ".toList ++ line ++ ['\n']

/-- The loop of `_transform` over the lines, of which `n` are left. -/
def linesLoop (rowlabel : Line) (lines1 lines2 : List Line) : ℕ → ℕ → List DiffMessage
  | 0, _ => []
  | n + 1, i =>
    let rest := linesLoop rowlabel lines1 lines2 n (i + 1)
    if i ≥ lines1.length then .message rowlabel (missingFrom i ds.label1) :: rest
    else if i ≥ lines2.length then .message rowlabel (missingFrom i ds.label2) :: rest
    else
      let line1 := lines1.getD i []
      let line2 := lines2.getD i []
      if line1 ≠ line2 ∧ !ds.ignoreDiff line1 line2 then
        .messages rowlabel ds.label1 (lineText i line1) ds.label2 (lineText i line2) :: rest
      else rest

/-- `_transform`: what is pushed, and how often the function calls back. -/
def transform : DiffChunk → List DiffMessage × ℕ
  | .garbled => ([], 1)
  | .joined (rowlabel, values) =>
    if ds.ignoreAddress rowlabel then ([], 1)
    else
      match values version1, values version2 with
      | none, _ => ([.message rowlabel (onlyIn ds.label2)], 0)
      | some _, none => ([.message rowlabel (onlyIn ds.label1)], 0)
      | some (_, value1), some (_, value2) =>
        if value1.type ≠ value2.type then
          ([.messages rowlabel ds.label1 (typeText value1.type) ds.label2 (typeText value2.type)], 0)
        else
          (ds.linesLoop rowlabel value1.lines value2.lines
            (max value1.lines.length value2.lines.length) 0, 1)

/-- What is pushed for some rows: a row gets its turn when the function has called back for the one before
it. -/
def diffRun : List DiffChunk → List DiffMessage
  | [] => []
  | chunk :: chunks =>
    (ds.transform chunk).1 ++ if (ds.transform chunk).2 = 0 then [] else diffRun chunks

/-! ### What is different -/

/-- The difference between two values at an index: one of them does not have the line, or the lines are
different, and not to be ignored. -/
def lineDifference (rowlabel : Line) (value1 value2 : Parsed) (i : ℕ) : Option DiffMessage :=
  match value1.lines[i]?, value2.lines[i]? with
  | none, none => none
  | none, some _ => some (.message rowlabel (missingFrom i ds.label1))
  | some _, none => some (.message rowlabel (missingFrom i ds.label2))
  | some line1, some line2 =>
    if line1 = line2 ∨ ds.ignoreDiff line1 line2 = true then none
    else some (.messages rowlabel ds.label1 (lineText i line1) ds.label2 (lineText i line2))

/-- The differences in a row. -/
def differences : DiffChunk → List DiffMessage
  | .garbled => []
  | .joined (rowlabel, values) =>
    if ds.ignoreAddress rowlabel then []
    else
      match values version1, values version2 with
      | none, _ => [.message rowlabel (onlyIn ds.label2)]
      | some _, none => [.message rowlabel (onlyIn ds.label1)]
      | some (_, value1), some (_, value2) =>
        if value1.type = value2.type then
          (List.range (max value1.lines.length value2.lines.length)).filterMap
            (ds.lineDifference rowlabel value1 value2)
        else
          [.messages rowlabel ds.label1 (typeText value1.type) ds.label2 (typeText value2.type)]

/-- **The comparison is complete**: the function calls back once for every row, and what is pushed are the
differences in all of them. -/
structure DiffExact (chunks : List DiffChunk) : Prop where
  callbacks : ∀ chunk ∈ chunks, (ds.transform chunk).2 = 1
  messages : ds.diffRun chunks = chunks.flatMap ds.differences

/-- The condition for a row: its address is ignored, or both versions have it, with the same type. -/
def RowFits : DiffChunk → Prop
  | .garbled => True
  | .joined (rowlabel, values) => ds.ignoreAddress rowlabel = true ∨
      ∃ addr1 value1 addr2 value2, values version1 = some (addr1, value1) ∧
        values version2 = some (addr2, value2) ∧ value1.type = value2.type

/-! ### One row -/

section Row

variable {ds}

/-- The loop pushes the differences between the lines. -/
theorem linesLoop_eq (rowlabel : Line) (value1 value2 : Parsed) (n i : ℕ)
    (hn : i + n = max value1.lines.length value2.lines.length) :
    ds.linesLoop rowlabel value1.lines value2.lines n i =
      (List.range' i n).filterMap (ds.lineDifference rowlabel value1 value2) := by
  induction n generalizing i with
  | zero => rfl
  | succ n ih =>
    have hrest := ih (i + 1) (by omega)
    rw [linesLoop, hrest, List.range'_succ, List.filterMap_cons]
    unfold lineDifference
    by_cases h1 : i ≥ value1.lines.length
    · -- the first value does not have the line, so the second one has
      have h2 : i < value2.lines.length := by omega
      rw [if_pos h1, List.getElem?_eq_none h1, List.getElem?_eq_getElem h2]
    · rw [if_neg h1, List.getElem?_eq_getElem (not_le.mp h1)]
      by_cases h2 : i ≥ value2.lines.length
      · rw [if_pos h2, List.getElem?_eq_none h2]
      · rw [if_neg h2, List.getElem?_eq_getElem (not_le.mp h2),
          List.getD_eq_getElem _ _ (not_le.mp h1), List.getD_eq_getElem _ _ (not_le.mp h2)]
        dsimp only
        by_cases hsame : value1.lines[i] = value2.lines[i] ∨
            ds.ignoreDiff value1.lines[i] value2.lines[i] = true
        · rw [if_pos hsame, if_neg]
          rintro ⟨hne, hkeep⟩
          rcases hsame with heq | hignore
          · exact hne heq
          · rw [hignore] at hkeep
            cases hkeep
        · rw [if_neg hsame, if_pos]
          rw [not_or, Bool.not_eq_true] at hsame
          exact ⟨hsame.1, by rw [hsame.2]; rfl⟩

/-- **What is pushed for a row** are its differences. -/
theorem transform_messages (chunk : DiffChunk) : (ds.transform chunk).1 = ds.differences chunk := by
  cases chunk with
  | garbled => rfl
  | joined row =>
    obtain ⟨rowlabel, values⟩ := row
    unfold transform differences
    dsimp only
    by_cases hignore : ds.ignoreAddress rowlabel = true
    · rw [if_pos hignore, if_pos hignore]
    · rw [if_neg hignore, if_neg hignore]
      cases values version1 with
      | none => rfl
      | some r1 =>
        cases values version2 with
        | none => rfl
        | some r2 =>
          dsimp only
          by_cases htype : r1.2.type = r2.2.type
          · rw [if_neg (not_not.mpr htype), if_pos htype, List.range_eq_range']
            exact linesLoop_eq rowlabel r1.2 r2.2 _ 0 (Nat.zero_add _)
          · rw [if_pos htype, if_neg htype]

/-- **The function calls back** for a row if and only if it fits. -/
theorem transform_callback_iff (chunk : DiffChunk) : (ds.transform chunk).2 = 1 ↔ ds.RowFits chunk := by
  cases chunk with
  | garbled => exact iff_of_true rfl trivial
  | joined row =>
    obtain ⟨rowlabel, values⟩ := row
    unfold transform RowFits
    dsimp only
    -- an address that is ignored is called back for
    by_cases hignore : ds.ignoreAddress rowlabel = true
    · rw [if_pos hignore]
      exact iff_of_true rfl (.inl hignore)
    · rw [if_neg hignore, or_iff_right hignore]
      cases h1 : values version1 with
      | none =>
        refine iff_of_false Nat.zero_ne_one ?_
        rintro ⟨_, _, _, _, hsome, -, -⟩
        cases hsome
      | some r1 =>
        cases h2 : values version2 with
        | none =>
          refine iff_of_false Nat.zero_ne_one ?_
          rintro ⟨_, _, _, _, -, hsome, -⟩
          cases hsome
        | some r2 =>
          dsimp only
          by_cases htype : r1.2.type = r2.2.type
          · rw [if_neg (not_not.mpr htype)]
            exact iff_of_true rfl ⟨r1.1, r1.2, r2.1, r2.2, rfl, rfl, htype⟩
          · rw [if_pos htype]
            refine iff_of_false Nat.zero_ne_one ?_
            rintro ⟨_, _, _, _, hsome1, hsome2, hsame⟩
            obtain rfl := Option.some.inj hsome1
            obtain rfl := Option.some.inj hsome2
            exact htype hsame

end Row

/-! ### All rows -/

/-- Where the function calls back, all rows are compared. -/
theorem diffRun_of_callbacks {chunks : List DiffChunk}
    (h : ∀ chunk ∈ chunks, (ds.transform chunk).2 = 1) :
    ds.diffRun chunks = chunks.flatMap ds.differences := by
  induction chunks with
  | nil => rfl
  | cons chunk chunks ih =>
    have hone := h chunk List.mem_cons_self
    have hrest := ih fun c hc => h c (List.mem_cons_of_mem _ hc)
    rw [diffRun, hone, if_neg Nat.one_ne_zero, hrest, transform_messages, List.flatMap_cons]

/-- Where it does not, the comparison ends. -/
theorem diffRun_stalled {chunk : DiffChunk} (h : (ds.transform chunk).2 = 0)
    (before after : List DiffChunk) (hbefore : ∀ c ∈ before, (ds.transform c).2 = 1) :
    ds.diffRun (before ++ chunk :: after) =
      before.flatMap ds.differences ++ ds.differences chunk := by
  induction before with
  | nil => rw [List.nil_append, diffRun, h, if_pos rfl, transform_messages, List.append_nil]; rfl
  | cons c before ih =>
    have hone := hbefore c List.mem_cons_self
    have hrest := ih fun c' hc' => hbefore c' (List.mem_cons_of_mem _ hc')
    rw [List.cons_append, diffRun, hone, if_neg Nat.one_ne_zero, hrest, transform_messages,
      List.flatMap_cons, List.append_assoc]

/-- **When the comparison is complete**: every row is ignored, or both versions have it with the same
type. -/
theorem diffExact_iff (chunks : List DiffChunk) :
    ds.DiffExact chunks ↔ ∀ chunk ∈ chunks, ds.RowFits chunk := by
  constructor
  · exact fun h chunk hchunk => (transform_callback_iff chunk).mp (h.callbacks chunk hchunk)
  · intro hfits
    have hcallbacks : ∀ chunk ∈ chunks, (ds.transform chunk).2 = 1 := fun chunk hchunk =>
      (transform_callback_iff chunk).mpr (hfits chunk hchunk)
    exact ⟨hcallbacks, ds.diffRun_of_callbacks hcallbacks⟩

/-- A row that only the first version has, and one with a line that is different. -/
def stalledRows : List DiffChunk :=
  [.joined ("a".toList, ![some ("a".toList, ⟨"a".toList, .object, [['\x7d']]⟩), none]),
    .joined ("b".toList, ![some ("b".toList, ⟨"b".toList, .object, [['x'], ['\x7d']]⟩),
      some ("b".toList, ⟨"b".toList, .object, [['y'], ['\x7d']]⟩)])]

/-- The second row is not compared. -/
theorem not_diffExact_stalled :
    (DiffStream.mk ['1'] ['2'] none).diffRun stalledRows =
        [.message ['a'] (onlyIn ['1'])] ∧
      ¬ (DiffStream.mk ['1'] ['2'] none).DiffExact stalledRows := by
  refine ⟨by decide, fun h => ?_⟩
  have hone := h.callbacks _ List.mem_cons_self
  exact absurd hone (by decide)

end DiffStream

end MdbV8.Tools
