import MdbV8.Tools.DiffStream
import MdbV8.Tools.JoinOrder
import MdbV8.Tools.ParserRows

/-!
# The comparison as a whole

`mdbv8diff` gets two files with what two versions of the module have printed. The lines of each go to a
`ParserStream`, the rows of both to a `JoinStream`, the rows of the join to the `DiffStream`, and its messages
are written as a text. The parts are those of the modules before; here they are put together, for files with
values that are laid out in several lines, and whose addresses are sorted.

Whatever the order of the events at the join, nothing is written in the end if and only if both versions have
printed the same values, but for what is to be ignored. And if they have printed values with the same addresses
and types, then what is written are the lines that are different (`diffsExactly`).
-/

namespace MdbV8.Tools

open Lib

/-! ### The streams between the files and the output -/

/-- What a `ParserStream` pushes. -/
def ParserEvent.pushed? : ParserEvent → Option (Line × Parsed)
  | .push addr parsed => some (addr, parsed)
  | .warn _ => none

/-- `createInputStream`: the rows of a file with a text. -/
def inputRows (T : Line) : List (Line × Parsed) :=
  (parserRun [] (streamLines T)).filterMap ParserEvent.pushed?

/-- What can have become of the join of two files. -/
def Joining (ltNull : Line → Bool) (T₁ T₂ : Line) (s : JoinStream 2 (Line × Parsed) Line) : Prop :=
  JoinStream.Reachable Prod.fst ltNull ![inputRows T₁, inputRows T₂] s

/-- `DiffStreamSerializer`. -/
def serialize : DiffMessage → Line
  | .message label message => label ++ ": ".toList ++ message ++ ['\n']
  | .messages label source1 message1 source2 message2 =>
    label ++ ": ".toList ++ source1 ++ ": ".toList ++ message1 ++
      (label ++ ": ".toList ++ source2 ++ ": ".toList ++ message2)

/-- The row for a value that has been printed. -/
def PrintedValue.parsed (v : PrintedValue) : Line × Parsed :=
  (v.addr, { addr := v.addr, type := v.type, lines := v.lines.tail.map trim })

/-- The addresses are sorted, as strings. -/
def SortedAddrs (vs : List PrintedValue) : Prop := vs.Pairwise fun v v' => v.addr ≤ v'.addr

namespace DiffStream

variable (ds : DiffStream)

/-- What is written for the rows that a join has pushed. -/
def written (s : JoinStream 2 (Line × Parsed) Line) : Line :=
  (ds.diffRun ((outputs s.log).map .joined)).flatMap serialize

/-! ### What is the same -/

/-- Two lines that are not told apart. -/
def SameLine (line1 line2 : Line) : Prop := line1 = line2 ∨ ds.ignoreDiff line1 line2 = true

/-- Two rows that are compared line by line. -/
def Matches (row1 row2 : Line × Parsed) : Prop := row1.1 = row2.1 ∧ row1.2.type = row2.2.type

/-- Two rows that are not told apart. -/
def Alike (row1 row2 : Line × Parsed) : Prop :=
  Matches row1 row2 ∧ List.Forall₂ ds.SameLine row1.2.lines row2.2.lines

/-- The rows whose addresses are not to be ignored. -/
def kept (rows : List (Line × Parsed)) : List (Line × Parsed) :=
  rows.filter fun row => !ds.ignoreAddress row.1

/-- The messages for the lines that are different in two values. -/
def lineDifferences (rowlabel : Line) (value1 value2 : Parsed) : List DiffMessage :=
  (List.range (max value1.lines.length value2.lines.length)).filterMap
    (ds.lineDifference rowlabel value1 value2)

/-- There are none if and only if all lines are the same. -/
theorem lineDifferences_eq_nil_iff (rowlabel : Line) (value1 value2 : Parsed) :
    ds.lineDifferences rowlabel value1 value2 = [] ↔
      List.Forall₂ ds.SameLine value1.lines value2.lines := by
  unfold lineDifferences
  rw [List.filterMap_eq_nil_iff, List.forall₂_iff_get]
  constructor
  · intro hnone
    have hlen : value1.lines.length = value2.lines.length := by
      by_contra hne
      -- the line behind the shorter one is missing
      have hlast := hnone (min value1.lines.length value2.lines.length)
        (List.mem_range.mpr (by omega))
      unfold lineDifference at hlast
      rcases Nat.lt_or_gt_of_ne hne with hlt | hgt
      · rw [min_eq_left hlt.le, List.getElem?_eq_none le_rfl, List.getElem?_eq_getElem hlt] at hlast
        cases hlast
      · rw [min_eq_right (Nat.le_of_lt hgt), List.getElem?_eq_none le_rfl,
          List.getElem?_eq_getElem hgt] at hlast
        cases hlast
    refine ⟨hlen, fun i h1 h2 => ?_⟩
    have hline := hnone i (List.mem_range.mpr (by omega))
    unfold lineDifference at hline
    rw [List.getElem?_eq_getElem h1, List.getElem?_eq_getElem h2] at hline
    dsimp only at hline
    split at hline
    · next hsame => exact hsame
    · cases hline
  · rintro ⟨hlen, hall⟩ i hi
    have h1 : i < value1.lines.length := by
      rw [List.mem_range] at hi
      omega
    have h2 : i < value2.lines.length := hlen ▸ h1
    unfold lineDifference
    rw [List.getElem?_eq_getElem h1, List.getElem?_eq_getElem h2]
    dsimp only
    exact if_pos (hall i h1 h2)

/-- A row of the join in which nothing is different. -/
theorem differences_eq_nil_iff (row : JoinRow (Fin 2) (Line × Parsed) Line) :
    ds.differences (.joined row) = [] ↔ ds.ignoreAddress row.1 = true ∨
      ∃ row1 row2, row.2 version1 = some row1 ∧ row.2 version2 = some row2 ∧
        row1.2.type = row2.2.type ∧ List.Forall₂ ds.SameLine row1.2.lines row2.2.lines := by
  obtain ⟨rowlabel, values⟩ := row
  unfold differences
  dsimp only
  by_cases hignore : ds.ignoreAddress rowlabel = true
  · rw [if_pos hignore]
    exact iff_of_true rfl (.inl hignore)
  rw [if_neg hignore, or_iff_right hignore]
  -- both files have a value at the address
  cases values version1 with
  | none => exact iff_of_false (List.cons_ne_nil _ _) (by rintro ⟨_, _, h, -⟩; cases h)
  | some row1 =>
    cases values version2 with
    | none => exact iff_of_false (List.cons_ne_nil _ _) (by rintro ⟨_, _, -, h, -⟩; cases h)
    | some row2 =>
      dsimp only
      -- of the same type, so that the properties are compared
      by_cases htype : row1.2.type = row2.2.type
      · rw [if_pos htype]
        refine (ds.lineDifferences_eq_nil_iff rowlabel row1.2 row2.2).trans ⟨fun hlines => ?_, ?_⟩
        · exact ⟨row1, row2, rfl, rfl, htype, hlines⟩
        · rintro ⟨_, _, hrow1, hrow2, -, hlines⟩
          obtain rfl := Option.some.inj hrow1
          obtain rfl := Option.some.inj hrow2
          exact hlines
      · rw [if_neg htype]
        refine iff_of_false (List.cons_ne_nil _ _) ?_
        rintro ⟨_, _, hrow1, hrow2, hsame, -⟩
        obtain rfl := Option.some.inj hrow1
        obtain rfl := Option.some.inj hrow2
        exact htype hsame

/-- **Nothing is pushed if and only if nothing is different**, although the comparison may end early. -/
theorem diffRun_eq_nil_iff (chunks : List DiffChunk) :
    ds.diffRun chunks = [] ↔ ∀ chunk ∈ chunks, ds.differences chunk = [] := by
  induction chunks with
  | nil => exact iff_of_true rfl nofun
  | cons chunk chunks ih =>
    rw [diffRun, List.append_eq_nil_iff, transform_messages, List.forall_mem_cons]
    refine and_congr_right fun hnil => ?_
    -- the function calls back, since it has pushed nothing
    have hback : (ds.transform chunk).2 ≠ 0 := by
      cases chunk with
      | garbled => exact Nat.one_ne_zero
      | joined row =>
        have hone : (ds.transform (.joined row)).2 = 1 := by
          refine (transform_callback_iff _).mpr ?_
          rcases (ds.differences_eq_nil_iff row).mp hnil with
            hignore | ⟨row1, row2, hrow1, hrow2, htype, -⟩
          · exact .inl hignore
          · exact .inr ⟨row1.1, row1.2, row2.1, row2.2, hrow1, hrow2, htype⟩
        rw [hone]
        exact Nat.one_ne_zero
    rw [if_neg hback]
    exact ih

theorem serialize_ne_nil (message : DiffMessage) : serialize message ≠ [] := by
  cases message with
  | message label message => exact List.append_ne_nil_of_right_ne_nil _ (List.cons_ne_nil _ _)
  | messages label source1 message1 source2 message2 =>
    unfold serialize
    simp

/-- **Nothing is written** if and only if nothing is different in the rows of the join. -/
theorem written_eq_nil_iff (s : JoinStream 2 (Line × Parsed) Line) :
    ds.written s = [] ↔ ∀ row ∈ outputs s.log, ds.differences (.joined row) = [] := by
  unfold written
  rw [List.flatMap_eq_nil_iff]
  constructor
  · intro hnone
    have hnil : ds.diffRun ((outputs s.log).map .joined) = [] :=
      List.eq_nil_iff_forall_not_mem.mpr fun message hmem => serialize_ne_nil message (hnone message hmem)
    exact fun row hrow => (ds.diffRun_eq_nil_iff _).mp hnil _ (List.mem_map_of_mem hrow)
  · intro hall
    have hnil : ds.diffRun ((outputs s.log).map .joined) = [] :=
      (ds.diffRun_eq_nil_iff _).mpr fun chunk hchunk => by
        obtain ⟨row, hrow, rfl⟩ := List.mem_map.mp hchunk
        exact hall row hrow
    rw [hnil]
    exact nofun

end DiffStream

/-! ### Both files -/

section Files

/-- What gives nothing can be left out. -/
theorem flatMap_eq_filter {α β : Type} {f : α → List β} {keep : α → Bool} {xs : List α}
    (h : ∀ x ∈ xs, keep x = false → f x = []) : xs.flatMap f = (xs.filter keep).flatMap f := by
  induction xs with
  | nil => rfl
  | cons x xs ih =>
    have hrest := ih fun y hy => h y (List.mem_cons_of_mem _ hy)
    cases hx : keep x with
    | true => rw [List.filter_cons_of_pos hx, List.flatMap_cons, List.flatMap_cons, hrest]
    | false =>
      rw [List.filter_cons_of_neg (by simp [hx]), List.flatMap_cons, h x List.mem_cons_self hx,
        List.nil_append, hrest]

/-- The parser pushes the rows of values that are laid out in several lines. -/
theorem inputRows_printed {vs : List PrintedValue} (hspread : ∀ v ∈ vs, v.value.spread = true) :
    inputRows (printed vs) = vs.map PrintedValue.parsed := by
  unfold inputRows
  rw [streamLines_printed]
  induction vs with
  | nil => rfl
  | cons v vs ih =>
    have hv := hspread v List.mem_cons_self
    rw [List.flatMap_cons, v.parserRun_of_spread hv, List.nil_append, v.valueDone_of_spread hv,
      List.filterMap_cons, ih fun v' hv' => hspread v' (List.mem_cons_of_mem v hv'), List.map_cons]
    rfl

variable (ds : DiffStream)

/-- **What the tool does** with two files: it is silent if both versions have printed the same, but for what is
to be ignored; and it writes the lines that are different, if the values have the same addresses and types. -/
structure DiffsExactly (vs₁ vs₂ : List PrintedValue) (s : JoinStream 2 (Line × Parsed) Line) : Prop where
  silent : ds.written s = [] ↔
    List.Forall₂ ds.Alike (ds.kept (vs₁.map PrintedValue.parsed)) (ds.kept (vs₂.map PrintedValue.parsed))
  lines : List.Forall₂ DiffStream.Matches (ds.kept (vs₁.map PrintedValue.parsed))
      (ds.kept (vs₂.map PrintedValue.parsed)) →
    ds.written s = (((ds.kept (vs₁.map PrintedValue.parsed)).zip
      (ds.kept (vs₂.map PrintedValue.parsed))).flatMap fun p =>
        ds.lineDifferences p.1.1 p.1.2 p.2.2).flatMap serialize

variable {ds} {ltNull : Line → Bool} {vs₁ vs₂ : List PrintedValue} {s : JoinStream 2 (Line × Parsed) Line}

/-- When `null` has been pushed, the rows that have come out are the join of the rows of both files. -/
theorem isJoin_of_joining {rows₁ rows₂ : List (Line × Parsed)}
    (h : JoinStream.Reachable Prod.fst ltNull ![rows₁, rows₂] s) (hend : .pushed none ∈ s.log)
    (hsorted : ∀ i, KeysSorted Prod.fst (![rows₁, rows₂] i)) :
    IsJoin Prod.fst ![rows₁, rows₂] (outputs s.log) := by
  have hinv := inv_of_reachable h
  obtain ⟨l₁, l₂, hlog⟩ := List.append_of_mem hend
  obtain ⟨-, hall⟩ := hinv.finished l₁ l₂ hlog
  have hmerged := hinv.merged
  have heq : outputs s.log = mergeJoin Prod.fst ![rows₁, rows₂] := by
    rw [hlog, outputs_append, hall, List.append_assoc] at hmerged
    have hnil := List.append_cancel_left (hmerged.trans (List.append_nil _).symm)
    rw [hlog, outputs_append, hall, (List.append_eq_nil_iff.mp hnil).1, List.append_nil]
  rw [heq]
  exact isJoin_mergeJoin hsorted

/-- The rows of the join that are not ignored are the pairs of rows, if these are compared line by line. -/
theorem filter_outputs_of_matches {rows₁ rows₂ : List (Line × Parsed)}
    {out : List (JoinRow (Fin 2) (Line × Parsed) Line)} (hjoin : IsJoin Prod.fst ![rows₁, rows₂] out)
    (hsorted : KeysSorted Prod.fst rows₁)
    (hmatches : List.Forall₂ DiffStream.Matches (ds.kept rows₁) (ds.kept rows₂)) :
    out.filter (fun row => !ds.ignoreAddress row.1) =
      ((ds.kept rows₁).zip (ds.kept rows₂)).map fun p => (p.1.1, ![some p.1, some p.2]) := by
  have hlen := hmatches.length_eq
  have hzip : KeysSorted Prod.fst (((ds.kept rows₁).zip (ds.kept rows₂)).map Prod.fst) := by
    rw [List.map_fst_zip hlen.le]
    exact hsorted.filter _
  have hpairs := isJoin_pairs (fun p hp => (List.forall₂_zip hmatches hp).1) hzip
  rw [List.map_fst_zip hlen.le, List.map_snd_zip hlen.ge] at hpairs
  have hkept := hjoin.filter fun addr => !ds.ignoreAddress addr
  have hsrc : (fun j => (![rows₁, rows₂] j).filter fun row => !ds.ignoreAddress row.1) =
      ![ds.kept rows₁, ds.kept rows₂] := by
    funext j
    fin_cases j <;> rfl
  rw [hsrc] at hkept
  exact hkept.unique hpairs

/-- The comparison does not end early then, and its messages are about the lines of the pairs. -/
theorem diffRun_of_matches {rows₁ rows₂ : List (Line × Parsed)}
    {out : List (JoinRow (Fin 2) (Line × Parsed) Line)} (hjoin : IsJoin Prod.fst ![rows₁, rows₂] out)
    (hsorted : KeysSorted Prod.fst rows₁)
    (hmatches : List.Forall₂ DiffStream.Matches (ds.kept rows₁) (ds.kept rows₂)) :
    ds.diffRun (out.map .joined) = ((ds.kept rows₁).zip (ds.kept rows₂)).flatMap fun p =>
      ds.lineDifferences p.1.1 p.1.2 p.2.2 := by
  have hfilter := filter_outputs_of_matches hjoin hsorted hmatches
  -- a row that is not ignored is a pair of matching rows
  have hkept : ∀ row ∈ out, ds.ignoreAddress row.1 = false → ∃ p ∈ (ds.kept rows₁).zip (ds.kept rows₂),
      row = (p.1.1, ![some p.1, some p.2]) := by
    intro row hrow hkeep
    have hmem : row ∈ out.filter fun row => !ds.ignoreAddress row.1 :=
      List.mem_filter.mpr ⟨hrow, by rw [hkeep]; rfl⟩
    rw [hfilter] at hmem
    obtain ⟨p, hp, rfl⟩ := List.mem_map.mp hmem
    exact ⟨p, hp, rfl⟩
  -- so every row is called back for
  have hback : ∀ chunk ∈ out.map .joined, (ds.transform chunk).2 = 1 := by
    intro chunk hchunk
    obtain ⟨row, hrow, rfl⟩ := List.mem_map.mp hchunk
    refine (DiffStream.transform_callback_iff _).mpr ?_
    cases hignore : ds.ignoreAddress row.1 with
    | true => exact .inl hignore
    | false =>
      obtain ⟨p, hp, rfl⟩ := hkept row hrow hignore
      exact .inr ⟨p.1.1, p.1.2, p.2.1, p.2.2, rfl, rfl, (List.forall₂_zip hmatches hp).2⟩
  calc ds.diffRun (out.map .joined)
      = (out.map .joined).flatMap ds.differences := ds.diffRun_of_callbacks hback
    _ = out.flatMap fun row => ds.differences (.joined row) := List.flatMap_map _ _ _
    _ = (out.filter fun row => !ds.ignoreAddress row.1).flatMap fun row => ds.differences (.joined row) :=
        flatMap_eq_filter fun row _ hignore =>
          (ds.differences_eq_nil_iff row).mpr (.inl (by simpa using hignore))
    _ = ((ds.kept rows₁).zip (ds.kept rows₂)).flatMap fun p =>
          ds.differences (.joined (p.1.1, ![some p.1, some p.2])) := by
        rw [hfilter, List.flatMap_map]
    _ = _ := by
        rw [List.flatMap_def, List.flatMap_def]
        refine congrArg _ (List.map_congr_left fun p hp => ?_)
        have hkeep : ds.ignoreAddress p.1.1 = false := by
          have hmem := List.of_mem_filter (List.of_mem_zip hp).1
          simpa using hmem
        unfold DiffStream.differences
        dsimp only
        rw [hkeep, if_neg Bool.false_ne_true]
        exact if_pos (List.forall₂_zip hmatches hp).2

/-- **The tool tells two versions apart**, under every schedule of the join. -/
theorem diffsExactly (hspread₁ : ∀ v ∈ vs₁, v.value.spread = true)
    (hspread₂ : ∀ v ∈ vs₂, v.value.spread = true) (hsorted₁ : SortedAddrs vs₁) (hsorted₂ : SortedAddrs vs₂)
    (h : Joining ltNull (printed vs₁) (printed vs₂) s) (hend : .pushed none ∈ s.log) :
    DiffsExactly ds vs₁ vs₂ s := by
  unfold Joining at h
  rw [inputRows_printed hspread₁, inputRows_printed hspread₂] at h
  have hkeys {vs : List PrintedValue} (hsorted : SortedAddrs vs) :
      KeysSorted Prod.fst (vs.map PrintedValue.parsed) := List.pairwise_map.mpr hsorted
  have hjoin := isJoin_of_joining h hend (Fin.forall_fin_two.mpr ⟨hkeys hsorted₁, hkeys hsorted₂⟩)
  refine ⟨⟨fun hnil => ?_, fun halike => ?_⟩, fun hmatches => ?_⟩
  · have hall := (ds.written_eq_nil_iff s).mp hnil
    have hkept := hjoin.filter fun addr => !ds.ignoreAddress addr
    refine hkept.forall₂ (i := 0) (j := 1) fun row hrow => ?_
    obtain ⟨hmem, hkeep⟩ := List.mem_filter.mp hrow
    rcases (ds.differences_eq_nil_iff row).mp (hall row hmem) with
      hignore | ⟨row1, row2, hrow1, hrow2, htype, hsame⟩
    · rw [hignore] at hkeep
      cases hkeep
    · have haddr : row1.1 = row2.1 :=
        (hjoin.keyed row hmem version1 row1 hrow1).trans (hjoin.keyed row hmem version2 row2 hrow2).symm
      change Option.Rel ds.Alike (row.2 version1) (row.2 version2)
      rw [hrow1, hrow2]
      exact .some ⟨⟨haddr, htype⟩, hsame⟩
  · -- there is no line that is different
    have hmatches := halike.imp fun _ _ => And.left
    unfold DiffStream.written
    rw [diffRun_of_matches hjoin (hkeys hsorted₁) hmatches, List.flatMap_eq_nil_iff]
    intro message hmem
    obtain ⟨p, hp, hmessage⟩ := List.mem_flatMap.mp hmem
    rw [(ds.lineDifferences_eq_nil_iff p.1.1 p.1.2 p.2.2).mpr (List.forall₂_zip halike hp).2] at hmessage
    cases hmessage
  · exact congrArg (List.flatMap serialize) (diffRun_of_matches hjoin (hkeys hsorted₁) hmatches)

/-- An object with one property, whose value has some text. -/
def pointObject (T : Line) (hT : '\n' ∉ T) : PrintedValue where
  addr := "8091".toList
  value := .object (.cons ['x'] "8093: ".toList (.text T) .nil) true
  type := .object
  addr_ne := by decide
  addr_hex := List.all_eq_true.mp (by decide)
  typed := rfl
  noBreaks := ⟨by decide, by decide, hT, trivial⟩

/-- The property has another value in the second file. -/
def pointJoin : Option (JoinStream 2 (Line × Parsed) Line) :=
  (JoinStream.create ![inputRows (printed [pointObject ['1'] (by decide)]),
    inputRows (printed [pointObject ['2'] (by decide)])]).run Prod.fst (fun _ => false)
      [.read, .run true, .run true, .run true, .run true, .run true, .run true, .run true, .ended version1,
        .run true, .run true, .run true, .ended version2, .run true, .run true, .run true]

theorem isSome_pointJoin : pointJoin.isSome = true := by decide +kernel

/-- The event with which a join ends. -/
def isEnd {n : ℕ} {R K : Type} : Event n R K → Bool
  | .pushed none => true
  | _ => false

theorem eq_pushed_none {n : ℕ} {R K : Type} {e : Event n R K} (h : isEnd e = true) : e = .pushed none := by
  unfold isEnd at h
  split at h
  · rfl
  · cases h

/-- The join has come to its end. -/
theorem pushed_pointJoin : .pushed none ∈ (pointJoin.get isSome_pointJoin).log := by
  have hlast : (pointJoin.get isSome_pointJoin).log.any isEnd = true := by decide +kernel
  obtain ⟨e, he, hend⟩ := List.any_eq_true.mp hlast
  exact eq_pushed_none hend ▸ he

/-- What is written is the line that is different. -/
theorem diffsExactly_point :
    let ds : DiffStream := { label1 := "f1".toList, label2 := "f2".toList }
    ∃ s, pointJoin = some s ∧
      ds.written s = "8091: f1: line 1: \"x\": 8093: 1,\n8091: f2: line 1: \"x\": 8093: 2,\n".toList ∧
      DiffsExactly ds [pointObject ['1'] (by decide)] [pointObject ['2'] (by decide)] s :=
  ⟨pointJoin.get isSome_pointJoin, (Option.some_get _).symm, by decide +kernel,
    diffsExactly (List.forall_mem_singleton.mpr rfl) (List.forall_mem_singleton.mpr rfl)
      (List.pairwise_singleton _ _) (List.pairwise_singleton _ _)
      (JoinStream.reachable_of_run (Option.some_get _).symm) pushed_pointJoin⟩

end Files

end MdbV8.Tools
