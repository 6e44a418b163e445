import Mathlib.Data.List.SplitBy

/-!
# Runs of hidden items

A report of a list of items in which some of the items are hidden. A shown item contributes what is its
own, and a maximal run of hidden items contributes one mark, with the length of the run.

`itemwise` is what becomes of a report if every hidden item is taken for a run of its own. The two are
the same if and only if no two hidden items are next to each other (`report_eq_itemwise_iff`); marks are
told from the rest by a test that the marks pass and what the shown items contribute does not, and are
counted.
-/

namespace MdbV8.Lib

section Report

variable {α β : Type*} (hidden : α → Bool) (own : α → List β) (mark : ℕ → β)

/-- The maximal runs of hidden items, and the shown items on their own. -/
def runs (items : List α) : List (List α) := items.splitBy fun a b => hidden a && hidden b

/-- What a run contributes. -/
def reportRun (run : List α) : List β :=
  if run.all hidden then [mark run.length] else run.flatMap own

/-- **The report.** -/
def report (items : List α) : List β := (runs hidden items).flatMap (reportRun hidden own mark)

/-- What an item contributes if it is a run of its own. -/
def reportItem (a : α) : List β := if hidden a then [mark 1] else own a

/-- The report that does not join hidden items. -/
def itemwise (items : List α) : List β := items.flatMap (reportItem hidden own mark)

/-- No two hidden items are next to each other. -/
def Apart (items : List α) : Prop := items.IsChain fun a b => (hidden a && hidden b) = false

variable {hidden own mark} {a b : α} {items : List α}

/-- An item that does not join the one behind it. -/
theorem runs_cons_apart (h : ∀ b ∈ items.head?, (hidden a && hidden b) = false) :
    runs hidden (a :: items) = [a] :: runs hidden items := by
  have hsplit := List.splitBy_append (r := fun a b => hidden a && hidden b) (l := [a]) (m := items)
    fun x hx b hb => by
      obtain rfl : a = x := by simpa using hx
      exact h b hb
  have hone : [a].splitBy (fun a b => hidden a && hidden b) = [[a]] := rfl
  rw [hone] at hsplit
  exact hsplit

/-- The items behind a hidden one, as long as they join it. -/
theorem all_hidden_of_isChain {run : List α}
    (h : (a :: run).IsChain fun a b => (hidden a && hidden b) = true) (ha : hidden a = true) :
    (a :: run).all hidden = true := by
  induction run generalizing a with
  | nil => simp [ha]
  | cons b run ih =>
    obtain ⟨hab, hrun⟩ := List.isChain_cons_cons.mp h
    rw [List.all_cons, ha, Bool.true_and]
    exact ih hrun (Bool.and_eq_true_iff.mp hab).2

variable (items) in
/-- A hidden item that joins the one behind it. -/
theorem runs_cons_joined (ha : hidden a = true) (hb : hidden b = true) :
    ∃ run rest, runs hidden (b :: items) = run :: rest ∧ run.all hidden = true ∧
      runs hidden (a :: b :: items) = (a :: run) :: rest := by
  have hne : runs hidden (b :: items) ≠ [] := List.splitBy_ne_nil.mpr (List.cons_ne_nil _ _)
  obtain ⟨run, rest, hruns⟩ := List.exists_cons_of_ne_nil hne
  obtain ⟨hflat, hnil, hchain, hbounds⟩ := List.splitBy_eq_iff.mp hruns
  have hrun : run ≠ [] := fun heq => hnil (heq ▸ List.mem_cons_self)
  obtain ⟨b', run, rfl⟩ := List.exists_cons_of_ne_nil hrun
  obtain rfl : b = b' := by simpa using congrArg List.head? hflat
  have hfirst := hchain _ List.mem_cons_self
  refine ⟨b :: run, rest, hruns, all_hidden_of_isChain hfirst hb, ?_⟩
  refine List.splitBy_eq_iff.mpr ⟨?_, ?_, ?_, ?_⟩
  · rw [hflat]
    rfl
  · simpa using hnil
  · intro m hm
    rcases List.mem_cons.mp hm with rfl | hm
    · exact List.isChain_cons_cons.mpr ⟨by simp [ha, hb], hfirst⟩
    · exact hchain m (List.mem_cons_of_mem _ hm)
  · -- the run ends where it has ended before
    cases rest with
    | nil => exact List.isChain_singleton _
    | cons next rest =>
      rw [List.isChain_cons_cons] at hbounds ⊢
      obtain ⟨⟨hlast, hhead, hfalse⟩, hrest⟩ := hbounds
      exact ⟨⟨List.cons_ne_nil _ _, hhead, by rwa [List.getLast_cons_cons]⟩, hrest⟩

theorem report_cons_apart (h : ∀ b ∈ items.head?, (hidden a && hidden b) = false) :
    report hidden own mark (a :: items) =
      reportItem hidden own mark a ++ report hidden own mark items := by
  unfold report
  rw [runs_cons_apart h, List.flatMap_cons]
  congr 1
  cases ha : hidden a with
  | true => simp [reportRun, reportItem, ha]
  | false => simp [reportRun, reportItem, ha]

theorem report_cons_shown (ha : hidden a = false) :
    report hidden own mark (a :: items) = own a ++ report hidden own mark items := by
  rw [report_cons_apart fun b _ => by rw [ha, Bool.false_and], reportItem, if_neg (by simp [ha])]

variable (own mark items) in
/-- A hidden item in front of a run adds one to its mark. -/
theorem report_cons_joined (ha : hidden a = true) (hb : hidden b = true) :
    ∃ n rest, report hidden own mark (b :: items) = mark n :: rest ∧
      report hidden own mark (a :: b :: items) = mark (n + 1) :: rest := by
  obtain ⟨run, rest, hruns, hall, hjoined⟩ := runs_cons_joined items ha hb
  refine ⟨run.length, rest.flatMap (reportRun hidden own mark), ?_, ?_⟩
  · rw [report, hruns, List.flatMap_cons, reportRun, if_pos hall]
    rfl
  · rw [report, hjoined, List.flatMap_cons, reportRun, List.all_cons, ha, Bool.true_and, if_pos hall,
      List.length_cons]
    rfl

/-- Hidden items that are not next to each other are runs of their own. -/
theorem report_eq_itemwise (h : Apart hidden items) :
    report hidden own mark items = itemwise hidden own mark items := by
  induction items with
  | nil => rfl
  | cons a items ih =>
    obtain ⟨hhead, htail⟩ := List.isChain_cons.mp h
    rw [report_cons_apart hhead, ih htail]
    rfl

variable (hidden) in
/-- The three ways in which a list may begin. -/
theorem report_induction {motive : List α → Prop} (nil : motive [])
    (apart : ∀ a items, (∀ b ∈ items.head?, (hidden a && hidden b) = false) → motive items →
      motive (a :: items))
    (joined : ∀ a b items, hidden a = true → hidden b = true → motive (b :: items) →
      motive (a :: b :: items)) (items : List α) : motive items := by
  induction items with
  | nil => exact nil
  | cons a items ih =>
    cases items with
    | nil => exact apart a [] (fun b hb => nomatch hb) ih
    | cons b items =>
      cases hab : hidden a && hidden b with
      | false =>
        refine apart a (b :: items) (fun b' hb' => ?_) ih
        obtain rfl : b = b' := by simpa using hb'
        exact hab
      | true =>
        obtain ⟨ha, hb⟩ := Bool.and_eq_true_iff.mp hab
        exact joined a b items ha hb ih

/-! ### Counting the marks -/

section Count

variable (hidden own) in
/-- What the shown items contribute does not pass the test of the marks. -/
def Unmarked (isMark : β → Bool) (items : List α) : Prop :=
  ∀ a ∈ items, hidden a = false → ∀ b ∈ own a, isMark b = false

variable {isMark : β → Bool} (hmark : ∀ n, isMark (mark n) = true)

include hmark

theorem countP_reportItem (hown : hidden a = false → ∀ b ∈ own a, isMark b = false) :
    (reportItem hidden own mark a).countP isMark = if hidden a then 1 else 0 := by
  unfold reportItem
  cases ha : hidden a with
  | true => simp [hmark]
  | false =>
    rw [if_neg Bool.false_ne_true, if_neg Bool.false_ne_true, List.countP_eq_zero]
    intro b hb
    simp [hown ha b hb]

/-- There is a mark for every hidden item if they are not joined. -/
theorem countP_itemwise (hown : Unmarked hidden own isMark items) :
    (itemwise hidden own mark items).countP isMark = items.countP hidden := by
  induction items with
  | nil => rfl
  | cons a items ih =>
    obtain ⟨ha, hitems⟩ := List.forall_mem_cons.mp hown
    have hcons : itemwise hidden own mark (a :: items) =
        reportItem hidden own mark a ++ itemwise hidden own mark items := List.flatMap_cons
    rw [hcons, List.countP_append, ih hitems, countP_reportItem hmark ha, List.countP_cons, Nat.add_comm]

/-- **The marks of a report**: no more than the hidden items, and as many if and only if no two of them
are next to each other. -/
theorem countP_report (hown : Unmarked hidden own isMark items) :
    (report hidden own mark items).countP isMark ≤ items.countP hidden ∧
      ((report hidden own mark items).countP isMark = items.countP hidden → Apart hidden items) := by
  induction items using report_induction hidden with
  | nil => exact ⟨le_rfl, fun _ => List.isChain_nil⟩
  | apart a items happart ih =>
    obtain ⟨ha, hitems⟩ := List.forall_mem_cons.mp hown
    have hrest := ih hitems
    rw [report_cons_apart happart, List.countP_append, countP_reportItem hmark ha, List.countP_cons]
    refine ⟨by omega, fun heq => ?_⟩
    exact List.isChain_cons.mpr ⟨happart, hrest.2 (by omega)⟩
  | joined a b items ha hb ih =>
    have hrest := ih (List.forall_mem_cons.mp hown).2
    obtain ⟨n, rest, hone, hjoined⟩ :=
      report_cons_joined own mark items ha hb
    -- one mark stands for both
    have hcount : (report hidden own mark (a :: b :: items)).countP isMark =
        (report hidden own mark (b :: items)).countP isMark := by
      rw [hone, hjoined, List.countP_cons, List.countP_cons, hmark, hmark]
    rw [hcount, List.countP_cons, if_pos ha]
    exact ⟨by omega, fun heq => by omega⟩

/-- **When no run is longer than one item**: if and only if the report does without joining. -/
theorem report_eq_itemwise_iff (hown : Unmarked hidden own isMark items) :
    report hidden own mark items = itemwise hidden own mark items ↔ Apart hidden items := by
  refine ⟨fun heq => ?_, report_eq_itemwise⟩
  refine (countP_report hmark hown).2 ?_
  rw [heq, countP_itemwise hmark hown]

/-- A hidden item is reported in front of the others, and so, if its mark comes last, there are no
others. -/
theorem report_eq_itemwise_append_mark_iff (hown : Unmarked hidden own isMark items)
    (hne : ∀ a ∈ items, hidden a = false → own a ≠ []) (ha : hidden a = true) :
    report hidden own mark (a :: items) = itemwise hidden own mark items ++ [mark 1] ↔ items = [] := by
  constructor
  · intro heq
    have happart : Apart hidden (a :: items) := by
      refine (countP_report hmark (List.forall_mem_cons.mpr ⟨fun hfalse => ?_, hown⟩)).2 ?_
      · rw [ha] at hfalse
        cases hfalse
      · rw [heq, List.countP_append, countP_itemwise hmark hown, List.countP_cons_of_pos ha,
          List.countP_singleton, if_pos (hmark 1)]
    rw [report_eq_itemwise happart] at heq
    cases items with
    | nil => rfl
    | cons b items =>
      have hb : hidden b = false := by
        have hab := (List.isChain_cons_cons.mp happart).1
        simpa [ha] using hab
      obtain ⟨x, xs, hx⟩ := List.exists_cons_of_ne_nil (hne b List.mem_cons_self hb)
      have hfirst : mark 1 = x := by
        have hhead := congrArg List.head? heq
        simpa [itemwise, reportItem, ha, hb, hx] using hhead
      -- the item behind it is shown, so that the output begins with what is its own
      have hnot := hown b List.mem_cons_self hb x (by rw [hx]; exact List.mem_cons_self)
      rw [← hfirst, hmark] at hnot
      cases hnot
  · rintro rfl
    rw [report_eq_itemwise (List.isChain_singleton a)]
    simp [itemwise, reportItem, ha]

end Count

end Report

end MdbV8.Lib
