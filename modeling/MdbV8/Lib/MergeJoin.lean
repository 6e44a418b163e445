import Mathlib

/-!
# Merge joins

A full outer join of finitely many lists of rows by a key. The output has a column for each list, and
stands under keys that do not go down; a row of a list is in its column, and in no other; and rows of
different lists with the same key stand in one row of the output, the first with the first, the second
with the second, and so on (`IsJoin`). There is at most one such output (`IsJoin.unique`).

`mergeJoin` takes the rows of the least key that the lists begin with, as long as there are any. It is
defined for any lists, and it is the join if the keys of each list do not go down
(`isJoin_mergeJoin`).
-/

namespace MdbV8.Lib

variable {ι R K : Type*} [LinearOrder K] (key : R → K)

/-- A row of the output of a join, under its key. -/
abbrev JoinRow (ι R K : Type*) : Type _ := K × (ι → Option R)

/-- What a row of the output has in a column. -/
def cell (out : List (JoinRow ι R K)) (i : ℕ) (j : ι) : Option R := (out[i]?).bind fun o => o.2 j

/-- The output of a join. -/
structure IsJoin (src : ι → List R) (out : List (JoinRow ι R K)) : Prop where
  /-- The keys do not go down. -/
  sorted : out.Pairwise fun o o' => o.1 ≤ o'.1
  /-- A row stands under its key. -/
  keyed : ∀ o ∈ out, ∀ j, ∀ r ∈ o.2 j, key r = o.1
  /-- The rows of a list are those of its column, each of them once. -/
  column : ∀ j, out.filterMap (fun o => o.2 j) = src j
  /-- No row of the output is without a row of a list. -/
  nonempty : ∀ o ∈ out, ∃ j, (o.2 j).isSome
  /-- The row with a number under a key has the rows with that number under the key. -/
  paired : ∀ k j i, cell (out.filter (·.1 = k)) i j = ((src j).filter (key · = k))[i]?

/-! ### There is at most one -/

section Unique

variable {key} {src : ι → List R} {out out' : List (JoinRow ι R K)}

/-- The rows under a key are determined by the lists. -/
theorem IsJoin.filter_eq (h : IsJoin key src out) (h' : IsJoin key src out') (k : K) :
    out.filter (·.1 = k) = out'.filter (·.1 = k) := by
  have hcell : ∀ i j, cell (out.filter (·.1 = k)) i j = cell (out'.filter (·.1 = k)) i j :=
    fun i j => by rw [h.paired, h'.paired]
  -- a row that only one of them has would be empty
  have hnone : ∀ {A B : List (JoinRow ι R K)}, (∀ o ∈ A, ∃ j, (o.2 j).isSome) →
      (∀ i j, cell A i j = cell B i j) → ∀ i : ℕ, B[i]? = none → A[i]? = none := by
    intro A B hA hAB i hB
    by_contra hne
    obtain ⟨o, ho⟩ := Option.ne_none_iff_exists'.mp hne
    obtain ⟨j, hj⟩ := hA o (List.mem_of_getElem? ho)
    have hij := hAB i j
    rw [cell, cell, ho, hB, Option.bind_some, Option.bind_none] at hij
    rw [hij] at hj
    cases hj
  have hrows : ∀ o ∈ out.filter (·.1 = k), ∃ j, (o.2 j).isSome :=
    fun o ho => h.nonempty o (List.mem_of_mem_filter ho)
  have hrows' : ∀ o ∈ out'.filter (·.1 = k), ∃ j, (o.2 j).isSome :=
    fun o ho => h'.nonempty o (List.mem_of_mem_filter ho)
  refine List.ext_getElem? fun i => ?_
  rcases hi : (out.filter (·.1 = k))[i]? with _ | o
  · exact hi.trans (hnone hrows' (fun i j => (hcell i j).symm) i hi).symm
  · rcases hi' : (out'.filter (·.1 = k))[i]? with _ | o'
    · exact absurd (hnone hrows hcell i hi') (by simp [hi])
    · have hkey : o.1 = k := by
        simpa using List.of_mem_filter (List.mem_of_getElem? hi)
      have hkey' : o'.1 = k := by
        simpa using List.of_mem_filter (List.mem_of_getElem? hi')
      rw [hi, hi']
      congr 1
      refine Prod.ext (hkey.trans hkey'.symm) (funext fun j => ?_)
      have hij := hcell i j
      rwa [cell, cell, hi, hi', Option.bind_some, Option.bind_some] at hij

/-- Rows under keys that do not go down are determined by the rows under each key. -/
theorem eq_of_filter_eq (hout : out.Pairwise fun o o' => o.1 ≤ o'.1)
    (hout' : out'.Pairwise fun o o' => o.1 ≤ o'.1)
    (h : ∀ k, out.filter (·.1 = k) = out'.filter (·.1 = k)) : out = out' := by
  have hmem : ∀ {A B : List (JoinRow ι R K)}, (∀ k, A.filter (·.1 = k) = B.filter (·.1 = k)) →
      ∀ o ∈ A, o ∈ B := by
    intro A B hAB o ho
    have ho' : o ∈ A.filter (·.1 = o.1) := List.mem_filter.mpr ⟨ho, by simp⟩
    rw [hAB] at ho'
    exact List.mem_of_mem_filter ho'
  induction out generalizing out' with
  | nil =>
    cases out' with
    | nil => rfl
    | cons o' out' => exact absurd (hmem (fun k => (h k).symm) o' List.mem_cons_self) (by simp)
  | cons o out ih =>
    cases out' with
    | nil => exact absurd (hmem h o List.mem_cons_self) (by simp)
    | cons o' out' =>
      obtain ⟨hle, htail⟩ := List.pairwise_cons.mp hout
      obtain ⟨hle', htail'⟩ := List.pairwise_cons.mp hout'
      -- each of the first rows is in the other list, so their keys are the same
      have hkey : o.1 = o'.1 := by
        refine le_antisymm ?_ ?_
        · rcases List.mem_cons.mp (hmem (fun k => (h k).symm) o' List.mem_cons_self) with heq | hin
          · exact heq ▸ le_rfl
          · exact hle o' hin
        · rcases List.mem_cons.mp (hmem h o List.mem_cons_self) with heq | hin
          · exact heq ▸ le_rfl
          · exact hle' o hin
      have hhead := h o.1
      rw [List.filter_cons_of_pos (by simp), List.filter_cons_of_pos (by simp [hkey])] at hhead
      obtain rfl : o = o' := (List.cons.inj hhead).1
      congr 1
      refine ih htail htail' fun k => ?_
      have hk := h k
      by_cases hok : o.1 = k
      · rw [List.filter_cons_of_pos (by simp [hok]), List.filter_cons_of_pos (by simp [hok])] at hk
        exact (List.cons.inj hk).2
      · rwa [List.filter_cons_of_neg (by simp [hok]), List.filter_cons_of_neg (by simp [hok])] at hk

/-- **There is at most one join.** -/
theorem IsJoin.unique (h : IsJoin key src out) (h' : IsJoin key src out') : out = out' :=
  eq_of_filter_eq h.sorted h'.sorted (h.filter_eq h')

end Unique

/-! ### The merge -/

/-- The row that a list begins with, if it has the key. -/
def taken (k : K) (rows : List R) : Option R := rows.head?.filter (key · = k)

/-- What is left of a list when that row has been taken. -/
def remaining (k : K) (rows : List R) : List R := if (taken key k rows).isSome then rows.tail else rows

/-- The key that a list begins with; an empty list begins with what is above all keys. -/
def headKey (rows : List R) : WithTop K := rows.head?.elim ⊤ fun r => ((key r : K) : WithTop K)

variable [Fintype ι]

/-- The least key that the lists begin with. -/
def leastKey (src : ι → List R) : WithTop K := Finset.univ.inf fun j => headKey key (src j)

/-- At most `n` rows of the merge. -/
def mergeJoinN : ℕ → (ι → List R) → List (JoinRow ι R K)
  | 0, _ => []
  | n + 1, src =>
    match leastKey key src with
    | none => []
    | some k =>
      (k, fun j => taken key k (src j)) :: mergeJoinN n fun j => remaining key k (src j)

/-- Taking the rows of the least key, as long as there are any. -/
def mergeJoin (src : ι → List R) : List (JoinRow ι R K) :=
  mergeJoinN key (∑ j, (src j).length) src

section Merge

variable {key} {src : ι → List R}

omit [LinearOrder K] in
@[simp] theorem headKey_nil : headKey key ([] : List R) = ⊤ := rfl

omit [LinearOrder K] in
@[simp] theorem headKey_cons (r : R) (rows : List R) : headKey key (r :: rows) = (key r : K) := rfl

omit [Fintype ι] in
theorem taken_cons (k : K) (r : R) (rows : List R) :
    taken key k (r :: rows) = if key r = k then some r else none := by
  simp [taken, Option.filter]

omit [Fintype ι] in
theorem remaining_cons (k : K) (r : R) (rows : List R) :
    remaining key k (r :: rows) = if key r = k then rows else r :: rows := by
  unfold remaining
  rw [taken_cons]
  split <;> rfl

omit [Fintype ι] in
@[simp] theorem taken_nil (k : K) : taken key k ([] : List R) = none := rfl

omit [Fintype ι] in
@[simp] theorem remaining_nil (k : K) : remaining key k ([] : List R) = [] := rfl

variable (key) in
/-- The row that is taken and what is left are the list. -/
theorem taken_append_remaining (k : K) (rows : List R) :
    (taken key k rows).toList ++ remaining key k rows = rows := by
  cases rows with
  | nil => rfl
  | cons r rows =>
    rw [taken_cons, remaining_cons]
    split <;> rfl

theorem length_remaining_le (k : K) (rows : List R) :
    (remaining key k rows).length ≤ rows.length := by
  conv_rhs => rw [← taken_append_remaining key k rows]
  rw [List.length_append]
  exact Nat.le_add_left _ _

/-- No list has anything if there is no least key. -/
theorem eq_nil_of_leastKey_eq_top (h : leastKey key src = ⊤) (j : ι) : src j = [] := by
  have hj : headKey key (src j) = ⊤ := (Finset.inf_eq_top_iff _ _).mp h j (Finset.mem_univ j)
  cases hrows : src j with
  | nil => rfl
  | cons r rows =>
    rw [hrows, headKey_cons] at hj
    exact absurd hj (WithTop.coe_ne_top)

/-- The least key is one that a list begins with. -/
theorem exists_headKey_eq {k : K} (h : leastKey key src = k) : ∃ j, headKey key (src j) = k := by
  have hne : (Finset.univ : Finset ι).Nonempty := by
    by_contra hempty
    rw [Finset.not_nonempty_iff_eq_empty] at hempty
    rw [leastKey, hempty, Finset.inf_empty] at h
    exact absurd h.symm WithTop.coe_ne_top
  obtain ⟨j, -, hj⟩ := Finset.exists_mem_eq_inf _ hne fun j => headKey key (src j)
  exact ⟨j, hj.symm.trans h⟩

theorem le_headKey {k : K} (h : leastKey key src = k) (j : ι) : (k : WithTop K) ≤ headKey key (src j) :=
  h ▸ Finset.inf_le (Finset.mem_univ j)

/-- Taking the rows of the least key makes the lists shorter. -/
theorem sum_length_remaining_lt {k : K} (h : leastKey key src = k) :
    ∑ j, (remaining key k (src j)).length < ∑ j, (src j).length := by
  obtain ⟨j, hj⟩ := exists_headKey_eq h
  refine Finset.sum_lt_sum (fun j _ => length_remaining_le k (src j)) ⟨j, Finset.mem_univ j, ?_⟩
  cases hrows : src j with
  | nil =>
    rw [hrows, headKey_nil] at hj
    exact absurd hj.symm WithTop.coe_ne_top
  | cons r rows =>
    rw [hrows, headKey_cons, WithTop.coe_inj] at hj
    rw [remaining_cons, if_pos hj]
    exact Nat.lt_succ_self _

/-- The merge does not have more rows than the lists. -/
theorem mergeJoinN_of_le {n : ℕ} (h : ∑ j, (src j).length ≤ n) :
    mergeJoinN key n src = mergeJoin key src := by
  -- two numbers of rounds that are both large enough give the same rows
  have hboth : ∀ (n m : ℕ) (src : ι → List R), ∑ j, (src j).length ≤ n → ∑ j, (src j).length ≤ m →
      mergeJoinN key n src = mergeJoinN key m src := by
    intro n
    induction n with
    | zero =>
      intro m src hn hm
      cases m with
      | zero => rfl
      | succ m =>
        rw [mergeJoinN, mergeJoinN]
        split
        · rfl
        · next k hk => exact absurd (sum_length_remaining_lt hk) (by omega)
    | succ n ih =>
      intro m src hn hm
      cases m with
      | zero =>
        rw [mergeJoinN, mergeJoinN]
        split
        · rfl
        · next k hk => exact absurd (sum_length_remaining_lt hk) (by omega)
      | succ m =>
        rw [mergeJoinN, mergeJoinN]
        split
        · rfl
        · next k hk =>
          have hlt := sum_length_remaining_lt hk
          rw [ih m _ (by omega) (by omega)]
  exact hboth n _ src h le_rfl

theorem mergeJoin_of_top (h : leastKey key src = ⊤) : mergeJoin key src = [] := by
  rw [← mergeJoinN_of_le (Nat.le_succ _), mergeJoinN]
  split
  · rfl
  · next k hk => exact absurd (hk.symm.trans h) WithTop.coe_ne_top

theorem mergeJoin_of_coe {k : K} (h : leastKey key src = k) :
    mergeJoin key src = (k, fun j => taken key k (src j)) ::
      mergeJoin key fun j => remaining key k (src j) := by
  rw [← mergeJoinN_of_le (Nat.le_succ _), mergeJoinN]
  split
  · next hnone => exact absurd (h.symm.trans hnone) WithTop.coe_ne_top
  · next k' hk' =>
    obtain rfl : k' = k := WithTop.coe_inj.mp (hk'.symm.trans h)
    rw [mergeJoinN_of_le (sum_length_remaining_lt h).le]

/-- Induction on the rows of the merge. -/
theorem mergeJoin_induction {motive : (ι → List R) → List (JoinRow ι R K) → Prop}
    (nil : ∀ src, (∀ j, src j = []) → motive src [])
    (cons : ∀ src k, leastKey key src = (k : K) →
      motive (fun j => remaining key k (src j)) (mergeJoin key fun j => remaining key k (src j)) →
      motive src ((k, fun j => taken key k (src j)) ::
        mergeJoin key fun j => remaining key k (src j)))
    (src : ι → List R) : motive src (mergeJoin key src) := by
  induction hn : ∑ j, (src j).length using Nat.strong_induction_on generalizing src with
  | _ n ih =>
    rcases htop : leastKey key src with _ | k
    · rw [mergeJoin_of_top htop]
      exact nil src (eq_nil_of_leastKey_eq_top htop)
    · rw [mergeJoin_of_coe htop]
      exact cons src k htop (ih _ (hn ▸ sum_length_remaining_lt htop) _ rfl)

omit [Fintype ι] in
/-- What is taken from a list, with the rest of it, is the list. -/
theorem filterMap_cons_taken {k : K} {out : List (JoinRow ι R K)} {j : ι}
    (h : out.filterMap (fun o => o.2 j) = remaining key k (src j)) :
    ((k, fun j => taken key k (src j)) :: out : List (JoinRow ι R K)).filterMap (fun o => o.2 j) =
      src j := by
  conv_rhs => rw [← taken_append_remaining key k (src j)]
  rw [List.filterMap_cons, h]
  dsimp only
  cases taken key k (src j) <;> rfl

/-- The rows of a list are in its column, whatever the order of their keys. -/
theorem filterMap_mergeJoin (src : ι → List R) (j : ι) :
    (mergeJoin key src).filterMap (fun o => o.2 j) = src j := by
  refine mergeJoin_induction (motive := fun src out => out.filterMap (fun o => o.2 j) = src j)
    (fun src hnil => (hnil j).symm) (fun src k _ ih => ?_) src
  exact filterMap_cons_taken ih

/-! ### The merge is the join -/

/-- The keys of a list do not go down. -/
def KeysSorted (key : R → K) (rows : List R) : Prop := rows.Pairwise fun r r' => key r ≤ key r'

omit [Fintype ι] in
theorem keysSorted_remaining {rows : List R} (h : KeysSorted key rows) (k : K) :
    KeysSorted key (remaining key k rows) := by
  unfold remaining
  split
  · exact h.tail
  · exact h

/-- No key is less than the one that a list begins with. -/
theorem KeysSorted.le_key {rows : List R} (h : KeysSorted key rows) {k : K}
    (hk : (k : WithTop K) ≤ headKey key rows) : ∀ r ∈ rows, k ≤ key r := by
  intro r hr
  cases rows with
  | nil => cases hr
  | cons r' rows =>
    rw [headKey_cons, WithTop.coe_le_coe] at hk
    rcases List.mem_cons.mp hr with rfl | hr
    · exact hk
    · exact hk.trans ((List.pairwise_cons.mp h).1 r hr)

/-- The rows with the least key of a list are the one that is taken and those that are left. -/
theorem KeysSorted.filter_eq_taken {rows : List R} (h : KeysSorted key rows) {k : K}
    (hk : (k : WithTop K) ≤ headKey key rows) :
    rows.filter (key · = k) =
      (taken key k rows).toList ++ (remaining key k rows).filter (key · = k) ∧
    (taken key k rows = none → rows.filter (key · = k) = []) := by
  have hsplit : rows.filter (key · = k) =
      (taken key k rows).toList ++ (remaining key k rows).filter (key · = k) := by
    conv_lhs => rw [← taken_append_remaining key k rows]
    rw [List.filter_append]
    congr 1
    cases rows with
    | nil => rfl
    | cons r rows =>
      rw [taken_cons]
      split
      · next hr => simp [hr]
      · rfl
  refine ⟨hsplit, fun hnone => ?_⟩
  -- the list begins with a greater key
  cases rows with
  | nil => rfl
  | cons r rows =>
    rw [taken_cons] at hnone
    have hne : key r ≠ k := fun heq => by
      rw [if_pos heq] at hnone
      cases hnone
    rw [headKey_cons, WithTop.coe_le_coe] at hk
    have hlt : k < key r := lt_of_le_of_ne hk hne.symm
    rw [List.filter_eq_nil_iff]
    intro r' hr'
    have hle : key r ≤ key r' := by
      rcases List.mem_cons.mp hr' with rfl | hr'
      · exact le_rfl
      · exact (List.pairwise_cons.mp h).1 r' hr'
    simpa using (hlt.trans_le hle).ne'

theorem filter_remaining_of_ne {k k' : K} (hne : k' ≠ k) (rows : List R) :
    (remaining key k rows).filter (key · = k') = rows.filter (key · = k') := by
  cases rows with
  | nil => rfl
  | cons r rows =>
    rw [remaining_cons]
    split
    · next hr => rw [List.filter_cons_of_neg (by simpa [hr] using hne.symm)]
    · rfl

/-- One more row of the merge. -/
theorem IsJoin.cons {k : K} (hsorted : ∀ j, KeysSorted key (src j)) (hk : leastKey key src = k)
    {out : List (JoinRow ι R K)} (h : IsJoin key (fun j => remaining key k (src j)) out) :
    IsJoin key src ((k, fun j => taken key k (src j)) :: out) := by
  have hle := fun j => (hsorted j).le_key (le_headKey hk j)
  have hcolumn : ∀ j, ((k, fun j => taken key k (src j)) :: out : List (JoinRow ι R K)).filterMap
      (fun o => o.2 j) = src j := fun j => filterMap_cons_taken (h.column j)
  refine ⟨?_, ?_, hcolumn, ?_, ?_⟩
  · -- a later row has a row of a list, which has no smaller key
    refine List.pairwise_cons.mpr ⟨fun o ho => ?_, h.sorted⟩
    obtain ⟨j, hj⟩ := h.nonempty o ho
    obtain ⟨r, hr⟩ := Option.isSome_iff_exists.mp hj
    have hmem : r ∈ src j := by
      rw [← hcolumn j]
      exact List.mem_filterMap.mpr ⟨o, List.mem_cons_of_mem _ ho, hr⟩
    rw [← h.keyed o ho j r hr]
    exact hle j r hmem
  · intro o ho j r hr
    rcases List.mem_cons.mp ho with rfl | ho
    · unfold taken at hr
      obtain ⟨-, hkey⟩ := Option.mem_filter_iff.mp hr
      simpa using hkey
    · exact h.keyed o ho j r hr
  · intro o ho
    rcases List.mem_cons.mp ho with rfl | ho
    · obtain ⟨j, hj⟩ := exists_headKey_eq hk
      refine ⟨j, ?_⟩
      cases hrows : src j with
      | nil =>
        rw [hrows, headKey_nil] at hj
        exact absurd hj.symm WithTop.coe_ne_top
      | cons r rows =>
        rw [hrows, headKey_cons, WithTop.coe_inj] at hj
        simp [hrows, taken_cons, hj]
    · exact h.nonempty o ho
  · intro k' j i
    by_cases hkk : k = k'
    · -- under the least key there is one row more
      subst hkk
      obtain ⟨hsplit, hnil⟩ := (hsorted j).filter_eq_taken (le_headKey hk j)
      rw [List.filter_cons_of_pos (by simp)]
      have hrest := fun i => h.paired k j i
      cases htaken : taken key k (src j) with
      | none =>
        have hnone := hnil htaken
        rw [htaken, Option.toList_none, List.nil_append] at hsplit
        rw [hnone, List.getElem?_nil]
        cases i with
        | zero => simp [cell, htaken]
        | succ i =>
          have hi := hrest i
          rw [← hsplit, hnone, List.getElem?_nil] at hi
          simpa [cell] using hi
      | some r =>
        rw [hsplit, htaken, Option.toList_some, List.singleton_append]
        cases i with
        | zero => simp [cell, htaken]
        | succ i =>
          rw [List.getElem?_cons_succ, ← hrest i]
          simp [cell]
    · rw [List.filter_cons_of_neg (by simpa using hkk), h.paired, filter_remaining_of_ne (Ne.symm hkk)]

/-- **The merge of lists whose keys do not go down is their join.** -/
theorem isJoin_mergeJoin (hsorted : ∀ j, KeysSorted key (src j)) :
    IsJoin key src (mergeJoin key src) := by
  refine mergeJoin_induction (motive := fun src out =>
    (∀ j, KeysSorted key (src j)) → IsJoin key src out) ?_ ?_ src hsorted
  · -- nothing is the join of nothing
    intro src hnil _
    refine ⟨.nil, ?_, fun j => (hnil j).symm, ?_, fun k j i => ?_⟩
    · simp
    · simp
    · simp [cell, hnil j]
  · intro src k hk ih hsorted
    exact (ih fun j => keysSorted_remaining (hsorted j) k).cons hsorted hk

end Merge

/-! ### Lists that go together -/

section Pairs

variable {key} {src : ι → List R} {out : List (JoinRow ι R K)}

omit [Fintype ι] in
/-- The rows under some keys are the join of the rows with these keys. -/
theorem IsJoin.filter (h : IsJoin key src out) (keep : K → Bool) :
    IsJoin key (fun j => (src j).filter fun r => keep (key r)) (out.filter fun o => keep o.1) where
  sorted := h.sorted.filter _
  keyed o ho := h.keyed o (List.mem_of_mem_filter ho)
  column j := by
    rw [← h.column j, List.filter_filterMap, List.filterMap_filter]
    refine List.filterMap_congr fun o ho => ?_
    cases hcell : o.2 j with
    | none => exact ite_self _
    | some r =>
      rw [Option.filter_some, h.keyed o ho j r hcell]
  nonempty o ho := h.nonempty o (List.mem_of_mem_filter ho)
  paired k j i := by
    rw [List.filter_filter, List.filter_filter]
    cases hk : keep k with
    | true =>
      -- a key that is kept has all of its rows
      have hout : out.filter (fun o => decide (o.1 = k) && keep o.1) = out.filter (·.1 = k) :=
        List.filter_congr fun o _ => by
          by_cases ho : o.1 = k
          · simp [ho, hk]
          · simp [ho]
      have hsrc : (src j).filter (fun r => decide (key r = k) && keep (key r)) = (src j).filter (key · = k) :=
        List.filter_congr fun r _ => by
          by_cases hr : key r = k
          · simp [hr, hk]
          · simp [hr]
      rw [hout, hsrc, h.paired]
    | false =>
      -- a key that is not kept has none, on either side
      have hout : out.filter (fun o => decide (o.1 = k) && keep o.1) = [] := by
        rw [List.filter_eq_nil_iff]
        rintro o - ho
        rw [Bool.and_eq_true, decide_eq_true_eq] at ho
        rw [ho.1, hk] at ho
        exact absurd ho.2 Bool.false_ne_true
      have hsrc : (src j).filter (fun r => decide (key r = k) && keep (key r)) = [] := by
        rw [List.filter_eq_nil_iff]
        rintro r - hr
        rw [Bool.and_eq_true, decide_eq_true_eq] at hr
        rw [hr.1, hk] at hr
        exact absurd hr.2 Bool.false_ne_true
      rw [hout, hsrc]
      rfl

omit [Fintype ι] in
/-- Two columns whose rows go together make lists that go together. -/
theorem IsJoin.forall₂ {rel : R → R → Prop} (h : IsJoin key src out) {i j : ι}
    (hall : ∀ o ∈ out, Option.Rel rel (o.2 i) (o.2 j)) : List.Forall₂ rel (src i) (src j) := by
  rw [← h.column i, ← h.column j]
  clear h
  induction out with
  | nil => exact .nil
  | cons o out ih =>
    have hrest := ih fun o' ho' => hall o' (List.mem_cons_of_mem _ ho')
    -- the induction is on the rows; one without a cell has none in the other column, either
    have hfirst := hall o List.mem_cons_self
    rw [List.filterMap_cons, List.filterMap_cons]
    cases hi : o.2 i with
    | none =>
      rw [hi] at hfirst
      cases hj : o.2 j with
      | none => exact hrest
      | some r' =>
        rw [hj] at hfirst
        cases hfirst
    | some r =>
      rw [hi] at hfirst
      cases hj : o.2 j with
      | none =>
        rw [hj] at hfirst
        cases hfirst
      | some r' =>
        rw [hj] at hfirst
        cases hfirst with
        | some hrel => exact .cons hrel hrest

/-- **The join of two lists with the same keys** has their rows in pairs. -/
theorem isJoin_pairs {pairs : List (R × R)} (hkeys : ∀ p ∈ pairs, key p.1 = key p.2)
    (hsorted : KeysSorted key (pairs.map Prod.fst)) :
    IsJoin key ![pairs.map Prod.fst, pairs.map Prod.snd]
      (pairs.map fun p => (key p.1, ![some p.1, some p.2])) where
  sorted := by
    unfold KeysSorted at hsorted
    rw [List.pairwise_map] at hsorted ⊢
    exact hsorted
  keyed o ho := by
    obtain ⟨p, hp, rfl⟩ := List.mem_map.mp ho
    refine Fin.forall_fin_two.mpr ⟨fun r hr => ?_, fun r hr => ?_⟩
    · obtain rfl := Option.some.inj hr
      rfl
    · obtain rfl := Option.some.inj hr
      exact (hkeys p hp).symm
  column := by
    refine Fin.forall_fin_two.mpr ⟨?_, ?_⟩
    · rw [List.filterMap_map]
      exact congrFun List.filterMap_eq_map pairs
    · rw [List.filterMap_map]
      exact congrFun List.filterMap_eq_map pairs
  nonempty o ho := by
    obtain ⟨p, -, rfl⟩ := List.mem_map.mp ho
    exact ⟨0, rfl⟩
  paired k := by
    let row (p : R × R) : JoinRow (Fin 2) R K := (key p.1, ![some p.1, some p.2])
    -- the rows under a key are the pairs under it
    have hrows : (pairs.map row).filter (·.1 = k) = (pairs.filter fun p => key p.1 = k).map row :=
      List.filter_map
    have hsnd : (pairs.map Prod.snd).filter (key · = k) =
        (pairs.filter fun p => key p.1 = k).map Prod.snd := by
      rw [List.filter_map]
      exact congrArg _ (List.filter_congr fun p hp => by simp [hkeys p hp])
    refine Fin.forall_fin_two.mpr ⟨fun i => ?_, fun i => ?_⟩
    · change cell ((pairs.map row).filter (·.1 = k)) i 0 = ((pairs.map Prod.fst).filter (key · = k))[i]?
      rw [hrows, cell, List.getElem?_map, List.filter_map, List.getElem?_map]
      change _ = ((pairs.filter fun p => key p.1 = k)[i]?).map Prod.fst
      cases (pairs.filter fun p => key p.1 = k)[i]? <;> rfl
    · change cell ((pairs.map row).filter (·.1 = k)) i 1 = ((pairs.map Prod.snd).filter (key · = k))[i]?
      rw [hrows, cell, List.getElem?_map, hsnd, List.getElem?_map]
      cases (pairs.filter fun p => key p.1 = k)[i]? <;> rfl

end Pairs

end MdbV8.Lib
