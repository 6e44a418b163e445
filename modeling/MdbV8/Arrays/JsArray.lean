import MdbV8.Arrays.FixedArray

/-!
# JavaScript arrays

`mdb_v8_array.c`: a `JSArray` has a length and a `FixedArray` of elements, which may be longer than
the array. The elements are visited through the `FixedArray`, up to the length of the array.
-/

namespace MdbV8

/-- `v8array_t`. An array of no elements has no `FixedArray`. -/
structure V8Array where
  addr : ℕ
  elements : Option V8FixedArray
  length : ℕ
  deriving DecidableEq, Repr

/-- `v8array_load`. -/
def v8arrayLoad (t : Target) (addr : ℕ) : Option V8Array :=
  let c := t.cfg
  if !c.isHeapobject addr then none
  else
    match t.readTypebyte addr with
    | none => none
    | some type =>
      if !Target.isType type c.typeJsarray then none
      else
        match t.readHeapSmi addr c.offJsarrayLength, t.readHeapPtr addr c.offJsobjectElements with
        | some length, some elements =>
          if length > 0 then
            (v8fixedarrayLoad t elements).map fun arrayp => { addr, elements := some arrayp, length }
          else some { addr, elements := none, length }
        | _, _ => none

/-- `v8array_length`. -/
def v8arrayLength (ap : V8Array) : ℕ := ap.length

section Iter

variable {σ : Type*}

/-- `v8array_iter_one`. The state is `v8ai_rv`, with the state of the callback. -/
def v8arrayIterOne (ap : V8Array) (func : ℕ → ℕ → σ → ℤ × σ) (index value : ℕ) (s : ℤ × σ) :
    ℤ × ℤ × σ :=
  if index ≥ ap.length then (-1, s)
  else
    let (rv, s) := func index value s.2
    (if rv = 0 then 0 else -1, rv, s)

/-- `v8array_iter_elements`. -/
def v8arrayIterElements (t : Target) (ap : V8Array) (func : ℕ → ℕ → σ → ℤ × σ) (s : σ) : ℤ × σ :=
  if v8arrayLength ap = 0 then (0, s)
  else
    match ap.elements with
    | none => (0, s)
    | some arrayp => (v8fixedarrayIterElements t arrayp (v8arrayIterOne ap func) (0, s)).2

/-! ### The elements as a list

Which words are passed to a callback does not depend on the callback, as long as it does not stop the
iteration. -/

/-- Calling a callback for each element of a list, from an index on, until it returns something that
is not zero. -/
def visitWhile (func : ℕ → ℕ → σ → ℤ × σ) : ℕ → List ℕ → σ → ℤ × σ
  | _, [], s => (0, s)
  | index, value :: values, s =>
    let (rv, s) := func index value s
    if rv ≠ 0 then (rv, s) else visitWhile func (index + 1) values s

/-- The words of the pages that `iterPages` reads, and whether all of them can be read. -/
def pagesWords (t : Target) (length : ℕ) : ℕ → ℕ → ℕ → List ℕ × Bool
  | 0, _, _ => ([], false)
  | fuel + 1, index, addr =>
    let curpgsz := min (length - index) maxnpgelts * t.cfg.ptrSize
    match t.mdbVread curpgsz addr with
    | none => ([], false)
    | some buf =>
      let page := Target.wordsOf t.cfg.ptrSize buf
      if index + page.length < length - 1 then
        let (words, ok) := pagesWords t length fuel (index + page.length) (t.cfg.add addr curpgsz)
        (page ++ words, ok)
      else (page, true)

/-- The words that `v8fixedarrayIterElements` passes to a callback. -/
def fixedarrayWords (t : Target) (arrayp : V8FixedArray) : List ℕ × Bool :=
  let length := v8fixedarrayLength arrayp % 2 ^ 32
  if length = 0 then ([], true)
  else pagesWords t length length 0 (t.cfg.add arrayp.addr t.cfg.offFixedarrayData)

/-- The words that `v8arrayIterElements` passes to a callback. -/
def arrayWords (t : Target) (ap : V8Array) : List ℕ :=
  match ap.elements with
  | none => []
  | some arrayp => (fixedarrayWords t arrayp).1.take ap.length

theorem visitWhile_append (func : ℕ → ℕ → σ → ℤ × σ) (index : ℕ) (xs ys : List ℕ) (s : σ) :
    visitWhile func index (xs ++ ys) s =
      if (visitWhile func index xs s).1 ≠ 0 then visitWhile func index xs s
      else visitWhile func (index + xs.length) ys (visitWhile func index xs s).2 := by
  induction xs generalizing index s with
  | nil => rfl
  | cons x xs ih =>
    rw [List.cons_append, visitWhile, visitWhile]
    dsimp only
    by_cases h : (func index x s).1 ≠ 0
    · simp only [if_pos h]
    · simp only [if_neg h]
      rw [ih, List.length_cons, Nat.add_right_comm, Nat.add_assoc]

theorem iterPage_eq_visitWhile (func : ℕ → ℕ → σ → ℤ × σ) (index : ℕ) (page : List ℕ) (s : σ) :
    (iterPage func index page s).1 = (visitWhile func index page s).1 ∧
      (iterPage func index page s).2.2 = (visitWhile func index page s).2 ∧
      ((visitWhile func index page s).1 = 0 → (iterPage func index page s).2.1 = page.length) := by
  induction page generalizing index s with
  | nil => exact ⟨rfl, rfl, fun _ => rfl⟩
  | cons value page ih =>
    rw [iterPage, visitWhile]
    dsimp only
    split
    · next h => exact ⟨rfl, rfl, fun h0 => absurd h0 h⟩
    · obtain ⟨hrv, hs, hlen⟩ := ih (index + 1) (func index value s).2
      exact ⟨hrv, hs, fun h0 => by rw [hlen h0, List.length_cons]⟩

/-- What an iteration returns after the words that can be read, whether these are all or not. -/
def afterWords (ok : Bool) (r : ℤ × σ) : ℤ × σ := (if r.1 ≠ 0 then r.1 else if ok then 0 else -1, r.2)

theorem afterWords_of_ne {ok : Bool} {r : ℤ × σ} (h : r.1 ≠ 0) : afterWords ok r = r := by
  rw [afterWords, if_pos h]

theorem afterWords_true (r : ℤ × σ) : afterWords true r = r := by
  unfold afterWords
  split
  · rfl
  · next h => rw [if_pos rfl, ← not_not.mp h]

/-- The loop over the pages calls the callback until it stops, and fails at a page that cannot be read
if the callback has not stopped before it. -/
theorem iterPages_eq_visitWhile (t : Target) (func : ℕ → ℕ → σ → ℤ × σ) (length fuel index addr : ℕ)
    (s : σ) :
    iterPages t func length fuel index addr s =
      afterWords (pagesWords t length fuel index addr).2
        (visitWhile func index (pagesWords t length fuel index addr).1 s) := by
  induction fuel generalizing index addr s with
  | zero => rfl
  | succ fuel ih =>
    rw [iterPages, pagesWords]
    dsimp only
    cases t.mdbVread (min (length - index) maxnpgelts * t.cfg.ptrSize) addr with
    | none => rfl
    | some buf =>
      dsimp only
      set page := Target.wordsOf t.cfg.ptrSize buf with hpage
      obtain ⟨hrv, hs, hlen⟩ := iterPage_eq_visitWhile func index page s
      by_cases h0 : (visitWhile func index page s).1 = 0
      · rw [hrv, hs, hlen h0]
        by_cases hmore : index + page.length < length - 1
        · rw [if_pos ⟨h0, hmore⟩, if_pos hmore, ih]
          dsimp only
          rw [visitWhile_append, if_neg (not_not.mpr h0)]
        · rw [if_neg (fun h => hmore h.2), if_neg hmore, afterWords_true]
      · -- the callback stops in this page
        have happ : ∀ words, visitWhile func index (page ++ words) s =
            visitWhile func index page s := fun words => by
          rw [visitWhile_append, if_pos h0]
        rw [if_neg (fun h => h0 (hrv ▸ h.1)), hrv, hs]
        split
        · rw [happ, afterWords_of_ne h0]
        · rw [afterWords_of_ne h0]

/-- What an iteration over a FixedArray returns, and what it does with the state of its callback. -/
theorem v8fixedarrayIterElements_pages (t : Target) (arrayp : V8FixedArray)
    (func : ℕ → ℕ → σ → ℤ × σ) (s : σ) :
    v8fixedarrayIterElements t arrayp func s =
      afterWords (fixedarrayWords t arrayp).2 (visitWhile func 0 (fixedarrayWords t arrayp).1 s) := by
  unfold v8fixedarrayIterElements fixedarrayWords
  dsimp only
  split
  · rfl
  · exact iterPages_eq_visitWhile t func _ _ _ _ s

theorem v8fixedarrayIterElements_eq_visitWhile (t : Target) (arrayp : V8FixedArray)
    (func : ℕ → ℕ → σ → ℤ × σ) (s : σ) :
    (v8fixedarrayIterElements t arrayp func s).2 =
      (visitWhile func 0 (fixedarrayWords t arrayp).1 s).2 := by
  rw [v8fixedarrayIterElements_pages]
  rfl

/-- Words are missing if a page could not be read. -/
theorem length_pagesWords_lt {t : Target} {length fuel index addr : ℕ} (hindex : index < length)
    (hok : (pagesWords t length fuel index addr).2 = false) :
    (pagesWords t length fuel index addr).1.length < length - index := by
  induction fuel generalizing index addr with
  | zero =>
    rw [pagesWords, List.length_nil]
    omega
  | succ fuel ih =>
    rw [pagesWords] at hok ⊢
    dsimp only at hok ⊢
    cases hread : t.mdbVread (min (length - index) maxnpgelts * t.cfg.ptrSize) addr with
    | none =>
      rw [List.length_nil]
      omega
    | some buf =>
      rw [hread] at hok
      dsimp only at hok ⊢
      split at hok
      · next hmore =>
        rw [if_pos hmore, List.length_append]
        have := ih (by omega) hok
        omega
      · exact absurd hok (by simp)

theorem length_fixedarrayWords_lt {t : Target} {arrayp : V8FixedArray}
    (hok : (fixedarrayWords t arrayp).2 = false) :
    (fixedarrayWords t arrayp).1.length < v8fixedarrayLength arrayp := by
  unfold fixedarrayWords at hok ⊢
  dsimp only at hok ⊢
  split at hok
  · exact absurd hok (by simp)
  · next h0 =>
    rw [if_neg h0]
    have hlt := length_pagesWords_lt (Nat.pos_of_ne_zero h0) hok
    have hmod := Nat.mod_le (v8fixedarrayLength arrayp) (2 ^ 32)
    omega

/-- The callback sees the elements up to the length of the array, and `v8ai_rv` is what its last call
has returned. -/
theorem visitWhile_iterOne (ap : V8Array) (func : ℕ → ℕ → σ → ℤ × σ) (index : ℕ) (words : List ℕ)
    (s : σ) :
    (visitWhile (v8arrayIterOne ap func) index words (0, s)).2 =
      visitWhile func index (words.take (ap.length - index)) s := by
  induction words generalizing index s with
  | nil => rw [List.take_nil]; rfl
  | cons word words ih =>
    rw [visitWhile]
    by_cases hge : index ≥ ap.length
    · have htake : ap.length - index = 0 := by omega
      rw [htake, List.take_zero]
      simp only [v8arrayIterOne, if_pos hge]
      rfl
    · obtain ⟨k, hk⟩ : ∃ k, ap.length - index = k + 1 := ⟨ap.length - index - 1, by omega⟩
      rw [hk, List.take_succ_cons, visitWhile]
      simp only [v8arrayIterOne, if_neg hge]
      by_cases h0 : (func index word s).1 = 0
      · simp only [h0, if_true, ne_eq, not_true, if_false]
        rw [ih, show ap.length - (index + 1) = k by omega]
      · simp only [h0, if_false, ne_eq, not_false_eq_true, if_true]
        rfl

/-- **The elements of an array** are passed to a callback one after the other, until it stops. -/
theorem v8arrayIterElements_eq_visitWhile (t : Target) (ap : V8Array) (func : ℕ → ℕ → σ → ℤ × σ)
    (s : σ) : v8arrayIterElements t ap func s = visitWhile func 0 (arrayWords t ap) s := by
  unfold v8arrayIterElements arrayWords v8arrayLength
  cases ap.elements with
  | none => split <;> rfl
  | some arrayp =>
    dsimp only
    split
    · next h0 => rw [h0, List.take_zero]; rfl
    · rw [v8fixedarrayIterElements_eq_visitWhile, visitWhile_iterOne, Nat.sub_zero]

/-- A callback that never stops is called for all the words of a list. -/
theorem visitWhile_of_continues {func : ℕ → ℕ → σ → ℤ × σ} (hfunc : Continues func) (index : ℕ)
    (words : List ℕ) (s : σ) : visitWhile func index words s = (0, visit func index words s) := by
  induction words generalizing index s with
  | nil => rfl
  | cons word words ih =>
    rw [visitWhile, visit]
    dsimp only
    rw [if_neg (not_not.mpr (hfunc index word s)), ih]

end Iter

/-! ### Which elements are delivered -/

/-- A callback that also keeps the indexes it has been called for. -/
def recorded {σ : Type*} (func : ℕ → ℕ → σ → ℤ × σ) (index value : ℕ) (s : σ × List ℕ) :
    ℤ × σ × List ℕ :=
  let (rv, s') := func index value s.1
  (rv, s', s.2 ++ [index])

theorem visit_recorded {σ : Type*} (func : ℕ → ℕ → σ → ℤ × σ) (index : ℕ) (words : List ℕ)
    (s : σ × List ℕ) :
    (visit (recorded func) index words s).2 = s.2 ++ List.range' index words.length := by
  induction words generalizing index s with
  | nil => simp [visit]
  | cons word words ih =>
    rw [visit, ih, List.length_cons, List.range'_succ]
    simp [recorded]

/-- `jsarray_print_one`. The output is the list of the lines, as pairs of an index and a value. -/
def jsarrayPrintOne (index value : ℕ) (out : List (ℕ × ℕ)) : ℤ × List (ℕ × ℕ) :=
  (0, out ++ [(index, value)])

/-- `dcmd_jsarray`: whether it succeeds, and what it prints. -/
def dcmdJsarray (t : Target) (addr : ℕ) : Bool × List (ℕ × ℕ) :=
  match v8arrayLoad t addr with
  | none => (false, [])
  | some ap =>
    let (rv, out) := v8arrayIterElements t ap jsarrayPrintOne []
    (rv == 0, out)

/-- What a step of a walker returns to the debugger. -/
inductive WalkStatus where
  | err
  | next
  | done
  deriving DecidableEq, Repr

/-- `walk_jsarray_iter_one`. The state is `jsew_last`, with the state of the callback. -/
def walkJsarrayIterOne {σ : Type*} (walkCallback : ℕ → σ → WalkStatus × σ) (_index value : ℕ)
    (s : WalkStatus × σ) : ℤ × WalkStatus × σ :=
  let (last, s) := walkCallback value s.2
  (if last = .next then 0 else -1, last, s)

/-- `walk_jselement_step`, the only step of the walker. -/
def walkJselementStep {σ : Type*} (t : Target) (ap : V8Array)
    (walkCallback : ℕ → σ → WalkStatus × σ) (s : σ) : WalkStatus × σ :=
  let (rv, last, s) := v8arrayIterElements t ap (walkJsarrayIterOne walkCallback) (.done, s)
  (if rv = 0 then .done else last, s)

/-- The address of page `k` of the elements of a `FixedArray`. -/
def pageAddr (t : Target) (arrayp : V8FixedArray) (k : ℕ) : ℕ :=
  t.cfg.add arrayp.addr (t.cfg.offFixedarrayData + (k * maxnpgelts * t.cfg.ptrSize : ℕ))

/-- Every page with an element of the array is there to be read, and is read: the `FixedArray` is
long enough, and its last element is not alone in a page that the array needs. -/
def PagesReadable (t : Target) (ap : V8Array) : Prop :=
  ap.length = 0 ∨ ∃ arrayp, ap.elements = some arrayp ∧
    ap.length ≤ iteratedCount (arrayp.nelts % 2 ^ 32) ∧
    ∀ k, k * maxnpgelts < ap.length →
      t.mdbVread (min (arrayp.nelts % 2 ^ 32 - k * maxnpgelts) maxnpgelts * t.cfg.ptrSize)
        (pageAddr t arrayp k) ≠ none

/-- The words of the pages reach up to `L` exactly if all the pages before `L` can be read. -/
theorem le_pagesWords_iff (t : Target) {base : ℕ} {length L fuel k : ℕ}
    (hk : k * maxnpgelts < iteratedCount length) (hL : k * maxnpgelts < L)
    (hfuel : length - k * maxnpgelts ≤ fuel) :
    let page := fun k : ℕ => t.cfg.add base (k * maxnpgelts * t.cfg.ptrSize : ℕ)
    L ≤ k * maxnpgelts + (pagesWords t length fuel (k * maxnpgelts) (page k)).1.length ↔
      L ≤ iteratedCount length ∧ ∀ i, k ≤ i → i * maxnpgelts < L →
        t.mdbVread (min (length - i * maxnpgelts) maxnpgelts * t.cfg.ptrSize) (page i) ≠ none := by
  intro page
  have hcount := iteratedCount_le length
  have hmax : maxnpgelts = 1024 := rfl
  induction fuel generalizing k with
  | zero => omega
  | succ fuel ih =>
    obtain ⟨hvisited, hgoes⟩ := page_visited (Nat.mul_mod_left k maxnpgelts) hk
    rw [pagesWords]
    dsimp only
    generalize hcur : min (length - k * maxnpgelts) maxnpgelts = cur at hvisited hgoes
    have hcurle : cur ≤ maxnpgelts := hcur ▸ min_le_right _ _
    cases hread : t.mdbVread (cur * t.cfg.ptrSize) (page k) with
    | none =>
      -- the iteration ends where a page cannot be read
      constructor
      · intro h
        simp at h
        omega
      · intro h
        exact absurd (by rw [hcur, hread]) (h.2 k le_rfl hL)
    | some buf =>
      have hlen : (Target.wordsOf t.cfg.ptrSize buf).length = cur := by
        rw [Target.wordsOf_length, Target.mdbVread_length hread,
          Nat.mul_div_cancel _ t.cfg.model.ptrSize_pos]
      dsimp only
      rw [hlen]
      -- the pages up to `L` when it is not behind this page
      have hthis : L ≤ k * maxnpgelts + cur → ∀ i, k ≤ i → i * maxnpgelts < L →
          t.mdbVread (min (length - i * maxnpgelts) maxnpgelts * t.cfg.ptrSize) (page i) ≠ none := by
        intro hle i hi hiL
        have hlow : i * 1024 < L := hiL
        have hhigh : L ≤ k * 1024 + cur := hle
        obtain rfl : i = k := by omega
        rw [hcur, hread]
        exact Option.some_ne_none _
      by_cases hmore : k * maxnpgelts + cur < length - 1
      · -- the next page is read, and the induction hypothesis is for it
        have hfull : cur = maxnpgelts := by omega
        have hnext : k * maxnpgelts + cur = (k + 1) * maxnpgelts := by rw [hfull, Nat.succ_mul]
        have haddr : t.cfg.add (page k) (cur * t.cfg.ptrSize : ℕ) = page (k + 1) := by
          unfold page
          rw [Config.add_add, ← Nat.cast_add, ← Nat.add_mul, hnext]
        rw [if_pos hmore, haddr, hnext]
        dsimp only
        rw [List.length_append, hlen, ← Nat.add_assoc, hnext]
        by_cases hle : L ≤ (k + 1) * maxnpgelts
        · exact ⟨fun _ => ⟨by omega, hthis (by omega)⟩, fun _ => by omega⟩
        · refine (ih (by rw [← hnext]; exact hgoes.mp hmore) (by omega) (by omega)).trans ?_
          refine and_congr_right fun _ => ⟨fun h i hi hiL => ?_, fun h i hi => h i (by omega)⟩
          rcases Nat.eq_or_lt_of_le hi with rfl | hlt
          · rw [hcur, hread]
            exact Option.some_ne_none _
          · exact h i hlt hiL
      · -- this is the last page
        rw [if_neg hmore]
        dsimp only
        rw [hlen]
        have hend : k * maxnpgelts + cur = iteratedCount length :=
          Nat.le_antisymm hvisited (Nat.not_lt.mp fun h => hmore (hgoes.mpr h))
        rw [hend]
        exact ⟨fun h => ⟨h, hthis (by omega)⟩, And.left⟩

/-- The words of an array are all there exactly if its pages are. -/
theorem length_arrayWords_iff (t : Target) (ap : V8Array) :
    (arrayWords t ap).length = ap.length ↔ PagesReadable t ap := by
  unfold arrayWords PagesReadable
  cases helts : ap.elements with
  | none => simp [eq_comm]
  | some arrayp =>
    simp only [Option.some.injEq, exists_eq_left', List.length_take, min_eq_left_iff]
    -- an array without elements is not read, nor is one without a backing array
    by_cases h0 : ap.length = 0
    · simp [h0]
    · rw [or_iff_right h0]
      unfold fixedarrayWords v8fixedarrayLength
      by_cases hn : arrayp.nelts % 2 ^ 32 = 0
      · rw [if_pos hn, hn]
        have hz : iteratedCount 0 = 0 := rfl
        simp [hz, h0]
      · have hcount : 0 < iteratedCount (arrayp.nelts % 2 ^ 32) := by
          unfold iteratedCount
          split <;> omega
        have hiff := @le_pagesWords_iff t (t.cfg.add arrayp.addr t.cfg.offFixedarrayData)
          (arrayp.nelts % 2 ^ 32) ap.length (arrayp.nelts % 2 ^ 32) 0
          (by rwa [Nat.zero_mul]) (by omega) (by omega)
        simp only [Nat.zero_mul, Nat.cast_zero, Nat.zero_add, Nat.zero_le, true_imp_iff,
          Config.add_add, add_zero] at hiff
        rw [if_neg hn]
        exact hiff

/-- An iteration that returns zero has called its callback once for each index of the array, and
the commands that iterate report success only then. -/
def ReportsDelivery (t : Target) (addr : ℕ) (ap : V8Array) : Prop :=
  (∀ (σ : Type) (func : ℕ → ℕ → σ → ℤ × σ) (s : σ), Continues func →
    let r := v8arrayIterElements t ap (recorded func) (s, [])
    r.1 = 0 → r.2.2 = List.range ap.length) ∧
  ((dcmdJsarray t addr).1 = true → (dcmdJsarray t addr).2.map Prod.fst = List.range ap.length) ∧
  ∀ (σ : Type) (walkCallback : ℕ → σ → WalkStatus × σ) (s : σ),
    (∀ value s, (walkCallback value s).1 = .next) →
    let keep := fun value (s : σ × List ℕ) => ((walkCallback value s.1).1,
      (walkCallback value s.1).2, s.2 ++ [value])
    let r := walkJselementStep t ap keep (s, [])
    r.1 = .done → r.2.2.length = ap.length

theorem visit_jsarrayPrintOne (index : ℕ) (words : List ℕ) (out : List (ℕ × ℕ)) :
    (visit jsarrayPrintOne index words out).map Prod.fst =
      out.map Prod.fst ++ List.range' index words.length := by
  induction words generalizing index out with
  | nil => simp [visit]
  | cons word words ih =>
    rw [visit, ih, List.length_cons, List.range'_succ]
    simp [jsarrayPrintOne]

/-- A walker that is never told to stop calls its callback for every word. -/
theorem visit_walkJsarrayIterOne {σ : Type*} (walkCallback : ℕ → σ → WalkStatus × σ) (index : ℕ)
    (words : List ℕ) (s : WalkStatus × σ × List ℕ) :
    (visit (walkJsarrayIterOne fun value (s : σ × List ℕ) => ((walkCallback value s.1).1,
      (walkCallback value s.1).2, s.2 ++ [value])) index words s).2.2.length =
      s.2.2.length + words.length := by
  induction words generalizing index s with
  | nil => rfl
  | cons word words ih =>
    rw [visit, ih, walkJsarrayIterOne, List.length_cons, List.length_append, List.length_singleton]
    omega

/-- **When the iteration over an array reports what it has delivered.** It never returns anything but
zero to a callback that goes on, so it is right exactly when all the elements can be delivered. -/
theorem reportsDelivery_iff {t : Target} {addr : ℕ} {ap : V8Array}
    (hload : v8arrayLoad t addr = some ap) : ReportsDelivery t addr ap ↔ PagesReadable t ap := by
  have hrec : ∀ {σ : Type} {func : ℕ → ℕ → σ → ℤ × σ}, Continues func →
      Continues (recorded func) := fun hfunc i v s => hfunc i v s.1
  rw [← length_arrayWords_iff]
  constructor
  · rintro ⟨hiter, -, -⟩
    -- a callback that always goes on is told that it has seen everything
    have hunit : Continues fun _ _ (s : Unit) => ((0 : ℤ), s) := fun _ _ _ => rfl
    have hrun := hiter Unit _ () hunit
    rw [v8arrayIterElements_eq_visitWhile, visitWhile_of_continues (hrec hunit)] at hrun
    have hall := hrun rfl
    dsimp only at hall
    rw [visit_recorded] at hall
    simpa using congrArg List.length hall
  · intro hlen
    -- conversely, the three commands visit all the words
    refine ⟨?_, ?_, ?_⟩
    · intro σ func s hfunc r _
      unfold r
      rw [v8arrayIterElements_eq_visitWhile, visitWhile_of_continues (hrec hfunc)]
      dsimp only
      rw [visit_recorded, hlen, List.nil_append, List.range_eq_range']
    · intro _
      have hprint : Continues jsarrayPrintOne := fun _ _ _ => rfl
      unfold dcmdJsarray
      simp only [hload, v8arrayIterElements_eq_visitWhile, visitWhile_of_continues hprint]
      rw [visit_jsarrayPrintOne, hlen, List.range_eq_range']
      rfl
    · intro σ walkCallback s hnext keep r _
      have hwalk : Continues (walkJsarrayIterOne keep) := fun i v s => by
        simp [walkJsarrayIterOne, keep, hnext]
      unfold r walkJselementStep
      rw [v8arrayIterElements_eq_visitWhile, visitWhile_of_continues hwalk]
      dsimp only
      rw [visit_walkJsarrayIterOne, hlen, List.length_nil, Nat.zero_add]

/-- A target with the JSArray of the elements `[5, 7]` at `0x4001`, backed by the FixedArray at
`0x1001`, and an array of three elements with the same backing store at `0x4101`. -/
def shortArrayTarget : Target :=
  .ofWords (.sample .lp64)
    [(0x1000, 0x2001), (0x1008, 2 <<< 32), (0x1010, 5), (0x1018, 7), (0x2010, 0xa3),
      (0x4000, 0x3001), (0x4010, 0x1001), (0x4018, 2 <<< 32), (0x3010, 0xb2),
      (0x4100, 0x3001), (0x4110, 0x1001), (0x4118, 3 <<< 32)]

/-- An array of two elements in a FixedArray of two. -/
theorem reportsDelivery_two :
    ReportsDelivery shortArrayTarget 0x4001 ⟨0x4001, some ⟨0x1001, 2⟩, 2⟩ := by
  refine (reportsDelivery_iff (by decide)).mpr (.inr ⟨⟨0x1001, 2⟩, rfl, by decide, fun k hk => ?_⟩)
  have hmax : maxnpgelts = 1024 := rfl
  obtain rfl : k = 0 := by
    have : k * 1024 < 2 := hk
    omega
  decide

/-- The third element of an array is missing from its backing store, and nothing says so. -/
theorem not_reportsDelivery_short :
    v8arrayLoad shortArrayTarget 0x4101 = some ⟨0x4101, some ⟨0x1001, 2⟩, 3⟩ ∧
      dcmdJsarray shortArrayTarget 0x4101 = (true, [(0, 5), (1, 7)]) ∧
      ¬ ReportsDelivery shortArrayTarget 0x4101 ⟨0x4101, some ⟨0x1001, 2⟩, 3⟩ := by
  refine ⟨by decide, by decide, fun h => ?_⟩
  have hall := h.2.1 (by decide)
  exact absurd hall (by decide)

end MdbV8
