import Mathlib

/-!
# Iterations with callbacks

An iteration calls a function for elements one after the other. The function returns an integer, and
anything but zero asks to stop. `runUntil` is the iteration that does as it is asked: it calls the
function for the elements of a list, stops after the first call that does not return zero, and returns
what that call has returned.

`Obeys` is what a caller relies on, whatever the iteration is: it is stated about the values that the
calls have returned, which the function itself writes down (`logged`). A `runUntil` obeys
(`obeys_runUntil`), and so does everything that is one.
-/

namespace MdbV8.Lib

variable {α σ : Type*}

/-- Calling a function for the elements of a list until it does not return zero. What is returned
otherwise is given. -/
def runUntil (func : α → σ → ℤ × σ) (atEnd : ℤ) : List α → σ → ℤ × σ
  | [], s => (atEnd, s)
  | x :: xs, s =>
    let (rv, s) := func x s
    if rv ≠ 0 then (rv, s) else runUntil func atEnd xs s

/-- A function that writes down what it returns. -/
def logged (func : α → σ → ℤ × σ) (x : α) (s : σ × List ℤ) : ℤ × σ × List ℤ :=
  let (rv, s') := func x s.1
  (rv, s', s.2 ++ [rv])

/-- What an iteration may do, by what it returns and the values that the calls have returned: no call
follows one that has not returned zero, and the value of such a call is returned; without one,
anything but zero is returned only if an element is missing of `total`. -/
structure Obeys (total : ℕ) (rv : ℤ) (log : List ℤ) : Prop where
  stops : ∀ r ∈ log.dropLast, r = 0
  returns : ∀ r ∈ log.getLast?, r ≠ 0 → rv = r
  complete : (∀ r ∈ log, r = 0) → rv ≠ 0 → log.length < total

/-- The calls of a `runUntil`, after others that have returned zero. -/
theorem runUntil_logged (func : α → σ → ℤ × σ) (atEnd : ℤ) (xs : List α) (s : σ) (log : List ℤ)
    (hlog : ∀ r ∈ log, r = 0) :
    let r := runUntil (logged func) atEnd xs (s, log)
    (∃ rs rv, rv ≠ 0 ∧ (∀ r ∈ rs, r = 0) ∧ r.2.2 = rs ++ [rv] ∧ r.1 = rv) ∨
      ((∀ rv ∈ r.2.2, rv = 0) ∧ r.2.2.length = log.length + xs.length ∧ r.1 = atEnd) := by
  induction xs generalizing s log with
  | nil => exact .inr ⟨hlog, rfl, rfl⟩
  | cons x xs ih =>
    intro r
    by_cases hrv : (func x s).1 = 0
    · -- this call goes on
      have hr : r = runUntil (logged func) atEnd xs ((func x s).2, log ++ [(func x s).1]) := by
        unfold r
        rw [runUntil]
        exact if_neg (not_not.mpr hrv)
      have hlog' : ∀ r ∈ log ++ [(func x s).1], r = 0 := by
        intro r hr
        rcases List.mem_append.mp hr with h | h
        · exact hlog r h
        · rw [List.mem_singleton.mp h, hrv]
      rw [hr]
      rcases ih (func x s).2 _ hlog' with hstop | ⟨hall, hlen, hend⟩
      · exact .inl hstop
      · refine .inr ⟨hall, ?_, hend⟩
        rw [hlen, List.length_append, List.length_singleton, List.length_cons]
        omega
    · -- this call stops
      have hr : r = ((func x s).1, (func x s).2, log ++ [(func x s).1]) := by
        unfold r
        rw [runUntil]
        exact if_pos hrv
      rw [hr]
      exact .inl ⟨log, (func x s).1, hrv, hlog, rfl, rfl⟩

/-- **Doing as the function asks.** -/
theorem obeys_runUntil (func : α → σ → ℤ × σ) {atEnd : ℤ} {xs : List α} {total : ℕ}
    (htotal : atEnd ≠ 0 → xs.length < total) (s : σ) :
    let r := runUntil (logged func) atEnd xs (s, [])
    Obeys total r.1 r.2.2 := by
  intro r
  rcases runUntil_logged func atEnd xs s [] (by simp) with
    ⟨rs, rv, hrv, hrs, hlog, hret⟩ | ⟨hall, hlen, hret⟩
  · have hlog' : r.2.2 = rs ++ [rv] := hlog
    have hret' : r.1 = rv := hret
    rw [hlog', hret']
    refine ⟨?_, ?_, fun h => absurd (h rv (by simp)) hrv⟩
    · rwa [List.dropLast_concat]
    · intro r hr _
      simpa using hr
  · have hlen' : r.2.2.length = xs.length := by
      rw [show r.2.2.length = _ from hlen, List.length_nil, Nat.zero_add]
    refine ⟨fun rv h => hall rv (List.mem_of_mem_dropLast h), fun rv h hne => ?_, fun _ hne => ?_⟩
    · exact absurd (hall rv (List.mem_of_mem_getLast? h)) hne
    · rw [hlen']
      exact htotal (fun h0 => hne (hret.trans h0))

/-! ### Iterations that are one of these -/

theorem runUntil_append (func : α → σ → ℤ × σ) (atEnd : ℤ) (xs ys : List α) (s : σ) :
    runUntil func atEnd (xs ++ ys) s =
      if (runUntil func 0 xs s).1 ≠ 0 then runUntil func 0 xs s
      else runUntil func atEnd ys (runUntil func 0 xs s).2 := by
  induction xs generalizing s with
  | nil => rfl
  | cons x xs ih =>
    rw [List.cons_append, runUntil, runUntil]
    dsimp only
    by_cases h : (func x s).1 ≠ 0
    · simp only [if_pos h]
    · simp only [if_neg h]
      exact ih (func x s).2

theorem runUntil_singleton (func : α → σ → ℤ × σ) (x : α) (s : σ) :
    runUntil func 0 [x] s = func x s := by
  rw [runUntil]
  dsimp only
  by_cases h : (func x s).1 ≠ 0
  · rw [if_pos h]
  · rw [if_neg h, runUntil, ← not_not.mp h]

/-- What a function writes down does not change what it returns. -/
theorem runUntil_logged_fst (func : α → σ → ℤ × σ) (atEnd : ℤ) (xs : List α) (s : σ)
    (log : List ℤ) :
    (runUntil (logged func) atEnd xs (s, log)).1 = (runUntil func atEnd xs s).1 := by
  induction xs generalizing s log with
  | nil => rfl
  | cons x xs ih =>
    rw [runUntil, runUntil, logged]
    dsimp only
    by_cases h : (func x s).1 ≠ 0
    · rw [if_pos h, if_pos h]
    · rw [if_neg h, if_neg h]
      exact ih (func x s).2 _

/-- An iteration that does, with every function, what `runUntil` does over the same elements, and at
whose end anything but zero is returned only if an element is missing of `total`. -/
def IsRunUntil (iterate : (α → σ → ℤ × σ) → σ → ℤ × σ) (total : ℕ) : Prop :=
  ∃ atEnd xs, (atEnd ≠ 0 → xs.length < total) ∧ ∀ func s, iterate func s = runUntil func atEnd xs s

theorem IsRunUntil.obeys {iterate : (α → σ × List ℤ → ℤ × σ × List ℤ) → σ × List ℤ → ℤ × σ × List ℤ}
    {total : ℕ} (h : IsRunUntil iterate total) (func : α → σ → ℤ × σ) (s : σ) :
    let r := iterate (logged func) (s, [])
    Obeys total r.1 r.2.2 := by
  obtain ⟨atEnd, xs, htotal, heq⟩ := h
  rw [heq]
  exact obeys_runUntil func htotal s

/-! ### Functions that collect -/

/-- A function that collects what comes of the elements, and stops where nothing does. -/
def collecting {β : Type*} (f : α → Option β) (x : α) (out : List β) : ℤ × List β :=
  match f x with
  | some y => (0, out ++ [y])
  | none => (-1, out)

/-- What is collected comes of the first elements, and of all of them if it is not stopped. -/
theorem runUntil_collecting {β : Type*} (f : α → Option β) (atEnd : ℤ) (xs : List α) (out : List β) :
    ∃ done rest, xs = done ++ rest ∧ (∀ x ∈ done, (f x).isSome) ∧
      (runUntil (collecting f) atEnd xs out).2 = out ++ done.filterMap f ∧
      ((rest = [] ∧ (runUntil (collecting f) atEnd xs out).1 = atEnd) ∨
        ((∃ x ∈ rest, f x = none) ∧ (runUntil (collecting f) atEnd xs out).1 = -1)) := by
  induction xs generalizing out with
  | nil => exact ⟨[], [], rfl, by simp, by simp [runUntil], .inl ⟨rfl, rfl⟩⟩
  | cons x xs ih =>
    cases hx : f x with
    | none =>
      -- it is stopped at the first element
      have hstop : runUntil (collecting f) atEnd (x :: xs) out = (-1, out) := by
        rw [runUntil, collecting, hx]
        rfl
      rw [hstop]
      exact ⟨[], x :: xs, rfl, by simp, by simp, .inr ⟨⟨x, List.mem_cons_self, hx⟩, rfl⟩⟩
    | some y =>
      -- the first element is collected, and the induction hypothesis is for the others
      have hgo : runUntil (collecting f) atEnd (x :: xs) out =
          runUntil (collecting f) atEnd xs (out ++ [y]) := by
        rw [runUntil, collecting, hx]
        rfl
      obtain ⟨done, rest, hxs, hdone, hout, hend⟩ := ih (out ++ [y])
      rw [hgo]
      refine ⟨x :: done, rest, by rw [hxs, List.cons_append], ?_, ?_, hend⟩
      · intro z hz
        rcases List.mem_cons.mp hz with rfl | hz
        · rw [hx]
          rfl
        · exact hdone z hz
      · rw [hout, List.filterMap_cons_some hx, List.append_assoc, List.singleton_append]

/-- If something comes of every element, all of it is collected. -/
theorem runUntil_collecting_of_some {β : Type*} {f : α → Option β} {xs : List α}
    (h : ∀ x ∈ xs, (f x).isSome) (atEnd : ℤ) (out : List β) :
    runUntil (collecting f) atEnd xs out = (atEnd, out ++ xs.filterMap f) := by
  obtain ⟨done, rest, rfl, -, hout, ⟨rfl, hrv⟩ | ⟨⟨x, hx, hnone⟩, -⟩⟩ :=
    runUntil_collecting f atEnd xs out
  · rw [List.append_nil] at hout hrv ⊢
    exact Prod.ext hrv hout
  · have hsome := h x (List.mem_append_right _ hx)
    rw [hnone] at hsome
    cases hsome

end MdbV8.Lib
