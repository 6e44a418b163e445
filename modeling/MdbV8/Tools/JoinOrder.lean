import MdbV8.Tools.JoinStream

/-!
# The join under every schedule

What holds of a `JoinStream` at any time, whatever has happened in whatever order. One step keeps the
invariant (`Inv.step`), and so it holds of every stream that can come about (`inv_of_reachable`).

The invariant says what is missing. The rows that have been pushed, followed by the merge of the rows
that are still to come, are the merge of all rows, so what has been pushed is a prefix of it. In the same
way, the rows of one source that have been pushed, with the errors for it in between, followed by what is
still to come of it, are the rows of the source with an error before each row that is out of order
(`alerts`). As for the flags, at most one call of `kick` is under way at any time, and they tell where
it is.
-/

namespace MdbV8.Tools

open Lib

variable {n : ℕ} {R K : Type} [LinearOrder K] (key : R → K) (ltNull : K → Bool)

/-! ### What has been seen -/

/-- The rows that have been pushed. -/
def outputs (log : List (Event n R K)) : List (JoinRow (Fin n) R K) :=
  log.filterMap fun
    | .pushed datum => datum
    | _ => none

/-- What has been seen of a source: its rows in the output, and the errors for it. -/
def sourceEvents (i : Fin n) (log : List (Event n R K)) : List (Option R) :=
  log.filterMap fun
    | .pushed (some row) => (row.2 i).map some
    | .error j => if j = i then some none else none
    | _ => none

/-- The rows of a source, with an error before each row that is out of order. -/
def alerts : Option K → List R → List (Option R)
  | _, [] => []
  | last, row :: rows =>
    (if JoinStream.joinLt ltNull (key row) last then [none] else []) ++
      some row :: alerts (some (key row)) rows

/-! ### What is still to come -/

/-- The rows of a source that have not been pushed. -/
def Source.pending (src : Source R K) : List R := src.srcNext.toList ++ src.srcStream

/-- What is still to be seen of a source. The error for the next row has been seen. -/
def Source.pendingAlerts (src : Source R K) : List (Option R) :=
  match src.srcNext with
  | none => alerts key ltNull src.srcLastJoin src.srcStream
  | some row => some row :: alerts key ltNull (some (key row)) src.srcStream

/-! ### The invariant -/

/-- Where a call of `kick` is, if there is one, and what the flags are then. -/
def CallsOk (s : JoinStream n R K) : Prop :=
  match s.calls with
  | [] => s.jsWorking = false
  | [.loop i blocked] =>
    s.jsWaiting = false ∧ s.jsWorking = false ∧
      (blocked = false → ∀ j : Fin n, (j : ℕ) < i →
        (s.jsSources j).srcNext.isSome ∨ (s.jsSources j).srcDone = true)
  | [.push _] => s.jsWaiting = false ∧ s.jsWorking = true
  | _ => False

/-- The invariant of a source. -/
structure SourceOk (i : Fin n) (rows : List R) (log : List (Event n R K)) (src : Source R K) :
    Prop where
  nextJoin : src.srcNextJoin = src.srcNext.map key
  done : src.srcDone = true → src.srcStream = []
  ended : src.srcDone = true → .ended i ∈ log
  seen : sourceEvents i log ++ src.pendingAlerts key ltNull = alerts key ltNull none rows

/-- Wherever `null` has been pushed, the sources have ended, and all of their rows have been pushed. -/
def Finished (rows : Fin n → List R) (log : List (Event n R K)) : Prop :=
  ∀ l₁ l₂, log = l₁ ++ .pushed none :: l₂ →
    (∀ i, .ended i ∈ l₁) ∧ outputs l₁ = mergeJoin key rows

/-- The invariant of a stream. -/
structure Inv (rows : Fin n → List R) (s : JoinStream n R K) : Prop where
  notFailed : s.failed = false
  callsOk : CallsOk s
  sourcesOk : ∀ i, SourceOk key ltNull i (rows i) s.log (s.jsSources i)
  merged : outputs s.log ++ mergeJoin key (fun i => (s.jsSources i).pending) = mergeJoin key rows
  finished : Finished key rows s.log

section Steps

variable {key ltNull} {rows : Fin n → List R} {s : JoinStream n R K}

omit [LinearOrder K] in
@[simp] theorem outputs_append (l₁ l₂ : List (Event n R K)) :
    outputs (l₁ ++ l₂) = outputs l₁ ++ outputs l₂ := List.filterMap_append

omit [LinearOrder K] in
@[simp] theorem sourceEvents_append (i : Fin n) (l₁ l₂ : List (Event n R K)) :
    sourceEvents i (l₁ ++ l₂) = sourceEvents i l₁ ++ sourceEvents i l₂ := List.filterMap_append

/-- One event more. -/
theorem finished_concat {log : List (Event n R K)} (h : Finished key rows log) {e : Event n R K}
    (he : e = .pushed none → (∀ i, .ended i ∈ log) ∧ outputs log = mergeJoin key rows) :
    Finished key rows (log ++ [e]) := by
  intro l₁ l₂ hlog
  rcases List.eq_nil_or_concat l₂ with rfl | ⟨l₂, e', rfl⟩
  · -- the event is the last one
    obtain ⟨rfl, hlast⟩ := List.append_inj' hlog rfl
    exact he (List.cons.inj hlast).1
  · rw [List.concat_eq_append, ← List.cons_append, ← List.append_assoc] at hlog
    exact h l₁ l₂ (List.append_inj' hlog rfl).1

/-- The invariant holds in the beginning. -/
theorem inv_create (rows : Fin n → List R) : Inv key ltNull rows (JoinStream.create rows) where
  notFailed := rfl
  callsOk := rfl
  sourcesOk i :=
    { nextJoin := rfl
      done := by simp [JoinStream.create]
      ended := by simp [JoinStream.create]
      seen := rfl }
  merged := rfl
  finished l₁ l₂ h := by
    have hlen := congrArg List.length h
    simp [JoinStream.create] at hlen

/-- Starting `kick` when nothing is under way. -/
theorem Inv.kick (h : Inv key ltNull rows s) (hcalls : s.calls = []) (hwaiting : s.jsWaiting = false) :
    Inv key ltNull rows s.kick := by
  have hworking : s.jsWorking = false := by
    have hok := h.callsOk
    unfold CallsOk at hok
    rwa [hcalls] at hok
  unfold JoinStream.kick
  rw [if_neg (by simp [hwaiting, hworking])]
  refine ⟨h.notFailed, ?_, h.sourcesOk, h.merged, h.finished⟩
  unfold CallsOk
  dsimp only
  rw [hcalls]
  exact ⟨hwaiting, hworking, fun _ j hj => absurd hj (Nat.not_lt_zero _)⟩

omit [LinearOrder K] in
/-- A stream that waits has no call under way. -/
theorem CallsOk.calls_eq_nil (h : CallsOk s) (hwaiting : s.jsWaiting = true) : s.calls = [] := by
  unfold CallsOk at h
  split at h
  · next hcalls => exact hcalls
  · exact absurd (h.1.symm.trans hwaiting) (by simp)
  · exact absurd (h.1.symm.trans hwaiting) (by simp)
  · exact h.elim

theorem Inv.kickIfWaiting (h : Inv key ltNull rows s) : Inv key ltNull rows s.kickIfWaiting := by
  unfold JoinStream.kickIfWaiting
  by_cases hwaiting : s.jsWaiting = true
  swap
  · rwa [if_pos (by simp [hwaiting])]
  rw [if_neg (by simp [hwaiting])]
  have hcalls := h.callsOk.calls_eq_nil hwaiting
  have hworking : s.jsWorking = false := by
    have hok := h.callsOk
    unfold CallsOk at hok
    rwa [hcalls] at hok
  have hclear : Inv key ltNull rows { s with jsWaiting := false } := by
    refine ⟨h.notFailed, ?_, h.sourcesOk, h.merged, h.finished⟩
    unfold CallsOk
    dsimp only
    rw [hcalls]
    exact hworking
  exact hclear.kick hcalls rfl

theorem Inv.read (h : Inv key ltNull rows s) (hreading : s.isReading = false) :
    Inv key ltNull rows s.read := by
  unfold JoinStream.read
  split
  · exact h
  · next hflags =>
    rw [Bool.or_eq_true, not_or, Bool.not_eq_true, Bool.not_eq_true] at hflags
    obtain ⟨hworking, hwaiting⟩ := hflags
    refine h.kick ?_ hwaiting
    -- neither the loop nor `push` is under way
    have hok := h.callsOk
    unfold CallsOk at hok
    unfold JoinStream.isReading at hreading
    split at hok
    · next hcalls => exact hcalls
    · next hcalls =>
      rw [hcalls] at hreading
      cases hreading
    · exact absurd (hok.2.symm.trans hworking) (by simp)
    · exact hok.elim

theorem Inv.sourceEnded (h : Inv key ltNull rows s) {i : Fin n}
    (hend : (s.jsSources i).srcStream = []) : Inv key ltNull rows (s.sourceEnded i) := by
  refine Inv.kickIfWaiting ?_
  -- no other source changes
  have hother : ∀ j, (Function.update s.jsSources i { s.jsSources i with srcDone := true } j).pending =
      (s.jsSources j).pending := by
    intro j
    by_cases hj : j = i
    · subst hj
      rw [Function.update_self]
      rfl
    · rw [Function.update_of_ne hj]
  refine ⟨h.notFailed, ?_, fun j => ?_, ?_, finished_concat h.finished fun he => by cases he⟩
  · -- a source that ends does not block
    have hok := h.callsOk
    unfold CallsOk at hok ⊢
    dsimp only
    split at hok
    · exact hok
    · refine ⟨hok.1, hok.2.1, fun hblocked j hj => ?_⟩
      by_cases hji : j = i
      · subst hji
        rw [Function.update_self]
        exact .inr rfl
      · rw [Function.update_of_ne hji]
        exact hok.2.2 hblocked j hj
    · exact hok
    · exact hok.elim
  · have hj := h.sourcesOk j
    -- the end of a source is not one of the rows that have been seen
    have hseen : sourceEvents j (s.log ++ [.ended i]) = sourceEvents j s.log := by
      rw [sourceEvents_append]
      exact List.append_nil _
    by_cases hji : j = i
    · subst hji
      dsimp only
      rw [Function.update_self]
      refine ⟨hj.nextJoin, fun _ => hend, fun _ => by simp, ?_⟩
      rw [hseen]
      exact hj.seen
    · dsimp only
      rw [Function.update_of_ne hji]
      refine ⟨hj.nextJoin, hj.done, fun hdone => List.mem_append_left _ (hj.ended hdone), ?_⟩
      rw [hseen]
      exact hj.seen
  · dsimp only
    rw [funext hother, outputs_append]
    change (outputs s.log ++ []) ++ _ = _
    rw [List.append_nil]
    exact h.merged

omit [LinearOrder K] in
/-- A call of `kick` that is in its loop is the only one. -/
theorem CallsOk.of_loop {i : ℕ} {blocked : Bool} {calls : List (Call n R K)} (h : CallsOk s)
    (hcalls : s.calls = .loop i blocked :: calls) :
    calls = [] ∧ s.jsWaiting = false ∧ s.jsWorking = false ∧
      (blocked = false → ∀ j : Fin n, (j : ℕ) < i →
        (s.jsSources j).srcNext.isSome ∨ (s.jsSources j).srcDone = true) := by
  unfold CallsOk at h
  rw [hcalls] at h
  cases calls with
  | nil => exact ⟨rfl, h⟩
  | cons call calls => exact h.elim

omit [LinearOrder K] in
theorem CallsOk.of_push {datum : Option (JoinRow (Fin n) R K)} {calls : List (Call n R K)}
    (h : CallsOk s) (hcalls : s.calls = .push datum :: calls) :
    calls = [] ∧ s.jsWaiting = false ∧ s.jsWorking = true := by
  unfold CallsOk at h
  rw [hcalls] at h
  cases calls with
  | nil => exact ⟨rfl, h⟩
  | cons call calls => exact h.elim

/-- A row is read from a source. -/
theorem SourceOk.readRow {i : Fin n} {rows : List R} {log : List (Event n R K)} {src : Source R K}
    (h : SourceOk key ltNull i rows log src) (hnext : src.srcNext = none) (hdone : src.srcDone = false)
    {datum : R} {stream : List R} (hstream : src.srcStream = datum :: stream) :
    SourceOk key ltNull i rows
      (if JoinStream.joinLt ltNull (key datum) src.srcLastJoin then log ++ [.error i] else log)
      { src with srcStream := stream, srcNext := some datum, srcNextJoin := some (key datum) } := by
  have hseen := h.seen
  unfold Source.pendingAlerts at hseen
  rw [hnext, hstream] at hseen
  refine ⟨rfl, fun hd => ?_, fun hd => ?_, ?_⟩
  · exact absurd (hdone.symm.trans hd) (by simp)
  · exact absurd (hdone.symm.trans hd) (by simp)
  · dsimp only [alerts] at hseen
    dsimp only [Source.pendingAlerts]
    -- a row that is out of order is replaced by an error
    split
    · next hlt =>
      rw [if_pos hlt] at hseen
      have herror : sourceEvents i [(.error i : Event n R K)] = ([none] : List (Option R)) := by
        simp [sourceEvents]
      rw [sourceEvents_append, herror, List.append_assoc]
      exact hseen
    · next hlt =>
      rwa [if_neg hlt, List.nil_append] at hseen

/-- An error for another source. -/
theorem SourceOk.errorOther {i j : Fin n} (hij : i ≠ j) {rows : List R} {log : List (Event n R K)}
    {src : Source R K} (h : SourceOk key ltNull i rows log src) :
    SourceOk key ltNull i rows (log ++ [.error j]) src := by
  have hevents : sourceEvents i [(.error j : Event n R K)] = ([] : List (Option R)) := by
    simp [sourceEvents, hij.symm]
  refine ⟨h.nextJoin, h.done, fun hd => List.mem_append_left _ (h.ended hd), ?_⟩
  rw [sourceEvents_append, hevents, List.append_nil]
  exact h.seen

omit [LinearOrder K] in
/-- The loop goes on after a source that has its next row, or has ended. -/
theorem callsOk_loop_succ {i : Fin n} {blocked : Bool} (hwaiting : s.jsWaiting = false)
    (hworking : s.jsWorking = false)
    (hready : blocked = false → ∀ j : Fin n, (j : ℕ) ≤ i →
      (s.jsSources j).srcNext.isSome ∨ (s.jsSources j).srcDone = true) :
    CallsOk { s with calls := [.loop (i + 1) blocked] } :=
  ⟨hwaiting, hworking, fun hblocked j hj => hready hblocked j (Nat.lt_succ_iff.mp hj)⟩

/-- Looking at one source keeps the invariant. -/
theorem Inv.loopSource (h : Inv key ltNull rows s) {i : Fin n} {blocked : Bool}
    {calls : List (Call n R K)} (hcalls : s.calls = .loop i blocked :: calls) (available : Bool) :
    Inv key ltNull rows (s.loopSource key ltNull calls i blocked available) := by
  obtain ⟨rfl, hwaiting, hworking, hready⟩ := h.callsOk.of_loop hcalls
  -- the sources before this one are ready, and so is this one, if it says so
  have hupto : ∀ src : Fin n → Source R K, (∀ j, j ≠ i → src j = s.jsSources j) →
      ((src i).srcNext.isSome ∨ (src i).srcDone = true) → blocked = false →
      ∀ j : Fin n, (j : ℕ) ≤ i → (src j).srcNext.isSome ∨ (src j).srcDone = true := by
    intro src hother hi hblocked j hj
    by_cases hji : j = i
    · rwa [hji]
    · rw [hother j hji]
      exact hready hblocked j (lt_of_le_of_ne hj fun heq => hji (Fin.ext heq))
  unfold JoinStream.loopSource
  dsimp only
  by_cases hskip : ((s.jsSources i).srcNext.isSome || (s.jsSources i).srcDone) = true
  · rw [if_pos hskip]
    rw [Bool.or_eq_true] at hskip
    refine ⟨h.notFailed, ?_, h.sourcesOk, h.merged, h.finished⟩
    exact callsOk_loop_succ hwaiting hworking (hupto s.jsSources (fun _ _ => rfl) hskip)
  rw [if_neg hskip]
  rw [Bool.or_eq_true, not_or, Option.not_isSome_iff_eq_none, Bool.not_eq_true] at hskip
  obtain ⟨hnext, hdone⟩ := hskip
  split
  · -- a row is read
    next datum stream hstream =>
    have hrow := (h.sourcesOk i).readRow hnext hdone hstream
    have hpending : ∀ j, (Function.update s.jsSources i { s.jsSources i with
        srcStream := stream, srcNext := some datum, srcNextJoin := some (key datum) } j).pending =
          (s.jsSources j).pending := by
      intro j
      by_cases hji : j = i
      · subst hji
        rw [Function.update_self, Source.pending, Source.pending, hnext, hstream]
        rfl
      · rw [Function.update_of_ne hji]
    split
    · -- it is out of order
      next hlt =>
      rw [if_pos hlt] at hrow
      refine ⟨h.notFailed, hworking, fun j => ?_, ?_,
        finished_concat h.finished fun he => by cases he⟩
      · dsimp only
        by_cases hji : j = i
        · subst hji
          rwa [Function.update_self]
        · rw [Function.update_of_ne hji]
          exact (h.sourcesOk j).errorOther hji
      · dsimp only
        rw [funext hpending, outputs_append]
        change (outputs s.log ++ []) ++ _ = _
        rw [List.append_nil]
        exact h.merged
    · next hlt =>
      rw [if_neg hlt] at hrow
      refine ⟨h.notFailed, ?_, fun j => ?_, ?_, h.finished⟩
      · refine ⟨hwaiting, hworking, fun hblocked j hj => ?_⟩
        refine hupto _ (fun j hji => Function.update_of_ne hji _ _) ?_ hblocked j
          (Nat.lt_succ_iff.mp hj)
        dsimp only
        rw [Function.update_self]
        exact .inl rfl
      · dsimp only
        by_cases hji : j = i
        · subst hji
          rwa [Function.update_self]
        · rw [Function.update_of_ne hji]
          exact h.sourcesOk j
      · dsimp only
        rw [funext hpending]
        exact h.merged
  · -- there is none now, so the loop ends blocked
    refine ⟨h.notFailed, ?_, h.sourcesOk, h.merged, h.finished⟩
    refine callsOk_loop_succ hwaiting hworking fun hblocked => ?_
    rw [hdone] at hblocked
    simp at hblocked

/-! ### The earliest key -/

omit [LinearOrder K] in
/-- A source that is ready begins with the key of its next row, if it has one. -/
theorem SourceOk.headKey_pending [LinearOrder K] {i : Fin n} {rows : List R}
    {log : List (Event n R K)} {src : Source R K} (h : SourceOk key ltNull i rows log src)
    (hready : src.srcNext.isSome ∨ src.srcDone = true) :
    headKey key src.pending = src.srcNextJoin := by
  unfold Source.pending
  rw [h.nextJoin]
  cases hnext : src.srcNext with
  | some row => rfl
  | none =>
    have hdone : src.srcDone = true := by simpa [hnext] using hready
    rw [h.done hdone]
    rfl

/-- The second loop finds the least key. -/
theorem joinkey_eq_leastKey (hsources : ∀ i, SourceOk key ltNull i (rows i) s.log (s.jsSources i))
    (hready : ∀ i, (s.jsSources i).srcNext.isSome ∨ (s.jsSources i).srcDone = true) :
    s.joinkey = leastKey key fun i => (s.jsSources i).pending := by
  have hfold : ∀ (is : List (Fin n)) (acc : WithTop K),
      is.foldl (fun joinkey i =>
        match (s.jsSources i).srcNextJoin with
        | none => joinkey
        | some join =>
          match joinkey with
          | none => some join
          | some earliest => if earliest > join then some join else some earliest) acc =
        (is.map fun i => headKey key (s.jsSources i).pending).foldl (· ⊓ ·) acc := by
    intro is
    induction is with
    | nil => exact fun acc => rfl
    | cons i is ih =>
      intro acc
      rw [List.foldl_cons, List.map_cons, List.foldl_cons, ih,
        (hsources i).headKey_pending (hready i)]
      congr 1
      -- the earlier one of two keys is their minimum
      rcases hjoin : (s.jsSources i).srcNextJoin with _ | join
      · exact (inf_top_eq acc).symm
      · rcases acc with _ | earliest
        · exact (top_inf_eq _).symm
        · by_cases hgt : earliest > join
          · exact (if_pos hgt).trans (inf_eq_right.mpr (WithTop.coe_le_coe.mpr hgt.le)).symm
          · exact (if_neg hgt).trans
              (inf_eq_left.mpr (WithTop.coe_le_coe.mpr (not_lt.mp hgt))).symm
  refine (hfold (List.finRange n) ⊤).trans ?_
  rw [leastKey, Finset.inf_def, Fin.univ_val_map, List.ofFn_eq_map, Multiset.inf,
    Multiset.coe_fold_l]

/-- A source that is ready gives the row that the merge takes, and keeps what the merge leaves. -/
theorem SourceOk.takeRow_pending {i : Fin n} {rows : List R} {log : List (Event n R K)}
    {src : Source R K} (h : SourceOk key ltNull i rows log src)
    (hready : src.srcNext.isSome ∨ src.srcDone = true) (joinkey : K) :
    taken key joinkey src.pending = (if src.srcNextJoin = some joinkey then src.srcNext else none) ∧
      (JoinStream.takeRow joinkey src).pending = remaining key joinkey src.pending := by
  unfold JoinStream.takeRow Source.pending
  rw [h.nextJoin]
  cases hnext : src.srcNext with
  | none =>
    have hdone : src.srcDone = true := by simpa [hnext] using hready
    simp [hnext, h.done hdone]
  | some row =>
    rw [Option.toList_some, List.singleton_append, taken_cons, remaining_cons, Option.map_some]
    by_cases hkey : key row = joinkey
    · simp [hkey]
    · simp [hkey, hnext]

/-- A source after its row has been pushed, if it has one with the key. -/
theorem SourceOk.takeRow {i : Fin n} {rows : List R} {src : Source R K} {joinkey : K}
    (h : SourceOk key ltNull i rows s.log src) (hsrc : s.jsSources i = src) :
    SourceOk key ltNull i rows (s.log ++ [.pushed (some (s.output joinkey))])
      (JoinStream.takeRow joinkey src) := by
  have hevents : sourceEvents i [(.pushed (some (s.output joinkey)) : Event n R K)] =
      (if src.srcNextJoin = some joinkey then src.srcNext.map some else none).toList := by
    by_cases hjoin : src.srcNextJoin = some joinkey
    · cases hnext : src.srcNext with
      | none => simp [sourceEvents, JoinStream.output, hsrc, hjoin, hnext]
      | some row => simp [sourceEvents, JoinStream.output, hsrc, hjoin, hnext]
    · simp [sourceEvents, JoinStream.output, hsrc, hjoin]
  have hseen := h.seen
  unfold JoinStream.takeRow
  split
  · next hjoin =>
    -- the row is among what has been seen now
    rw [if_pos hjoin] at hevents
    rw [h.nextJoin] at hjoin
    obtain ⟨row, hnext, -⟩ := Option.map_eq_some_iff.mp hjoin
    refine ⟨rfl, h.done, fun hd => List.mem_append_left _ (h.ended hd), ?_⟩
    rw [Source.pendingAlerts, hnext] at hseen
    rw [sourceEvents_append, hevents, hnext, List.append_assoc]
    dsimp only [Source.pendingAlerts]
    rw [h.nextJoin, hnext]
    exact hseen
  · next hjoin =>
    rw [if_neg hjoin, Option.toList_none] at hevents
    refine ⟨h.nextJoin, h.done, fun hd => List.mem_append_left _ (h.ended hd), ?_⟩
    rw [sourceEvents_append, hevents, List.append_nil]
    exact hseen

/-- The end of a round keeps the invariant. -/
theorem Inv.finishLoop (h : Inv key ltNull rows s) {i : ℕ} {blocked : Bool} {calls : List (Call n R K)}
    (hcalls : s.calls = .loop i blocked :: calls) (hi : n ≤ i) :
    Inv key ltNull rows (s.finishLoop calls blocked) := by
  obtain ⟨rfl, hwaiting, hworking, hready⟩ := h.callsOk.of_loop hcalls
  unfold JoinStream.finishLoop
  cases blocked with
  | true => exact ⟨h.notFailed, hworking, h.sourcesOk, h.merged, h.finished⟩
  | false =>
    have hready : ∀ i, (s.jsSources i).srcNext.isSome ∨ (s.jsSources i).srcDone = true :=
      fun j => hready rfl j (j.isLt.trans_le hi)
    have hkey := joinkey_eq_leastKey h.sourcesOk hready
    rw [if_neg (by simp)]
    split
    · -- every source is at its end
      next hnone =>
      have hnil := eq_nil_of_leastKey_eq_top (hkey.symm.trans hnone)
      have hdone : ∀ i, (s.jsSources i).srcDone = true := by
        intro i
        refine (hready i).resolve_left fun hsome => ?_
        obtain ⟨row, hrow⟩ := Option.isSome_iff_exists.mp hsome
        have hpending := hnil i
        simp [Source.pending, hrow] at hpending
      have hall : outputs s.log = mergeJoin key rows := by
        rw [← h.merged, mergeJoin_of_top (hkey.symm.trans hnone), List.append_nil]
      rw [if_pos hdone]
      refine ⟨h.notFailed, ⟨hwaiting, rfl⟩, fun i => ?_, ?_, ?_⟩
      · have hsrc := h.sourcesOk i
        refine ⟨hsrc.nextJoin, hsrc.done, fun hd => List.mem_append_left _ (hsrc.ended hd), ?_⟩
        rw [sourceEvents_append]
        change (sourceEvents i s.log ++ []) ++ _ = _
        rw [List.append_nil]
        exact hsrc.seen
      · rw [outputs_append]
        change (outputs s.log ++ []) ++ _ = _
        rw [List.append_nil]
        exact h.merged
      · exact finished_concat h.finished fun _ => ⟨fun i => (h.sourcesOk i).ended (hdone i), hall⟩
    · -- the rows of the least key are pushed
      next joinkey hsome =>
      have hleast := hkey.symm.trans hsome
      have htake := fun i => (h.sourcesOk i).takeRow_pending (hready i) joinkey
      refine ⟨h.notFailed, ⟨hwaiting, rfl⟩, fun i => (h.sourcesOk i).takeRow rfl, ?_,
        finished_concat h.finished fun he => by cases he⟩
      have hrow : s.output joinkey =
          (joinkey, fun i => taken key joinkey (s.jsSources i).pending) :=
        Prod.ext rfl (funext fun i => (htake i).1.symm)
      have hmerged := h.merged
      rw [mergeJoin_of_coe hleast] at hmerged
      dsimp only
      rw [outputs_append, funext fun i => (htake i).2, ← hmerged, ← hrow, List.append_assoc]
      rfl

/-- Coming back from `push` keeps the invariant. -/
theorem Inv.pushReturns (h : Inv key ltNull rows s) {datum : Option (JoinRow (Fin n) R K)}
    {calls : List (Call n R K)} (hcalls : s.calls = .push datum :: calls) (keepgoing : Bool) :
    Inv key ltNull rows (s.pushReturns calls datum keepgoing) := by
  obtain ⟨rfl, hwaiting, -⟩ := h.callsOk.of_push hcalls
  have hidle : Inv key ltNull rows { s with jsWorking := false, calls := [] } :=
    ⟨h.notFailed, rfl, h.sourcesOk, h.merged, h.finished⟩
  unfold JoinStream.pushReturns
  cases datum with
  | none => exact hidle
  | some row =>
    dsimp only
    split
    · exact hidle.kick rfl hwaiting
    · exact hidle

/-- **One step keeps the invariant.** -/
theorem Inv.step (h : Inv key ltNull rows s) {a : Action n} {s' : JoinStream n R K}
    (hstep : s.step key ltNull a = some s') : Inv key ltNull rows s' := by
  -- a step is made by a source, by the reader or by whoever takes the rows
  cases a with
  | readable i =>
    obtain rfl := Option.some.inj hstep
    exact h.kickIfWaiting
  | ended i =>
    dsimp only [JoinStream.step] at hstep
    split at hstep
    · next hend =>
      rw [Bool.and_eq_true, List.isEmpty_iff] at hend
      obtain rfl := Option.some.inj hstep
      exact h.sourceEnded hend.1
    · cases hstep
  | read =>
    dsimp only [JoinStream.step] at hstep
    split at hstep
    · cases hstep
    · next hreading =>
      obtain rfl := Option.some.inj hstep
      exact h.read (Bool.eq_false_iff.mpr hreading)
  | run answer =>
    -- the calls that are waiting are made one after the other
    dsimp only [JoinStream.step] at hstep
    split at hstep
    · cases hstep
    · next i blocked calls hcalls =>
      split at hstep
      · next hi =>
        obtain rfl := Option.some.inj hstep
        exact h.loopSource (i := ⟨i, hi⟩) hcalls answer
      · next hi =>
        obtain rfl := Option.some.inj hstep
        exact h.finishLoop hcalls (not_lt.mp hi)
    · next datum calls hcalls =>
      obtain rfl := Option.some.inj hstep
      exact h.pushReturns hcalls answer

/-- The invariant holds of whatever can have become of a stream. -/
theorem inv_of_reachable (h : JoinStream.Reachable key ltNull rows s) : Inv key ltNull rows s := by
  induction h with
  | refl => exact inv_create rows
  | tail _ hstep ih =>
    obtain ⟨a, ha⟩ := hstep
    exact ih.step ha

end Steps

/-! ### What a stream guarantees -/

/-- The rows of a source that have been pushed. -/
def pushedRows (i : Fin n) (log : List (Event n R K)) : List R :=
  (outputs log).filterMap fun row => row.2 i

/-- **What a `JoinStream` guarantees**, of everything that has been seen of it so far. -/
structure Joins (rows : Fin n → List R) (s : JoinStream n R K) : Prop where
  /-- `js_waiting` and `js_working` were `false` whenever `kick` started, and its other assertion has
  not failed either. -/
  noneFailed : s.failed = false
  /-- What has been pushed is a prefix of the join of the sources, if they are sorted. There is one such
  join. -/
  pushedJoin : (∀ i, KeysSorted key (rows i)) →
    ∃ out, IsJoin key rows out ∧ (∀ out', IsJoin key rows out' → out' = out) ∧ outputs s.log <+: out
  /-- What has been pushed in the column of a source are its first rows. -/
  pushedColumn : ∀ i, pushedRows i s.log <+: rows i
  /-- When `null` was pushed, every source had ended, and all of its rows had been pushed. -/
  pushedNull : ∀ l₁ l₂, s.log = l₁ ++ .pushed none :: l₂ →
    ∀ i, .ended i ∈ l₁ ∧ pushedRows i l₁ = rows i
  /-- When a row was pushed that is out of order, there had been an error for it, after the row before
  it had been pushed. -/
  misSort : ∀ i before row row' after, rows i = before ++ row :: row' :: after → key row' < key row →
    ∀ l₁ l₂ out, s.log = l₁ ++ .pushed (some out) :: l₂ → out.2 i = some row' →
      pushedRows i l₁ = before ++ [row] →
        ∃ l₃ l₄, l₁ = l₃ ++ .error i :: l₄ ∧ pushedRows i l₃ = before ++ [row]

section Guarantees

variable {key ltNull} {rows : Fin n → List R} {s : JoinStream n R K}

omit [LinearOrder K] in
/-- The rows among what has been seen of a source. -/
theorem reduceOption_sourceEvents (i : Fin n) (log : List (Event n R K)) :
    (sourceEvents i log).reduceOption = pushedRows i log := by
  rw [List.reduceOption, sourceEvents, pushedRows, outputs, List.filterMap_filterMap,
    List.filterMap_filterMap]
  refine List.filterMap_congr fun e _ => ?_
  rcases e with (_ | row) | j | j
  · rfl
  · cases hrow : row.2 i <;> simp [hrow]
  · by_cases hj : j = i <;> simp [hj]
  · rfl

/-- The rows of a source are what it has without the errors. -/
theorem reduceOption_alerts (last : Option K) (rows : List R) :
    (alerts key ltNull last rows).reduceOption = rows := by
  induction rows generalizing last with
  | nil => rfl
  | cons row rows ih =>
    rw [alerts, List.reduceOption_append, List.reduceOption_cons_of_some, ih]
    split <;> rfl

/-- What is to be seen of a source after one of its rows. -/
theorem alerts_append_cons (last : Option K) (before : List R) (row : R) (after : List R) :
    alerts key ltNull last (before ++ row :: after) =
      alerts key ltNull last (before ++ [row]) ++ alerts key ltNull (some (key row)) after := by
  induction before generalizing last with
  | nil => simp [alerts]
  | cons first before ih =>
    rw [List.cons_append, alerts, List.cons_append, alerts, ih, List.append_assoc, List.cons_append]

/-- Two beginnings of a list that end in a row are the same if they have the same rows. -/
theorem eq_of_reduceOption_eq {α : Type*} {l l₁ l₂ : List (Option α)} {a b : α}
    (h₁ : l₁ ++ [some a] <+: l) (h₂ : l₂ ++ [some b] <+: l)
    (h : l₁.reduceOption.length = l₂.reduceOption.length) : l₁ ++ [some a] = l₂ ++ [some b] := by
  -- what the longer one has more would end in a row
  have hle : ∀ {l₁ l₂ : List (Option α)} {a b : α},
      l₁.reduceOption.length = l₂.reduceOption.length → l₁ ++ [some a] <+: l₂ ++ [some b] →
        l₁ ++ [some a] = l₂ ++ [some b] := by
    rintro l₁ l₂ a b h ⟨rest, hrest⟩
    rcases List.eq_nil_or_concat rest with rfl | ⟨rest, c, rfl⟩
    · rwa [List.append_nil] at hrest
    · rw [List.concat_eq_append, ← List.append_assoc] at hrest
      have hl₂ := (List.append_inj' hrest rfl).1
      rw [← hl₂, List.reduceOption_append, List.reduceOption_append, List.length_append,
        List.length_append] at h
      change _ = _ + 1 + _ at h
      omega
  rcases List.prefix_or_prefix_of_prefix h₁ h₂ with hpre | hpre
  · exact hle h hpre
  · exact (hle h.symm hpre).symm

/-- What has been seen of a source is what is to be seen of it first. -/
theorem Inv.sourceEvents_prefix (h : Inv key ltNull rows s) (i : Fin n) {l₁ l₂ : List (Event n R K)}
    (hlog : s.log = l₁ ++ l₂) : sourceEvents i l₁ <+: alerts key ltNull none (rows i) := by
  have hseen := (h.sourcesOk i).seen
  rw [hlog, sourceEvents_append, List.append_assoc] at hseen
  exact ⟨_, hseen⟩

/-- A row that is out of order is pushed after the error for it. -/
theorem Inv.misSort (h : Inv key ltNull rows s) {i : Fin n} {before after : List R} {row row' : R}
    (hrows : rows i = before ++ row :: row' :: after) (hlt : key row' < key row)
    {l₁ l₂ : List (Event n R K)} {out : JoinRow (Fin n) R K}
    (hlog : s.log = l₁ ++ .pushed (some out) :: l₂) (hout : out.2 i = some row')
    (hpushed : pushedRows i l₁ = before ++ [row]) :
    ∃ l₃ l₄, l₁ = l₃ ++ .error i :: l₄ ∧ pushedRows i l₃ = before ++ [row] := by
  -- up to the row, its error included, by the source
  have hsource : (alerts key ltNull none (before ++ [row]) ++ [none]) ++ [some row'] <+:
      alerts key ltNull none (rows i) := by
    have hafter : alerts key ltNull (some (key row)) (row' :: after) =
        none :: some row' :: alerts key ltNull (some (key row')) after := by
      rw [alerts, if_pos (by simpa [JoinStream.joinLt] using hlt)]
      rfl
    rw [hrows, alerts_append_cons none before row (row' :: after), hafter]
    exact ⟨alerts key ltNull (some (key row')) after, by simp⟩
  -- up to the row, by what has been seen
  have hseen : sourceEvents i l₁ ++ [some row'] <+: alerts key ltNull none (rows i) := by
    have hone : sourceEvents i [(.pushed (some out) : Event n R K)] = [some row'] := by
      simp [sourceEvents, hout]
    rw [← hone, ← sourceEvents_append]
    have hlog' : s.log = (l₁ ++ [.pushed (some out)]) ++ l₂ := by
      rw [hlog, List.append_assoc]
      rfl
    exact h.sourceEvents_prefix i hlog'
  have heq := eq_of_reduceOption_eq hseen hsource <| by
    rw [reduceOption_sourceEvents, hpushed, List.reduceOption_append, reduceOption_alerts]
    simp
  have hevents := (List.append_inj' heq rfl).1
  obtain ⟨l₃, l₄, rfl, hl₃, hl₄⟩ := List.filterMap_eq_append_iff.mp hevents
  obtain ⟨l₅, e, l₆, rfl, hl₅, he, -⟩ := List.filterMap_eq_cons_iff.mp hl₄
  have herror : e = .error i := by
    rcases e with (_ | out) | j | j
    · cases he
    · obtain ⟨r, -, hr⟩ := Option.map_eq_some_iff.mp he
      cases hr
    · by_cases hj : j = i
      · rw [hj]
      · simp [hj] at he
    · cases he
  refine ⟨l₃ ++ l₅, l₆, by rw [herror, List.append_assoc], ?_⟩
  rw [← reduceOption_sourceEvents, sourceEvents_append]
  have hnil : sourceEvents i l₅ = [] := List.filterMap_eq_nil_iff.mpr hl₅
  have hfirst : sourceEvents i l₃ = alerts key ltNull none (before ++ [row]) := hl₃
  rw [hnil, hfirst, List.append_nil, reduceOption_alerts]

/-- **A `JoinStream` is a merge join under every schedule.** -/
theorem joinStream_correct (h : JoinStream.Reachable key ltNull rows s) : Joins key rows s := by
  have hinv := inv_of_reachable h
  refine ⟨hinv.notFailed, fun hsorted => ?_, fun i => ?_, fun l₁ l₂ hlog i => ?_,
    fun i before row row' after hrows hlt l₁ l₂ out hlog hout hpushed =>
      hinv.misSort hrows hlt hlog hout hpushed⟩
  · exact ⟨mergeJoin key rows, isJoin_mergeJoin hsorted,
      fun out' hout' => hout'.unique (isJoin_mergeJoin hsorted), ⟨_, hinv.merged⟩⟩
  · have hcolumn : (mergeJoin key rows).filterMap (fun row => row.2 i) = rows i :=
      filterMap_mergeJoin rows i
    rw [← hinv.merged, List.filterMap_append] at hcolumn
    exact ⟨_, hcolumn⟩
  · obtain ⟨hended, hall⟩ := hinv.finished l₁ l₂ hlog
    exact ⟨hended i, by rw [pushedRows, hall, filterMap_mergeJoin]⟩

/-- A schedule for two sources that begins with a source that has nothing to read yet. A row is asked
for while another one is being pushed, and one of the sources ends before the other one. -/
def idSchedule : List (Action 2) :=
  [.read, .run false, .run false, .run false,
    .readable 0, .run true, .run true, .run true, .read, .run true,
    .run true, .run true, .run true, .run true,
    .run false, .run true, .run true, .ended 0,
    .run true, .run true, .run true, .run true,
    .run true, .run false, .run true, .ended 1,
    .run true, .run true, .run true, .run false]

/-- The rows of two sources, by their keys. -/
def idRows : Fin 2 → List (ℕ × ℕ) := ![[(1, 7), (2, 18)], [(2, 35), (3, 12)]]

/-- The join of the two sources, from `create` to the end. -/
def idJoin : Option (JoinStream 2 (ℕ × ℕ) ℕ) :=
  (JoinStream.create idRows).run Prod.fst (fun _ => false) idSchedule

theorem joinStream_correct_idJoin :
    ∃ s, idJoin = some s ∧
      (outputs s.log).map (fun row => (row.1, row.2 0, row.2 1)) =
        [(1, some (1, 7), none), (2, some (2, 18), some (2, 35)), (3, none, some (3, 12))] ∧
      Joins Prod.fst idRows s :=
  ⟨idJoin.get (by decide), by simp, by decide,
    joinStream_correct (JoinStream.reachable_of_run (Option.some_get _).symm)⟩

end Guarantees

end MdbV8.Tools
