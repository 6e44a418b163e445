import MdbV8.Lib.MergeJoin

/-!
# The join of row streams

`vstream-join.js`, of the tool that compares what two versions of the module print. A `JoinStream` reads
rows from streams that are sorted by a key and pushes the rows of their join. It is driven from outside:
its sources become readable and end, the framework asks for a row (`_read`), and a push says whether
there is room for more. Any of this may happen while a function of the stream has called outside and has
not come back, so the state has the calls that have not returned.

`step` is one step of a stream, or of something outside. What is assumed of the outside is the contract
of the framework: a source that ends has delivered all of its rows, a source delivers its rows in order
and each of them once, and neither the reading of a source nor a listener for the warning about a row
calls `_read` of the stream that the rows are joined into.

A string that is compared with `null` is converted to a number first, so a stream may take the first row
of a source for one that is out of order. Nothing here depends on that: the comparison is any function
(`ltNull`).
-/

namespace MdbV8.Tools

open Lib

variable {n : ℕ} {R K : Type} [LinearOrder K]

/-- A source of a `JoinStream`. -/
structure Source (R K : Type) where
  /-- The rows that have not been read from `src_stream`. -/
  srcStream : List R
  srcNext : Option R := none
  srcNextJoin : Option K := none
  srcLastJoin : Option K := none
  srcDone : Bool := false

/-- A call of `kick` that has not returned: it is in its first loop, where it has to look at a source
next, or it has called `push`. -/
inductive Call (n : ℕ) (R K : Type) where
  | loop (i : ℕ) (blocked : Bool)
  | push (datum : Option (JoinRow (Fin n) R K))

/-- What can be seen of a stream and its sources. -/
inductive Event (n : ℕ) (R K : Type) where
  | pushed (datum : Option (JoinRow (Fin n) R K))
  | error (i : Fin n)
  | ended (i : Fin n)

/-- `JoinStream`. -/
structure JoinStream (n : ℕ) (R K : Type) where
  jsWaiting : Bool := false
  jsWorking : Bool := false
  jsSources : Fin n → Source R K
  calls : List (Call n R K) := []
  log : List (Event n R K) := []
  /-- An assertion has failed. -/
  failed : Bool := false

/-- Something that happens: outside, or in the code, which gets an answer from outside if it asks. -/
inductive Action (n : ℕ) where
  | readable (i : Fin n)
  | ended (i : Fin n)
  | read
  | run (answer : Bool)

namespace JoinStream

/-- A `JoinStream` of streams with these rows. -/
def create (rows : Fin n → List R) : JoinStream n R K where
  jsSources i := { srcStream := rows i }

/-- The beginning of `kick`, with its assertions. -/
def kick (s : JoinStream n R K) : JoinStream n R K :=
  if s.jsWaiting || s.jsWorking then { s with failed := true }
  else { s with calls := .loop 0 false :: s.calls }

/-- `kickIfWaiting`. -/
def kickIfWaiting (s : JoinStream n R K) : JoinStream n R K :=
  if !s.jsWaiting then s else kick { s with jsWaiting := false }

/-- `_read`. -/
def read (s : JoinStream n R K) : JoinStream n R K :=
  if s.jsWorking || s.jsWaiting then s else kick s

/-- `sourceReadable`. -/
def sourceReadable (s : JoinStream n R K) : JoinStream n R K := kickIfWaiting s

/-- `sourceEnded`. -/
def sourceEnded (s : JoinStream n R K) (i : Fin n) : JoinStream n R K :=
  kickIfWaiting
    { s with
      jsSources := Function.update s.jsSources i { s.jsSources i with srcDone := true }
      log := s.log ++ [.ended i] }

/-- The comparison of a key with the last one of its source, which may be `null`. -/
def joinLt (ltNull : K → Bool) (join : K) : Option K → Bool
  | none => ltNull join
  | some last => decide (join < last)

/-- The first loop of `kick`, for one source. A row is read if there is one now. -/
def loopSource (key : R → K) (ltNull : K → Bool) (s : JoinStream n R K) (calls : List (Call n R K))
    (i : Fin n) (blocked available : Bool) : JoinStream n R K :=
  let src := s.jsSources i
  if src.srcNext.isSome || src.srcDone then { s with calls := .loop (i + 1) blocked :: calls }
  else
    match src.srcStream, available with
    | datum :: srcStream, true =>
      let s := { s with
        jsSources := Function.update s.jsSources i
          { src with srcStream, srcNext := some datum, srcNextJoin := some (key datum) } }
      if joinLt ltNull (key datum) src.srcLastJoin then
        { s with log := s.log ++ [.error i], calls }
      else { s with calls := .loop (i + 1) blocked :: calls }
    | _, _ => { s with calls := .loop (i + 1) (blocked || !src.srcDone) :: calls }

/-- The second loop of `kick`: the earliest key of the rows that are next. -/
def joinkey (s : JoinStream n R K) : Option K :=
  (List.finRange n).foldl (fun joinkey i =>
    match (s.jsSources i).srcNextJoin with
    | none => joinkey
    | some join =>
      match joinkey with
      | none => some join
      | some earliest => if earliest > join then some join else some earliest) none

/-- The third loop of `kick`: the row that is pushed. -/
def output (s : JoinStream n R K) (joinkey : K) : JoinRow (Fin n) R K :=
  (joinkey, fun i =>
    let src := s.jsSources i
    if src.srcNextJoin = some joinkey then src.srcNext else none)

/-- The third loop of `kick`: a source after its row has been taken, if it has one with the key. -/
def takeRow (joinkey : K) (src : Source R K) : Source R K :=
  if src.srcNextJoin = some joinkey then
    { src with srcLastJoin := src.srcNextJoin, srcNextJoin := none, srcNext := none }
  else src

/-- `kick`, after its first loop: up to the call of `push`, if there is one. -/
def finishLoop (s : JoinStream n R K) (calls : List (Call n R K)) (blocked : Bool) :
    JoinStream n R K :=
  if blocked then { s with jsWaiting := true, calls }
  else
    match joinkey s with
    | none =>
      if ∀ i, (s.jsSources i).srcDone then
        { s with jsWorking := true, calls := .push none :: calls, log := s.log ++ [.pushed none] }
      else { s with failed := true }
    | some joinkey =>
      let row := output s joinkey
      { s with
        jsSources := fun i => takeRow joinkey (s.jsSources i)
        jsWorking := true
        calls := .push (some row) :: calls
        log := s.log ++ [.pushed (some row)] }

/-- `kick`, after `push` has returned. -/
def pushReturns (s : JoinStream n R K) (calls : List (Call n R K))
    (datum : Option (JoinRow (Fin n) R K)) (keepgoing : Bool) : JoinStream n R K :=
  let s := { s with jsWorking := false, calls }
  match datum with
  | none => s
  | some _ => if keepgoing then kick s else s

/-- A source is being read. -/
def isReading (s : JoinStream n R K) : Bool :=
  match s.calls with
  | .loop _ _ :: _ => true
  | _ => false

/-- One step, if it is possible. -/
def step (key : R → K) (ltNull : K → Bool) (s : JoinStream n R K) :
    Action n → Option (JoinStream n R K)
  | .readable _ => some (sourceReadable s)
  | .ended i =>
    if (s.jsSources i).srcStream.isEmpty && !(s.jsSources i).srcDone then some (sourceEnded s i)
    else none
  | .read => if isReading s then none else some (read s)
  | .run answer =>
    match s.calls with
    | [] => none
    | .loop i blocked :: calls =>
      if h : i < n then some (loopSource key ltNull s calls ⟨i, h⟩ blocked answer)
      else some (finishLoop s calls blocked)
    | .push datum :: calls => some (pushReturns s calls datum answer)

/-- What can have become of a stream. -/
def Reachable (key : R → K) (ltNull : K → Bool) (rows : Fin n → List R) (s : JoinStream n R K) :
    Prop :=
  Relation.ReflTransGen (fun s s' => ∃ a, step key ltNull s a = some s') (create rows) s

/-- The steps of a schedule, if they are possible. -/
def run (key : R → K) (ltNull : K → Bool) (s : JoinStream n R K) (actions : List (Action n)) :
    Option (JoinStream n R K) :=
  actions.foldlM (step key ltNull) s

theorem reachable_of_run {key : R → K} {ltNull : K → Bool} {rows : Fin n → List R}
    {actions : List (Action n)} {s : JoinStream n R K}
    (h : run key ltNull (create rows) actions = some s) : Reachable key ltNull rows s := by
  have hrun : ∀ (actions : List (Action n)) (s₀ s : JoinStream n R K),
      Reachable key ltNull rows s₀ → run key ltNull s₀ actions = some s →
        Reachable key ltNull rows s := by
    intro actions
    induction actions with
    | nil =>
      intro s₀ s h₀ hs
      obtain rfl := Option.some.inj hs
      exact h₀
    | cons a actions ih =>
      intro s₀ s h₀ hs
      obtain ⟨s₁, hstep, hrest⟩ := Option.bind_eq_some_iff.mp hs
      exact ih s₁ s (h₀.tail ⟨a, hstep⟩) hrest
  exact hrun actions _ s .refl h

end JoinStream

end MdbV8.Tools
