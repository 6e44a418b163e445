import MdbV8.Strings.Write

/-!
# Runs of output operations

The printing functions of the module thread one pair `(bufp, lenp)` through calls of `bsnprintf` and
`jsstrPrint`. `OutOp` is one such call, and a run is a list of them, from a buffer of `n` bytes that
nothing has been written to.

`OutBuf.Safe n` is what the callers rely on: the cursor and the bytes left still make up the `n`
bytes, and nothing has been stored behind them. `bsnprintf` keeps it always, and `jsstrPrint` keeps
it when there is a byte left. When there is none, `jsstrPrint` stores a NUL behind the buffer, since
a string buffer starts with one (`OutBuf.jsstrPrint_hi_of_full`).
-/

namespace MdbV8

/-- One output operation. -/
inductive OutOp where
  /-- `bsnprintf` of a formatted text. -/
  | print (text : List UInt8)
  /-- `jsstr_print` of the string at an address. -/
  | string (addr flags : ℕ)
  deriving DecidableEq, Repr

namespace OutOp

variable (t : Target)

/-- The buffer after an operation. -/
def run : OutOp → OutBuf → OutBuf
  | .print text, o => bsnprintf o text
  | .string addr flags, o => (jsstrPrint t addr flags o).2

/-- The buffer after a list of operations. -/
def runAll (ops : List OutOp) (o : OutBuf) : OutBuf := ops.foldl (fun o op => op.run t o) o

/-- The operation prints a string. -/
def isString : OutOp → Bool
  | .print _ => false
  | .string _ _ => true

end OutOp

namespace OutBuf

/-- The cursor and the bytes left make up `n` bytes, nothing has been stored behind them, and no
assertion has failed. -/
structure Safe (n : ℕ) (o : OutBuf) : Prop where
  end_eq : o.bufp + o.len = n
  hi_le : o.mem.hi ≤ n
  no_fault : o.mem.fault = false

theorem safe_fresh (bytes : ℕ → UInt8) (n : ℕ) : (fresh bytes n).Safe n where
  end_eq := Nat.zero_add n
  hi_le := Nat.zero_le n
  no_fault := rfl

variable {n : ℕ} {o : OutBuf}

/-- `bsnprintf` stays inside the buffer. -/
theorem Safe.bsnprintf (h : o.Safe n) (text : List UInt8) : (bsnprintf o text).Safe n := by
  have hend := h.end_eq
  unfold MdbV8.bsnprintf bvsnprintf
  split
  · exact h
  · next hlen =>
    simp only [vsnprintf, if_neg hlen]
    have hi := CharMem.storeList_hi o.mem o.bufp (text.take (o.len - 1) ++ [0])
    have htake : (text.take (o.len - 1) ++ [0]).length ≤ o.len := by
      simp only [List.length_append, List.length_take, List.length_singleton]
      omega
    have := h.hi_le
    exact ⟨by dsimp only; omega, by dsimp only; omega,
      (CharMem.storeList_fault _ _ _).trans h.no_fault⟩

variable (t : Target)

/-- `jsstr_print` stays inside a buffer that has a byte left. -/
theorem Safe.jsstrPrint (h : o.Safe n) (hlen : o.len ≠ 0) (addr flags : ℕ) :
    (jsstrPrint t addr flags o).2.Safe n := by
  obtain ⟨strb, hgrows, hfault, heq⟩ := jsstrPrint_grows t addr flags o
  have hend := h.end_eq
  have hhi : o.toStrbuf.mem.hi = max o.mem.hi (o.bufp + 1) := rfl
  have hcur : o.toStrbuf.curbuf = o.bufp := rfl
  have hsz : o.toStrbuf.curbufsz = o.len := rfl
  rw [heq]
  refine ⟨?_, ?_, hfault.trans h.no_fault⟩
  · have := hgrows.end_eq
    exact show strb.curbuf + strb.curbufsz = n by omega
  · have := hgrows.hi_le
    have := h.hi_le
    exact show strb.mem.hi ≤ n by omega

/-- **A string behind the buffer.** Where no byte is left, `jsstr_print` stores exactly one byte:
the NUL, at the end of the buffer. -/
theorem jsstrPrint_of_full (hlen : o.len = 0) (addr flags : ℕ) :
    (MdbV8.jsstrPrint t addr flags o).2.mem.bytes = Function.update o.mem.bytes o.bufp 0 ∧
      (MdbV8.jsstrPrint t addr flags o).2.mem.hi = max o.mem.hi (o.bufp + 1) := by
  obtain ⟨strb, hgrows, -, heq⟩ := jsstrPrint_grows t addr flags o
  rw [heq]
  exact hgrows.empty hlen

/-- A string cannot be printed safely where no byte is left. -/
theorem Safe.len_ne_zero_of_jsstrPrint (h : o.Safe n) {addr flags : ℕ}
    (h' : (MdbV8.jsstrPrint t addr flags o).2.Safe n) : o.len ≠ 0 := by
  intro hlen
  have hhi := (jsstrPrint_of_full t hlen addr flags).2
  have := h'.hi_le
  have := h.end_eq
  omega

/-- **The step lemma.** From a safe buffer, an operation leaves a safe buffer exactly when it does
not print a string where no byte is left. -/
theorem Safe.run_iff (h : o.Safe n) (op : OutOp) :
    (op.run t o).Safe n ↔ (op.isString = true → o.len ≠ 0) := by
  cases op with
  | print text => exact iff_of_true (h.bsnprintf text) (by simp [OutOp.isString])
  | string addr flags =>
    exact ⟨fun h' _ => h.len_ne_zero_of_jsstrPrint t h', fun hlen => h.jsstrPrint t (hlen rfl) _ _⟩

/-- The state before step `k` of a run. -/
def stateAt (ops : List OutOp) (o : OutBuf) (k : ℕ) : OutBuf := OutOp.runAll t (ops.take k) o

theorem stateAt_succ (ops : List OutOp) (o : OutBuf) {k : ℕ} (hk : k < ops.length) :
    stateAt t ops o (k + 1) = ops[k].run t (stateAt t ops o k) := by
  unfold stateAt OutOp.runAll
  rw [List.take_succ_eq_append_getElem hk, List.foldl_append]
  rfl

/-- **Safety of a run.** In a run that starts with a buffer of `n` bytes, every state is safe exactly
when no string is printed where no byte is left. -/
theorem run_safe_iff (bytes : ℕ → UInt8) (n : ℕ) (ops : List OutOp) :
    (∀ k ≤ ops.length, (stateAt t ops (fresh bytes n) k).Safe n) ↔
      ∀ k (hk : k < ops.length), ops[k].isString = true →
        (stateAt t ops (fresh bytes n) k).len ≠ 0 := by
  constructor
  · intro h k hk
    have hnext := h (k + 1) hk
    rw [stateAt_succ t ops _ hk] at hnext
    exact ((h k hk.le).run_iff t ops[k]).mp hnext
  · intro h k hk
    induction k with
    | zero => exact safe_fresh bytes n
    | succ k ih =>
      rw [stateAt_succ t ops _ hk]
      exact ((ih (Nat.le_of_succ_le hk)).run_iff t ops[k]).mpr (h k hk)

/-- A target with an empty string at `0x1001`. -/
def emptyStringTarget : Target :=
  .ofWords (.sample .lp64) [(0x1000, 0x2001), (0x1008, 0), (0x2010, 0x44)]

/-- A text of one byte fills a buffer of one byte, and the empty string printed after it stores a
NUL at index 1. -/
theorem run_not_safe :
    v8stringLoad emptyStringTarget 0x1001 = some { addr := 0x1001, len := 0, type := 0x44 } ∧
      ¬ ∀ k ≤ 2, (stateAt emptyStringTarget [.print (bytesOf "a"), .string 0x1001 jsstrNone]
        (fresh (fun _ => 0) 1) k).Safe 1 := by
  refine ⟨by decide, fun h => ?_⟩
  have hfull : (MdbV8.bsnprintf (fresh (fun _ => 0) 1) (bytesOf "a")).len = 0 := bsnprintf_len _ _
  exact (h 1 (by omega)).len_ne_zero_of_jsstrPrint emptyStringTarget (h 2 (le_refl _)) hfull

end OutBuf

end MdbV8
