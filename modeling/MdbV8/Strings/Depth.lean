import MdbV8.Strings.Write

/-!
# The depth of a string

The strings that a concatenation refers to are written by a call of `v8stringWriteN` inside another,
and on a corrupt heap they may lead back to the string itself. `NestedCall` is the relation between a
call and a call made by it. The depth of the calls is counted in the low bits of the flags, by two
for each call, and the limit on it is reached before the counter runs into the flags above it
(`depth_callFlags`, `callFlags_div`); so the calls are never nested in each other more than
258 deep (`length_le_of_isChain`).

What a call writes is a list of operations on the buffer, `stringOps`. The message about the depth is
the last of them, if it is there at all, and then the call returns `-1` (`stringOps_maxDepth`).
-/

namespace MdbV8

/-! ### Nested calls -/

/-- The flags of a string as it rewrites them for its parts, without counting the depth. -/
def partFlags (c : Config) (type f : ℕ) : ℕ :=
  clearFlag (if c.strencAscii type then f ||| jsstrIsascii else clearFlag f jsstrIsascii) jsstrQuoted

/-- The flags that a string passes to its parts. -/
def callFlags (c : Config) (type f : ℕ) : ℕ := jsstrBumpdepth (innerFlags c type f)

/-- A call of `v8string_write`, by its string and its flags, and one that it makes. -/
inductive NestedCall (t : Target) : V8String × ℕ → V8String × ℕ → Prop
  | first {strp str1p str2p : V8String} {f : ℕ} : ¬ jsstrMaxdepth < jsstrDepth f →
    t.cfg.strrepSeq strp.type = false → t.cfg.strrepCons strp.type = true →
    v8stringLoad t strp.consP1 = some str1p → v8stringLoad t strp.consP2 = some str2p →
    NestedCall t (strp, f) (str1p, callFlags t.cfg strp.type f)
  | second {strp str1p str2p : V8String} {f : ℕ} : ¬ jsstrMaxdepth < jsstrDepth f →
    t.cfg.strrepSeq strp.type = false → t.cfg.strrepCons strp.type = true →
    v8stringLoad t strp.consP1 = some str1p → v8stringLoad t strp.consP2 = some str2p →
    NestedCall t (strp, f) (str2p, callFlags t.cfg strp.type f)

theorem jsstrBumpdepth_div {f : ℕ} (h : jsstrDepth f < 2 ^ 16 - 1) :
    jsstrBumpdepth f / 2 ^ 16 = f / 2 ^ 16 := by
  rw [jsstrDepth_eq] at h
  rw [jsstrBumpdepth]
  omega

theorem clearFlag_div (f m : ℕ) :
    clearFlag f m / 2 ^ 16 = (f / 2 ^ 16) &&& ((0xffffffff ^^^ m) / 2 ^ 16) :=
  Nat.and_div_two_pow

/-- Counting the depth on the way does not reach the flags. -/
theorem callFlags_div {c : Config} {type f : ℕ} (h : ¬ jsstrMaxdepth < jsstrDepth f) :
    callFlags c type f / 2 ^ 16 = partFlags c type f / 2 ^ 16 := by
  have hmax : jsstrMaxdepth = 512 := rfl
  have hdepth := jsstrDepth_innerFlags c type f (by omega)
  rw [callFlags, jsstrBumpdepth_div (by omega), innerFlags, partFlags]
  have henc : jsstrDepth (if c.strencAscii type then f ||| jsstrIsascii
      else clearFlag f jsstrIsascii) = jsstrDepth f := by
    split
    · exact jsstrDepth_or f (by decide)
    · exact jsstrDepth_clearFlag f (by decide)
  generalize (if c.strencAscii type then f ||| jsstrIsascii else clearFlag f jsstrIsascii) = g at henc
  -- clearing the quotes once more makes no difference
  by_cases hq : (g &&& jsstrQuoted != 0) = true
  · rw [if_pos hq, clearFlag_div, jsstrBumpdepth_div, clearFlag_div, Nat.and_assoc, Nat.and_self]
    rw [jsstrDepth_clearFlag g (by decide), henc]
    omega
  · rw [if_neg hq, clearFlag_div, jsstrBumpdepth_div (by omega), clearFlag_div]

/-- A call counts two. -/
theorem depth_callFlags {c : Config} {type f : ℕ} (h : ¬ jsstrMaxdepth < jsstrDepth f) :
    jsstrDepth (callFlags c type f) = jsstrDepth f + 2 := by
  have hmax : jsstrMaxdepth = 512 := rfl
  have hinner := jsstrDepth_innerFlags c type f (by omega)
  rw [callFlags, jsstrDepth_bump _ (by omega), hinner]

namespace NestedCall

variable {t : Target} {call call' : V8String × ℕ}

theorem not_deep (h : NestedCall t call call') : ¬ jsstrMaxdepth < jsstrDepth call.2 := by
  cases h <;> assumption

theorem flags (h : NestedCall t call call') : call'.2 = callFlags t.cfg call.1.type call.2 := by
  cases h <;> rfl

theorem depth_eq (h : NestedCall t call call') : jsstrDepth call'.2 = jsstrDepth call.2 + 2 := by
  rw [h.flags, depth_callFlags h.not_deep]

end NestedCall

/-- The depth of the last call of a chain. -/
theorem depth_of_isChain {t : Target} {call : V8String × ℕ} {calls : List (V8String × ℕ)}
    (h : List.IsChain (NestedCall t) (call :: calls)) {k : ℕ} (hk : k < (call :: calls).length) :
    jsstrDepth ((call :: calls)[k]).2 = jsstrDepth call.2 + 2 * k := by
  induction calls generalizing call k with
  | nil =>
    obtain rfl : k = 0 := by simpa using hk
    rfl
  | cons call' calls ih =>
    obtain ⟨hcall, hchain⟩ := List.isChain_cons_cons.mp h
    cases k with
    | zero => rfl
    | succ k =>
      rw [List.getElem_cons_succ, ih hchain (by simpa using hk), hcall.depth_eq]
      ring

/-- **Calls are never nested more than 258 deep** in a call whose counter is zero. -/
theorem length_le_of_isChain {t : Target} {call : V8String × ℕ} {calls : List (V8String × ℕ)}
    (hdepth : jsstrDepth call.2 = 0) (h : List.IsChain (NestedCall t) (call :: calls)) :
    (call :: calls).length ≤ 258 := by
  by_contra hlong
  have hmax : jsstrMaxdepth = 512 := rfl
  -- the call before the last one has a counter above the limit
  have hk : 257 + 1 < (call :: calls).length := by omega
  have hnested := List.isChain_iff_getElem.mp h 257 hk
  have hnot := hnested.not_deep
  rw [depth_of_isChain h (Nat.lt_of_succ_lt hk), hdepth] at hnot
  omega

/-! ### What a call writes -/

/-- A message about a string whose parts cannot be written. -/
inductive PartMessage where
  | consPtrs
  | loadParent
  | notSequential
  deriving DecidableEq, Repr

/-- Its text. -/
def PartMessage.text : PartMessage → List UInt8
  | consPtrs => bytesOf "<string (failed to read cons ptrs)>"
  | loadParent => bytesOf "<sliced string (failed to load parent)>"
  | notSequential => bytesOf "<sliced string (parent is not a sequential string)>"

/-- An operation on the buffer: one of the writers, or a message. -/
inductive StringOp where
  | seq (strp : V8String) (v8flags off : ℕ) (len : ℤ)
  | ext (strp : V8String) (v8flags : ℕ)
  | message (what : PartMessage)
  | maxDepth
  deriving DecidableEq, Repr

/-- The operation on the buffer. -/
def StringOp.run (t : Target) (strflags : ℕ) (strb : Strbuf) : StringOp → Strbuf
  | .seq strp v8flags off len => (v8stringWriteSeq t strp strb strflags v8flags off len).2
  | .ext strp v8flags => (v8stringWriteExt t strp strb strflags v8flags).2
  | .message what => mdbv8StrbufSprintf strb what.text
  | .maxDepth => mdbv8StrbufSprintf strb (bytesOf "<maximum depth exceeded>")

/-- What a call does between the quotes, given what the calls for the parts do. -/
def repOps (t : Target) (partOps : V8String → ℕ → ℤ × List StringOp) (strp : V8String) (f : ℕ) :
    ℤ × List StringOp :=
  if t.cfg.strrepSeq strp.type then (0, [.seq strp f 0 (-1)])
  else if t.cfg.strrepCons strp.type then
    match v8stringLoad t strp.consP1, v8stringLoad t strp.consP2 with
    | some str1p, some str2p =>
      let r := partOps str1p (jsstrBumpdepth f)
      if r.1 = 0 then
        let r' := partOps str2p (jsstrBumpdepth f)
        (r'.1, r.2 ++ r'.2)
      else r
    | _, _ => (0, [.message .consPtrs])
  else if t.cfg.strrepExt strp.type then (0, [.ext strp f])
  else
    match v8stringLoad t strp.slicedParent with
    | none => (0, [.message .loadParent])
    | some pstrp =>
      if !t.cfg.strrepSeq pstrp.type then
        (0, [.message .notSequential])
      else (0, [.seq pstrp (jsstrBumpdepth f) strp.slicedOffset (t.cfg.toSigned strp.len)])

/-- What a call does, between the quotes if there are any. -/
def stringOps (t : Target) : ℕ → V8String → ℕ → ℤ × List StringOp
  | 0, _, _ => (-1, [])
  | fuel + 1, strp, f =>
    if jsstrDepth f > jsstrMaxdepth then (-1, [.maxDepth])
    else repOps t (stringOps t fuel) strp (innerFlags t.cfg strp.type f)

/-- The message about the depth is the last thing that is written, if it is written at all, and then
the call returns `-1`. -/
def MaxDepthLast (r : ℤ × List StringOp) : Prop :=
  (r.1 = 0 ∧ StringOp.maxDepth ∉ r.2) ∨
    (r.1 = -1 ∧ ∃ ops, StringOp.maxDepth ∉ ops ∧ r.2 = ops ++ [.maxDepth])

section Ops

variable (t : Target)

theorem repOps_maxDepthLast {partOps : V8String → ℕ → ℤ × List StringOp} {f : ℕ}
    (hpart : ∀ strp, MaxDepthLast (partOps strp (jsstrBumpdepth f))) (strp : V8String) :
    MaxDepthLast (repOps t partOps strp f) := by
  have hone : ∀ op, op ≠ StringOp.maxDepth → MaxDepthLast (0, [op]) := fun op hop =>
    .inl ⟨rfl, fun hmem => hop (List.mem_singleton.mp hmem).symm⟩
  unfold repOps
  split
  · exact hone _ (by simp)
  split
  · split
    · next str1p str2p h1 h2 =>
      dsimp only
      rcases hpart str1p with ⟨hrv, hnot⟩ | ⟨hrv, hlast⟩
      · -- the first part has been written, and the second one decides
        rw [if_pos hrv]
        rcases hpart str2p with ⟨hrv', hnot'⟩ | ⟨hrv', ops, hnot', hops⟩
        · refine .inl ⟨hrv', fun hmem => ?_⟩
          rcases List.mem_append.mp hmem with h | h
          · exact hnot h
          · exact hnot' h
        · refine .inr ⟨hrv', (partOps str1p (jsstrBumpdepth f)).2 ++ ops, fun hmem => ?_, ?_⟩
          · rcases List.mem_append.mp hmem with h | h
            · exact hnot h
            · exact hnot' h
          · dsimp only
            rw [hops, List.append_assoc]
      · rw [if_neg (by rw [hrv]; decide)]
        exact .inr ⟨hrv, hlast⟩
    · exact hone _ (by simp)
  split
  · exact hone _ (by simp)
  split
  · exact hone _ (by simp)
  · split <;> exact hone _ (by simp)

/-- **The message about the depth is written once at most**, and nothing is written after it. -/
theorem stringOps_maxDepth {fuel f : ℕ} (hfuel : EnoughFuel fuel f) (strp : V8String) :
    MaxDepthLast (stringOps t fuel strp f) := by
  induction fuel generalizing f strp with
  | zero => exact absurd hfuel.1 (lt_irrefl 0)
  | succ fuel ih =>
    rw [stringOps]
    by_cases hf : jsstrMaxdepth < jsstrDepth f
    · rw [if_pos hf]
      exact .inr ⟨rfl, [], List.not_mem_nil, rfl⟩
    · rw [if_neg hf]
      exact repOps_maxDepthLast t (fun part => ih (hfuel.inner hf t.cfg) part) strp

/-- Writing by the representation is doing the operations. -/
theorem writeRep_eq_ops {write : V8String → Strbuf → ℕ → ℕ → ℤ × Strbuf}
    {partOps : V8String → ℕ → ℤ × List StringOp} {strp : V8String}
    (hrep : KnownRep t.cfg strp.type) (strb : Strbuf) (strflags f : ℕ)
    (hpart : ∀ addr part, v8stringLoad t addr = some part → ∀ s : Strbuf,
      write part s strflags (jsstrBumpdepth f) =
        ((partOps part (jsstrBumpdepth f)).1,
          (partOps part (jsstrBumpdepth f)).2.foldl (StringOp.run t strflags) s)) :
    writeRep t write strp strb strflags f =
      ((repOps t partOps strp f).1,
        (repOps t partOps strp f).2.foldl (StringOp.run t strflags) strb) := by
  unfold writeRep repOps
  -- a sequential string is one operation
  by_cases hseq : t.cfg.strrepSeq strp.type = true
  · rw [if_pos hseq, if_pos hseq]
    exact Prod.ext_iff.mpr ⟨(v8stringWriteSeq_appends t _ _ _ _ _ _).1, rfl⟩
  rw [if_neg hseq, if_neg hseq]
  -- a concatenation is two strings, if both of them can be loaded
  by_cases hcons : t.cfg.strrepCons strp.type = true
  · rw [if_pos hcons, if_pos hcons]
    unfold v8stringWriteCons
    cases h1 : v8stringLoad t strp.consP1 with
    | none => rfl
    | some str1p =>
      cases h2 : v8stringLoad t strp.consP2 with
      | none => rfl
      | some str2p =>
        dsimp only
        rw [hpart _ _ h1]
        dsimp only
        split
        · rw [hpart _ _ h2, List.foldl_append]
        · rfl
  rw [if_neg hcons, if_neg hcons]
  -- an external string is one operation
  by_cases hext : t.cfg.strrepExt strp.type = true
  · rw [if_pos hext, if_pos hext]
    exact Prod.ext_iff.mpr ⟨(v8stringWriteExt_appends t _ _ _ _).1, rfl⟩
  rw [if_neg hext, if_neg hext]
  -- what remains is a slice of a parent, which is sequential or not
  have hsliced : t.cfg.strrepSliced strp.type = true := by
    rcases hrep with h | h | h | h
    · exact absurd h hseq
    · exact absurd h hcons
    · exact absurd h hext
    · exact h
  rw [hsliced]
  unfold v8stringWriteSliced
  simp only [Bool.not_true, Bool.false_eq_true, if_false]
  cases v8stringLoad t strp.slicedParent with
  | none => rfl
  | some pstrp =>
    dsimp only
    split
    · rfl
    · exact Prod.ext_iff.mpr ⟨(v8stringWriteSeq_appends t _ _ _ _ _ _).1, rfl⟩

/-- A call without quotes does its operations. -/
theorem v8stringWriteN_eq_ops {fuel f : ℕ} (hfuel : EnoughFuel fuel f) (hq : quotedFlag f = false)
    {strp : V8String} (hrep : KnownRep t.cfg strp.type) (strb : Strbuf) (strflags : ℕ) :
    v8stringWriteN t fuel strp strb strflags f =
      ((stringOps t fuel strp f).1,
        (stringOps t fuel strp f).2.foldl (StringOp.run t strflags) strb) := by
  induction fuel generalizing f strp strb with
  | zero => exact absurd hfuel.1 (lt_irrefl 0)
  | succ fuel ih =>
    by_cases hf : jsstrMaxdepth < jsstrDepth f
    · rw [v8stringWriteN_of_deep t hf, stringOps, if_pos hf]
      rfl
    · have hmax : jsstrMaxdepth = 512 := rfl
      rw [v8stringWriteN_nude t hf hq, stringOps, if_neg hf]
      exact writeRep_eq_ops t hrep strb strflags _ fun addr part hpart s =>
        ih (hfuel.inner hf t.cfg) (quotedFlag_bump_innerFlags _ _ _ (by omega))
          (knownRep_of_load hpart) s

/-- The operations do not depend on the fuel. -/
theorem stringOps_fuel {fuel fuel' f : ℕ} (hfuel : EnoughFuel fuel f) (hfuel' : EnoughFuel fuel' f)
    (strp : V8String) : stringOps t fuel strp f = stringOps t fuel' strp f := by
  induction fuel generalizing fuel' f strp with
  | zero => exact absurd hfuel.1 (lt_irrefl 0)
  | succ fuel ih =>
    cases fuel' with
    | zero => exact absurd hfuel'.1 (lt_irrefl 0)
    | succ fuel' =>
      rw [stringOps, stringOps]
      by_cases hf : jsstrMaxdepth < jsstrDepth f
      · rw [if_pos hf, if_pos hf]
      · have hparts : ∀ part : V8String,
            stringOps t fuel part (jsstrBumpdepth (innerFlags t.cfg strp.type f)) =
              stringOps t fuel' part (jsstrBumpdepth (innerFlags t.cfg strp.type f)) :=
          fun part => ih (hfuel.inner hf t.cfg) (hfuel'.inner hf t.cfg) part
        rw [if_neg hf, if_neg hf]
        unfold repOps
        simp only [hparts]

/-- What is done around the operations of a call: the quotes, with a byte held back for the second
one. -/
def withQuotes (quoted : Bool) (strflags : ℕ) (body : Strbuf → Strbuf) (strb : Strbuf) : Strbuf :=
  if quoted then
    mdbv8StrbufAppendc (mdbv8StrbufReserve t.cfg.bits
      (body (mdbv8StrbufReserve t.cfg.bits (mdbv8StrbufAppendc strb 34 strflags) 1)) (-1)) 34 strflags
  else body strb

/-- A call that is not too deep does its operations, with or without quotes around them. -/
theorem v8stringWriteN_eq_withQuotes {fuel f : ℕ} (hfuel : EnoughFuel fuel f)
    (hf : ¬ jsstrMaxdepth < jsstrDepth f) {strp : V8String} (hrep : KnownRep t.cfg strp.type)
    (strb : Strbuf) (strflags : ℕ) :
    v8stringWriteN t fuel strp strb strflags f =
      ((stringOps t fuel strp f).1, withQuotes t (quotedFlag f) strflags
        (fun s => (stringOps t fuel strp f).2.foldl (StringOp.run t strflags) s) strb) := by
  have hmax : jsstrMaxdepth = 512 := rfl
  cases hq : quotedFlag f with
  | false =>
    rw [v8stringWriteN_eq_ops t hfuel hq hrep]
    rfl
  | true =>
    obtain ⟨n, rfl⟩ : ∃ n, fuel = n + 1 := ⟨fuel - 1, by have := hfuel.1; omega⟩
    have hbody := writeRep_eq_ops t hrep
      (mdbv8StrbufReserve t.cfg.bits (mdbv8StrbufAppendc strb 34 strflags) 1) strflags
      (innerFlags t.cfg strp.type f) fun addr part hpart s =>
        v8stringWriteN_eq_ops t (hfuel.inner hf t.cfg)
          (quotedFlag_bump_innerFlags _ _ _ (by omega)) (knownRep_of_load hpart) s strflags
    rw [v8stringWriteN_quoted t hf hq _ _ _ hbody, stringOps, if_neg hf]
    rfl

/-- A call at the start of a chain, with or without quotes. -/
theorem v8stringWriteN_eq {fuel f : ℕ} (hdepth : jsstrDepth f = 0) (hfuel : 258 ≤ fuel)
    {strp : V8String} (hrep : KnownRep t.cfg strp.type) (strb : Strbuf) (strflags : ℕ) :
    v8stringWriteN t fuel strp strb strflags f =
      ((stringOps t 258 strp f).1, withQuotes t (quotedFlag f) strflags
        (fun s => (stringOps t 258 strp f).2.foldl (StringOp.run t strflags) s) strb) := by
  have hmax : jsstrMaxdepth = 512 := rfl
  have henough : ∀ n, 258 ≤ n → EnoughFuel n f := fun n hn => ⟨by omega, by omega⟩
  have hf : ¬ jsstrMaxdepth < jsstrDepth f := by omega
  rw [stringOps_fuel t (henough 258 le_rfl) (henough fuel hfuel)]
  exact v8stringWriteN_eq_withQuotes t (henough fuel hfuel) hf hrep strb strflags

end Ops

/-- What bounds the writing of a string with some flags. -/
structure WriteBounded (t : Target) (strp : V8String) (v8flags : ℕ) : Prop where
  /-- It ends, and 258 calls nested in each other are enough for it. -/
  fuel : ∀ fuel, 258 ≤ fuel → ∀ strb strflags,
    v8stringWriteN t fuel strp strb strflags v8flags = v8stringWrite t strp strb strflags v8flags
  /-- No chain of nested calls is longer. -/
  nested : ∀ calls, List.IsChain (NestedCall t) ((strp, v8flags) :: calls) →
    ((strp, v8flags) :: calls).length ≤ 258
  /-- The counter stays far below the flags, and these are passed on as if it were not there. -/
  counter : ∀ calls, List.IsChain (NestedCall t) ((strp, v8flags) :: calls) →
    ∀ call ∈ (strp, v8flags) :: calls, jsstrDepth call.2 ≤ 514 ∧
      (¬ jsstrMaxdepth < jsstrDepth call.2 →
        jsstrDepth (innerFlags t.cfg call.1.type call.2) = jsstrDepth call.2 + 1 ∧
        jsstrDepth (callFlags t.cfg call.1.type call.2) = jsstrDepth call.2 + 2 ∧
        callFlags t.cfg call.1.type call.2 / 2 ^ 16 =
          partFlags t.cfg call.1.type call.2 / 2 ^ 16) ∧
      ∀ call', NestedCall t call call' → call'.2 = callFlags t.cfg call.1.type call.2
  /-- What is written are the operations of the string, between the quotes. -/
  writes : ∀ strb strflags, v8stringWrite t strp strb strflags v8flags =
    ((stringOps t 258 strp v8flags).1, withQuotes t (quotedFlag v8flags) strflags
      (fun s => (stringOps t 258 strp v8flags).2.foldl (StringOp.run t strflags) s) strb)
  /-- The message about the depth is one of them once at most, and then nothing comes after it. -/
  message : MaxDepthLast (stringOps t 258 strp v8flags)

/-- **Printing a string is safe on any heap**, also where the parts of a string lead back to it. -/
theorem writeBounded {t : Target} {addr : ℕ} {strp : V8String}
    (hload : v8stringLoad t addr = some strp) {v8flags : ℕ} (hdepth : jsstrDepth v8flags = 0) :
    WriteBounded t strp v8flags where
  fuel fuel hfuel strb strflags := by
    have hmax : jsstrMaxdepth = 512 := rfl
    rw [v8stringWrite, v8stringWriteN_eq t hdepth hfuel (knownRep_of_load hload),
      v8stringWriteN_eq t hdepth (by omega) (knownRep_of_load hload)]
  nested _ hchain := length_le_of_isChain hdepth hchain
  counter calls hchain call hcall := by
    have hlen := length_le_of_isChain hdepth hchain
    obtain ⟨k, hk, rfl⟩ := List.getElem_of_mem hcall
    refine ⟨?_, fun hf => ⟨?_, depth_callFlags hf, callFlags_div hf⟩, fun call' h => h.flags⟩
    · rw [depth_of_isChain hchain hk, hdepth]
      omega
    · have hmax : jsstrMaxdepth = 512 := rfl
      exact jsstrDepth_innerFlags _ _ _ (by omega)
  writes strb strflags := by
    have hmax : jsstrMaxdepth = 512 := rfl
    rw [v8stringWrite, v8stringWriteN_eq t hdepth (by omega) (knownRep_of_load hload)]
  message := by
    have hmax : jsstrMaxdepth = 512 := rfl
    exact stringOps_maxDepth t ⟨by omega, by omega⟩ strp

/-- A target with a concatenation of a string with itself at `0x1001`. -/
def cyclicTarget : Target :=
  .ofWords (.sample .lp64)
    [(0x1000, 0x2001), (0x1008, 2 <<< 32), (0x1018, 0x1001), (0x1020, 0x1001), (0x2010, 1)]

theorem writeBounded_cyclic :
    WriteBounded cyclicTarget
      { addr := 0x1001, len := 2, type := 1, consP1 := 0x1001, consP2 := 0x1001 } jsstrQuoted :=
  writeBounded (show v8stringLoad cyclicTarget 0x1001 = some _ by decide) (by decide)

end MdbV8
