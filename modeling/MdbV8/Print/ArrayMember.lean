import MdbV8.Print.Member
import Mathlib.Data.Nat.Digits.Defs

/-!
# An element of an array as a member

A member path `[d]` prints the element of an array whose index is the number that the digits stand for.
The index is read from the last digit to the first one, with a place that is multiplied by ten
(`indexLoop`): that is the number modulo the size of a word, for any number of digits
(`memberIndex_eq`). It is then compared with the number of words behind the array, and not with the
length of the array. So the command agrees with the iteration over the elements if and only if the index
is one of the array and the iteration reaches it, or if it is none and the number of words is not larger
than what is left of it in a machine word (`printsElement_iff`).
-/

namespace MdbV8

/-! ### The index -/

/-- The loop of `jsobj_print_jsarray_member` over the characters of the index, from the last one to the
first one: `elt` and `place` at its end. -/
def indexLoop (bits : ℕ) : List UInt8 → ℕ → ℕ → Option (ℕ × ℕ)
  | [], elt, place => some (elt, place)
  | p :: ps, elt, place =>
    if p < 48 || p > 57 then none
    else
      indexLoop bits ps ((elt + (p.toNat - 48) * place) % 2 ^ bits) (place * 10 % 2 ^ bits)

/-- The part of `jsobj_print_jsarray_member` that reads the index: the index, and what is behind the
bracket. -/
def memberIndexRead (bits : ℕ) (member : List UInt8) : Option (ℕ × List UInt8) :=
  match member with
  | [] => none
  | b :: bs =>
    if b ≠ 91 then none
    else
      let (index, rest) := bs.span (· != 93)
      if rest = [] then none
      else
        match indexLoop bits index.reverse 0 1 with
        | none => none
        | some (elt, place) => if place = 1 then none else some (elt, rest.tail)

/-- The number that digits stand for, from the digit of the least place on. -/
def placeValue (ps : List UInt8) : ℕ := Nat.ofDigits 10 (ps.map fun p => p.toNat - 48)

theorem placeValue_reverse (digits : List UInt8) : placeValue digits.reverse = indexValue digits := by
  unfold indexValue
  induction digits using List.reverseRecOn with
  | nil => rfl
  | append_singleton digits d ih =>
    rw [List.foldl_append, List.reverse_append, List.reverse_singleton, List.singleton_append,
      placeValue, List.map_cons, Nat.ofDigits_cons]
    change _ + 10 * placeValue digits.reverse = 10 * _ + _
    rw [ih, Nat.add_comm]

/-- **The loop computes the number**, modulo the size of a word, and a power of ten. -/
theorem indexLoop_eq (bits : ℕ) {ps : List UInt8}
    (hps : ∀ p ∈ ps, (p < 48 || p > 57) = false) (elt place : ℕ) :
    indexLoop bits ps (elt % 2 ^ bits) (place % 2 ^ bits) =
      some ((elt + place * placeValue ps) % 2 ^ bits, place * 10 ^ ps.length % 2 ^ bits) := by
  induction ps generalizing elt place with
  | nil => simp [indexLoop, placeValue]
  | cons p ps ih =>
    have helt : (elt % 2 ^ bits + (p.toNat - 48) * (place % 2 ^ bits)) % 2 ^ bits =
        (elt + (p.toNat - 48) * place) % 2 ^ bits := by
      rw [Nat.add_mod, Nat.mod_mod, Nat.mul_mod, Nat.mod_mod, ← Nat.mul_mod, ← Nat.add_mod]
    have hplace : place % 2 ^ bits * 10 % 2 ^ bits = place * 10 % 2 ^ bits := Nat.mod_mul_mod _ _ _
    have hvalue : elt + (p.toNat - 48) * place + place * 10 * placeValue ps =
        elt + place * placeValue (p :: ps) := by
      rw [placeValue, placeValue, List.map_cons, Nat.ofDigits_cons]
      ring
    have hpow : place * 10 * 10 ^ ps.length = place * 10 ^ (p :: ps).length := by
      rw [List.length_cons, Nat.pow_succ, Nat.mul_assoc, Nat.mul_comm 10]
    rw [indexLoop, hps p List.mem_cons_self, if_neg (by simp), helt, hplace,
      ih (fun p hp => hps p (List.mem_cons_of_mem _ hp)), hvalue, hpow]

/-- A character that is not a digit ends the loop. -/
theorem indexLoop_eq_none (bits : ℕ) {ps : List UInt8}
    (hps : (ps.any fun p => p < 48 || p > 57) = true) (elt place : ℕ) :
    indexLoop bits ps elt place = none := by
  induction ps generalizing elt place with
  | nil => exact absurd hps (by simp)
  | cons p ps ih =>
    rw [indexLoop]
    split
    · rfl
    · next hp =>
      rw [List.any_cons, Bool.eq_false_of_not_eq_true hp, Bool.false_or] at hps
      exact ih hps _ _

/-- A power of ten is one in a machine word only if there are no digits. -/
theorem ten_pow_mod_eq_one_iff {bits : ℕ} (hbits : 0 < bits) (n : ℕ) :
    10 ^ n % 2 ^ bits = 1 ↔ n = 0 := by
  constructor
  · intro h
    by_contra hn
    -- it would be odd
    have hdvd : 2 ∣ 2 ^ bits := dvd_pow_self 2 hbits.ne'
    have hodd : 10 ^ n % 2 = 1 := by
      rw [← Nat.mod_mod_of_dvd _ hdvd, h]
    have heven : 2 ∣ 10 ^ n := dvd_pow (by decide) hn
    omega
  · rintro rfl
    rw [Nat.pow_zero]
    exact Nat.mod_eq_of_lt (Nat.one_lt_two_pow hbits.ne')

/-- The index that the loop reads is the one of the model. -/
theorem memberIndex_eq {bits : ℕ} (hbits : 0 < bits) (member : List UInt8) :
    memberIndexRead bits member = memberIndex bits member := by
  unfold memberIndexRead memberIndex
  cases member with
  | nil => rfl
  | cons b bs =>
    dsimp only
    split
    · rfl
    split
    · rfl
    generalize (bs.span (· != 93)).1 = digits
    have hreverse : (digits.reverse.any fun d => d < 48 || d > 57) =
        digits.any fun d => d < 48 || d > 57 := List.any_reverse
    -- a character that is no digit ends the loop, whichever is the first
    cases hany : digits.any fun d => d < 48 || d > 57 with
    | true => rw [indexLoop_eq_none bits (hreverse.trans hany), if_pos rfl]
    | false =>
      have hdigits : ∀ d ∈ digits.reverse, (d < 48 || d > 57) = false := fun d hd =>
        Bool.eq_false_of_not_eq_true
          (List.any_eq_false.mp hany d (List.mem_reverse.mp hd))
      have hloop := indexLoop_eq bits hdigits 0 1
      rw [Nat.zero_mod, Nat.mod_eq_of_lt (Nat.one_lt_two_pow hbits.ne'), Nat.zero_add, Nat.one_mul,
        Nat.one_mul, placeValue_reverse, List.length_reverse] at hloop
      rw [hloop, if_neg (by simp)]
      dsimp only
      -- no digits are an error, which the loop sees by its power of ten
      by_cases hnil : digits = []
      · rw [if_pos hnil, if_pos ((ten_pow_mod_eq_one_iff hbits _).mpr (by rw [hnil]; rfl))]
      · rw [if_neg hnil, if_neg fun h => hnil (List.eq_nil_of_length_eq_zero
          ((ten_pow_mod_eq_one_iff hbits _).mp h))]
        rfl

/-! ### The elements -/

section Elements

variable (t : Target)

/-- A JSArray with the words of the `FixedArray` behind it, all of them read, and not fewer than the
array has elements. -/
structure BackedArray (addr : ℕ) (ap : V8Array) (elts : Target.HeapArray) : Prop where
  klass : valueKlass t (some (.addr addr)) = some "JSArray"
  load : v8arrayLoad t addr = some ap
  backing : backingArray t addr = some elts
  readable : elts.elts.length = elts.len
  capacity : ap.length ≤ elts.len

/-- `v8array_iter_elements` delivers a word for an index. -/
def Delivers (ap : V8Array) (i w : ℕ) : Prop := (i, w) ∈ (v8arrayIterElements t ap jsarrayPrintOne []).2

/-- The member path `[d]`. -/
def elementMember (digits : List UInt8) : List UInt8 := 91 :: digits ++ [93]

/-- **The member of an array is its element**: what the iteration delivers for the index is what is
printed, and where the index is none of the array there is an error, and the command prints that the
member is undefined. -/
structure PrintsElement (fmtY : ℤ → List UInt8) (addr : ℕ) (ap : V8Array) (digits : List UInt8) :
    Prop where
  element : indexValue digits < v8arrayLength ap →
    ∃ w, Delivers t ap (indexValue digits) w ∧
      ∀ (jsop : JsobjPrint) (out : OutBuf), jsop.depth < 2 ^ 64 →
        jsop.member = some (elementMember digits) →
        let r := jsobjPrint t fmtY (bufDevice t) addr jsop out
        r.2.1.found = true ∧
          r.2.2 = (jsobjPrint t fmtY (bufDevice t) w { jsop with member := none } out).2.2
  error : v8arrayLength ap ≤ indexValue digits →
    ∀ (jsop : JsobjPrint) (out : OutBuf), jsop.depth < 2 ^ 64 →
      jsop.member = some (elementMember digits) → jsop.found = false →
      let r := jsobjPrint t fmtY (bufDevice t) addr jsop out
      r.1 = -1 ∧ r.2.1.found = false ∧ r.2.2 = out
  undefined : v8arrayLength ap ≤ indexValue digits →
    ∀ (zalloc : Allocator) (before : UInt8) (st st' : JsprintState) (more : Bool) (text : List UInt8),
      st.jsop.depth < 2 ^ 64 → st.jsop.member = some (elementMember digits) →
      st.jsop.found = false → jsprintOne t fmtY zalloc before addr st more = some (text, st') →
      text = (if st.jsop.baseaddr ≠ 0 then fmtP st.jsop.baseaddr ++ bytesOf ": " else []) ++
        bytesOf "undefined" ++ (if more then [32] else [])

/-- An index is the last one behind an array, and alone in its page. -/
def LoneIndex (capacity i : ℕ) : Prop := i ≠ 0 ∧ i % maxnpgelts = 0 ∧ i + 1 = capacity

/-- The index of an array of `n` elements is one for which the two functions agree, with some number of
words behind the array. -/
def IndexAgrees (bits n capacity i : ℕ) : Prop :=
  (i < n → i < capacity % 2 ^ 32 ∧ ¬ LoneIndex (capacity % 2 ^ 32) i) ∧
    (n ≤ i → capacity ≤ i % 2 ^ bits)

instance (capacity i : ℕ) : Decidable (LoneIndex capacity i) := inferInstanceAs (Decidable (_ ∧ _))

instance (bits n capacity i : ℕ) : Decidable (IndexAgrees bits n capacity i) :=
  inferInstanceAs (Decidable (_ ∧ _))

variable {t} {addr : ℕ} {ap : V8Array} {elts : Target.HeapArray}

theorem lt_iteratedCount_iff (length i : ℕ) :
    i < iteratedCount length ↔ i < length ∧ ¬ LoneIndex length i := by
  simp only [iteratedCount, LoneIndex, show maxnpgelts = 1024 from rfl]
  split <;> omega

theorem visit_jsarrayPrintOne_eq (index : ℕ) (words : List ℕ) (out : List (ℕ × ℕ)) :
    visit jsarrayPrintOne index words out = out ++ (words.zipIdx index).map Prod.swap := by
  induction words generalizing index out with
  | nil => simp [visit]
  | cons word words ih =>
    rw [visit, ih, jsarrayPrintOne, List.zipIdx_cons, List.map_cons, List.append_assoc]
    rfl

/-- What the iteration delivers is what is at the index among its words. -/
theorem delivers_iff (i w : ℕ) : Delivers t ap i w ↔ (arrayWords t ap)[i]? = some w := by
  have hprint : Continues jsarrayPrintOne := fun _ _ _ => rfl
  unfold Delivers
  rw [v8arrayIterElements_eq_visitWhile, visitWhile_of_continues hprint, visit_jsarrayPrintOne_eq,
    List.nil_append, List.mem_map]
  constructor
  · rintro ⟨⟨w', i'⟩, hmem, heq⟩
    obtain ⟨rfl, rfl⟩ := Prod.mk.inj heq
    exact List.mem_zipIdx_iff_getElem?.mp hmem
  · intro hget
    exact ⟨(w, i), List.mem_zipIdx_iff_getElem?.mpr hget, rfl⟩

/-- The words that are iterated over in a `FixedArray` that can be read. -/
theorem fixedarrayWords_of_readable {arrayp : V8FixedArray} {bs : List UInt8}
    (h : Readable t arrayp bs) :
    (fixedarrayWords t arrayp).1 =
      (Target.wordsOf t.cfg.ptrSize bs).take (iteratedCount (arrayp.nelts % 2 ^ 32)) := by
  have hprint : Continues v8arrayPrintOne := fun _ _ _ => rfl
  have hiter := v8fixedarrayIterElements_eq h hprint []
  rw [v8fixedarrayIterElements_pages, visitWhile_of_continues hprint, visit_print, visit_print] at hiter
  exact congrArg Prod.snd hiter

/-- A `FixedArray` that is loaded and also read as a whole. -/
theorem readable_of_loaded {elements : ℕ} {arrayp : V8FixedArray}
    (hload : v8fixedarrayLoad t elements = some arrayp) (hread : t.readHeapArray elements = some elts)
    (hpos : 0 < elts.len) (hlen : elts.elts.length = elts.len) :
    ∃ bs, Readable t arrayp bs ∧ arrayp.nelts = elts.len ∧
      elts.elts = Target.wordsOf t.cfg.ptrSize bs := by
  unfold v8fixedarrayLoad at hload
  unfold Target.readHeapArray at hread
  split at hload
  · cases hload
  next hheap =>
  rw [if_neg hheap] at hread
  split at hload
  · cases hload
  next type htype =>
  rw [htype] at hread
  dsimp only at hread
  split at hload
  · cases hload
  next hfixed =>
  rw [if_neg hfixed] at hread
  obtain ⟨nelts, hnelts, rfl⟩ := Option.map_eq_some_iff.mp hload
  rw [hnelts] at hread
  dsimp only at hread
  split at hread
  · obtain rfl := Option.some.inj hread
    exact absurd hpos (lt_irrefl 0)
  split at hread
  · cases hread
  obtain ⟨bs, hbs, rfl⟩ := Option.map_eq_some_iff.mp hread
  refine ⟨bs, ?_, rfl, rfl⟩
  -- the block has all the words, so its size has not been cut off
  rw [Target.wordsOf_length, Target.mdbVread_length hbs] at hlen
  have hsize : nelts * t.cfg.ptrSize % 2 ^ t.cfg.bits = nelts * t.cfg.ptrSize := by
    refine le_antisymm (Nat.mod_le _ _) ?_
    calc nelts * t.cfg.ptrSize
        = nelts * t.cfg.ptrSize % 2 ^ t.cfg.bits / t.cfg.ptrSize * t.cfg.ptrSize := by rw [hlen]
      _ ≤ nelts * t.cfg.ptrSize % 2 ^ t.cfg.bits := Nat.div_mul_le_self _ _
  rwa [hsize] at hbs

/-- The `FixedArray` that is loaded for an array with elements. -/
theorem BackedArray.loaded (h : BackedArray t addr ap elts) (hpos : 0 < ap.length) :
    ∃ arrayp bs, ap.elements = some arrayp ∧ Readable t arrayp bs ∧ arrayp.nelts = elts.len ∧
      elts.elts = Target.wordsOf t.cfg.ptrSize bs := by
  obtain ⟨elements, hptr, harray⟩ := Option.bind_eq_some_iff.mp h.backing
  have hload := h.load
  have hcapacity := hpos.trans_le h.capacity
  -- the two functions read the same field, and check the same things of what it points to
  unfold v8arrayLoad at hload
  dsimp only at hload
  split at hload
  · cases hload
  split at hload
  · cases hload
  split at hload
  · cases hload
  rw [hptr] at hload
  cases hlength : t.readHeapSmi addr t.cfg.offJsarrayLength with
  | none =>
    rw [hlength] at hload
    cases hload
  | some length =>
    rw [hlength] at hload
    dsimp only at hload
    split at hload
    swap
    · cases hload
      exact absurd hpos (by assumption)
    obtain ⟨arrayp, harrayp, rfl⟩ := Option.map_eq_some_iff.mp hload
    obtain ⟨bs, hread, hnelts, hwords⟩ := readable_of_loaded harrayp harray hcapacity h.readable
    exact ⟨arrayp, bs, rfl, hread, hnelts, hwords⟩

/-- The words of an array with elements. -/
theorem BackedArray.arrayWords_eq (h : BackedArray t addr ap elts) :
    arrayWords t ap = (elts.elts.take (iteratedCount (elts.len % 2 ^ 32))).take ap.length := by
  rcases Nat.eq_zero_or_pos ap.length with hzero | hpos
  · unfold arrayWords
    rw [hzero, List.take_zero]
    cases ap.elements with
    | none => rfl
    | some arrayp => exact List.take_zero
  · obtain ⟨arrayp, bs, helements, hread, hnelts, hwords⟩ := h.loaded hpos
    unfold arrayWords
    rw [helements]
    dsimp only
    rw [fixedarrayWords_of_readable hread, hnelts, hwords]

/-- For which index of an array some word is delivered, and which one. -/
theorem BackedArray.delivers_iff (h : BackedArray t addr ap elts) {i : ℕ} (hi : i < ap.length)
    (w : ℕ) :
    Delivers t ap i w ↔
      (i < elts.len % 2 ^ 32 ∧ ¬ LoneIndex (elts.len % 2 ^ 32) i) ∧ w = elts.get i := by
  have hlt : i < elts.elts.length := by
    rw [h.readable]
    exact hi.trans_le h.capacity
  rw [MdbV8.delivers_iff, h.arrayWords_eq, List.getElem?_take_of_lt hi, ← lt_iteratedCount_iff,
    Target.HeapArray.get, List.getD_eq_getElem _ _ hlt]
  by_cases hcount : i < iteratedCount (elts.len % 2 ^ 32)
  · rw [List.getElem?_take_of_lt hcount, List.getElem?_eq_getElem hlt, Option.some.injEq,
      and_iff_right hcount]
    exact eq_comm
  · rw [List.getElem?_take_eq_none (Nat.not_lt.mp hcount)]
    exact iff_of_false (by simp) fun hw => hcount hw.1

/-! ### The member that is printed -/

/-- An array is asked for the member. -/
theorem printValue_jsarray (fmtY : ℤ → List UInt8) (hklass : valueKlass t (some (.addr addr)) =
    some "JSArray") {jsop : JsobjPrint} (hmember : jsop.member.isSome = true) (out : OutBuf) :
    printValue t fmtY (bufDevice t) (some (.addr addr)) jsop out =
      jsobjPrintJsarrayMember t (bufDevice t) (jsobjPrintValue t fmtY (bufDevice t) jsop.level) addr
        { jsop with descended := true } out := by
  have hsome : jsop.member ≠ none := Option.isSome_iff_ne_none.mp hmember
  have haddrs : printAddrs (bufDevice t) (some (.addr addr)) jsop out = out := by
    unfold printAddrs
    rw [if_neg fun h => hsome h.2, if_neg fun h => hsome h.2]
  have hword : printValue t fmtY (bufDevice t) (some (.addr addr)) jsop out =
      jsobjPrintWord t fmtY (bufDevice t) (jsobjPrintValue t fmtY (bufDevice t) jsop.level) addr jsop
        (printAddrs (bufDevice t) (some (.addr addr)) jsop out) := rfl
  rw [hword, haddrs, jsobjPrintWord_klass fmtY _ _ hklass rfl]
  exact if_pos hmember

variable {digits : List UInt8} (fmtY : ℤ → List UInt8)

theorem elementMember_eq (digits : List UInt8) :
    elementMember digits = pathText [.index digits] := by
  rw [pathText, tailText, List.append_nil]
  rfl

/-- What is printed for the member, if the index is one of a word behind the array. -/
theorem BackedArray.print_element (h : BackedArray t addr ap elts)
    (hdigits : (MemberStep.index digits).Valid) (hlt : indexValue digits % 2 ^ t.cfg.bits < elts.len)
    {jsop : JsobjPrint} (hdepth : jsop.depth < 2 ^ 64)
    (hmember : jsop.member = some (elementMember digits)) (out : OutBuf) :
    let w := elts.get (indexValue digits % 2 ^ t.cfg.bits)
    let r := jsobjPrint t fmtY (bufDevice t) addr jsop out
    r.2.1.found = true ∧
      r.2.2 = (jsobjPrint t fmtY (bufDevice t) w { jsop with member := none } out).2.2 := by
  intro w r
  have hr : r = printValue t fmtY (bufDevice t) (some (.addr addr)) jsop out :=
    jsobjPrint_eq_printValue t fmtY (bufDevice t) addr hdepth out
  rw [elementMember_eq] at hmember
  have hstep := takesStep_printValue fmtY (bufDevice t) hdigits hdepth hmember (some (.addr addr)) out
    fun hobject => absurd (h.klass.symm.trans hobject) (by decide)
  have hdest : memberStep t (some (.addr addr)) (.index digits) = some (some (.addr w)) := by
    rw [memberStep, backingValue, if_pos h.klass]
    simp only [valueAddr, h.backing, if_pos hlt]
    rfl
  unfold TakesStep at hstep
  rw [hdest, ← hr] at hstep
  obtain ⟨hfound, hout⟩ := hstep
  -- the last part of the path sets `found` before the value is printed
  have hdepth' : (({ jsop with descended := true } : JsobjPrint).descendMember (pathMember [])).depth
      < 2 ^ 64 := hdepth
  refine ⟨hfound.trans ((keeps_printValue t fmtY (bufDevice t) hdepth' _ out).found rfl), ?_⟩
  have hprint := jsobjPrint_eq_printValue t fmtY (bufDevice t) w (j := { jsop with member := none })
    hdepth out
  rw [hout, hprint]
  exact printValue_same t fmtY (bufDevice t) (j := { jsop with member := none }) ⟨_, _, _, _, rfl⟩ hdepth
    _ out

/-- What comes of an index that is too large. -/
theorem BackedArray.print_error (h : BackedArray t addr ap elts)
    (hdigits : (MemberStep.index digits).Valid) (hle : elts.len ≤ indexValue digits % 2 ^ t.cfg.bits)
    {jsop : JsobjPrint} (hdepth : jsop.depth < 2 ^ 64)
    (hmember : jsop.member = some (elementMember digits)) (out : OutBuf) :
    jsobjPrint t fmtY (bufDevice t) addr jsop out = (-1, { jsop with descended := true }, out) := by
  obtain ⟨ptr, hptr, harray⟩ := Option.bind_eq_some_iff.mp h.backing
  rw [jsobjPrint_eq_printValue t fmtY (bufDevice t) addr hdepth,
    printValue_jsarray fmtY h.klass (by rw [hmember]; rfl), jsobjPrintJsarrayMember]
  simp only [hptr]
  rw [harray]
  dsimp only
  rw [hmember, Option.getD_some, elementMember_eq, memberIndex_pathText hdigits]
  dsimp only
  rw [if_pos hle]

/-- **When a member of an array is its element**. -/
theorem printsElement_iff (h : BackedArray t addr ap elts)
    (hdigits : (MemberStep.index digits).Valid) :
    PrintsElement t fmtY addr ap digits ↔
      IndexAgrees t.cfg.bits ap.length elts.len (indexValue digits) := by
  constructor
  · intro hprints
    refine ⟨fun hlt => ?_, fun hge => ?_⟩
    · obtain ⟨w, hdelivers, -⟩ := hprints.element hlt
      exact ((h.delivers_iff hlt w).mp hdelivers).1
    · -- a member that is found is no error
      by_contra hle
      let jsop : JsobjPrint := { depth := 0, member := some (elementMember digits) }
      have hdepth : jsop.depth < 2 ^ 64 := Nat.two_pow_pos 64
      have hfound := (h.print_element fmtY hdigits (Nat.not_le.mp hle) hdepth rfl
        (OutBuf.fresh (fun _ => 0) 1)).1
      have herror := (hprints.error hge jsop (OutBuf.fresh (fun _ => 0) 1) hdepth rfl
        rfl).2.1
      exact absurd (hfound.symm.trans herror) (by simp)
  · rintro ⟨helement, herror⟩
    refine ⟨fun hlt => ?_, fun hge jsop out hdepth hmember hfound => ?_, ?_⟩
    · have hlt' : indexValue digits < ap.length := hlt
      -- the index is less than a word, so that it has not wrapped
      have hword : indexValue digits % 2 ^ t.cfg.bits = indexValue digits :=
        Nat.mod_eq_of_lt (InArray.lt (v := some (.addr addr)) ⟨ap, h.load, hlt⟩)
      refine ⟨elts.get (indexValue digits), (h.delivers_iff hlt' _).mpr ⟨helement hlt', rfl⟩, ?_⟩
      intro jsop out hdepth hmember
      have hprint := h.print_element fmtY hdigits (by rw [hword]; exact hlt'.trans_le h.capacity)
        hdepth hmember out
      rwa [hword] at hprint
    · rw [h.print_error fmtY hdigits (herror hge) hdepth hmember out]
      exact ⟨rfl, hfound, rfl⟩
    · intro hge zalloc before st st' more text hdepth hmember hfound hone
      -- the member is undefined, and the command says so
      have hnone : memberValue t (some (.addr addr)) [.index digits] = none := by
        rw [memberValue, memberStep, backingValue, if_pos h.klass]
        simp only [valueAddr, h.backing, if_neg (Nat.not_lt.mpr (herror hge))]
        rfl
      have hnames : DistinctNames t (some (.addr addr)) [.index digits] := by
        intro k v' hv' hobject
        cases k with
        | zero =>
          obtain rfl := Option.some.inj hv'
          exact absurd (h.klass.symm.trans hobject) (by decide)
        | succ k =>
          rw [List.take_succ_cons, List.take_nil, hnone] at hv'
          cases hv'
      rw [elementMember_eq] at hmember
      exact jsprintOne_undefined (fun s hs => List.mem_singleton.mp hs ▸ hdigits) (by simp) hnames hnone
        hdepth hmember hfound hone

theorem backedArray_spare :
    BackedArray spareArrayTarget 0x4001 ⟨0x4001, some ⟨0x1001, 2⟩, 1⟩ ⟨2, [5 <<< 32, 7 <<< 32]⟩ :=
  ⟨by decide, by decide, by decide, by decide, by decide⟩

theorem valid_index_digit {d : UInt8} (hd : 48 ≤ d ∧ d ≤ 57) : (MemberStep.index [d]).Valid :=
  ⟨List.cons_ne_nil _ _, fun _ hmem => List.mem_singleton.mp hmem ▸ hd⟩

/-- The only element of an array, as the member `[0]`. -/
theorem printsElement_first :
    PrintsElement spareArrayTarget (fun _ => []) 0x4001 ⟨0x4001, some ⟨0x1001, 2⟩, 1⟩ [48] :=
  (printsElement_iff _ backedArray_spare (valid_index_digit (by decide))).mpr (by decide)

/-- The member `[1]` is the word behind it. -/
theorem not_printsElement_spare :
    BackedArray spareArrayTarget 0x4001 ⟨0x4001, some ⟨0x1001, 2⟩, 1⟩ ⟨2, [5 <<< 32, 7 <<< 32]⟩ ∧
      ¬ PrintsElement spareArrayTarget (fun _ => []) 0x4001 ⟨0x4001, some ⟨0x1001, 2⟩, 1⟩ [49] := by
  refine ⟨backedArray_spare, fun h => ?_⟩
  have herror := h.error (by decide) { depth := 2, member := some (bytesOf "[1]") }
    (OutBuf.fresh (fun _ => 0) 16) (by decide) (by decide) rfl
  exact absurd herror.2.1 (by decide)

end Elements

end MdbV8
