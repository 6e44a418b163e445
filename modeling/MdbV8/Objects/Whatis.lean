import MdbV8.Objects.Contains
import MdbV8.Target.Tags

/-!
# The object around an address

`mdb_v8_whatis.c`. `v8whatis` walks back from an address, word by word, looking for the first word
that could be the Map of an object, and then asks `v8contains` whether the object it has found reaches
as far as the address.

The walk ends when it has found an object or when it has gone as far back as it was told to. Its
counter is a `size_t`. A limit that is less than a word short of the largest `size_t` is never
reached: the counter wraps around to zero first. Then the walk ends only if there is an object
somewhere (`whatisExact_iff`).
-/

namespace MdbV8

/-- `v8whatis_error_t`. -/
inductive V8WhatisError where
  | ok
  | notfound
  | doesntcontain
  deriving DecidableEq, Repr

/-- `v8whatis_t`. The last two fields are set if an object has been found. -/
structure V8Whatis where
  origaddr : ℕ
  addr : ℕ
  baseaddr : Option ℕ := none
  basetype : Option ℕ := none
  deriving DecidableEq, Repr

/-- Where a loop has got to: it goes on, or it has been left. -/
inductive WhatisLoop where
  | continue (curoffset : ℕ)
  | found (curaddr typebyte : ℕ)
  | notfound
  | assertFailed
  deriving DecidableEq, Repr

/-- The address that `v8whatis` starts from: the word that contains the address, with the tag. -/
def whatisAddr (c : Config) (addr : ℕ) : ℕ :=
  (addr &&& (2 ^ c.bits - 1 ^^^ (c.ptrSize - 1))) ||| c.wrap c.heapObjectTag

/-- One round of the loop of `v8whatis`. -/
def whatisRound (t : Target) (addr maxoffset curoffset : ℕ) : WhatisLoop :=
  let c := t.cfg
  let next := WhatisLoop.continue ((curoffset + c.ptrSize) % 2 ^ c.bits)
  if curoffset < maxoffset then
    let curaddr := c.add addr (-curoffset)
    if !c.isHeapobject curaddr then .assertFailed
    else
      match t.readHeapPtr curaddr c.offHeapobjectMap with
      | none => next
      | some curvalue =>
        match t.readTypebyte curvalue with
        | none => next
        | some typebyte =>
          if !Target.isType typebyte c.typeMap then next
          else
            match t.readTypebyte curaddr with
            | none => next
            | some typebyte => .found curaddr typebyte
  else .notfound

/-- The loop of `v8whatis`, with a bound on the number of its rounds. -/
def whatisLoop (t : Target) (addr maxoffset : ℕ) : ℕ → ℕ → WhatisLoop
  | 0, curoffset => .continue curoffset
  | fuel + 1, curoffset =>
    match whatisRound t addr maxoffset curoffset with
    | .continue curoffset => whatisLoop t addr maxoffset fuel curoffset
    | r => r

/-- `v8whatis`, if its loop ends within a number of rounds. -/
def v8whatis (t : Target) (fuel origaddr maxoffset : ℕ) : Option (V8WhatisError × V8Whatis) :=
  let addr := whatisAddr t.cfg origaddr
  let whatis : V8Whatis := { origaddr, addr }
  match whatisLoop t addr maxoffset fuel 0 with
  | .continue _ => none
  | .assertFailed => none
  | .notfound => some (.notfound, whatis)
  | .found curaddr typebyte =>
    let whatis := { whatis with baseaddr := some curaddr, basetype := some typebyte }
    if v8contains t curaddr typebyte addr = some false then some (.doesntcontain, whatis)
    else some (.ok, whatis)

/-! ### Candidates -/

/-- The object at an address looks like one: its Map can be read and has the type of a Map, and it has
a type byte of its own. -/
def LooksLikeObject (t : Target) (addr type : ℕ) : Prop :=
  ∃ map maptype, t.readHeapPtr addr t.cfg.offHeapobjectMap = some map ∧
    t.readTypebyte map = some maptype ∧ Target.isType maptype t.cfg.typeMap = true ∧
    t.readTypebyte addr = some type

/-- The word that contains an address, with the tag. -/
def taggedWord (c : Config) (addr : ℕ) : ℕ := addr / c.ptrSize * c.ptrSize + 1

/-- The tagged address `k` words before it. -/
def candidate (c : Config) (addr k : ℕ) : ℕ :=
  c.add (taggedWord c addr) (-(k * c.ptrSize : ℕ))

section Candidates

variable {c : Config}

/-- Clearing the low bits of an address. -/
theorem and_clear_eq {addr n i : ℕ} (haddr : addr < 2 ^ n) (hi : i ≤ n) :
    addr &&& (2 ^ n - 1 ^^^ (2 ^ i - 1)) = 2 ^ i * (addr / 2 ^ i) := by
  apply Nat.eq_of_testBit_eq
  intro j
  rw [Nat.testBit_and, Nat.testBit_xor, Nat.testBit_two_pow_sub_one, Nat.testBit_two_pow_sub_one,
    Nat.testBit_two_pow_mul, Nat.testBit_div_two_pow]
  by_cases hji : i ≤ j
  · by_cases hjn : j < n
    · simp [hji, hjn, Nat.not_lt.mpr hji, Nat.sub_add_cancel hji]
    · have hbit : addr.testBit j = false :=
        Nat.testBit_lt_two_pow (haddr.trans_le (Nat.pow_le_pow_right (by decide) (by omega)))
      simp [hji, hbit, Nat.sub_add_cancel hji]
  · have hjn : j < n := by omega
    simp [hji, hjn, Nat.not_le.mp hji]

/-- `v8whatis` starts from the word that contains the address, with the tag. -/
theorem whatisAddr_eq (h : c.V8Tags) {addr : ℕ} (haddr : addr < 2 ^ c.bits) :
    whatisAddr c addr = taggedWord c addr := by
  have htag : c.wrap c.heapObjectTag = 1 := by
    rw [h.heapTag]
    exact c.wrap_small (by decide : 1 < 2 ^ 32)
  unfold whatisAddr taggedWord
  rw [htag]
  rcases c.model.ptrSize_cases with ⟨-, hw, hn⟩ | ⟨-, hw, hn⟩
  · rw [show c.bits = 32 from hn] at haddr ⊢
    rw [show c.ptrSize = 2 ^ 2 from hw, and_clear_eq haddr (by decide), mul_comm,
      ← Nat.mul_comm (2 ^ 2), ← Nat.two_pow_add_eq_or_of_lt (by decide)]
  · rw [show c.bits = 64 from hn] at haddr ⊢
    rw [show c.ptrSize = 2 ^ 3 from hw, and_clear_eq haddr (by decide), mul_comm,
      ← Nat.mul_comm (2 ^ 3), ← Nat.two_pow_add_eq_or_of_lt (by decide)]

/-- The assertion in the loop holds: every word before a tagged word is tagged. -/
theorem candidate_isHeapobject (h : c.V8Tags) (addr k : ℕ) :
    c.isHeapobject (candidate c addr k) = true := by
  rw [h.isHeapobject_iff]
  unfold candidate taggedWord Config.add Config.wrap
  rcases c.model.ptrSize_cases with ⟨-, hw, hn⟩ | ⟨-, hw, hn⟩
  · rw [show c.ptrSize = 4 from hw, show c.bits = 32 from hn]
    push_cast
    omega
  · rw [show c.ptrSize = 8 from hw, show c.bits = 64 from hn]
    push_cast
    omega

end Candidates

/-! ### The loop -/

section Loop

variable {t : Target} {addr maxoffset : ℕ}

/-- A round that finds an object. -/
theorem whatisRound_found (h : t.cfg.V8Tags) {k type : ℕ} (hk : k * t.cfg.ptrSize < maxoffset)
    (hobj : LooksLikeObject t (candidate t.cfg addr k) type) :
    whatisRound t (taggedWord t.cfg addr) maxoffset (k * t.cfg.ptrSize) =
      .found (candidate t.cfg addr k) type := by
  obtain ⟨map, maptype, hmap, hmaptype, hismap, htype⟩ := hobj
  have hheap := candidate_isHeapobject h addr k
  unfold candidate at hheap hmap htype ⊢
  unfold whatisRound
  simp only [hk, hheap, hmap, hmaptype, hismap, htype, Bool.not_true, Bool.false_eq_true, if_true,
    if_false]

/-- A round that does not. -/
theorem whatisRound_continue (h : t.cfg.V8Tags) {k : ℕ} (hk : k * t.cfg.ptrSize < maxoffset)
    (hno : ∀ type, ¬ LooksLikeObject t (candidate t.cfg addr k) type) :
    whatisRound t (taggedWord t.cfg addr) maxoffset (k * t.cfg.ptrSize) =
      .continue ((k + 1) * t.cfg.ptrSize % 2 ^ t.cfg.bits) := by
  have hheap := candidate_isHeapobject h addr k
  unfold LooksLikeObject candidate at hno
  unfold candidate at hheap
  unfold whatisRound
  simp only [hk, hheap, Bool.not_true, Bool.false_eq_true, if_true, if_false]
  rw [Nat.succ_mul]
  -- each read fails, or what it returns is not of the right type
  split
  · rfl
  · next map hmap =>
    split
    · rfl
    · next maptype hmaptype =>
      split
      · rfl
      · next hismap =>
        split
        · rfl
        · next type htype =>
          exact absurd ⟨map, maptype, hmap, hmaptype, by simpa using hismap, htype⟩ (hno type)

/-- No word less than some limit before an address looks like an object. -/
def NoObjectWithin (t : Target) (addr limit : ℕ) : Prop :=
  ∀ k, k * t.cfg.ptrSize < limit → ∀ type, ¬ LooksLikeObject t (candidate t.cfg addr k) type

/-- The nearest word before an address that looks like an object. -/
structure NearestObject (t : Target) (addr maxoffset k type : ℕ) : Prop where
  within : k * t.cfg.ptrSize < maxoffset
  looks : LooksLikeObject t (candidate t.cfg addr k) type
  nearest : ∀ j < k, ∀ type', ¬ LooksLikeObject t (candidate t.cfg addr j) type'

/-- Unless there is none, there is a nearest object. -/
theorem exists_nearestObject (h : ¬ NoObjectWithin t addr maxoffset) :
    ∃ k type, NearestObject t addr maxoffset k type := by
  classical
  unfold NoObjectWithin at h
  push Not at h
  obtain ⟨k, hk, type, hlooks⟩ := h
  have hex : ∃ k type, LooksLikeObject t (candidate t.cfg addr k) type := ⟨k, type, hlooks⟩
  obtain ⟨type', hlooks'⟩ := Nat.find_spec hex
  refine ⟨Nat.find hex, type', ?_, hlooks', fun j hj type'' hlooks'' => ?_⟩
  · exact (Nat.mul_le_mul_right _ (Nat.find_min' hex ⟨type, hlooks⟩)).trans_lt hk
  · exact Nat.find_min hex hj ⟨type'', hlooks''⟩

/-- The loop finds the nearest object. -/
theorem whatisLoop_found (h : t.cfg.V8Tags) (hmax : maxoffset < 2 ^ t.cfg.bits) {k type : ℕ}
    (hnear : NearestObject t addr maxoffset k type) {j : ℕ} (hj : j ≤ k) :
    whatisLoop t (taggedWord t.cfg addr) maxoffset (k - j + 1) (j * t.cfg.ptrSize) =
      .found (candidate t.cfg addr k) type := by
  obtain ⟨n, hn⟩ : ∃ n, n = k - j := ⟨_, rfl⟩
  rw [← hn]
  induction n generalizing j with
  | zero =>
    obtain rfl : j = k := by omega
    rw [whatisLoop, whatisRound_found h hnear.within hnear.looks]
  | succ n ih =>
    have hle : (j + 1) * t.cfg.ptrSize ≤ k * t.cfg.ptrSize := Nat.mul_le_mul_right _ (by omega)
    have hlt : j * t.cfg.ptrSize < maxoffset :=
      (Nat.mul_le_mul_right _ hj).trans_lt hnear.within
    rw [whatisLoop, whatisRound_continue h hlt (hnear.nearest j (by omega))]
    dsimp only
    rw [Nat.mod_eq_of_lt (hle.trans_lt (hnear.within.trans hmax))]
    exact ih (by omega) (by omega)

/-- The loop ends if there is no object and the counter reaches the limit. -/
theorem whatisLoop_notfound (h : t.cfg.V8Tags) (hno : NoObjectWithin t addr maxoffset)
    (hmax : maxoffset + t.cfg.ptrSize ≤ 2 ^ t.cfg.bits) {j n : ℕ}
    (hn : maxoffset ≤ (j + n) * t.cfg.ptrSize) :
    whatisLoop t (taggedWord t.cfg addr) maxoffset (n + 1) (j * t.cfg.ptrSize) = .notfound := by
  induction n generalizing j with
  | zero =>
    have hstop : ¬ j * t.cfg.ptrSize < maxoffset := Nat.not_lt.mpr (by simpa using hn)
    rw [whatisLoop]
    unfold whatisRound
    simp only [hstop, if_false]
  | succ n ih =>
    rw [whatisLoop]
    by_cases hlt : j * t.cfg.ptrSize < maxoffset
    · rw [whatisRound_continue h hlt (hno j hlt)]
      dsimp only
      rw [Nat.mod_eq_of_lt (by rw [Nat.succ_mul]; omega)]
      exact ih (by rwa [show j + 1 + n = j + (n + 1) by omega])
    · unfold whatisRound
      simp only [hlt, if_false]

/-- The loop goes on for ever if there is no object and the counter wraps around. -/
theorem whatisLoop_continue (h : t.cfg.V8Tags) (hno : NoObjectWithin t addr maxoffset)
    (hmax : 2 ^ t.cfg.bits < maxoffset + t.cfg.ptrSize) (fuel : ℕ) {j : ℕ}
    (hj : j * t.cfg.ptrSize < 2 ^ t.cfg.bits) :
    ∃ curoffset, whatisLoop t (taggedWord t.cfg addr) maxoffset fuel (j * t.cfg.ptrSize) =
      .continue curoffset := by
  have hbits : 2 ^ t.cfg.bits % t.cfg.ptrSize = 0 := by
    rcases t.cfg.model.ptrSize_cases with ⟨-, hw, hn⟩ | ⟨-, hw, hn⟩ <;>
      simp [Config.bits, Config.ptrSize, hw, hn]
  obtain ⟨n, hn⟩ := Nat.dvd_of_mod_eq_zero hbits
  rw [mul_comm] at hn
  have hpos := t.cfg.model.ptrSize_pos
  induction fuel generalizing j with
  | zero => exact ⟨_, rfl⟩
  | succ fuel ih =>
    have hjn : j < n := lt_of_mul_lt_mul_right (hn ▸ hj) (Nat.zero_le _)
    have hlast : j * t.cfg.ptrSize + t.cfg.ptrSize ≤ n * t.cfg.ptrSize := by
      rw [← Nat.succ_mul]
      exact Nat.mul_le_mul_right _ hjn
    have hlt : j * t.cfg.ptrSize < maxoffset := by omega
    rw [whatisLoop, whatisRound_continue h hlt (hno j hlt)]
    dsimp only
    -- the counter is that of another word, even after it has wrapped around
    rw [hn, Nat.mul_mod_mul_right]
    refine ih ?_
    rw [hn]
    exact Nat.mul_lt_mul_of_pos_right (Nat.mod_lt _ (by omega)) hpos

/-- More rounds than are needed make no difference. -/
theorem whatisLoop_add {fuel curoffset : ℕ} {r : WhatisLoop}
    (h : whatisLoop t addr maxoffset fuel curoffset = r) (hr : ∀ curoffset, r ≠ .continue curoffset)
    (more : ℕ) : whatisLoop t addr maxoffset (fuel + more) curoffset = r := by
  induction fuel generalizing curoffset with
  | zero => exact absurd h.symm (hr curoffset)
  | succ fuel ih =>
    rw [Nat.succ_add, whatisLoop]
    rw [whatisLoop] at h
    cases hround : whatisRound t addr maxoffset curoffset with
    | «continue» next =>
      rw [hround] at h
      exact ih h
    | found curaddr typebyte => rwa [hround] at h
    | notfound => rwa [hround] at h
    | assertFailed => rwa [hround] at h

end Loop

/-! ### The result -/

/-- `v8whatis` returns, and it returns what it is meant to: `notfound` exactly if no word that is
within the limit looks like an object; and otherwise the nearest one, with its type, and whether it
is known not to contain the address. -/
def WhatisExact (t : Target) (origaddr maxoffset : ℕ) : Prop :=
  ∃ fuel err whatis, v8whatis t fuel origaddr maxoffset = some (err, whatis) ∧
    (err = .notfound ↔ NoObjectWithin t origaddr maxoffset) ∧
    ∀ k type, NearestObject t origaddr maxoffset k type →
      whatis.baseaddr = some (candidate t.cfg origaddr k) ∧ whatis.basetype = some type ∧
      (err = .doesntcontain ↔
        v8contains t (candidate t.cfg origaddr k) type (taggedWord t.cfg origaddr) = some false) ∧
      (err ≠ .doesntcontain → err = .ok)

/-- What `v8whatis` makes of the object that its loop has found. -/
theorem v8whatis_found {t : Target} {fuel origaddr maxoffset curaddr type : ℕ}
    (haddr : whatisAddr t.cfg origaddr = taggedWord t.cfg origaddr)
    (hloop : whatisLoop t (taggedWord t.cfg origaddr) maxoffset fuel 0 = .found curaddr type) :
    ∃ err whatis, v8whatis t fuel origaddr maxoffset = some (err, whatis) ∧
      whatis.baseaddr = some curaddr ∧ whatis.basetype = some type ∧ err ≠ .notfound ∧
      (err = .doesntcontain ↔
        v8contains t curaddr type (taggedWord t.cfg origaddr) = some false) ∧
      (err ≠ .doesntcontain → err = .ok) := by
  unfold v8whatis
  dsimp only
  rw [haddr, hloop]
  dsimp only
  by_cases hcontains : v8contains t curaddr type (taggedWord t.cfg origaddr) = some false
  · rw [if_pos hcontains]
    exact ⟨_, _, rfl, rfl, rfl, by decide, by simp [hcontains], fun h => absurd rfl h⟩
  · rw [if_neg hcontains]
    exact ⟨_, _, rfl, rfl, rfl, by decide, by simp [hcontains], fun _ => rfl⟩

/-- **`v8whatis` returns**, if its limit is not within a word of the largest `size_t`. -/
theorem v8whatis_isSome {t : Target} (h : t.cfg.V8Tags) {origaddr maxoffset : ℕ}
    (horigaddr : origaddr < 2 ^ t.cfg.bits) (hmax : maxoffset + t.cfg.ptrSize ≤ 2 ^ t.cfg.bits) :
    ∃ r, v8whatis t (maxoffset + 1) origaddr maxoffset = some r := by
  have haddr := whatisAddr_eq h horigaddr
  have hpos : 0 < t.cfg.ptrSize := t.cfg.model.ptrSize_pos
  by_cases hno : NoObjectWithin t origaddr maxoffset
  · -- as many rounds as there are words in the limit are enough
    have hrounds : maxoffset ≤ (0 + maxoffset) * t.cfg.ptrSize := by
      rw [Nat.zero_add]
      exact Nat.le_mul_of_pos_right _ hpos
    have hloop := whatisLoop_notfound h hno hmax hrounds
    rw [Nat.zero_mul] at hloop
    refine ⟨(.notfound, { origaddr, addr := taggedWord t.cfg origaddr }), ?_⟩
    unfold v8whatis
    dsimp only
    rw [haddr, hloop]
  · obtain ⟨k, type, hnear⟩ := exists_nearestObject hno
    have hloop := whatisLoop_found h (by omega) hnear (Nat.zero_le k)
    have hle : k ≤ k * t.cfg.ptrSize := Nat.le_mul_of_pos_right _ hpos
    have hwithin := hnear.within
    -- more rounds do not change what has been found
    have hmore := whatisLoop_add hloop (fun _ => nofun) (maxoffset - k)
    rw [Nat.zero_mul, show k - 0 + 1 + (maxoffset - k) = maxoffset + 1 by omega] at hmore
    obtain ⟨err, whatis, hrun, -⟩ := v8whatis_found haddr hmore
    exact ⟨(err, whatis), hrun⟩

/-- There is only one nearest object. -/
theorem NearestObject.unique {t : Target} {addr maxoffset k k' type type' : ℕ}
    (h : NearestObject t addr maxoffset k type) (h' : NearestObject t addr maxoffset k' type') :
    k' = k ∧ type' = type := by
  have hk : k' = k := by
    rcases Nat.lt_trichotomy k' k with hlt | heq | hgt
    · exact absurd h'.looks (h.nearest k' hlt type')
    · exact heq
    · exact absurd h.looks (h'.nearest k hgt type)
  subst hk
  obtain ⟨-, -, -, -, -, htype⟩ := h.looks
  obtain ⟨-, -, -, -, -, htype'⟩ := h'.looks
  exact ⟨rfl, Option.some.inj (htype'.symm.trans htype)⟩

/-- **When `v8whatis` does what it is meant to**: if its limit is not within a word of the largest
`size_t`, or if there is an object. -/
theorem whatisExact_iff {t : Target} (h : t.cfg.V8Tags) {origaddr maxoffset : ℕ}
    (horigaddr : origaddr < 2 ^ t.cfg.bits) (hmaxoffset : maxoffset < 2 ^ t.cfg.bits) :
    WhatisExact t origaddr maxoffset ↔
      maxoffset + t.cfg.ptrSize ≤ 2 ^ t.cfg.bits ∨ ¬ NoObjectWithin t origaddr maxoffset := by
  have haddr := whatisAddr_eq h horigaddr
  constructor
  · rintro ⟨fuel, err, whatis, hrun, -⟩
    by_contra hwrap
    push Not at hwrap
    obtain ⟨hmax, hno⟩ := hwrap
    -- the offset would wrap before it reaches the limit
    have hpos : 0 * t.cfg.ptrSize < 2 ^ t.cfg.bits := by
      rw [Nat.zero_mul]
      exact Nat.two_pow_pos _
    obtain ⟨curoffset, hloop⟩ := whatisLoop_continue h hno hmax fuel hpos
    rw [Nat.zero_mul] at hloop
    unfold v8whatis at hrun
    dsimp only at hrun
    rw [haddr, hloop] at hrun
    cases hrun
  · intro hends
    -- without an object, the loop ends at the limit
    by_cases hno : NoObjectWithin t origaddr maxoffset
    · have hmax : maxoffset + t.cfg.ptrSize ≤ 2 ^ t.cfg.bits := hends.resolve_right (not_not.mpr hno)
      have hrounds : maxoffset ≤ (0 + maxoffset) * t.cfg.ptrSize := by
        rw [Nat.zero_add]
        exact Nat.le_mul_of_pos_right _ t.cfg.model.ptrSize_pos
      have hloop := whatisLoop_notfound h hno hmax hrounds
      rw [Nat.zero_mul] at hloop
      have hrun : v8whatis t (maxoffset + 1) origaddr maxoffset =
          some (.notfound, { origaddr, addr := taggedWord t.cfg origaddr }) := by
        unfold v8whatis
        dsimp only
        rw [haddr, hloop]
      exact ⟨_, _, _, hrun, ⟨fun _ => hno, fun _ => rfl⟩, fun k type hnear =>
        absurd hnear.looks (hno k hnear.within type)⟩
    · obtain ⟨k, type, hnear⟩ := exists_nearestObject hno
      -- with one, it ends at the nearest
      have hloop := whatisLoop_found h hmaxoffset hnear (Nat.zero_le k)
      rw [Nat.zero_mul] at hloop
      obtain ⟨err, whatis, hrun, hbase, htype, hfound, hcontain, hok⟩ := v8whatis_found haddr hloop
      refine ⟨_, err, whatis, hrun, ⟨fun h => absurd h hfound, fun h => absurd h hno⟩,
        fun k' type' hnear' => ?_⟩
      obtain ⟨rfl, rfl⟩ := hnear.unique hnear'
      exact ⟨hbase, htype, hcontain, hok⟩

/-- A target with a Map at `0x2001`, which is its own Map, and an object of three words at `0x1001`.
Nothing else can be read. -/
def whatisTarget : Target :=
  .ofWords (.sample .lp64)
    [(0x1000, 0x3001), (0x2000, 0x2001), (0x2010, 0x81), (0x3000, 0x2001), (0x3008, 0x0003),
      (0x3010, 0xab)]

/-- The object is found from its last word. -/
theorem whatisExact_sample : WhatisExact whatisTarget 0x1010 4096 :=
  (whatisExact_iff (Config.v8Tags_sample .lp64) (by decide) (by decide)).mpr (.inl (by decide))

/-- A target of which nothing can be read. -/
def emptyTarget : Target := .ofWords (.sample .lp64) []

/-- With the largest limit there is, the loop does not end where nothing can be read. -/
theorem not_whatisExact_sample :
    NoObjectWithin emptyTarget 0x1000 (2 ^ 64 - 1) ∧
      ¬ WhatisExact emptyTarget 0x1000 (2 ^ 64 - 1) := by
  -- nothing can be read
  have hread : ∀ addr, emptyTarget.readPtr addr = none := by
    intro addr
    have hbytes : emptyTarget.mdbVread emptyTarget.cfg.ptrSize addr = none := by
      unfold Target.mdbVread
      split
      · rfl
      · rfl
    unfold Target.readPtr
    rw [hbytes]
    rfl
  have hno : NoObjectWithin emptyTarget 0x1000 (2 ^ 64 - 1) := by
    rintro k - type ⟨map, maptype, hmap, -⟩
    unfold Target.readHeapPtr at hmap
    rw [hread] at hmap
    cases hmap
  refine ⟨hno, fun h => ?_⟩
  -- so only the limit could end the loop
  have hends := (whatisExact_iff (Config.v8Tags_sample .lp64) (by decide) (by decide)).mp h
  rcases hends with hmax | hobj
  · exact absurd hmax (by decide)
  · exact hobj hno

end MdbV8
