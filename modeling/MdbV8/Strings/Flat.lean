import MdbV8.Strings.Tree

/-!
# Trees and flat strings

Whether a string is printed in the same way as the flat string with the same characters depends on
where the flat string is cut off. Up to that character, both are written alike, since the leaves of
the tree are no longer than the whole. There, the flat string gets the truncation marker. In the
tree, only the rest of the leaf is looked at:

* if it does not fit, the leaf gets the marker, and the leaves behind it are written into what is
  left, which is no byte, or one byte where the character that did not fit would have taken two;
* if it does fit, it is written, and so is as much as fits of the leaves behind it.

`LeavesAgree` says that nothing comes of this, and `leavesAgree_or` that otherwise the two texts
differ, in a way that is visible in the buffer (`VisiblyDifferent`).
-/

namespace MdbV8

/-! ### Texts -/

/-- What writing the leaves of a tree adds to a buffer with room for `left` bytes. -/
def treeText (strflags : ℕ) : List (List ℕ) → ℕ → List UInt8
  | [], _ => []
  | cs :: ls, left =>
    leafText strflags cs left ++ treeText strflags ls (left - (leafText strflags cs left).length)

section Texts

variable (strflags : ℕ)

theorem treeText_length_le (ls : List (List ℕ)) (left : ℕ) :
    (treeText strflags ls left).length ≤ left := by
  induction ls generalizing left with
  | nil => exact Nat.zero_le _
  | cons cs ls ih =>
    have hleaf := leafText_length_le strflags cs left
    have := ih (left - (leafText strflags cs left).length)
    rw [treeText, List.length_append]
    omega

/-- A leaf that fits is written as it is. -/
theorem leafText_of_fits {cs : List ℕ} {left : ℕ} (h : outBytes strflags cs ≤ left) :
    leafText strflags cs left = charsText strflags cs := by
  induction cs generalizing left with
  | nil => rfl
  | cons c cs ih =>
    have hc := charBytes_length_le c strflags
    have hrest : outBytes strflags cs ≤ left - (charBytes c strflags).length := by
      rw [outBytes_cons] at h
      omega
    rw [leafText, if_pos (.inr h), ih hrest, charsText_cons]

/-- A leaf that does not fit, where the marker would not fit after any of its characters. -/
theorem leafText_of_cut {c : ℕ} {cs : List ℕ} {left : ℕ} (hnd : ¬ NoDanger strflags left c)
    (h : left < outBytes strflags (c :: cs)) :
    leafText strflags (c :: cs) left = v8sTruncateMarker.take left := by
  rw [leafText, if_neg]
  rintro (hno | hfit)
  · exact hnd hno
  · omega

theorem not_noDanger_of_le {left c : ℕ} (h : left ≤ 5) : ¬ NoDanger strflags left c := by
  have := mdbv8StrbufNbytesforchar_pos c strflags
  unfold NoDanger
  rw [show v8sTruncateMarkerBytes = 5 from rfl]
  omega

@[simp] theorem treeText_zero (ls : List (List ℕ)) : treeText strflags ls 0 = [] :=
  List.eq_nil_of_length_eq_zero (Nat.le_zero.mp (treeText_length_le strflags ls 0))

/-- Empty leaves add nothing. -/
theorem treeText_of_flatten_nil {ls : List (List ℕ)} (h : ls.flatten = []) (left : ℕ) :
    treeText strflags ls left = [] := by
  induction ls generalizing left with
  | nil => rfl
  | cons cs ls ih =>
    obtain ⟨rfl, hls⟩ := List.append_eq_nil_iff.mp h
    rw [treeText, leafText, List.nil_append, ih hls]

/-- **The end of the buffer.** Where no more than five bytes are left, leaves are written whole as
long as they fit, and the first one that does not fit is replaced by what fits of the marker. -/
theorem treeText_small (ls : List (List ℕ)) {left : ℕ} (h : left ≤ 5) :
    ∃ k ≤ ls.length, (charsText strflags (ls.take k).flatten).length ≤ left ∧
      (k = ls.length ∧ treeText strflags ls left = charsText strflags (ls.take k).flatten ∨
        treeText strflags ls left = charsText strflags (ls.take k).flatten ++
          v8sTruncateMarker.take (left - (charsText strflags (ls.take k).flatten).length)) := by
  induction ls generalizing left with
  | nil => exact ⟨0, le_refl _, Nat.zero_le _, .inl ⟨rfl, rfl⟩⟩
  | cons cs ls ih =>
    by_cases hfit : outBytes strflags cs ≤ left
    · -- the leaf is written, and the induction hypothesis speaks of the rest
      have hleaf := leafText_of_fits strflags hfit
      have hlen := charsText_length_le strflags cs
      obtain ⟨k, hk, hklen, hcase⟩ :=
        ih (show left - (charsText strflags cs).length ≤ 5 by omega)
      refine ⟨k + 1, Nat.succ_le_succ hk, ?_, ?_⟩
      · rw [List.take_succ_cons, List.flatten_cons, charsText_append, List.length_append]
        omega
      · rw [treeText, hleaf, List.take_succ_cons, List.flatten_cons, charsText_append,
          List.length_append, List.append_assoc, Nat.sub_add_eq]
        rcases hcase with ⟨rfl, heq⟩ | heq
        · exact .inl ⟨rfl, by rw [heq]⟩
        · exact .inr (by rw [heq])
    · -- the marker uses up all the bytes that are left
      cases cs with
      | nil => exact absurd (Nat.zero_le _) hfit
      | cons c cs =>
        have hover : left < outBytes strflags (c :: cs) := Nat.lt_of_not_le hfit
        have hcut := leafText_of_cut strflags (not_noDanger_of_le strflags h) hover
        have hmarker : (v8sTruncateMarker.take left).length = left := by
          rw [List.length_take, show v8sTruncateMarker.length = 5 from rfl]
          omega
        refine ⟨0, Nat.zero_le _, Nat.zero_le _, .inr ?_⟩
        rw [treeText, hcut, hmarker, Nat.sub_self, treeText_zero]
        simp

theorem marker_eq : v8sTruncateMarker = [91, 46, 46, 46, 93] := by decide

/-- A character that is announced to take two bytes begins with a backslash or a quote. -/
theorem charBytes_of_two {c : ℕ} (h : mdbv8StrbufNbytesforchar c strflags ≠ 1) :
    (strflags &&& msfJson == msfJson) = true ∧
      ((charBytes c strflags).head? = some 92 ∨ (charBytes c strflags).head? = some 34) := by
  unfold mdbv8StrbufNbytesforchar at h
  split at h
  · next hjson =>
    split at h
    · next hc =>
      have hsan : sanitized c strflags = c := by
        rcases hc with rfl | rfl | rfl | rfl | rfl <;> simp [sanitized, isascii]
      refine ⟨hjson, ?_⟩
      unfold charBytes
      rw [if_pos hjson, hsan]
      rcases hc with rfl | rfl | rfl | rfl | rfl
      · exact .inl rfl
      · exact .inl rfl
      · exact .inl rfl
      · exact .inl rfl
      · exact .inr rfl
    · exact absurd rfl h
  · exact absurd rfl h

/-- The characters that read as the marker take one byte each. -/
theorem nbytesforchar_of_marker {cs : List ℕ} (h : charsText strflags cs = v8sTruncateMarker) :
    ∀ c ∈ cs, mdbv8StrbufNbytesforchar c strflags = 1 := by
  intro c hc
  by_contra htwo
  have hmem : ∀ b, (charBytes c strflags).head? = some b → b ∈ v8sTruncateMarker := by
    intro b hb
    rw [← h]
    exact List.mem_flatten.mpr ⟨_, List.mem_map_of_mem hc, List.mem_of_mem_head? hb⟩
  rcases (charBytes_of_two strflags htwo).2 with hb | hb
  · exact absurd (hmem 92 hb) (by decide)
  · exact absurd (hmem 34 hb) (by decide)

theorem outBytes_eq_length {cs : List ℕ}
    (h : ∀ c ∈ cs, mdbv8StrbufNbytesforchar c strflags = 1) :
    outBytes strflags cs = (charsText strflags cs).length := by
  induction cs with
  | nil => rfl
  | cons c cs ih =>
    have hc := h c List.mem_cons_self
    have hpos := charBytes_length_pos c strflags
    have hle := charBytes_length_le c strflags
    rw [outBytes_cons, charsText_cons, List.length_append,
      ih fun d hd => h d (List.mem_cons_of_mem c hd)]
    omega

/-- Leaves that fit are written as they are, up to the one at which the buffer is full. -/
theorem treeText_of_full {ls : List (List ℕ)} {left k : ℕ}
    (hone : ∀ c ∈ (ls.take k).flatten, mdbv8StrbufNbytesforchar c strflags = 1)
    (hfull : (charsText strflags (ls.take k).flatten).length = left) :
    treeText strflags ls left = charsText strflags (ls.take k).flatten := by
  induction ls generalizing left k with
  | nil => simp [treeText]
  | cons cs ls ih =>
    cases k with
    | zero =>
      have h0 : left = 0 := by simpa using hfull.symm
      rw [h0, treeText_zero]
      rfl
    | succ k =>
      rw [List.take_succ_cons, List.flatten_cons] at hone hfull ⊢
      rw [charsText_append, List.length_append] at hfull
      have hcs := outBytes_eq_length strflags fun c hc => hone c (List.mem_append_left _ hc)
      rw [treeText, leafText_of_fits strflags (by omega), charsText_append,
        ih (fun c hc => hone c (List.mem_append_right _ hc)) (by omega)]

/-- In JSON, no character is printed as a NUL, and only a quote as a quote. -/
theorem charBytes_json (hjson : (strflags &&& msfJson == msfJson) = true) {c : ℕ}
    (hone : mdbv8StrbufNbytesforchar c strflags = 1) :
    ∃ x, charBytes c strflags = [x] ∧ x ≠ 0 ∧ x ≠ 34 := by
  have hne : ¬ (c = 8 ∨ c = 10 ∨ c = 13 ∨ c = 92 ∨ c = 34) := by
    intro hc
    simp [mdbv8StrbufNbytesforchar, hjson, hc] at hone
  push Not at hne
  have hascii : strflags &&& msfAsciionly != 0 := by
    have hand : strflags &&& msfJson = msfJson := by simpa using hjson
    have : strflags &&& msfAsciionly = msfAsciionly := by
      calc strflags &&& msfAsciionly
          = strflags &&& (msfJson &&& msfAsciionly) := rfl
        _ = msfJson &&& msfAsciionly := by rw [← Nat.and_assoc, hand]
        _ = msfAsciionly := rfl
    rw [this]
    rfl
  unfold charBytes sanitized
  rw [if_pos hjson, hascii, Bool.true_and]
  -- a character that is not ASCII is printed as a question mark
  cases hc : isascii c with
  | false => exact ⟨63, rfl, by decide, by decide⟩
  | true =>
    have hlt : c < 128 := by simpa [isascii] using hc
    simp only [Bool.not_true, Bool.false_eq_true, if_false]
    unfold jsonBytes
    rw [if_neg hne.1, if_neg hne.2.1, if_neg hne.2.2.1, if_neg hne.2.2.2.1, if_neg hne.2.2.2.2]
    -- and so is a control character
    cases hcntrl : iscntrl c with
    | true => exact ⟨63, rfl, by decide, by decide⟩
    | false =>
      have h32 : 32 ≤ c := by
        simp only [iscntrl, Bool.or_eq_false_iff, decide_eq_false_iff_not] at hcntrl
        omega
      refine ⟨UInt8.ofNat c, by simp, fun h0 => ?_, fun h34 => ?_⟩
      · have := congrArg UInt8.toNat h0
        simp at this
        omega
      · have := congrArg UInt8.toNat h34
        simp at this
        omega

/-- One byte that is left is filled, by a byte that is neither a NUL nor a quote. -/
theorem treeText_one (hjson : (strflags &&& msfJson == msfJson) = true) {ls : List (List ℕ)}
    (h : ls.flatten ≠ []) : ∃ x, treeText strflags ls 1 = [x] ∧ x ≠ 0 ∧ x ≠ 34 := by
  induction ls with
  | nil => exact absurd rfl h
  | cons cs ls ih =>
    cases cs with
    | nil => exact ih h
    | cons c cs =>
      have hc := mdbv8StrbufNbytesforchar_pos c strflags
      have hlen := length_le_outBytes strflags cs
      by_cases hfit : outBytes strflags (c :: cs) ≤ 1
      · rw [outBytes_cons] at hfit
        obtain rfl : cs = [] := List.eq_nil_of_length_eq_zero (by omega)
        obtain ⟨x, hx, hx0, hx34⟩ := charBytes_json strflags hjson (c := c) (by omega)
        refine ⟨x, ?_, hx0, hx34⟩
        rw [treeText, leafText_of_fits strflags (by rw [outBytes_cons]; omega)]
        simp [hx]
      · have hcut := leafText_of_cut strflags (not_noDanger_of_le strflags (by omega))
          (Nat.lt_of_not_le hfit)
        refine ⟨91, ?_, by decide, by decide⟩
        rw [treeText, hcut, marker_eq]
        simp

end Texts

/-! ### Where the flat string is cut off -/

/-- With `left` bytes left where a flat string is cut off, the rest `r` of the leaf there and the
leaves `later` behind it also leave the marker and nothing else:

* the rest of the leaf does not fit, so that it gets the marker, and that uses up what is left, or
  there are no characters behind the leaf;
* or the rest of the leaf does fit, and a leaf ends behind characters that read as the marker. -/
def CutAgrees (strflags : ℕ) (r : List ℕ) (later : List (List ℕ)) (left : ℕ) : Prop :=
  if left < outBytes strflags r then left = 5 ∨ later.flatten = []
  else ∃ k ≤ later.length, charsText strflags (r ++ (later.take k).flatten) = v8sTruncateMarker

/-- What is written instead of the marker can be told from it in the buffer, also when a quote and a
NUL follow. -/
def VisiblyDifferent (Y : List UInt8) : Prop :=
  Y.length ≤ 6 ∧ Y ≠ v8sTruncateMarker ∧ ∀ x, Y = v8sTruncateMarker ++ [x] → x ≠ 0 ∧ x ≠ 34

section Cut

variable {strflags left c : ℕ} {cs : List ℕ} {later : List (List ℕ)}

/-- A piece of the marker, completed by its own beginning, is the marker only when the piece is. -/
theorem marker_of_append {X : List UInt8} {n : ℕ} (hX : X ≠ [])
    (h : X ++ v8sTruncateMarker.take n = v8sTruncateMarker) : X = v8sTruncateMarker := by
  have hpre : X = v8sTruncateMarker.take X.length := by
    have := congrArg (List.take X.length) h
    rwa [List.take_left] at this
  have hsuf : v8sTruncateMarker.take n = v8sTruncateMarker.drop X.length := by
    have := congrArg (List.drop X.length) h
    rwa [List.drop_left] at this
  have hle : X.length ≤ 5 := by
    have := congrArg List.length h
    rw [List.length_append, show v8sTruncateMarker.length = 5 from rfl] at this
    omega
  have hpos := List.length_pos_iff.mpr hX
  generalize X.length = i at *
  -- a proper end of the marker is not a beginning of it
  have hfull : i = 5 := by
    by_contra hne
    have hn : n = 5 - i ∨ 5 ≤ n := by
      have := congrArg List.length hsuf
      rw [List.length_take, List.length_drop, show v8sTruncateMarker.length = 5 from rfl] at this
      omega
    have hlt : i ≤ 4 := by omega
    rw [marker_eq] at hsuf
    rcases hn with rfl | hn
    · interval_cases i <;> simp at hsuf
    · rw [List.take_of_length_le (by simpa using hn)] at hsuf
      interval_cases i <;> simp at hsuf
  rw [hpre, hfull]
  rfl

/-- **The cut.** Where the flat string gets the marker, the tree gets the marker and nothing else, or
something that can be told from it. -/
theorem cutAgrees_or (hnd : ¬ NoDanger strflags left c) (h5 : 5 ≤ left)
    (hlong : left < outBytes strflags (c :: cs ++ later.flatten)) {Y : List UInt8}
    (hY : Y = leafText strflags (c :: cs) left ++
      treeText strflags later (left - (leafText strflags (c :: cs) left).length)) :
    (CutAgrees strflags (c :: cs) later left → Y = v8sTruncateMarker) ∧
      (¬ CutAgrees strflags (c :: cs) later left → VisiblyDifferent Y) := by
  have hw := mdbv8StrbufNbytesforchar_le c strflags
  -- near the end there is hardly any room, and only a few bytes are left to compare
  have h6 : left ≤ 6 := by
    unfold NoDanger at hnd
    rw [show v8sTruncateMarkerBytes = 5 from rfl] at hnd
    omega
  have hYlen : Y.length ≤ 6 := by
    have h1 := leafText_length_le strflags (c :: cs) left
    have h2 := treeText_length_le strflags later (left - (leafText strflags (c :: cs) left).length)
    rw [hY, List.length_append]
    omega
  unfold CutAgrees
  by_cases hleaf : left < outBytes strflags (c :: cs)
  · -- the leaf gets the marker, and at most one byte is left behind it
    have hmarker : v8sTruncateMarker.take left = v8sTruncateMarker :=
      List.take_of_length_le (show v8sTruncateMarker.length ≤ left from h5)
    rw [leafText_of_cut strflags hnd hleaf, hmarker, show v8sTruncateMarker.length = 5 from rfl] at hY
    simp only [if_pos hleaf]
    rcases Nat.lt_or_ge 5 left with hgt | hle
    · -- a character that is in danger with six bytes left takes two of them
      obtain rfl : left = 6 := by omega
      have htwo : mdbv8StrbufNbytesforchar c strflags ≠ 1 := fun hone => by
        unfold NoDanger at hnd
        rw [hone] at hnd
        exact hnd (by decide)
      refine ⟨?_, fun hno => ?_⟩
      · rintro (h | h)
        · exact absurd h (by norm_num)
        · rw [hY, treeText_of_flatten_nil strflags h, List.append_nil]
      · push Not at hno
        obtain ⟨x, hx, hx0, hx34⟩ := treeText_one strflags (charBytes_of_two strflags htwo).1 hno.2
        rw [hx] at hY
        refine ⟨hYlen, fun heq => ?_, fun y hy => ?_⟩
        · rw [hY] at heq
          have := congrArg List.length heq
          simp at this
        · rw [hY] at hy
          obtain rfl : x = y := by simpa using hy
          exact ⟨hx0, hx34⟩
    · -- with five bytes left, the marker is all there is
      obtain rfl : left = 5 := by omega
      rw [Nat.sub_self, treeText_zero, List.append_nil] at hY
      exact ⟨fun _ => hY, fun hno => absurd (.inl rfl) hno⟩
  · -- the leaf is written, and with it as much of the rest as fits
    have hfits : outBytes strflags (c :: cs) ≤ left := Nat.le_of_not_lt hleaf
    have hone := charBytes_length_pos c strflags
    have hcs := charsText_length_le strflags (c :: cs)
    rw [leafText_of_fits strflags hfits] at hY
    simp only [if_neg hleaf]
    constructor
    · -- the rest could only write the marker itself
      rintro ⟨k, -, hk⟩
      have hones := nbytesforchar_of_marker strflags hk
      have hc1 := hones c (by simp)
      obtain rfl : left = 5 := by
        unfold NoDanger at hnd
        rw [show v8sTruncateMarkerBytes = 5 from rfl] at hnd
        omega
      have hlen := congrArg List.length hk
      rw [charsText_append, List.length_append, show v8sTruncateMarker.length = 5 from rfl] at hlen
      rw [hY, treeText_of_full strflags (k := k)
        (fun d hd => hones d (List.mem_append_right _ hd)) (by omega), ← charsText_append, hk]
    · intro hno
      have hrest : left - (charsText strflags (c :: cs)).length ≤ 5 := by
        rw [charsText_cons, List.length_append]
        omega
      obtain ⟨k, hk, hklen, hcase⟩ := treeText_small strflags later hrest
      -- the characters written before the marker, if any marker is written
      have hXne : charsText strflags (c :: cs ++ (later.take k).flatten) ≠ [] := by
        intro h0
        have := congrArg List.length h0
        rw [charsText_append, charsText_cons, List.length_append, List.length_append] at this
        simp only [List.length_nil] at this
        omega
      have hXno : charsText strflags (c :: cs ++ (later.take k).flatten) ≠ v8sTruncateMarker :=
        fun heq => hno ⟨k, hk, heq⟩
      have hcaseY : Y = charsText strflags (c :: cs ++ (later.take k).flatten) ∨
          ∃ n, Y = charsText strflags (c :: cs ++ (later.take k).flatten) ++
            v8sTruncateMarker.take n := by
        rw [charsText_append]
        rcases hcase with ⟨-, heq⟩ | heq
        · exact .inl (by rw [hY, heq])
        · exact .inr ⟨_, by rw [hY, heq, List.append_assoc]⟩
      -- what is there is not the marker, nor the marker and a byte
      refine ⟨hYlen, ?_, fun x hx => ?_⟩
      · rcases hcaseY with heq | ⟨n, heq⟩
        · rw [heq]
          exact hXno
        · rw [heq]
          exact fun h => hXno (marker_of_append hXne h)
      · -- six bytes fit only where the first character takes two, and so is not a bracket
        exfalso
        have hYle : Y.length ≤ left := by
          have h2 := treeText_length_le strflags later (left - (charsText strflags (c :: cs)).length)
          rw [hY, List.length_append]
          omega
        have hYlen6 := congrArg List.length hx
        rw [List.length_append, List.length_singleton,
          show v8sTruncateMarker.length = 5 from rfl] at hYlen6
        have htwo : mdbv8StrbufNbytesforchar c strflags ≠ 1 := fun h1 => by
          unfold NoDanger at hnd
          rw [h1, show v8sTruncateMarkerBytes = 5 from rfl] at hnd
          omega
        have hhead : Y.head? = (charBytes c strflags).head? := by
          rw [hY, charsText_cons, List.append_assoc, List.head?_append_of_ne_nil]
          exact List.length_pos_iff.mp hone
        rw [hx, marker_eq] at hhead
        rcases (charBytes_of_two strflags htwo).2 with hb | hb <;> rw [hb] at hhead <;> simp at hhead

end Cut

/-- The leaves of a tree, of which `cur` is what is left of the first one, are written as the flat
string is, into a buffer with room for `left` bytes: the flat string is not cut off, or the tree
agrees where it is. -/
def LeavesAgree (strflags : ℕ) (cur : List ℕ) (later : List (List ℕ)) (left : ℕ) : Prop :=
  match cur, later with
  | [], [] => True
  | [], cs :: later => LeavesAgree strflags cs later left
  | c :: cs, later =>
    if NoDanger strflags left c then
      LeavesAgree strflags cs later (left - (charBytes c strflags).length)
    else if outBytes strflags (c :: cs ++ later.flatten) ≤ left then True
    else CutAgrees strflags (c :: cs) later left
termination_by (later.length, cur.length)

section Agree

variable (strflags : ℕ)

/-- Leaves that fit are written as they are. -/
theorem treeText_of_fits {ls : List (List ℕ)} {left : ℕ}
    (h : outBytes strflags ls.flatten ≤ left) :
    treeText strflags ls left = charsText strflags ls.flatten := by
  induction ls generalizing left with
  | nil => rfl
  | cons cs ls ih =>
    have hlen := charsText_length_le strflags cs
    rw [List.flatten_cons, outBytes_append] at h
    rw [treeText, leafText_of_fits strflags (by omega), ih (by omega), List.flatten_cons,
      charsText_append]

/-- **Trees and flat strings**, as texts: they are the same where `LeavesAgree` holds, and visibly
different where it does not. The induction goes through the characters up to the cut. -/
theorem leavesAgree_or (cur : List ℕ) (later : List (List ℕ)) {left : ℕ} (h5 : 5 ≤ left) :
    (LeavesAgree strflags cur later left →
      treeText strflags (cur :: later) left = leafText strflags (cur ++ later.flatten) left) ∧
    (¬ LeavesAgree strflags cur later left →
      ∃ pre Z, leafText strflags (cur ++ later.flatten) left = pre ++ v8sTruncateMarker ∧
        treeText strflags (cur :: later) left = pre ++ Z ∧ VisiblyDifferent Z) := by
  match cur, later with
  | [], [] =>
    refine ⟨fun _ => rfl, fun hno => absurd ?_ hno⟩
    rw [LeavesAgree]
    trivial
  | [], cs :: later =>
    rw [LeavesAgree, List.nil_append, List.flatten_cons]
    exact leavesAgree_or cs later h5
  | c :: cs, later =>
    have hb := charBytes_length_le c strflags
    rw [LeavesAgree]
    by_cases hnd : NoDanger strflags left c
    · -- both write the character
      have h5' : 5 ≤ left - (charBytes c strflags).length := by
        unfold NoDanger at hnd
        rw [show v8sTruncateMarkerBytes = 5 from rfl] at hnd
        omega
      have ih := leavesAgree_or cs later h5'
      have hleaf : ∀ ds, leafText strflags (c :: ds) left = charBytes c strflags ++
          leafText strflags ds (left - (charBytes c strflags).length) := fun ds => by
        rw [leafText, if_pos (.inl hnd)]
      have htree : treeText strflags ((c :: cs) :: later) left = charBytes c strflags ++
          treeText strflags (cs :: later) (left - (charBytes c strflags).length) := by
        rw [treeText, hleaf, treeText, List.append_assoc, List.length_append, Nat.sub_add_eq]
      rw [if_pos hnd, List.cons_append, hleaf, htree]
      refine ⟨fun h => by rw [ih.1 h], fun hno => ?_⟩
      obtain ⟨pre, Z, hF, hT, hZ⟩ := ih.2 hno
      exact ⟨charBytes c strflags ++ pre, Z, by rw [hF, List.append_assoc],
        by rw [hT, List.append_assoc], hZ⟩
    · rw [if_neg hnd]
      by_cases hfit : outBytes strflags (c :: cs ++ later.flatten) ≤ left
      · -- everything fits
        rw [if_pos hfit]
        refine ⟨fun _ => ?_, fun hno => absurd trivial hno⟩
        have htree : treeText strflags ((c :: cs) :: later) left =
            charsText strflags ((c :: cs) :: later).flatten := treeText_of_fits strflags hfit
        rw [htree, leafText_of_fits strflags hfit]
        rfl
      · -- the flat string is cut off here
        rw [if_neg hfit]
        have hlong := Nat.lt_of_not_le hfit
        have hcut := leafText_of_cut strflags hnd hlong
        have hmarker : v8sTruncateMarker.take left = v8sTruncateMarker :=
          List.take_of_length_le (show v8sTruncateMarker.length ≤ left from h5)
        obtain ⟨hyes, hno⟩ := cutAgrees_or hnd h5 hlong (Y := treeText strflags ((c :: cs) :: later)
          left) rfl
        refine ⟨fun h => ?_, fun h => ⟨[], _, ?_, rfl, hno h⟩⟩
        · rw [hyes h]
          exact (hcut.trans hmarker).symm
        · exact hcut.trans hmarker
termination_by (later.length, cur.length)

/-- A tree that fits agrees with the flat string. -/
theorem leavesAgree_of_fits (cur : List ℕ) (later : List (List ℕ)) {left : ℕ}
    (h : outBytes strflags (cur ++ later.flatten) ≤ left) :
    LeavesAgree strflags cur later left := by
  match cur, later with
  | [], [] =>
    rw [LeavesAgree]
    trivial
  | [], cs :: later =>
    rw [LeavesAgree]
    exact leavesAgree_of_fits cs later h
  | c :: cs, later =>
    have hb := charBytes_length_le c strflags
    rw [List.cons_append, outBytes_cons] at h
    rw [LeavesAgree]
    by_cases hnd : NoDanger strflags left c
    · rw [if_pos hnd]
      exact leavesAgree_of_fits cs later (by omega)
    · rw [if_neg hnd, if_pos (by rw [List.cons_append, outBytes_cons]; exact h)]
      trivial
termination_by (later.length, cur.length)

/-- A flat string is written whole, or a part of it with the marker behind. -/
theorem leafText_shape (cs : List ℕ) {left : ℕ} (h5 : 5 ≤ left) :
    leafText strflags cs left = charsText strflags cs ∨
      ∃ k, leafText strflags cs left = charsText strflags (cs.take k) ++ v8sTruncateMarker := by
  induction cs generalizing left with
  | nil => exact .inl rfl
  | cons c cs ih =>
    have hb := charBytes_length_le c strflags
    by_cases hnd : NoDanger strflags left c
    · have h5' : 5 ≤ left - (charBytes c strflags).length := by
        unfold NoDanger at hnd
        rw [show v8sTruncateMarkerBytes = 5 from rfl] at hnd
        omega
      rw [leafText, if_pos (.inl hnd)]
      rcases ih h5' with h | ⟨k, h⟩
      · exact .inl (by rw [h, charsText_cons])
      · exact .inr ⟨k + 1, by rw [h, List.take_succ_cons, charsText_cons, List.append_assoc]⟩
    · by_cases hfit : outBytes strflags (c :: cs) ≤ left
      · exact .inl (leafText_of_fits strflags hfit)
      · refine .inr ⟨0, ?_⟩
        rw [leafText_of_cut strflags hnd (Nat.lt_of_not_le hfit), List.take_zero, charsText_nil]
        exact List.take_of_length_le (show v8sTruncateMarker.length ≤ left from h5)

end Agree

/-! ### In the buffer -/

theorem treeOut_text {bits : ℕ} (strflags : ℕ) (leaves : List (List ℕ)) {s : Strbuf}
    (hs : s.Sized bits) :
    (treeOut bits strflags leaves s).text = s.text ++ treeText strflags leaves s.room ∧
      s.Appends (treeOut bits strflags leaves s) := by
  induction leaves generalizing s with
  | nil => exact ⟨by simp [treeOut, treeText], .refl s⟩
  | cons cs leaves ih =>
    have happ : s.Appends (leafOut bits strflags cs s) := chunkOut_appends bits strflags true cs s
    obtain ⟨htext, hroom⟩ := leafOut_text strflags cs hs
    obtain ⟨ihtext, ihapp⟩ := ih (hs.of_grows happ.grows)
    refine ⟨?_, happ.trans ihapp⟩
    change (treeOut bits strflags leaves (leafOut bits strflags cs s)).text = _
    rw [ihtext, htext, hroom, treeText, List.append_assoc]

/-- The bytes of an array after a text and a NUL have been stored from index `i` on. -/
def overwrite (bytes : ℕ → UInt8) (i : ℕ) (T : List UInt8) : ℕ → UInt8 := fun j =>
  if j < i then bytes j else (T ++ [0]).getD (j - i) (bytes j)

/-- What is in the array of a buffer is determined by its text. -/
theorem Strbuf.Grows.bytes_eq {s s' : Strbuf} (h : s.Grows s') (hnul : s.mem.bytes s.curbuf = 0)
    {T : List UInt8} (htext : s'.text = s.text ++ T) :
    s'.mem.bytes = overwrite s.mem.bytes s.curbuf T := by
  have hcur : s'.curbuf = s.curbuf + T.length := by
    have := congrArg List.length htext
    simpa [Strbuf.text] using this
  funext j
  unfold overwrite
  by_cases hj : j < s.curbuf
  · rw [if_pos hj]
    exact h.before j hj
  · rw [if_neg hj]
    obtain ⟨m, rfl⟩ : ∃ m, j = s.curbuf + m := ⟨j - s.curbuf, by omega⟩
    rw [Nat.add_sub_cancel_left]
    rcases Nat.lt_trichotomy m T.length with hm | rfl | hm
    · -- inside the text
      have hget := congrArg (fun l => l.getD (s.curbuf + m) 0) htext
      have hlt : s.curbuf + m < s'.curbuf := by omega
      simp only [Strbuf.text, CharMem.upTo, List.getD_eq_getElem?_getD] at hget
      rw [List.getElem?_append_right (by simp)] at hget
      rw [List.getD_append _ _ _ _ hm]
      simpa [hlt, hm] using hget
    · -- the NUL
      rw [List.getD_append_right _ _ _ _ (le_refl _), Nat.sub_self, ← hcur]
      exact h.nul hnul
    · rw [List.getD_eq_default _ _ (by simp; omega)]
      exact h.after _ (by omega)

/-- Looking up in the second of two lists. -/
theorem getD_append_add (xs ys : List UInt8) (m : ℕ) (d : UInt8) :
    (xs ++ ys).getD (xs.length + m) d = ys.getD m d := by
  rw [List.getD_append_right _ _ _ _ (Nat.le_add_right _ _), Nat.add_sub_cancel_left]

/-- Equal arrays have equal bytes behind a text that both begin with. -/
theorem getD_of_overwrite {bytes : ℕ → UInt8} {i : ℕ} {p X Y q : List UInt8}
    (h : overwrite bytes i (p ++ X ++ q) = overwrite bytes i (p ++ Y ++ q)) (m : ℕ) :
    (X ++ (q ++ [0])).getD m (bytes (i + p.length + m)) =
      (Y ++ (q ++ [0])).getD m (bytes (i + p.length + m)) := by
  have hm := congrFun h (i + p.length + m)
  unfold overwrite at hm
  rw [if_neg (by omega), if_neg (by omega), Nat.add_assoc, Nat.add_sub_cancel_left] at hm
  have hassoc : ∀ Y, p ++ Y ++ q ++ [0] = p ++ (Y ++ (q ++ [0])) := fun Y => by simp
  rw [hassoc, hassoc, getD_append_add, getD_append_add] at hm
  rw [Nat.add_assoc]
  exact hm

/-- A visible difference is one in the buffer. -/
theorem VisiblyDifferent.overwrite_ne {Z q : List UInt8} (hZ : VisiblyDifferent Z)
    (hq : q = [] ∨ q = [34]) (bytes : ℕ → UInt8) (i : ℕ) (pre : List UInt8) :
    overwrite bytes i (q ++ (pre ++ Z) ++ q) ≠
      overwrite bytes i (q ++ (pre ++ v8sTruncateMarker) ++ q) := by
  intro heq
  obtain ⟨hlen, hne, hsix⟩ := hZ
  -- compare the two from the place of the marker on
  have hassoc : ∀ Y, q ++ (pre ++ Y) ++ q = (q ++ pre) ++ Y ++ q := fun Y => by simp
  rw [hassoc, hassoc] at heq
  have hget := getD_of_overwrite heq
  have hend : ∀ d, (q ++ [0]).getD 0 d = 34 ∨ (q ++ [0]).getD 0 d = 0 := fun d => by
    rcases hq with rfl | rfl
    · exact .inr rfl
    · exact .inl rfl
  have hmarker : v8sTruncateMarker.length = 5 := rfl
  rcases Nat.lt_or_ge Z.length 5 with hshort | hlong
  · -- a quote or a NUL where the marker has another byte
    have h := hget (Z.length + 0)
    rw [getD_append_add, List.getD_append v8sTruncateMarker _ _ _ (by omega), marker_eq,
      Nat.add_zero] at h
    have hbyte : ∀ d, ([91, 46, 46, 46, 93] : List UInt8).getD Z.length d ∉ ([34, 0] : List UInt8) := by
      intro d
      generalize Z.length = k at hshort
      interval_cases k <;> simp
    refine hbyte (bytes (i + (q ++ pre).length + Z.length)) ?_
    rw [← h]
    rcases hend (bytes (i + (q ++ pre).length + Z.length)) with h0 | h0 <;> rw [h0] <;> simp
  · have htake : Z.take 5 = v8sTruncateMarker := by
      apply List.ext_getElem
      · rw [List.length_take, hmarker, min_eq_left hlong]
      · intro m hm hm'
        have h := hget m
        rw [List.length_take, min_eq_left hlong] at hm
        rw [List.getD_append _ _ _ _ (by omega), List.getD_append _ _ _ _ hm',
          List.getD_eq_getElem _ _ (by omega), List.getD_eq_getElem _ _ hm'] at h
        rw [List.getElem_take]
        exact h
    rcases Nat.lt_or_ge 5 Z.length with hgt | hle
    · -- a sixth byte that is neither a quote nor a NUL
      obtain ⟨x, hx⟩ : ∃ x, Z = v8sTruncateMarker ++ [x] := by
        have hdrop : (Z.drop 5).length = 1 := by
          rw [List.length_drop]
          omega
        obtain ⟨x, hx⟩ := List.length_eq_one_iff.mp hdrop
        exact ⟨x, by rw [← htake, ← hx, List.take_append_drop]⟩
      have h := hget (v8sTruncateMarker.length + 0)
      rw [hx, List.append_assoc, getD_append_add, getD_append_add] at h
      have hx0 := hsix x hx
      rcases hend (bytes (i + (q ++ pre).length + (v8sTruncateMarker.length + 0))) with h0 | h0
      · exact hx0.2 (h.trans h0)
      · exact hx0.1 (h.trans h0)
    · exact hne (by rw [← htake, List.take_of_length_le hle])

/-! ### Writing into a fresh buffer -/

/-- The quote around a string that is to be quoted. -/
def quoteText (v8flags : ℕ) : List UInt8 := if quotedFlag v8flags then [34] else []

/-- The bytes that a fresh buffer of `n` bytes has for what stands between the quotes. -/
def freshRoom (n v8flags : ℕ) : ℕ := if quotedFlag v8flags then n - 3 else n - 1

section Fresh

variable (t : Target) (strflags : ℕ)

theorem charBytes_quote : charBytes 34 strflags = [34] := by
  have hsan : sanitized 34 strflags = 34 := by simp [sanitized, isascii]
  unfold charBytes
  rw [hsan]
  split <;> rfl

/-- Holding back a byte takes it from the room of a buffer. -/
theorem Strbuf.room_reserve_one {bits : ℕ} {s : Strbuf} (hs : s.Sized bits) (hroom : 1 ≤ s.room) :
    (mdbv8StrbufReserve bits s 1).room = s.room - 1 ∧
      (mdbv8StrbufReserve bits s 1).reservesz = s.reservesz + 1 := by
  have hcast : (2 : ℤ) ^ bits = ((2 ^ bits : ℕ) : ℤ) := by push_cast; rfl
  have hsize := hs.2
  unfold room at hroom
  have hres : (mdbv8StrbufReserve bits s 1).reservesz = s.reservesz + 1 := by
    simp only [mdbv8StrbufReserve]
    rw [hcast, Int.emod_eq_of_lt (by omega) (by omega)]
    omega
  refine ⟨?_, hres⟩
  unfold room
  rw [hres]
  exact Nat.sub_add_eq _ _ _

/-- Giving it back adds it to the room. -/
theorem Strbuf.room_reserve_neg_one {bits : ℕ} {s : Strbuf} {r : ℕ} (hs : s.Sized bits)
    (hres : s.reservesz = r + 1) (hlt : r + 1 < s.curbufsz) :
    (mdbv8StrbufReserve bits s (-1)).room = s.room + 1 := by
  have hcast : (2 : ℤ) ^ bits = ((2 ^ bits : ℕ) : ℤ) := by push_cast; rfl
  have hsize := hs.2
  have hback : (mdbv8StrbufReserve bits s (-1)).reservesz = r := by
    simp only [mdbv8StrbufReserve, hres]
    rw [hcast, Int.emod_eq_of_lt (by push_cast; omega) (by push_cast; omega)]
    push_cast
    omega
  unfold room
  rw [hback, hres]
  change s.curbufsz - 1 - r = _
  omega

/-- A quote for which there is room. -/
theorem Strbuf.appendc_quote {s : Strbuf} (hroom : 1 ≤ s.room) :
    (mdbv8StrbufAppendc s 34 strflags).text = s.text ++ [34] ∧
      (mdbv8StrbufAppendc s 34 strflags).room = s.room - 1 := by
  rw [mdbv8StrbufAppendc_eq, charBytes_quote, sprintf_text, sprintf_room,
    List.take_of_length_le (show ([34] : List UInt8).length ≤ s.room from hroom)]
  exact ⟨rfl, rfl⟩

/-- **Quotes.** If the representation of a string adds a text that depends on the room of the buffer,
then the string adds its quotes and that text between them. A byte is held back for the second one. -/
theorem v8stringWrite_text {strp : V8String} {v8flags : ℕ}
    (hdepth : jsstrDepth v8flags ≤ jsstrMaxdepth) {T : ℕ → List UInt8}
    (hlen : ∀ left, (T left).length ≤ left)
    (hrep : ∀ s : Strbuf, s.Sized t.cfg.bits → ∃ s',
      writeRep t (v8stringWriteN t (jsstrMaxdepth + 1)) strp s strflags
        (innerFlags t.cfg strp.type v8flags) = (0, s') ∧ s.Appends s' ∧
        s'.text = s.text ++ T s.room)
    {strb : Strbuf} (hsize : strb.Sized t.cfg.bits)
    (hroom : 2 * (quoteText v8flags).length ≤ strb.room) :
    ∃ s', v8stringWrite t strp strb strflags v8flags = (0, s') ∧ strb.Grows s' ∧
      s'.text = strb.text ++ (quoteText v8flags ++
        T (strb.room - 2 * (quoteText v8flags).length) ++ quoteText v8flags) := by
  have hshallow : ¬ jsstrMaxdepth < jsstrDepth v8flags := not_lt.mpr hdepth
  unfold v8stringWrite
  cases hq : quotedFlag v8flags with
  | false =>
    have hnone : quoteText v8flags = [] := by simp [quoteText, hq]
    obtain ⟨s', hrun, happ, htext⟩ := hrep strb hsize
    refine ⟨s', (v8stringWriteN_nude t hshallow hq strp strb strflags).trans hrun, happ.grows, ?_⟩
    simpa [hnone] using htext
  | true =>
    have hone : quoteText v8flags = [34] := by simp [quoteText, hq]
    rw [hone] at hroom ⊢
    change 2 ≤ strb.room at hroom
    set s₁ := mdbv8StrbufAppendc strb 34 strflags with hs₁
    set s₂ := mdbv8StrbufReserve t.cfg.bits s₁ 1 with hs₂
    -- the first quote, and the byte that is held back
    have hgrows₁ : strb.Grows s₁ := Strbuf.grows_appendc strb 34 strflags
    have hsized₁ := hsize.of_grows hgrows₁
    obtain ⟨htext₁, hroom₁⟩ := Strbuf.appendc_quote strflags (s := strb) (by omega)
    rw [← hs₁] at htext₁ hroom₁
    obtain ⟨hroom₂, hres₂⟩ := Strbuf.room_reserve_one hsized₁ (by omega)
    rw [← hs₂] at hroom₂ hres₂
    have hsized₂ : s₂.Sized t.cfg.bits := hsized₁
    -- the string
    obtain ⟨s₃, hrun, happ₃, htext₃⟩ := hrep s₂ hsized₂
    have hbody := hlen s₂.room
    have hcur₃ : s₃.curbufsz + (T s₂.room).length = s₁.curbufsz := by
      have hend : s₃.curbuf + s₃.curbufsz = s₂.curbuf + s₁.curbufsz := happ₃.grows.end_eq
      have hl := congrArg List.length htext₃
      have hlength : ∀ x : Strbuf, x.text.length = x.curbuf := fun x => CharMem.upTo_length _ _
      rw [List.length_append, hlength, hlength] at hl
      omega
    have hres₃ : s₃.reservesz = s₁.reservesz + 1 := happ₃.reservesz_eq.trans hres₂
    -- the byte is given back, for the second quote
    set s₄ := mdbv8StrbufReserve t.cfg.bits s₃ (-1) with hs₄
    have hroom₁' : s₁.room = s₁.curbufsz - 1 - s₁.reservesz := rfl
    have hroom₄ := Strbuf.room_reserve_neg_one (hsized₂.of_grows happ₃.grows) hres₃ (by omega)
    rw [← hs₄] at hroom₄
    obtain ⟨htext₄, -⟩ := Strbuf.appendc_quote strflags (s := s₄) (by omega)
    refine ⟨_, v8stringWriteN_quoted t hshallow hq strp strb strflags hrun, ?_, ?_⟩
    · exact hgrows₁.trans ((Strbuf.grows_reserve _ _ _).trans (happ₃.grows.trans
        ((Strbuf.grows_reserve _ _ _).trans (Strbuf.grows_appendc s₄ 34 strflags))))
    · have hsame₂ : s₂.text = s₁.text := rfl
      have hsame₄ : s₄.text = s₃.text := rfl
      have hleft : s₂.room = strb.room - 2 * ([34] : List UInt8).length := by
        rw [List.length_singleton]
        omega
      rw [← hs₄, htext₄, hsame₄, htext₃, hsame₂, htext₁, hleft]
      simp

/-- A tree, by its representation. -/
theorem writeRep_tree_text {addr d : ℕ} {leaves : List (List ℕ)} (h : StringTree t addr d leaves)
    {strp : V8String} (hload : v8stringLoad t addr = some strp) {v8flags : ℕ}
    (hdepth : jsstrDepth v8flags + 2 * d ≤ jsstrMaxdepth) (s : Strbuf) (hs : s.Sized t.cfg.bits) :
    ∃ s', writeRep t (v8stringWriteN t (jsstrMaxdepth + 1)) strp s strflags
        (innerFlags t.cfg strp.type v8flags) = (0, s') ∧ s.Appends s' ∧
      s'.text = s.text ++ treeText strflags leaves s.room := by
  have hmax : jsstrMaxdepth = 512 := rfl
  obtain ⟨htext, happ⟩ := treeOut_text strflags leaves hs
  exact ⟨_, writeRep_tree t h hload hdepth (by omega) s strflags, happ, htext⟩

/-- A fresh buffer has the room that `freshRoom` says. -/
theorem room_fresh (mem : CharMem) (buf n v8flags : ℕ) :
    (mdbv8StrbufInit mem buf n).room - 2 * (quoteText v8flags).length = freshRoom n v8flags := by
  have hroom : (mdbv8StrbufInit mem buf n).room = n - 1 := rfl
  unfold quoteText freshRoom
  rw [hroom]
  split
  · exact Nat.sub_sub _ _ _
  · rfl

/-- **A fresh buffer**: the quotes, and what the representation adds between them. -/
theorem v8stringWrite_fresh {strp : V8String} {v8flags : ℕ}
    (hdepth : jsstrDepth v8flags ≤ jsstrMaxdepth) {T : ℕ → List UInt8}
    (hlen : ∀ left, (T left).length ≤ left)
    (hrep : ∀ s : Strbuf, s.Sized t.cfg.bits → ∃ s',
      writeRep t (v8stringWriteN t (jsstrMaxdepth + 1)) strp s strflags
        (innerFlags t.cfg strp.type v8flags) = (0, s') ∧ s.Appends s' ∧
        s'.text = s.text ++ T s.room)
    (mem : CharMem) (buf : ℕ) {n : ℕ} (h3 : 3 ≤ n) (hn : n < 2 ^ t.cfg.bits) :
    ∃ s', v8stringWrite t strp (mdbv8StrbufInit mem buf n) strflags v8flags = (0, s') ∧
      (mdbv8StrbufInit mem buf n).Grows s' ∧
      s'.text = (mdbv8StrbufInit mem buf n).text ++
        (quoteText v8flags ++ T (freshRoom n v8flags) ++ quoteText v8flags) := by
  have hsized : (mdbv8StrbufInit mem buf n).Sized t.cfg.bits :=
    ⟨show 0 < n by omega, show n ≤ _ by omega⟩
  have hroom : 2 * (quoteText v8flags).length ≤ (mdbv8StrbufInit mem buf n).room := by
    change _ ≤ n - 1
    unfold quoteText
    split
    · rw [List.length_singleton]
      omega
    · exact Nat.zero_le _
  rw [← room_fresh mem buf]
  exact v8stringWrite_text t strflags hdepth hlen hrep hsized hroom

/-- **A tree in a fresh buffer**: its quotes and what its leaves add between them. -/
theorem v8stringWrite_tree {addr d : ℕ} {leaves : List (List ℕ)} (h : StringTree t addr d leaves)
    {strp : V8String} (hload : v8stringLoad t addr = some strp) (hd : d ≤ 255) {v8flags : ℕ}
    (hdepth : jsstrDepth v8flags = 0) (mem : CharMem) (buf : ℕ) {n : ℕ} (h8 : 8 ≤ n)
    (hn : n < 2 ^ t.cfg.bits) :
    ∃ s', v8stringWrite t strp (mdbv8StrbufInit mem buf n) strflags v8flags = (0, s') ∧
      (mdbv8StrbufInit mem buf n).Grows s' ∧
      s'.text = (mdbv8StrbufInit mem buf n).text ++
        (quoteText v8flags ++ treeText strflags leaves (freshRoom n v8flags) ++
          quoteText v8flags) := by
  have hmax : jsstrMaxdepth = 512 := rfl
  exact v8stringWrite_fresh t strflags (by omega) (treeText_length_le strflags leaves)
    (writeRep_tree_text t strflags h hload (by omega)) mem buf (by omega) hn

/-- The flat sequential string at an address can be read, and `cs` are its characters. -/
structure FlatString (t : Target) (addr : ℕ) (strp : V8String) (cs : List ℕ) : Prop where
  load : v8stringLoad t addr = some strp
  seq : t.cfg.strrepSeq strp.type = true
  read : ReadsChars t addr (t.cfg.strencAscii strp.type) 0 strp.len cs

/-- Two ways to write the characters `cs` into a buffer with the text `base` give the same result
and leave the same bytes, and the text is complete, or ends in the whole marker, with nothing behind
it but the closing quote `q`. -/
def PrintsAlike (strflags : ℕ) (cs : List ℕ) (base q : List UInt8) (out out' : ℤ × Strbuf) : Prop :=
  out.1 = out'.1 ∧ out.2.mem.bytes = out'.2.mem.bytes ∧
    (out.2.text = base ++ (q ++ charsText strflags cs ++ q) ∨
      ∃ k, out.2.text = base ++ (q ++ (charsText strflags (cs.take k) ++ v8sTruncateMarker) ++ q))

theorem freshRoom_ge {n : ℕ} (h8 : 8 ≤ n) (v8flags : ℕ) : 5 ≤ freshRoom n v8flags := by
  unfold freshRoom
  split <;> omega

variable {t} {t' : Target}

/-- **Printing a string does not depend on its representation**, in a fresh buffer of at least
eight bytes, exactly when its leaves agree with the flat string in the room of the buffer. -/
theorem printsAlike_iff (hmodel : t'.cfg.model = t.cfg.model) {addr d : ℕ} {leaves : List (List ℕ)}
    (htree : StringTree t addr d leaves) (hd : d ≤ 255) {strp : V8String}
    (hload : v8stringLoad t addr = some strp) {addr' : ℕ} {strp' : V8String}
    (hflat : FlatString t' addr' strp' leaves.flatten) (mem : CharMem) (buf : ℕ) {n : ℕ}
    (h8 : 8 ≤ n) (hn : n < 2 ^ t.cfg.bits) {v8flags : ℕ} (hdepth : jsstrDepth v8flags = 0) :
    PrintsAlike strflags leaves.flatten (mdbv8StrbufInit mem buf n).text (quoteText v8flags)
        (v8stringWrite t strp (mdbv8StrbufInit mem buf n) strflags v8flags)
        (v8stringWrite t' strp' (mdbv8StrbufInit mem buf n) strflags v8flags) ↔
      LeavesAgree strflags [] leaves (freshRoom n v8flags) := by
  have h5 := freshRoom_ge h8 v8flags
  have hbits : t'.cfg.bits = t.cfg.bits := by rw [Config.bits, hmodel]
  have hseq : StringTree t' addr' 0 [leaves.flatten] := .seq hflat.load hflat.seq hflat.read
  -- both strings are written into a fresh buffer
  obtain ⟨s₁, hw₁, hg₁, htext₁⟩ := v8stringWrite_tree t strflags htree hload hd hdepth mem buf h8 hn
  obtain ⟨s₂, hw₂, hg₂, htext₂⟩ := v8stringWrite_tree t' strflags hseq hflat.load (by norm_num)
    hdepth mem buf h8 (hbits ▸ hn)
  have hnul : (mdbv8StrbufInit mem buf n).mem.bytes (mdbv8StrbufInit mem buf n).curbuf = 0 :=
    Function.update_self buf 0 mem.bytes
  have hflattext : treeText strflags [leaves.flatten] (freshRoom n v8flags) =
      leafText strflags leaves.flatten (freshRoom n v8flags) := by
    simp [treeText]
  rw [hflattext] at htext₂
  have hb₁ := hg₁.bytes_eq hnul htext₁
  have hb₂ := hg₂.bytes_eq hnul htext₂
  have hq : quoteText v8flags = [] ∨ quoteText v8flags = [34] := by
    unfold quoteText
    split
    · exact .inr rfl
    · exact .inl rfl
  -- and what is in the two buffers depends on the texts only
  obtain ⟨hyes, hno⟩ := leavesAgree_or strflags [] leaves h5
  rw [List.nil_append] at hyes hno
  rw [hw₁, hw₂]
  constructor
  · -- leaves that do not agree can be told from the flat string by a byte
    rintro ⟨-, hbytes, -⟩
    by_contra hdis
    obtain ⟨pre, Z, hF, hT, hZ⟩ := hno hdis
    have hT' : treeText strflags leaves (freshRoom n v8flags) = pre ++ Z := hT
    rw [hF] at hb₂
    rw [hT'] at hb₁
    exact hZ.overwrite_ne hq _ _ pre (hb₁.symm.trans (hbytes.trans hb₂))
  · intro hagree
    have hsame : treeText strflags leaves (freshRoom n v8flags) =
        leafText strflags leaves.flatten (freshRoom n v8flags) := hyes hagree
    refine ⟨rfl, ?_, ?_⟩
    · change s₁.mem.bytes = s₂.mem.bytes
      rw [hb₁, hb₂, hsame]
    · change s₁.text = _ ∨ ∃ k, s₁.text = _
      rw [htext₁, hsame]
      rcases leafText_shape strflags leaves.flatten h5 with h | ⟨k, h⟩
      · exact .inl (by rw [h])
      · exact .inr ⟨k, by rw [h]⟩

end Fresh

/-! A concatenation of `"abcdef"` and `"gh"`, and the flat string `"abcdefgh"`. -/

/-- A target with the concatenation at `0x1001` and the flat string at `0x3001`. -/
def consTarget : Target :=
  .ofWords (.sample .lp64)
    [(0x1000, 0x4001), (0x1008, 8 <<< 32), (0x1018, 0x2001), (0x1020, 0x2801),
      (0x2000, 0x5001), (0x2008, 6 <<< 32), (0x2018, 0x666564636261),
      (0x2800, 0x5001), (0x2808, 2 <<< 32), (0x2818, 0x6867),
      (0x3000, 0x5001), (0x3008, 8 <<< 32), (0x3018, 0x6867666564636261),
      (0x4010, 5), (0x5010, 4)]

/-- The concatenation. -/
def consString : V8String := { addr := 0x1001, len := 8, type := 5, consP1 := 0x2001, consP2 := 0x2801 }

/-- The flat string. -/
def flatString : V8String := { addr := 0x3001, len := 8, type := 4 }

theorem consTarget_tree :
    StringTree consTarget 0x1001 1 [[97, 98, 99, 100, 101, 102], [103, 104]] := by
  have hload : v8stringLoad consTarget 0x1001 = some consString := by decide
  have hload₁ : v8stringLoad consTarget 0x2001 = some { addr := 0x2001, len := 6, type := 4 } := by
    decide
  have hload₂ : v8stringLoad consTarget 0x2801 = some { addr := 0x2801, len := 2, type := 4 } := by
    decide
  have h₁ : StringTree consTarget 0x2001 0 [[97, 98, 99, 100, 101, 102]] :=
    .seq hload₁ (by decide) ⟨[97, 98, 99, 100, 101, 102], by decide, by decide⟩
  have h₂ : StringTree consTarget 0x2801 0 [[103, 104]] :=
    .seq hload₂ (by decide) ⟨[103, 104], by decide, by decide⟩
  exact .cons hload (by decide) (by decide) h₁ h₂

theorem consTarget_flat :
    FlatString consTarget 0x3001 flatString [97, 98, 99, 100, 101, 102, 103, 104] :=
  ⟨by decide, by decide, ⟨[97, 98, 99, 100, 101, 102, 103, 104], by decide, by decide⟩⟩

/-- A buffer of `n` zeros. -/
def zeroBuffer (n : ℕ) : Strbuf := mdbv8StrbufInit { bytes := fun _ => 0 } 0 n

/-- In a buffer of 64 bytes, the two strings are printed alike, in quotes. -/
theorem printsAlike_sample :
    PrintsAlike msfJson [97, 98, 99, 100, 101, 102, 103, 104] (zeroBuffer 64).text [34]
      (v8stringWrite consTarget consString (zeroBuffer 64) msfJson jsstrQuoted)
      (v8stringWrite consTarget flatString (zeroBuffer 64) msfJson jsstrQuoted) :=
  (printsAlike_iff msfJson rfl consTarget_tree (by decide) (by decide) consTarget_flat _ _
    (by decide) (by decide) (by decide)).mpr (leavesAgree_of_fits _ _ _ (by decide))

/-- In a buffer of eight bytes, the concatenation is printed as `abcdef[`, and the flat string as
`ab[...]`. -/
theorem not_printsAlike_sample :
    StringTree consTarget 0x1001 1 [[97, 98, 99, 100, 101, 102], [103, 104]] ∧
      FlatString consTarget 0x3001 flatString [97, 98, 99, 100, 101, 102, 103, 104] ∧
      (v8stringWrite consTarget consString (zeroBuffer 8) msfAsciionly jsstrNone).2.mem.cstring 0 8 =
        bytesOf "abcdef[" ∧
      (v8stringWrite consTarget flatString (zeroBuffer 8) msfAsciionly jsstrNone).2.mem.cstring 0 8 =
        bytesOf "ab[...]" ∧
      ¬ PrintsAlike msfAsciionly [97, 98, 99, 100, 101, 102, 103, 104] (zeroBuffer 8).text []
        (v8stringWrite consTarget consString (zeroBuffer 8) msfAsciionly jsstrNone)
        (v8stringWrite consTarget flatString (zeroBuffer 8) msfAsciionly jsstrNone) := by
  have hcons : (v8stringWrite consTarget consString (zeroBuffer 8) msfAsciionly
      jsstrNone).2.mem.cstring 0 8 = bytesOf "abcdef[" := by decide +kernel
  have hflat : (v8stringWrite consTarget flatString (zeroBuffer 8) msfAsciionly
      jsstrNone).2.mem.cstring 0 8 = bytesOf "ab[...]" := by decide +kernel
  refine ⟨consTarget_tree, consTarget_flat, hcons, hflat, fun halike => ?_⟩
  -- equal bytes would make equal C strings
  rw [CharMem.cstring, halike.2.1, ← CharMem.cstring, hflat] at hcons
  exact absurd hcons (by decide)

end MdbV8
