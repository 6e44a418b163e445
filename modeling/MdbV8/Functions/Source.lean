import MdbV8.Output.Runs
import MdbV8.Strings.Flat
import MdbV8.Strings.Text

/-!
# Reading the source of a script

`jsfunc_lines` needs the whole source of a script. It prints the source as a string into a buffer, and
takes a buffer of twice the size if no more than ten bytes are left of it (`readSource`). It does not ask
whether something has been cut off; a string that has been cut off leaves no more than one byte, so that
the buffer that is taken in the end has one byte for each character (`readsSource`).
-/

namespace MdbV8

open Lib

/-- `slop`. -/
def sourceSlop : ℕ := 10

/-- How the loop of `jsfunc_lines` over the buffers ends. -/
inductive SourceRead where
  /-- A buffer of some size cannot be had. -/
  | noMemory (bufsz : ℕ)
  /-- The source is not a string that can be printed. -/
  | failed
  | done (out : OutBuf) (bufsz : ℕ)

section Read

variable (t : Target)

/-- The loop of `jsfunc_lines` over the buffers, for as many rounds as a size has bits at least. A size may
be shifted to zero. -/
def readSource (zalloc : Allocator) (src : ℕ) : ℕ → ℕ → Option SourceRead
  | 0, _ => none
  | fuel + 1, bufsz =>
    if !zalloc.gives bufsz then some (.noMemory bufsz)
    else
      let (rv, out) := jsstrPrint t src jsstrNone (OutBuf.fresh (fun _ => 0) bufsz)
      if rv ≠ 0 then some .failed
      else if out.len > sourceSlop then some (.done out bufsz)
      else readSource zalloc src fuel (bufsz <<< 1 % 2 ^ t.cfg.bits)

/-- The byte that stands for a character. -/
def asciiByte (c : ℕ) : UInt8 := UInt8.ofNat (sanitized c msfAsciionly)

/-- A buffer holds one byte for each of the characters, at the index of the character, and a NUL
behind them. -/
structure HoldsChars (cs : List ℕ) (out : OutBuf) : Prop where
  slop : sourceSlop < out.len
  length : out.bufp = cs.length
  char : ∀ i c, cs[i]? = some c → out.mem.bytes i = asciiByte c
  nul : out.mem.bytes cs.length = 0

/-- **The source is read whole**: the loop ends for want of memory, or with a buffer that holds a byte for
each character; it does end so if there is enough memory; and where something has been cut off, there is
so little left of the buffer that the loop goes on. -/
structure ReadsSource (src : ℕ) (cs : List ℕ) : Prop where
  ends : ∀ zalloc, ∃ r, readSource t zalloc src (t.cfg.bits + 1) 1024 = some r ∧
    match r with
    | .noMemory bufsz => zalloc.gives bufsz = false
    | .failed => False
    | .done out _ => HoldsChars cs out
  succeeds : ∀ zalloc, (∀ bufsz, 0 < bufsz → zalloc.gives bufsz = true) →
    2 * (cs.length + sourceSlop + 1) ≤ 2 ^ t.cfg.bits →
    ∃ out bufsz, readSource t zalloc src (t.cfg.bits + 1) 1024 = some (.done out bufsz)
  retries : ∀ bufsz, bufsz ≤ 2 ^ t.cfg.bits →
    let r := jsstrPrint t src jsstrNone (OutBuf.fresh (fun _ => 0) bufsz)
    r.2.text ≠ cs.map asciiByte → r.2.len ≤ sourceSlop ∧
      ∀ zalloc fuel, zalloc.gives bufsz = true →
        readSource t zalloc src (fuel + 1) bufsz =
          readSource t zalloc src fuel (bufsz <<< 1 % 2 ^ t.cfg.bits)

/-! ### One buffer -/

variable {t}

theorem charsText_asciionly (cs : List ℕ) : charsText msfAsciionly cs = cs.map asciiByte := by
  have hbyte : ∀ c, charBytes c msfAsciionly = [asciiByte c] := fun c => if_neg (by decide)
  induction cs with
  | nil => rfl
  | cons c cs ih => rw [charsText_cons, hbyte, ih, List.map_cons, List.singleton_append]

variable {src d : ℕ} {leaves : List (List ℕ)}

/-- Printing the source emits a byte for each character. -/
theorem StringTree.emits_source (h : StringTree t src d leaves) (hdepth : 2 * d ≤ jsstrMaxdepth)
    {bufsz : ℕ} (hbufsz : bufsz ≤ 2 ^ t.cfg.bits) :
    let o := OutBuf.fresh (fun _ => 0) bufsz
    let r := jsstrPrint t src jsstrNone o
    r.1 = 0 ∧ outSink.Emits (leaves.flatten.map asciiByte) o r.2 := by
  intro o r
  have hnone : jsstrDepth jsstrNone = 0 := rfl
  have hdepth' : jsstrDepth jsstrNone + 2 * d ≤ jsstrMaxdepth := by omega
  have htext := jsstrText_tree t h hdepth'
  obtain ⟨hrv, hemits, -⟩ := emits_jsstrPrint t src jsstrNone (o := o) hbufsz
  rw [htext] at hrv hemits
  refine ⟨hrv, ?_⟩
  have hquoted : quotedText msfAsciionly (quotedFlag jsstrNone)
      (charsText msfAsciionly leaves.flatten) = charsText msfAsciionly leaves.flatten := by
    unfold quotedText
    rw [if_neg (by decide)]
  rwa [hquoted, charsText_asciionly] at hemits

/-- Where more than the slop is left of a buffer, it holds all of the characters. -/
theorem StringTree.holdsChars (h : StringTree t src d leaves) (hdepth : 2 * d ≤ jsstrMaxdepth)
    {bufsz : ℕ} (hbufsz : bufsz ≤ 2 ^ t.cfg.bits)
    (hlen : sourceSlop < (jsstrPrint t src jsstrNone (OutBuf.fresh (fun _ => 0) bufsz)).2.len) :
    HoldsChars leaves.flatten (jsstrPrint t src jsstrNone (OutBuf.fresh (fun _ => 0) bufsz)).2 := by
  obtain ⟨-, hemits⟩ := h.emits_source hdepth hbufsz
  obtain ⟨strb, hgrows, -, heq⟩ := jsstrPrint_grows t src jsstrNone (OutBuf.fresh (fun _ => 0) bufsz)
  generalize (jsstrPrint t src jsstrNone (OutBuf.fresh (fun _ => 0) bufsz)).2 = out at *
  -- more than the slop is left, so that nothing has been cut
  have hroom : 0 < outSink.room out := by
    change 0 < out.len - 1
    have hslop : sourceSlop = 10 := rfl
    omega
  have htext : out.text = leaves.flatten.map asciiByte := hemits.text_eq hroom
  have hlength : out.bufp = leaves.flatten.length := by
    have hlen' := congrArg List.length htext
    rwa [OutBuf.text, CharMem.upTo, List.length_map, List.length_range, List.length_map] at hlen'
  -- the characters are in front of the NUL
  refine ⟨hlen, hlength, fun i c hi => ?_, ?_⟩
  · have hget : out.text[i]? = (leaves.flatten.map asciiByte)[i]? := by rw [htext]
    obtain ⟨hlt, -⟩ := List.getElem?_eq_some_iff.mp hi
    rw [List.getElem?_map, hi, OutBuf.text, CharMem.upTo, List.getElem?_map,
      List.getElem?_range (by omega)] at hget
    exact Option.some.inj hget
  · have hnul : out.mem.bytes out.bufp = 0 := by
      rw [heq]
      exact hgrows.nul rfl
    rwa [hlength] at hnul

/-- Where a text has been cut off, at most one byte is left. -/
theorem StringTree.len_of_cut (h : StringTree t src d leaves) (hdepth : 2 * d ≤ jsstrMaxdepth)
    {bufsz : ℕ} (hbufsz : bufsz ≤ 2 ^ t.cfg.bits)
    (hcut : (jsstrPrint t src jsstrNone (OutBuf.fresh (fun _ => 0) bufsz)).2.text ≠
      leaves.flatten.map asciiByte) :
    (jsstrPrint t src jsstrNone (OutBuf.fresh (fun _ => 0) bufsz)).2.len ≤ 1 := by
  obtain ⟨-, hemits⟩ := h.emits_source hdepth hbufsz
  by_contra hlen
  exact hcut (hemits.text_eq (show 0 < _ - 1 by omega))

/-- In a buffer that is large enough, more than the slop is left. -/
theorem StringTree.len_of_fits (h : StringTree t src d leaves) (hdepth : 2 * d ≤ jsstrMaxdepth)
    {bufsz : ℕ} (hbufsz : bufsz ≤ 2 ^ t.cfg.bits)
    (hfits : leaves.flatten.length + sourceSlop + 1 ≤ bufsz) :
    sourceSlop < (jsstrPrint t src jsstrNone (OutBuf.fresh (fun _ => 0) bufsz)).2.len := by
  obtain ⟨-, hemits⟩ := h.emits_source hdepth hbufsz
  have hslop : sourceSlop = 10 := rfl
  have hslack : outSink.slack = 6 := rfl
  have hwrote := (hemits.of_fits (by
    change (leaves.flatten.map asciiByte).length + 6 ≤ bufsz - 1
    rw [List.length_map]
    omega)).2
  change (jsstrPrint t src jsstrNone (OutBuf.fresh (fun _ => 0) bufsz)).2.len - 1 +
    (leaves.flatten.map asciiByte).length = bufsz - 1 at hwrote
  rw [List.length_map] at hwrote
  omega

/-! ### The loop -/

variable {zalloc : Allocator}

/-- One round of the loop. -/
theorem readSource_succ (h : StringTree t src d leaves) (hdepth : 2 * d ≤ jsstrMaxdepth) {bufsz : ℕ}
    (hbufsz : bufsz ≤ 2 ^ t.cfg.bits) (halloc : zalloc.gives bufsz = true) (fuel : ℕ) :
    readSource t zalloc src (fuel + 1) bufsz =
      let out := (jsstrPrint t src jsstrNone (OutBuf.fresh (fun _ => 0) bufsz)).2
      if out.len > sourceSlop then some (.done out bufsz)
      else readSource t zalloc src fuel (bufsz <<< 1 % 2 ^ t.cfg.bits) := by
  have hrv := (h.emits_source hdepth hbufsz).1
  rw [readSource, if_neg (by simp [halloc])]
  dsimp only at hrv ⊢
  rw [if_neg (not_not.mpr hrv)]

/-- **The loop ends.** In each round, the size is shifted by one bit. -/
theorem readSource_ends (h : StringTree t src d leaves) (hdepth : 2 * d ≤ jsstrMaxdepth)
    (fuel : ℕ) {bufsz : ℕ} (hlt : bufsz < 2 ^ t.cfg.bits) (hdvd : 2 ^ t.cfg.bits ∣ bufsz * 2 ^ fuel) :
    ∃ r, readSource t zalloc src (fuel + 1) bufsz = some r ∧
      match r with
      | .noMemory bufsz => zalloc.gives bufsz = false
      | .failed => False
      | .done out _ => HoldsChars leaves.flatten out := by
  induction fuel generalizing bufsz with
  | zero =>
    -- all of the bits have been shifted out
    obtain rfl : bufsz = 0 := Nat.eq_zero_of_dvd_of_lt (by simpa using hdvd) hlt
    have hno : (!zalloc.gives 0) = true := by rw [zalloc.gives_zero, Bool.not_false]
    exact ⟨.noMemory 0, by rw [readSource, if_pos hno], zalloc.gives_zero⟩
  | succ fuel ih =>
    by_cases hno : (!zalloc.gives bufsz) = true
    · exact ⟨.noMemory bufsz, by rw [readSource, if_pos hno], by simpa using hno⟩
    rw [readSource_succ h hdepth hlt.le (by simpa using hno)]
    dsimp only
    split
    · next hlen => exact ⟨_, rfl, h.holdsChars hdepth hlt.le hlen⟩
    · refine ih (Nat.mod_lt _ (Nat.two_pow_pos _)) ?_
      rw [Nat.pow_succ, Nat.mul_comm _ 2, ← Nat.mul_assoc] at hdvd
      rw [Nat.shiftLeft_eq, pow_one]
      refine Nat.dvd_of_mod_eq_zero ?_
      rw [Nat.mod_mul_mod]
      exact Nat.mod_eq_zero_of_dvd hdvd

/-- **The loop succeeds** if there is memory for a buffer of twice the size that is needed. -/
theorem readSource_done (h : StringTree t src d leaves) (hdepth : 2 * d ≤ jsstrMaxdepth)
    (halloc : ∀ bufsz, 0 < bufsz → zalloc.gives bufsz = true)
    (hmem : 2 * (leaves.flatten.length + sourceSlop + 1) ≤ 2 ^ t.cfg.bits) (fuel : ℕ) {bufsz : ℕ}
    (hpos : 0 < bufsz) (hlt : bufsz < 2 ^ t.cfg.bits)
    (hfuel : leaves.flatten.length + sourceSlop + 1 ≤ bufsz * 2 ^ fuel) :
    ∃ out bufsz', readSource t zalloc src (fuel + 1) bufsz = some (.done out bufsz') := by
  induction fuel generalizing bufsz with
  | zero =>
    rw [pow_zero, Nat.mul_one] at hfuel
    have hlen := h.len_of_fits hdepth hlt.le hfuel
    rw [readSource_succ h hdepth hlt.le (halloc _ hpos)]
    exact ⟨_, _, if_pos hlen⟩
  | succ fuel ih =>
    rw [readSource_succ h hdepth hlt.le (halloc _ hpos)]
    dsimp only
    split
    · exact ⟨_, _, rfl⟩
    · next hlen =>
      -- the size is too small, so that it can be doubled
      have hsmall : bufsz < leaves.flatten.length + sourceSlop + 1 := by
        by_contra hfits
        exact hlen (h.len_of_fits hdepth hlt.le (Nat.not_lt.mp hfits))
      have hdouble : bufsz <<< 1 % 2 ^ t.cfg.bits = bufsz * 2 := by
        rw [Nat.shiftLeft_eq, pow_one, Nat.mod_eq_of_lt (by omega)]
      rw [hdouble]
      refine ih (by omega) (by omega) ?_
      rwa [Nat.mul_assoc, ← Nat.pow_succ']

/-- What has been printed and what is left make up the buffer. -/
theorem readSource_size {fuel bufsz bufsz' : ℕ} {out : OutBuf}
    (h : readSource t zalloc src fuel bufsz = some (.done out bufsz')) : out.bufp + out.len = bufsz' := by
  induction fuel generalizing bufsz with
  | zero => cases h
  | succ fuel ih =>
    rw [readSource] at h
    split at h
    · cases h
    next hno =>
    dsimp only at h
    split at h
    · cases h
    split at h
    · obtain ⟨hout, rfl⟩ := SourceRead.done.inj (Option.some.inj h)
      have hsafe := OutBuf.safe_fresh (fun _ => 0) bufsz
      rw [← hout]
      have hne : bufsz ≠ 0 := Allocator.ne_zero_of_gives (a := zalloc) (by simpa using hno)
      exact (hsafe.jsstrPrint t hne src jsstrNone).end_eq
    · exact ih h

/-- **A source that can be read is read whole**, whatever tree of strings it is. -/
theorem readsSource (h : StringTree t src d leaves) (hdepth : 2 * d ≤ jsstrMaxdepth) :
    ReadsSource t src leaves.flatten := by
  have hlt : 1024 < 2 ^ t.cfg.bits := by
    unfold Config.bits
    cases t.cfg.model <;> decide
  refine ⟨fun zalloc => ?_, fun zalloc halloc hmem => ?_, fun bufsz hbufsz => ?_⟩
  · exact readSource_ends h hdepth _ hlt (Nat.dvd_mul_left _ _)
  · exact readSource_done h hdepth halloc hmem _ (by decide) hlt (by omega)
  · intro r hcut
    have hlen : r.2.len ≤ 1 := h.len_of_cut hdepth hbufsz hcut
    have hslop : sourceSlop = 10 := rfl
    refine ⟨by omega, fun zalloc fuel halloc => ?_⟩
    rw [readSource_succ h hdepth hbufsz halloc]
    exact if_neg (by change ¬ r.2.len > _; omega)

/-- The source of the sample, which is a concatenation. -/
theorem readsSource_sample : ReadsSource consTarget 0x1001 [97, 98, 99, 100, 101, 102, 103, 104] :=
  readsSource consTarget_tree (by decide)

end Read

end MdbV8
