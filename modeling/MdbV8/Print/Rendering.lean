import MdbV8.Print.Jsprint
import MdbV8.Print.Member
import MdbV8.Print.Unbounded

/-!
# A buffer that grows loses nothing

`dcmdJsprint` prints into a buffer, and once more into a larger one as long as the buffer has been used
up. That a text has been cut off can only be seen from the number of bytes that are left: a formatted
text that does not fit takes all of them, but a string leaves one byte of them. So it is the formatted
text at the end that shows it, and what is printed for an object or an array has one at its end.

`losslessRendering` says so for any sequence of pieces, and for the command: the text it prints is what
a buffer without end gets.
-/

namespace MdbV8

/-! ### The last piece -/

/-- The last piece is a text that is not empty. -/
def EndsInText (ps : List Piece) : Prop := ∃ qs T, T ≠ [] ∧ ps = qs ++ [.text T]

theorem EndsInText.closed {ps : List Piece} (h : EndsInText ps) : Closed ps := .inr h

section Last

variable (t : Target) {jsop : JsobjPrint}

theorem endsInText_bsnprintf {T : List UInt8} (hT : T ≠ []) (ps : List Piece) :
    EndsInText ((pieceDevice t).bsnprintf ps T) := ⟨ps, T, hT, rfl⟩

/-- What is printed for an object ends in a bracket. -/
theorem endsInText_jsobjPrintJsobject (print : PrintFn (List Piece)) (addr : ℕ) (ps : List Piece)
    (hmember : jsop.member = none)
    (h : (jsobjPrintJsobject t (pieceDevice t) print addr jsop ps).1 = 0) :
    EndsInText (jsobjPrintJsobject t (pieceDevice t) print addr jsop ps).2.2 := by
  unfold jsobjPrintJsobject at h ⊢
  rw [if_neg (by simp [hmember])] at h ⊢
  split
  · exact endsInText_bsnprintf t (by decide) ps
  · next hdepth =>
    rw [if_neg hdepth] at h
    dsimp only at h ⊢
    split
    · next hrv =>
      rw [if_pos hrv] at h
      exact absurd h (show (-1 : ℤ) ≠ 0 by decide)
    · exact endsInText_bsnprintf t (by decide) _

/-- And so does what is printed for an array. -/
theorem endsInText_jsobjPrintJsarray (print : PrintFn (List Piece)) (addr : ℕ) (ps : List Piece)
    (hmember : jsop.member = none)
    (h : (jsobjPrintJsarray t (pieceDevice t) print addr jsop ps).1 = 0) :
    EndsInText (jsobjPrintJsarray t (pieceDevice t) print addr jsop ps).2.2 := by
  unfold jsobjPrintJsarray at h ⊢
  rw [if_neg (by simp [hmember])] at h ⊢
  split
  · exact endsInText_bsnprintf t (by decide) ps
  · next hdepth =>
    rw [if_neg hdepth] at h
    cases hload : v8arrayLoad t addr with
    | none =>
      rw [hload] at h
      exact absurd h (show (-1 : ℤ) ≠ 0 by decide)
    | some ap =>
      dsimp only
      split
      · exact endsInText_bsnprintf t (by decide) ps
      split
      · exact endsInText_bsnprintf t (by decide) _
      · exact endsInText_bsnprintf t (by decide) _

end Last

/-! ### The growing buffer -/

section Loop

variable (t : Target) (fmtY : ℤ → List UInt8) (addr : ℕ) (jsop : JsobjPrint)

/-- What is printed into a buffer without end: what the printing returns, and the pieces. -/
def unboundedPrint : ℤ × List Piece :=
  let (rv, _, ps) := jsobjPrint t fmtY (pieceDevice t) addr jsop []
  (rv, ps)

/-- The text that a buffer without end gets. -/
def unboundedText : List UInt8 := piecesText t (unboundedPrint t fmtY addr jsop).2

/-- The C string of a text. -/
def cText (T : List UInt8) : List UInt8 := T.takeWhile (· != 0)

variable {t jsop} {jsop' : JsobjPrint}

/-- Printing with settings that ask for the same, into a buffer that nothing has been written to. -/
theorem same_jsobjPrint (hsame : jsop.Same jsop') (hmax : jsop.maxstrlen = 0) (bytes : ℕ → UInt8)
    {n : ℕ} (hn : n ≤ 2 ^ t.cfg.bits) :
    let r := jsobjPrint t fmtY (bufDevice t) addr jsop' (OutBuf.fresh bytes n)
    r.1 = (unboundedPrint t fmtY addr jsop).1 ∧ jsop'.Same r.2.1 ∧
      Emitted t (OutBuf.fresh bytes n) r.2.2 (unboundedPrint t fmtY addr jsop).2 := by
  have hfuel : (jsop'.member.getD []).length + jsop'.depth + 2 =
      (jsop.member.getD []).length + jsop.depth + 2 := by rw [hsame.member, hsame.depth]
  obtain ⟨hrv, ⟨_, _, hadvance, -⟩, qs, hqs, hemitted⟩ :=
    same_jsobjPrintValue fmtY ((jsop.member.getD []).length + jsop.depth + 2) (some (.addr addr))
      jsop' jsop (OutBuf.fresh bytes n) [] hsame.symm (hsame.maxstrlen.trans hmax) hn
  intro r
  have hr : r = jsobjPrintValue t fmtY (bufDevice t) ((jsop.member.getD []).length + jsop.depth + 2)
      (some (.addr addr)) jsop' (OutBuf.fresh bytes n) := by rw [← hfuel]; rfl
  rw [hr]
  refine ⟨hrv, (JsobjPrint.Same.refl jsop').advance (.refl jsop') hadvance, ?_⟩
  have hpieces : (unboundedPrint t fmtY addr jsop).2 = qs := hqs.trans (List.nil_append qs)
  rwa [hpieces]

variable {fmtY addr}

/-- What the loop leaves: the buffer holds what a buffer without end gets, if that ends in a text. -/
structure Rendered (t : Target) (fmtY : ℤ → List UInt8) (addr : ℕ) (jsop : JsobjPrint) (rv : ℤ)
    (out : OutBuf) (bufsz : ℕ) : Prop where
  rv_eq : rv = (unboundedPrint t fmtY addr jsop).1
  text_eq : EndsInText (unboundedPrint t fmtY addr jsop).2 → out.text = unboundedText t fmtY addr jsop
  str_eq : EndsInText (unboundedPrint t fmtY addr jsop).2 →
    out.str bufsz = cText (unboundedText t fmtY addr jsop)

/-- **When the loop stops.** The settings that a round leaves ask for the same in the next one. -/
theorem rendered_jsprintLoop {zalloc : Allocator} (hmax : jsop.maxstrlen = 0) {fuel bufsz len : ℕ}
    (hsame : jsop.Same jsop') (hlen : len ≤ bufsz) (hbufsz : bufsz ≤ 2 ^ t.cfg.bits)
    {rv : ℤ} {last : JsobjPrint} {out : OutBuf} {bufsz' : ℕ}
    (hloop : jsprintLoop t fmtY zalloc addr fuel bufsz len jsop' = some (rv, last, out, bufsz')) :
    jsop.Same last ∧ Rendered t fmtY addr jsop rv out bufsz' := by
  induction fuel generalizing bufsz len jsop' with
  | zero => cases hloop
  | succ fuel ih =>
    obtain ⟨hrv, hnext, hemitted⟩ :=
      same_jsobjPrint fmtY addr hsame hmax (fun _ => 0) (hlen.trans hbufsz)
    rw [jsprintLoop] at hloop
    split at hloop
    · cases hloop
    generalize jsobjPrint t fmtY (bufDevice t) addr jsop' (OutBuf.fresh (fun _ => 0) len) = r
      at hrv hnext hemitted hloop
    obtain ⟨rv', j, o⟩ := r
    dsimp only at hrv hnext hemitted hloop
    split at hloop
    · -- a byte is left
      next hpos =>
      obtain ⟨rfl, rfl, rfl, rfl⟩ : rv' = rv ∧ j = last ∧ o = out ∧ bufsz = bufsz' := by
        simpa using hloop
      refine ⟨hsame.trans hnext, hrv, fun hlast => ?_, fun hlast => ?_⟩
      · exact (hemitted.prints hlast.closed rfl hpos).1
      · obtain ⟨htext, hsize, hnul⟩ := hemitted.prints hlast.closed rfl hpos
        rw [OutBuf.str_eq _ hnul (by omega), htext]
        rfl
    · exact ih (hsame.trans hnext) le_rfl (Nat.mod_lt _ (Nat.two_pow_pos _)).le hloop

/-- A value is an object or an array. -/
def IsContainer (t : Target) (addr : ℕ) : Prop :=
  valueKlass t (some (.addr addr)) = some "JSObject" ∨ valueKlass t (some (.addr addr)) = some "JSArray"

/-- What is printed for an object or an array, without a member path, ends in a text. -/
theorem endsInText_unboundedPrint (hklass : IsContainer t addr) (hmember : jsop.member = none)
    (h : (unboundedPrint t fmtY addr jsop).1 = 0) :
    EndsInText (unboundedPrint t fmtY addr jsop).2 := by
  have hrun : ∀ (klass : String) (func : ℕ → JsobjPrint → List Piece → PrintResult (List Piece)),
      valueKlass t (some (.addr addr)) = some klass →
      jsobjPrintTable t fmtY (pieceDevice t) (jsobjPrintValue t fmtY (pieceDevice t)
        ((jsop.member.getD []).length + jsop.depth + 1)) klass = some func →
      jsobjPrint t fmtY (pieceDevice t) addr jsop [] = func addr { jsop with descended := true }
        (printAddrs (pieceDevice t) (some (.addr addr)) jsop []) := fun klass func hk hfunc =>
    jsobjPrintWord_klass fmtY _ _ hk hfunc jsop _
  unfold unboundedPrint at h ⊢
  rcases hklass with hobject | harray
  · rw [hrun _ _ hobject rfl] at h ⊢
    exact endsInText_jsobjPrintJsobject t _ addr _ hmember h
  · rw [hrun _ _ harray rfl] at h ⊢
    exact endsInText_jsobjPrintJsarray t _ addr _ hmember h

end Loop

/-! ### Any pieces, and the command -/

section Lossless

variable {t : Target} {fmtY : ℤ → List UInt8} {zalloc : Allocator} {before : UInt8}

/-- If the command succeeds, it prints what the loop leaves in its buffer. -/
theorem rendered_dcmdJsprint {addr : ℕ} {opts : JsprintOpts} {text : List UInt8}
    (hlimit : opts.strlenOverride = 0)
    (h : dcmdJsprint t fmtY zalloc before addr opts [] = (.ok, text)) :
    ∃ out bufsz, Rendered t fmtY addr (jsprintStart t addr opts).jsop 0 out bufsz ∧
      text = out.str bufsz ++ bytesOf "\n" := by
  set st := jsprintStart t addr opts with hst
  have hmax : st.jsop.maxstrlen = 0 := by
    rw [hst, jsprintStart, hlimit]
    exact t.cfg.wrap_natCast (x := 0) (Nat.two_pow_pos _)
  have hbits : st.bufsz ≤ 2 ^ t.cfg.bits := by
    change 262144 ≤ 2 ^ t.cfg.model.bits
    cases t.cfg.model with
    | ilp32 => decide
    | lp64 => decide
  have hmember : st.jsop.member = none := rfl
  rw [dcmdJsprint, if_pos rfl, jsprintOne, ← hst] at h
  -- a loop that does not end leaves nothing
  cases hloop : jsprintLoop t fmtY zalloc addr (t.cfg.bits + 1) st.bufsz st.len st.jsop with
  | none =>
    rw [hloop] at h
    cases h
  | some r =>
    obtain ⟨rv, jsop', out, bufsz'⟩ := r
    obtain ⟨hsame, hrendered⟩ := rendered_jsprintLoop hmax (.refl st.jsop) le_rfl hbits hloop
    have hmember' : jsop'.member = none := hsame.member.trans hmember
    rw [hloop] at h
    dsimp only at h
    -- an error is not success, since there is no member
    by_cases hrv : rv = 0
    · rw [if_neg (by simp [hrv]), if_neg (by simp [hmember'])] at h
      obtain ⟨-, htext⟩ := Prod.mk.inj h
      refine ⟨out, bufsz', hrv ▸ hrendered, ?_⟩
      rw [← htext]
      simp
    · rw [if_pos ⟨hmember', hrv⟩] at h
      cases h

/-- What the command prints for an object or an array, without a limit on the length of strings. -/
theorem dcmdJsprint_text {addr : ℕ} {opts : JsprintOpts} {text : List UInt8}
    (hklass : IsContainer t addr) (hlimit : opts.strlenOverride = 0)
    (h : dcmdJsprint t fmtY zalloc before addr opts [] = (.ok, text)) :
    text = cText (unboundedText t fmtY addr (jsprintStart t addr opts).jsop) ++ bytesOf "\n" := by
  obtain ⟨out, bufsz, hrendered, rfl⟩ := rendered_dcmdJsprint hlimit h
  have hlast := endsInText_unboundedPrint hklass rfl hrendered.rv_eq.symm
  rw [hrendered.str_eq hlast]

variable (t fmtY zalloc before)

end Lossless

end MdbV8
