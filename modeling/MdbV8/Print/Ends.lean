import MdbV8.Print.Renders

/-!
# What is printed last

Whether a text has been cut off shows at its end (`Print.Rendering`). What is printed for a value of a heap
ends in a formatted text or in a string (`endsIn_jsobjPrintWord`), so that there is a NUL behind it, and the
string in the buffer is the text.
-/

namespace MdbV8

section Ends

variable {t : Target} {b : PropBits} (fmtY : ℤ → List UInt8)

/-- What has been printed last is a text or a string. -/
def EndsIn {δ : Type*} (D : OutDevice δ) (out : δ) : Prop :=
  (∃ out' T, out = D.bsnprintf out' T) ∨ ∃ addr flags out', out = (D.jsstrPrint 0 addr flags out').2

section Last

variable {δ : Type*} (D : OutDevice δ) {jsop : JsobjPrint}

theorem endsIn_bsnprintf (out : δ) (T : List UInt8) : EndsIn D (D.bsnprintf out T) := .inl ⟨out, T, rfl⟩

theorem endsIn_jsstrPrint (addr flags : ℕ) (out : δ) : EndsIn D (D.jsstrPrint 0 addr flags out).2 :=
  .inr ⟨addr, flags, out, rfl⟩

theorem endsIn_jsobjPrintJsobject (print : PrintFn δ) (addr : ℕ) (out : δ) (hmember : jsop.member = none)
    (h : (jsobjPrintJsobject t D print addr jsop out).1 = 0) :
    EndsIn D (jsobjPrintJsobject t D print addr jsop out).2.2 := by
  unfold jsobjPrintJsobject at h ⊢
  rw [if_neg (by simp [hmember])] at h ⊢
  split
  · exact endsIn_bsnprintf D _ _
  · next hdepth =>
    rw [if_neg hdepth] at h
    dsimp only at h ⊢
    split
    · next hrv =>
      rw [if_pos hrv] at h
      exact absurd h (show (-1 : ℤ) ≠ 0 by decide)
    · exact endsIn_bsnprintf D _ _

theorem endsIn_jsobjPrintJsarray (print : PrintFn δ) (addr : ℕ) (out : δ) (hmember : jsop.member = none)
    (h : (jsobjPrintJsarray t D print addr jsop out).1 = 0) :
    EndsIn D (jsobjPrintJsarray t D print addr jsop out).2.2 := by
  unfold jsobjPrintJsarray at h ⊢
  rw [if_neg (by simp [hmember])] at h ⊢
  split
  · exact endsIn_bsnprintf D _ _
  · next hdepth =>
    rw [if_neg hdepth] at h
    cases hload : v8arrayLoad t addr with
    | none =>
      rw [hload] at h
      exact absurd h (show (-1 : ℤ) ≠ 0 by decide)
    | some ap =>
      dsimp only
      split
      · exact endsIn_bsnprintf D _ _
      split
      · exact endsIn_bsnprintf D _ _
      · exact endsIn_bsnprintf D _ _

/-- **What is printed last for a value.** -/
theorem endsIn_jsobjPrintWord (hprops : t.cfg.V8Props b) {w : ℕ} {v : JsValue} (hv : ValueAt t b w v)
    (print : PrintFn δ) (out : δ) (hmember : jsop.member = none) (hmax : jsop.maxstrlen = 0)
    (h : (jsobjPrintWord t fmtY D print w jsop out).1 = 0) :
    EndsIn D (jsobjPrintWord t fmtY D print w jsop out).2.2 := by
  cases v with
  | int v =>
    obtain ⟨-, rfl⟩ := hv
    unfold jsobjPrintWord
    rw [if_pos (isSmi_smiWord hprops.smis v)]
    exact endsIn_bsnprintf D _ _
  | number bits =>
    obtain ⟨hklass, hread⟩ := hv
    rw [jsobjPrintWord_klass fmtY D print hklass rfl, jsobjPrintNumber, hread]
    exact endsIn_bsnprintf D _ _
  | string s =>
    -- what a string ends with is what its printer ends with
    obtain ⟨hheap, hname⟩ := hv
    obtain ⟨type, htype, hstring⟩ := hname.exists_type
    unfold jsobjPrintWord jsobjPrintHeapobject
    rw [hprops.toV8Tags.isSmi_eq_false hheap, if_neg Bool.false_ne_true, hheap, htype]
    simp only [Bool.not_true, Bool.false_eq_true, if_false, hstring, if_true, hmax]
    exact endsIn_jsstrPrint D _ _ _
  | oddball name =>
    obtain ⟨hklass, strptr, hptr, -⟩ := hv
    rw [jsobjPrintWord_klass fmtY D print hklass rfl, jsobjPrintOddball, hptr]
    exact endsIn_jsstrPrint D _ _ _
  | object o =>
    -- an object ends with a brace, an array with a bracket
    rw [jsobjPrintWord_klass fmtY D print hv.1 rfl] at h ⊢
    exact endsIn_jsobjPrintJsobject D print w out hmember h
  | array elts =>
    rw [jsobjPrintWord_klass fmtY D print hv.1 rfl] at h ⊢
    exact endsIn_jsobjPrintJsarray D print w out hmember h

end Last

/-- A string ends with a NUL, even where nothing is left of the buffer. -/
theorem jsstrPrint_nul (addr flags : ℕ) (o : OutBuf) :
    (jsstrPrint t addr flags o).2.mem.bytes (jsstrPrint t addr flags o).2.bufp = 0 := by
  obtain ⟨strb, hgrows, -, heq⟩ := jsstrPrint_grows t addr flags o
  rw [heq]
  exact hgrows.nul (Function.update_self _ _ _)

/-- **There is a NUL behind what has been printed**, if something is left of the buffer. -/
theorem EndsIn.nul {o : OutBuf} (h : EndsIn (bufDevice t) o) (hlen : 0 < o.len) :
    o.mem.bytes o.bufp = 0 := by
  rcases h with ⟨o', T, rfl⟩ | ⟨addr, flags, o', rfl⟩
  · have hleft : (bsnprintf o' T).len = o'.len - T.length := OutBuf.bsnprintf_len o' T
    have hpos : 0 < (bsnprintf o' T).len := hlen
    exact OutBuf.bsnprintf_nul_of_lt o' T (by omega)
  · exact jsstrPrint_nul addr flags _

/-- The string in an array that has been printed into is the text, if there is no NUL in it. -/
theorem EndsIn.str_eq {o : OutBuf} {T : List UInt8} (h : EndsIn (bufDevice t) o) (htext : o.text = T)
    (hlen : 0 < o.len) (hnul : 0 ∉ T) {n : ℕ} (hn : T.length < n) : o.str n = T := by
  have hbufp : o.bufp = T.length := by
    rw [← htext]
    exact (CharMem.upTo_length _ _).symm
  rw [OutBuf.str_eq o (h.nul hlen) (hbufp ▸ hn), htext]
  refine List.takeWhile_eq_self_iff.mpr fun ch hch => ?_
  have hne : ch ≠ 0 := fun h => hnul (h ▸ hch)
  simpa using hne

/-- A string without a limit, on the two devices. -/
theorem samePrint_jsstrPrint {o o' : OutBuf} {ps ps' : List Piece} (h : SamePrint t o ps o' ps')
    (addr flags : ℕ) (ho : o.len ≤ 2 ^ t.cfg.bits) :
    (jsstrPrint t addr flags o').1 = ((pieceDevice t).jsstrPrint 0 addr flags ps').1 ∧
      SamePrint t o ps (jsstrPrint t addr flags o').2 ((pieceDevice t).jsstrPrint 0 addr flags ps').2 := by
  obtain ⟨hrv, hemit, hlen⟩ := emits_jsstrPrint t addr flags (h.len_le.trans ho)
  exact ⟨hrv, h.trans ⟨_, rfl, .other (fun T => by simp) hemit hlen⟩⟩

/-- What has been emitted into a fresh buffer that is large enough. -/
theorem SamePrint.text_of_fits {bytes : ℕ → UInt8} {n : ℕ} {o : OutBuf} {ps : List Piece} {T : List UInt8}
    (h : SamePrint t (OutBuf.fresh bytes n) [] o ps) (hT : Appends t [] ps T)
    (hfits : T.length + outputSlack < n) : o.text = T ∧ 0 < o.len := by
  obtain ⟨qs, rfl, hemitted⟩ := h
  obtain ⟨qs', hqs, hpieces⟩ := hT
  rw [List.nil_append] at hqs
  have hemits := hemitted.emits
  rw [hqs, hpieces] at hemits
  have hroom : T.length + outputSlack ≤ (OutBuf.fresh bytes n).room := Nat.le_sub_one_of_lt hfits
  have hleft : 0 < o.room := hemits.room_pos (by decide : 0 < outputSlack) hroom
  exact ⟨(hemits.of_fits hroom).1.trans (List.nil_append _), hleft.trans_le (Nat.sub_le _ _)⟩

end Ends

end MdbV8
