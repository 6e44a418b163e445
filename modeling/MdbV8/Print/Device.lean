import MdbV8.Functions.FuncInfo
import MdbV8.Output.Lossless

/-!
# Output devices

The functions that print values and objects do so by three operations: a formatted text, a string,
and the name of a function. They look at what is left of the buffer in two places. So they are
written here for any *device* with these operations, and there are two devices:

* `bufDevice` is the buffer of the source;
* `pieceDevice` is a buffer without end, as the list of the *pieces* that have been printed into it.

`Piece.toText` is the text of a piece. The operations do the same on both devices (`SamePrint`): they
return the same, and what is printed on the one is emitted on the other (`Emitted`).
-/

namespace MdbV8

open Lib

/-- The operations of the functions that print, on a `(bufp, lenp)` pair or what stands for it. -/
structure OutDevice (δ : Type*) where
  /-- `bsnprintf` of a formatted text. -/
  bsnprintf : δ → List UInt8 → δ
  /-- `jsstr_print`, with a limit on the number of bytes, or none if that is zero. -/
  jsstrPrint : ℕ → ℕ → ℕ → δ → ℤ × δ
  /-- `jsfunc_name`. -/
  jsfuncName : ℕ → δ → ℤ × δ
  /-- `*lenp <= 0`. -/
  full : δ → Bool

section Devices

variable (t : Target)

/-- Printing a string with a limit on its length, as `jsobj_print_value` does: `jsstr_print` gets the
smaller length, and the real length is updated to match. -/
def jsstrPrintMax (max addr flags : ℕ) (o : OutBuf) : ℤ × OutBuf :=
  let maxstrlen := if max = 0 ∨ max ≥ o.len then o.len else max
  let (rv, o') := jsstrPrint t addr flags { o with len := maxstrlen }
  (rv, { o' with len := o.len - (maxstrlen - o'.len) })

/-- The buffer of the source. -/
def bufDevice : OutDevice OutBuf where
  bsnprintf := bsnprintf
  jsstrPrint := jsstrPrintMax t
  jsfuncName := jsfuncName t
  full o := o.len == 0

/-- Something that has been printed. -/
inductive Piece where
  | text (T : List UInt8)
  | string (max addr flags : ℕ)
  | func (funcinfop : ℕ)
  deriving DecidableEq, Repr

/-- The text of a piece, where nothing has to be cut off but for the limit on a string. -/
def Piece.toText : Piece → List UInt8
  | .text T => T
  | .string max addr flags =>
    if max = 0 then (jsstrText t addr flags).2
    else (MdbV8.jsstrPrint t addr flags (OutBuf.fresh (fun _ => 0) max)).2.text
  | .func funcinfop => (jsfuncText t funcinfop).2

/-- A buffer without end. -/
def pieceDevice : OutDevice (List Piece) where
  bsnprintf ps T := ps ++ [.text T]
  jsstrPrint max addr flags ps := ((jsstrText t addr flags).1, ps ++ [.string max addr flags])
  jsfuncName funcinfop ps := ((jsfuncText t funcinfop).1, ps ++ [.func funcinfop])
  full _ := false

/-- The texts of pieces, one after the other. -/
def piecesText (ps : List Piece) : List UInt8 := ps.flatMap (Piece.toText t)

theorem piecesText_singleton (p : Piece) : piecesText t [p] = p.toText t := by simp [piecesText]

end Devices

/-! ### The two devices -/

/-- There are no pieces, or the last of them is a text that is not empty. -/
def Closed (ps : List Piece) : Prop := ps = [] ∨ ∃ qs T, T ≠ [] ∧ ps = qs ++ [.text T]

namespace Closed

theorem text {T : List UInt8} (hT : T ≠ []) (ps : List Piece) : Closed (ps ++ [.text T]) :=
  .inr ⟨ps, T, hT, rfl⟩

theorem append {ps qs : List Piece} (hps : Closed ps) (hqs : Closed qs) : Closed (ps ++ qs) := by
  rcases hqs with rfl | ⟨rs, T, hT, rfl⟩
  · rwa [List.append_nil]
  · exact .inr ⟨ps ++ rs, T, hT, (List.append_assoc _ _ _).symm⟩

end Closed

/-- Going from `o` to `o'` emits the pieces. Where the last of them is a text, a byte that is left
shows that nothing has been cut off. -/
structure Emitted (t : Target) (o o' : OutBuf) (qs : List Piece) : Prop where
  emits : outSink.Emits (piecesText t qs) o o'
  len_le : o'.len ≤ o.len
  eq_of_nil : qs = [] → o' = o
  closes : ∀ qs' T, T ≠ [] → qs = qs' ++ [.text T] → OutBuf.Prints (piecesText t qs) o o'

namespace Emitted

variable {t : Target} {o o' : OutBuf}

theorem refl : Emitted t o o [] where
  emits := Sink.Emits.refl o
  len_le := le_refl _
  eq_of_nil _ := rfl
  closes _ _ _ h := absurd h.symm (List.append_ne_nil_of_right_ne_nil _ (List.cons_ne_nil _ _))

theorem trans {o'' : OutBuf} {qs qs' : List Piece} (h : Emitted t o o' qs)
    (h' : Emitted t o' o'' qs') : Emitted t o o'' (qs ++ qs') where
  emits := by
    rw [piecesText, List.flatMap_append]
    exact h.emits.trans h'.emits
  len_le := h'.len_le.trans h.len_le
  eq_of_nil hnil := by
    obtain ⟨hqs, hqs'⟩ := List.append_eq_nil_iff.mp hnil
    rw [h'.eq_of_nil hqs', h.eq_of_nil hqs]
  closes rs T hT heq := by
    have happ : piecesText t (qs ++ qs') = piecesText t qs ++ piecesText t qs' :=
      List.flatMap_append
    rcases List.eq_nil_or_concat qs' with hnil | ⟨rs', q, hrs'⟩
    · subst hnil
      rw [List.append_nil] at heq ⊢
      rw [h'.eq_of_nil rfl]
      exact h.closes rs T hT heq
    · -- there was room before the last text, so what came before it has not been cut off
      intro hlen
      rw [hrs', List.concat_eq_append, ← List.append_assoc] at heq
      obtain ⟨-, hq⟩ := List.append_inj' heq rfl
      obtain ⟨htext, hsize, hnul⟩ := h'.closes rs' T hT (by rw [hrs', List.concat_eq_append, hq]) hlen
      have hpos : 0 < (piecesText t qs').length := by
        rw [hrs', List.concat_eq_append, hq, piecesText, List.flatMap_append, List.length_append]
        exact Nat.lt_of_lt_of_le (List.length_pos_iff.mpr hT) (by simp [Piece.toText])
      have hroom : 0 < outSink.room o' := show 0 < o'.len - 1 by omega
      obtain ⟨htext', hsize'⟩ := h.emits.of_room hroom
      refine ⟨?_, ?_, hnul⟩
      · rw [happ, htext, show o'.text = o.text ++ piecesText t qs from htext', List.append_assoc]
      · have : o'.len - 1 + (piecesText t qs).length = o.len - 1 := hsize'
        rw [happ, List.length_append]
        omega

theorem bsnprintf (T : List UInt8) : Emitted t o (MdbV8.bsnprintf o T) [.text T] where
  emits := by
    rw [piecesText_singleton]
    exact OutBuf.emits_bsnprintf o T
  len_le := (OutBuf.bsnprintf_len o T).trans_le (Nat.sub_le _ _)
  eq_of_nil h := absurd h (List.cons_ne_nil _ _)
  closes qs' U hU heq := by
    rw [← List.nil_append [Piece.text T]] at heq
    obtain ⟨-, hlast⟩ := List.append_inj' heq rfl
    have hTU : T = U := by simpa using hlast
    rw [piecesText_singleton, hTU]
    exact OutBuf.prints_bsnprintf (Sink.Emits.refl o) hU

/-- A full buffer that nothing more is printed into agrees with any more printing. -/
theorem stopped (hfull : o.len = 0) (qs : List Piece) : Emitted t o o qs where
  emits := by
    refine Sink.Emits.of_full (show o.len - 1 < _ from ?_) (show o.len - 1 = 0 from ?_)
    · rw [show outSink.slack = 6 from rfl]
      omega
    · rw [hfull]
  len_le := le_refl _
  eq_of_nil _ := rfl
  closes _ _ _ _ hlen := absurd hfull hlen.ne'

/-- A piece that is not a text. -/
theorem other {q : Piece} (hq : ∀ T, q ≠ .text T) (h : outSink.Emits (q.toText t) o o')
    (hlen : o'.len ≤ o.len) : Emitted t o o' [q] where
  emits := by rwa [piecesText_singleton]
  len_le := hlen
  eq_of_nil h := absurd h (List.cons_ne_nil _ _)
  closes qs T _ heq := by
    rw [← List.nil_append [q]] at heq
    obtain ⟨-, hlast⟩ := List.append_inj' heq rfl
    exact absurd (List.singleton_inj.mp hlast) (hq T)

/-- **A buffer with a byte left holds all the pieces**, where the last one is a text. -/
theorem prints {n : ℕ} {bytes : ℕ → UInt8} {qs : List Piece}
    (h : Emitted t (OutBuf.fresh bytes n) o' qs) (hqs : Closed qs) (hnul : bytes 0 = 0)
    (hlen : 0 < o'.len) :
    o'.text = piecesText t qs ∧ o'.len + o'.bufp = n ∧ o'.mem.bytes o'.bufp = 0 := by
  rcases hqs with rfl | ⟨rs, T, hT, hqs⟩
  · rw [h.eq_of_nil rfl]
    exact ⟨rfl, rfl, hnul⟩
  · obtain ⟨htext, hsize, hnul'⟩ := h.closes rs T hT hqs hlen
    have htext' : o'.text = piecesText t qs := htext
    refine ⟨htext', ?_, hnul'⟩
    have hbufp : o'.text.length = o'.bufp := CharMem.upTo_length _ _
    rw [← hbufp, htext']
    exact hsize

end Emitted

/-- What the two devices have after the same printing. -/
def SamePrint (t : Target) (o : OutBuf) (ps : List Piece) (o' : OutBuf) (ps' : List Piece) : Prop :=
  ∃ qs, ps' = ps ++ qs ∧ Emitted t o o' qs

namespace SamePrint

variable {t : Target} {o o' : OutBuf} {ps ps' : List Piece}

theorem refl : SamePrint t o ps o ps := ⟨[], (List.append_nil ps).symm, Emitted.refl⟩

theorem trans {o'' : OutBuf} {ps'' : List Piece} (h : SamePrint t o ps o' ps')
    (h' : SamePrint t o' ps' o'' ps'') : SamePrint t o ps o'' ps'' := by
  obtain ⟨qs, rfl, hemit⟩ := h
  obtain ⟨qs', rfl, hemit'⟩ := h'
  exact ⟨qs ++ qs', List.append_assoc _ _ _, hemit.trans hemit'⟩

theorem len_le (h : SamePrint t o ps o' ps') : o'.len ≤ o.len := by
  obtain ⟨qs, -, hemit⟩ := h
  exact hemit.len_le

theorem bsnprintf (h : SamePrint t o ps o' ps') (T : List UInt8) :
    SamePrint t o ps ((bufDevice t).bsnprintf o' T) ((pieceDevice t).bsnprintf ps' T) :=
  h.trans ⟨[.text T], rfl, Emitted.bsnprintf T⟩

theorem jsstrPrint (h : SamePrint t o ps o' ps') (addr flags : ℕ) (ho : o.len ≤ 2 ^ t.cfg.bits) :
    ((bufDevice t).jsstrPrint 0 addr flags o').1 = ((pieceDevice t).jsstrPrint 0 addr flags ps').1 ∧
      SamePrint t o ps ((bufDevice t).jsstrPrint 0 addr flags o').2
        ((pieceDevice t).jsstrPrint 0 addr flags ps').2 := by
  obtain ⟨hrv, hemit, hlen⟩ := emits_jsstrPrint t addr flags (h.len_le.trans ho)
  -- without a limit, the length that is left is the one that `jsstr_print` leaves
  have hmax : jsstrPrintMax t 0 addr flags o' = MdbV8.jsstrPrint t addr flags o' := by
    unfold jsstrPrintMax
    simp only [true_or, if_true]
    refine Prod.ext_iff.mpr ⟨rfl, ?_⟩
    rw [Nat.sub_sub_self hlen]
  change (jsstrPrintMax t 0 addr flags o').1 = _ ∧
    SamePrint t o ps (jsstrPrintMax t 0 addr flags o').2 _
  rw [hmax]
  exact ⟨hrv, h.trans ⟨_, rfl, Emitted.other (fun T => by simp) hemit hlen⟩⟩

theorem jsfuncName (h : SamePrint t o ps o' ps') (funcinfop : ℕ) (ho : o.len ≤ 2 ^ t.cfg.bits) :
    ((bufDevice t).jsfuncName funcinfop o').1 = ((pieceDevice t).jsfuncName funcinfop ps').1 ∧
      SamePrint t o ps ((bufDevice t).jsfuncName funcinfop o').2
        ((pieceDevice t).jsfuncName funcinfop ps').2 := by
  obtain ⟨hrv, hemit, hlen⟩ := emits_jsfuncName t funcinfop (h.len_le.trans ho)
  exact ⟨hrv, h.trans ⟨_, rfl, Emitted.other (fun T => by simp) hemit hlen⟩⟩

end SamePrint

end MdbV8
