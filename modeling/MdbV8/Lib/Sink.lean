import Mathlib

/-!
# Bounded sinks

A *sink* takes symbols one after the other and has room for finitely many more. An operation on a
sink *emits* a text when a sink that has room left after it has the whole text, and nothing else,
behind what it had before. Where the sink has no room left, nothing is said about what it holds: the
text may have been cut anywhere, or something else may have been stored in its place. An operation
that always ended so would emit every text, so it is also required that the text is stored where
there is room for it and for some more symbols, the *slack* of the sink.

This is what makes a retry with a larger sink sound. Emitting is closed under sequential composition
(`Emits.trans`), the texts being concatenated, so a sink that still has room after any number of
operations holds the concatenation of all their texts (`Emits.text_eq`), and a sink that is large
enough still has room (`Emits.room_pos`).
-/

namespace MdbV8.Lib

/-- A sink: what it holds, how many more symbols it can take, and how many of these an operation may
leave unused although its text would fit. -/
structure Sink (σ α : Type*) where
  text : σ → List α
  room : σ → ℕ
  slack : ℕ

namespace Sink

variable {σ α : Type*} (K : Sink σ α)

/-- Going from `s` to `s'` stores `T`. -/
def Wrote (T : List α) (s s' : σ) : Prop :=
  K.text s' = K.text s ++ T ∧ K.room s' + T.length = K.room s

/-- Going from `s` to `s'` emits `T`. -/
structure Emits (T : List α) (s s' : σ) : Prop where
  /-- A sink with room left has the text. -/
  of_room : 0 < K.room s' → K.Wrote T s s'
  /-- A text that easily fits is stored. -/
  of_fits : T.length + K.slack ≤ K.room s → K.Wrote T s s'

variable {K}

theorem Wrote.refl (s : σ) : K.Wrote [] s s := ⟨(List.append_nil _).symm, rfl⟩

theorem Wrote.trans {T₁ T₂ : List α} {s₁ s₂ s₃ : σ} (h₁ : K.Wrote T₁ s₁ s₂)
    (h₂ : K.Wrote T₂ s₂ s₃) : K.Wrote (T₁ ++ T₂) s₁ s₃ := by
  obtain ⟨htext₁, hroom₁⟩ := h₁
  obtain ⟨htext₂, hroom₂⟩ := h₂
  refine ⟨by rw [htext₂, htext₁, List.append_assoc], ?_⟩
  rw [List.length_append]
  omega

theorem Wrote.emits {T : List α} {s s' : σ} (h : K.Wrote T s s') : K.Emits T s s' :=
  ⟨fun _ => h, fun _ => h⟩

theorem Emits.refl (s : σ) : K.Emits [] s s := (Wrote.refl s).emits

/-- A step that leaves no room emits any text that did not easily fit. -/
theorem Emits.of_full {T : List α} {s s' : σ} (hshort : K.room s < T.length + K.slack)
    (hroom : K.room s' = 0) : K.Emits T s s' where
  of_room h := absurd hroom h.ne'
  of_fits h := absurd hshort (Nat.not_lt.mpr h)

/-- Once a sink is full it stays full. -/
theorem Emits.full {T : List α} {s s' : σ} (h : K.Emits T s s') (hroom : K.room s = 0) :
    K.room s' = 0 := by
  by_contra hne
  have := (h.of_room (Nat.pos_of_ne_zero hne)).2
  omega

/-- **Sequential composition.** Emitting one text and then another emits their concatenation. -/
theorem Emits.trans {T₁ T₂ : List α} {s₁ s₂ s₃ : σ} (h₁ : K.Emits T₁ s₁ s₂)
    (h₂ : K.Emits T₂ s₂ s₃) : K.Emits (T₁ ++ T₂) s₁ s₃ where
  of_room hroom := by
    -- there was room before the second text, so the first one is there
    have hw₂ := h₂.of_room hroom
    have hpos : 0 < K.room s₂ := by
      have := hw₂.2
      omega
    exact (h₁.of_room hpos).trans hw₂
  of_fits hfits := by
    rw [List.length_append] at hfits
    have hw₁ := h₁.of_fits (by omega)
    have := hw₁.2
    exact hw₁.trans (h₂.of_fits (by omega))

/-- **Retrying is sound.** If the sink has room left at the end, it holds the whole text. -/
theorem Emits.text_eq {T : List α} {s s' : σ} (h : K.Emits T s s') (hroom : 0 < K.room s') :
    K.text s' = K.text s ++ T :=
  (h.of_room hroom).1

/-- **Retrying ends.** A sink that is large enough has room left at the end. -/
theorem Emits.room_pos {T : List α} {s s' : σ} (h : K.Emits T s s') (hslack : 0 < K.slack)
    (hfits : T.length + K.slack ≤ K.room s) : 0 < K.room s' := by
  have := (h.of_fits hfits).2
  omega

/-- Operations that each emit a text emit, one after the other, all the texts. -/
theorem Emits.foldl {ι : Type*} {f : σ → ι → σ} {T : ι → List α}
    (h : ∀ s i, K.Emits (T i) s (f s i)) (is : List ι) (s : σ) :
    K.Emits (is.flatMap T) s (is.foldl f s) := by
  induction is generalizing s with
  | nil => exact Emits.refl s
  | cons i is ih =>
    rw [List.flatMap_cons, List.foldl_cons]
    exact (h s i).trans (ih (f s i))

end Sink

end MdbV8.Lib
