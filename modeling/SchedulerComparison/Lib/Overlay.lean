import Mathlib.Data.List.Basic

/-!
# A buffer that is written from its front

Every write starts at the front of the same buffer, so that a later write hides what it reaches of
the earlier ones. `getElem?_overlays` says what is in the buffer in the end: an element remains
when no later write reaches its position.
-/

namespace Overlay

variable {α : Type _}

/-- The content `w` after the write of `u`. -/
def overlay (w u : List α) : List α := u ++ w.drop u.length

/-- The content `w` after the writes `us`. -/
def overlays (w : List α) (us : List (List α)) : List α := us.foldl overlay w

/-- Of the writes `us`, one wrote `a` to the position `i`, and no later one reached it. -/
def Remains (us : List (List α)) (i : Nat) (a : α) : Prop :=
  ∃ before u after, us = before ++ u :: after ∧ u[i]? = some a ∧ ∀ d ∈ after, d.length ≤ i

variable {w u : List α} {us : List (List α)} {i : Nat} {a : α}

/-- A write hides what it reaches. -/
theorem getElem?_overlay (w u : List α) (i : Nat) :
    (overlay w u)[i]? = if i < u.length then u[i]? else w[i]? := by
  rw [overlay, List.getElem?_append, List.getElem?_drop]
  split
  · rfl
  · next h => rw [Nat.add_sub_cancel' (Nat.not_lt.1 h)]

/-- What remains of all writes is what remains of the later ones, or an element of the first that
none of them reaches. -/
theorem remains_cons : Remains (u :: us) i a ↔
    Remains us i a ∨ u[i]? = some a ∧ ∀ d ∈ us, d.length ≤ i := by
  constructor
  · rintro ⟨before, d, after, heq, hd, hafter⟩
    cases before with
    | nil =>
      obtain ⟨rfl, rfl⟩ := List.cons.inj heq
      exact .inr ⟨hd, hafter⟩
    | cons b before =>
      obtain ⟨rfl, rfl⟩ := List.cons.inj heq
      exact .inl ⟨before, d, after, rfl, hd, hafter⟩
  · rintro (⟨before, d, after, rfl, hd, hafter⟩ | ⟨hu, hus⟩)
    · exact ⟨u :: before, d, after, rfl, hd, hafter⟩
    · exact ⟨[], u, us, rfl, hu, hus⟩

/-- What is in the buffer in the end. -/
theorem getElem?_overlays : (overlays w us)[i]? = some a ↔
    Remains us i a ∨ w[i]? = some a ∧ ∀ d ∈ us, d.length ≤ i := by
  induction us generalizing w with
  | nil => simp [overlays, Remains]
  | cons u us ih =>
    rw [overlays, List.foldl_cons, ← overlays, ih, remains_cons, getElem?_overlay,
      List.forall_mem_cons]
    split
    · next h =>
      -- the first write reaches the position
      have hnot : ¬ u.length ≤ i := Nat.not_le.2 h
      tauto
    · next h =>
      have hnone : u[i]? = none := List.getElem?_eq_none (Nat.not_lt.1 h)
      have hle : u.length ≤ i := Nat.not_lt.1 h
      rw [hnone]
      simp [hle]

/-- An element is in the buffer in the end when it remains. -/
theorem mem_overlays : a ∈ overlays [] us ↔ ∃ i, Remains us i a := by
  rw [List.mem_iff_getElem?]
  refine exists_congr fun i => getElem?_overlays.trans (or_iff_left ?_)
  rintro ⟨h, -⟩
  cases h

end Overlay
