/-!
# Taking what is in the making

Something is made by edits, one after another, and some of the edits take it as it stands.  What was
taken is kept in order (`Snapshots`), so it is found again by counting the edits that take, whatever
comes later (`Snapshots.getElem?_foldl`).
-/

namespace MathMarkup

variable {σ ε τ : Type} {step : σ → ε → σ} {taken : σ → List τ} {current : σ → τ} {takes : ε → Bool}

/-- An edit puts what stands behind what was taken, or leaves what was taken alone. -/
def Snapshots (step : σ → ε → σ) (taken : σ → List τ) (current : σ → τ) (takes : ε → Bool) : Prop :=
  ∀ s e, taken (step s e) = taken s ++ if takes e then [current s] else []

namespace Snapshots

/-- What was taken stays as it is. -/
theorem prefix_foldl (h : Snapshots step taken current takes) (s : σ) (edits : List ε) :
    taken s <+: taken (edits.foldl step s) := by
  induction edits generalizing s with
  | nil => exact List.prefix_rfl
  | cons e edits ih => exact (h s e ▸ List.prefix_append _ _).trans (ih (step s e))

theorem length_foldl (h : Snapshots step taken current takes) (s : σ) (edits : List ε) :
    (taken (edits.foldl step s)).length = (taken s).length + edits.countP takes := by
  induction edits generalizing s with
  | nil => rfl
  | cons e edits ih =>
    rw [List.foldl_cons, ih, h, List.length_append, List.countP_cons]
    split
    · rw [List.length_singleton, Nat.add_assoc, Nat.add_comm 1]
    · rw [List.length_nil, Nat.add_zero, Nat.add_zero]

/-- An edit that takes gives what stands before it, whatever comes later. -/
theorem getElem?_foldl (h : Snapshots step taken current takes) {s : σ} (hs : taken s = []) {e : ε}
    (he : takes e = true) (before after : List ε) :
    (taken ((before ++ e :: after).foldl step s))[before.countP takes]? =
      some (current (before.foldl step s)) := by
  have hlength : (taken (before.foldl step s)).length = before.countP takes := by
    rw [h.length_foldl, hs, List.length_nil, Nat.zero_add]
  obtain ⟨rest, hrest⟩ := h.prefix_foldl (step (before.foldl step s) e) after
  rw [List.foldl_append, List.foldl_cons, ← hrest, h, if_pos he, List.append_assoc, ← hlength]
  exact (List.getElem?_append_right (Nat.le_refl _)).trans (by simp)

end Snapshots

end MathMarkup
