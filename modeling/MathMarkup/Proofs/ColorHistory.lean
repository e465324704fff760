import MathMarkup.Proofs.ColorRange
import MathMarkup.Proofs.Snapshots

/-!
# Histories of colors

A registration fails exactly if it has no name or its color is out of range, and then it changes
nothing (`ColorTable.History.apply_add_eq_none_iff`, `ColorTable.History.apply_add_of_error`).

What a table has for a name depends on the edits alone: it is the color of the last edit that has
one for the name, where names that agree in lower case are the same (`ColorTable.Edit.color?`).

* `ColorTable.History.lookup_apply`: one edit.
* `ColorTable.History.lookup_applyAll`: edits, one after another.
* `ColorTable.History.recounts`: a history from the empty table, with the tables that were taken.
-/

namespace MathMarkup.ColorTable

open Text

/-! ## One table -/

/-- A color that was set under some names is found under each of them, in any case. -/
theorem lookup_set (t : ColorTable) (names : List String) (c : RGB) (name : String) :
    (t.set names c).lookup name =
      if lowerCase name ∈ names.map lowerCase then some c else t.lookup name := by
  unfold set
  induction names generalizing t with
  | nil => rfl
  | cons first names ih =>
    refine (ih ⟨t.entries.set (lowerCase first) c⟩).trans ?_
    have hfirst : (mk (t.entries.set (lowerCase first) c)).lookup name =
        if lowerCase name = lowerCase first then some c else t.lookup name :=
      KeyedList.value?_set t.entries (lowerCase first) (lowerCase name) c
    rw [hfirst, List.map_cons]
    by_cases hnames : lowerCase name ∈ names.map lowerCase
    · rw [if_pos hnames, if_pos (List.mem_cons_of_mem _ hnames)]
    · simp only [List.mem_cons, hnames, or_false, if_false]

/-- The last color that another table has under a name is found after it was set. -/
theorem lookup_update (t other : ColorTable) (name : String) :
    (t.update other).lookup name =
      (KeyedList.value? other.entries.reverse (lowerCase name)).or (t.lookup name) :=
  KeyedList.value?_foldl_set t.entries other.entries (lowerCase name)

/-! ## Edits -/

/-- The color that an edit has for a name.  A registration has one for its own names in any case,
if the color is in range. -/
def Edit.color? (name : String) : Edit → Option RGB
  | .add names c => if c.InRange ∧ lowerCase name ∈ names.map lowerCase then some c else none
  | .update other => KeyedList.value? other.entries.reverse (lowerCase name)
  | .take => none

/-- Whether an edit takes the table. -/
def Edit.isTake : Edit → Bool
  | .take => true
  | _ => false

namespace History

/-- A registration goes through exactly if it has a name and the color is in range. -/
theorem apply_add_eq_none_iff (h : History) (names : List String) (c : RGB) :
    (h.apply (.add names c)).2 = none ↔ names ≠ [] ∧ c.InRange := by
  unfold apply
  dsimp only
  split
  · rename_i table hadd
    obtain ⟨hnames, hc, -⟩ := add_eq_ok_iff.mp hadd
    exact iff_of_true rfl ⟨hnames, hc⟩
  · rename_i e hadd
    refine iff_of_false nofun fun ⟨hnames, hc⟩ => ?_
    rw [add_eq_ok_iff.mpr ⟨hnames, hc, rfl⟩] at hadd
    cases hadd

/-- A registration that fails changes nothing. -/
theorem apply_add_of_error {h : History} {names : List String} {c : RGB}
    (herror : (h.apply (.add names c)).2 ≠ none) : (h.apply (.add names c)).1 = h := by
  unfold apply at herror ⊢
  dsimp only at herror ⊢
  split at herror
  · exact absurd rfl herror
  · rfl

theorem apply_add_of_ok {h : History} {names : List String} {c : RGB} (hnames : names ≠ [])
    (hc : c.InRange) :
    (h.apply (.add names c)).1 = { h with current := h.current.set names c } := by
  rw [apply, add_eq_ok_iff.mpr ⟨hnames, hc, rfl⟩]

/-- After an edit a name has the color of the edit, or else its old one. -/
theorem lookup_apply (h : History) (edit : Edit) (name : String) :
    (h.apply edit).1.current.lookup name =
      (edit.color? name).or (h.current.lookup name) := by
  cases edit with
  | add names c =>
    by_cases hok : names ≠ [] ∧ c.InRange
    · obtain ⟨hnames, hc⟩ := hok
      rw [apply_add_of_ok hnames hc, lookup_set, Edit.color?]
      by_cases hname : lowerCase name ∈ names.map lowerCase
      · rw [if_pos hname, if_pos ⟨hc, hname⟩, Option.some_or]
      · rw [if_neg hname, if_neg fun hboth => hname hboth.2, Option.none_or]
    · have herror : (h.apply (.add names c)).2 ≠ none :=
        fun hnone => hok ((apply_add_eq_none_iff h names c).mp hnone)
      have hcolor : Edit.color? name (.add names c) = none := by
        refine if_neg fun ⟨hc, hname⟩ => hok ⟨?_, hc⟩
        exact List.ne_nil_of_mem (List.mem_map.mp hname).choose_spec.1
      rw [apply_add_of_error herror, hcolor, Option.none_or]
  | update other => exact lookup_update h.current other name
  | take => rfl

/-- After edits a name has the color of the last edit that has one for it, or else its old one. -/
theorem lookup_applyAll (h : History) (edits : List Edit) (name : String) :
    (h.applyAll edits).current.lookup name =
      (edits.reverse.findSome? (Edit.color? name)).or (h.current.lookup name) := by
  induction edits generalizing h with
  | nil => rfl
  | cons edit edits ih =>
    refine (ih (h.apply edit).1).trans ?_
    rw [lookup_apply, List.reverse_cons, List.findSome?_append, Option.or_assoc]
    simp only [List.findSome?_singleton]

/-- A name without a color in the empty table has the color of the last edit that has one for it. -/
theorem lookup_applyAll_empty (edits : List Edit) (name : String) :
    (applyAll {} edits).current.lookup name = edits.reverse.findSome? (Edit.color? name) :=
  (lookup_applyAll {} edits name).trans Option.or_none

/-! ## Tables that were taken -/

theorem snapshots : Snapshots (fun h edit => (apply h edit).1) taken current Edit.isTake := by
  intro h edit
  cases edit with
  | add names c =>
    refine Eq.trans ?_ (List.append_nil h.taken).symm
    dsimp only
    by_cases herror : (h.apply (.add names c)).2 = none
    · obtain ⟨hnames, hc⟩ := (apply_add_eq_none_iff h names c).mp herror
      rw [apply_add_of_ok hnames hc]
    · rw [apply_add_of_error herror]
  | update => exact (List.append_nil h.taken).symm
  | take => rfl

/-! ## Histories -/

/-- What is known of the history of some edits, from the edits alone. -/
structure Recounts (edits : List Edit) : Prop where
  /-- Colors are in range, in the table in the making and in those that were taken. -/
  inRange : (applyAll {} edits).InRange
  /-- A registration fails without a name, or with a color out of range, and in no other case. -/
  fails (names : List String) (c : RGB) :
    ((applyAll {} edits).apply (.add names c)).2 ≠ none ↔ names = [] ∨ ¬ c.InRange
  /-- A registration that fails changes nothing. -/
  kept (names : List String) (c : RGB) :
    ((applyAll {} edits).apply (.add names c)).2 ≠ none →
      ((applyAll {} edits).apply (.add names c)).1 = applyAll {} edits
  /-- A table that was taken has the last color of a name in the edits before that, and none if
  there is none.  Nothing that comes later changes it. -/
  taken (before after : List Edit) (h : edits = before ++ .take :: after) :
    ∃ colors, (applyAll {} edits).taken[before.countP Edit.isTake]? = some colors ∧
      colors = (applyAll {} before).current ∧
      ∀ name, colors.lookup name = before.reverse.findSome? (Edit.color? name)

/-- Whatever edits are made: colors are in range if those of the tables that are copied are,
registrations that fail change nothing, and a table that is taken has the last color of each
name. -/
theorem recounts {edits : List Edit}
    (hedits : ∀ other, .update other ∈ edits → other.InRange) : Recounts edits where
  inRange := inRange_applyAll inRange_empty hedits
  fails names c := by
    rw [ne_eq, apply_add_eq_none_iff, not_and_or, not_not]
  kept _ _ := apply_add_of_error
  taken before after h := by
    subst h
    exact ⟨_, snapshots.getElem?_foldl rfl rfl before after, rfl, lookup_applyAll_empty before⟩

/-- Two names that agree in lower case, a part beyond the range, no name, and a color that comes
after the first table was taken. -/
def harborEdits : List Edit :=
  [.add ["Sea", "Quay"] ⟨0, 0, 200⟩, .add ["sea"] ⟨0, 0, 256⟩, .add [] ⟨0, 0, 1⟩, .take,
    .add ["Foam", "SEA"] ⟨255, 255, 255⟩, .take]

theorem recounts_harborEdits :
    (∀ other, .update other ∈ harborEdits → other.InRange) ∧ Recounts harborEdits ∧
      ((applyAll {} harborEdits).taken.map fun t => ["sEa", "quay", "foam"].map t.lookup) =
        [[some ⟨0, 0, 200⟩, some ⟨0, 0, 200⟩, none],
          [some ⟨255, 255, 255⟩, some ⟨0, 0, 200⟩, some ⟨255, 255, 255⟩]] := by
  have hedits : ∀ other, .update other ∈ harborEdits → other.InRange := by
    intro other hother
    simp [harborEdits] at hother
  exact ⟨hedits, recounts hedits, by decide⟩

end History

end MathMarkup.ColorTable
