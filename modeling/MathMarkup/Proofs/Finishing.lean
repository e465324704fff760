import MathMarkup.Proofs.Faultless

/-!
# Layouts that MathML finishes

A layout that MathML writes without a fault has no part that stands in the way
(`MathML.all_finishes`): no value that cannot be shown, no font without a name, and, where
delimiters are operators, no delimiter that is not a text.
-/

namespace MathMarkup

namespace Layout

/-- What holds of a layout, part by part, that MathML can finish.  Delimiters need not be texts if
they are attributes. -/
def Finishes (fenced : Bool) : Layout → Prop
  | .foreign _ | .faulty _ => False
  | .font style _ => style ≠ none
  | .fence left _ right | .wrap left _ right | .matrix left _ right =>
    fenced = false → left.Plain ∧ right.Plain
  | _ => True

theorem IsGlyph.finishes {fenced : Bool} {l : Layout} (h : l.IsGlyph) : l.Finishes fenced := by
  cases l with
  | operator s => trivial
  | name s => trivial
  | identifier s => trivial
  | invisible => trivial
  | _ => exact h.elim

end Layout

namespace MathML

open Markup

section

variable {o : Options}

theorem plain_of_allSound_delimiter {m : Mark} (h : AllSound (o.delimiter m)) : m.Plain := by
  cases m with
  | none => trivial
  | text s => trivial
  | other value => exact h.1.1

theorem finishes_of_fence {left right : Mark} {body : List Markup}
    (h : AllSound (o.fence left body right)) :
    (o.fenced = false → left.Plain ∧ right.Plain) ∧ AllSound body := by
  unfold Options.fence at h
  split at h
  · rename_i hfenced
    refine ⟨fun hf => Bool.noConfusion (hfenced.symm.trans hf), ?_⟩
    split at h
    · exact h
    · exact h.1
  · have hparts : AllSound (o.delimiter left ++ body ++ o.delimiter right) := h.1
    simp only [allSound_append] at hparts
    obtain ⟨⟨hleft, hbody⟩, hright⟩ := hparts
    exact ⟨fun _ => ⟨plain_of_allSound_delimiter hleft, plain_of_allSound_delimiter hright⟩, hbody⟩

theorem allSound_of_scripted {lowerTag upperTag bothTag : String} {lower upper : Layout}
    {base : List Markup}
    (h : AllSound (o.scripted lowerTag upperTag bothTag lower upper base
      (o.child lower (content o lower)) (o.child upper (content o upper)))) :
    AllSound base ∧ AllSound (content o lower) ∧ AllSound (content o upper) := by
  have hnothing {l : Layout} (hl : l.isNothing = true) : AllSound (content o l) := by
    cases l with
    | nothing => trivial
    | _ => cases hl
  unfold Options.scripted at h
  split at h
  · simpa [and_assoc] using h
  · rename_i hupper
    have h : AllSound base ∧ AllSound (content o lower) := by simpa using h
    exact ⟨h.1, h.2, hnothing hupper⟩
  · rename_i hlower _
    have h : AllSound base ∧ AllSound (content o upper) := by simpa using h
    exact ⟨h.1, hnothing hlower, h.2⟩
  · rename_i hlower hupper
    exact ⟨h, hnothing hlower, hnothing hupper⟩

mutual

/-- A layout that is written without a fault has no part that stands in the way. -/
theorem all_finishes : ∀ l : Layout, AllSound (content o l) → l.All (Layout.Finishes o.fenced)
  | .nothing, _ => trivial
  | .foreign _, h => h.1.elim
  | .faulty _, h => h.1.elim
  | .invisible, _ => trivial
  | .operator _, _ => trivial
  | .name _, _ => trivial
  | .identifier _, _ => trivial
  | .number _, _ => trivial
  | .text _, _ => trivial
  | .colorText _, _ => trivial
  | .sequence items, h => ⟨trivial, allItems_finishes items h⟩
  | .row items, h => ⟨trivial, allItems_finishes items h.1⟩
  | .group a, h => ⟨trivial, all_finishes a ((allSound_child o).mp h)⟩
  | .fence _ a _, h =>
    ⟨(finishes_of_fence h).1,
      all_finishes a ((allSound_fenceBody o).mp (finishes_of_fence h).2)⟩
  | .wrap _ a _, h =>
    ⟨(finishes_of_fence h).1,
      all_finishes a ((allSound_fenceBody o).mp (finishes_of_fence h).2)⟩
  | .matrix _ rows _, h =>
    ⟨(finishes_of_fence h).1, allRows_finishes rows (finishes_of_fence h).2.1⟩
  | .sqrt a, h => ⟨trivial, all_finishes a ((allSound_child o).mp h.1)⟩
  | .cancel a, h => ⟨trivial, all_finishes a ((allSound_child o).mp h.1)⟩
  | .root a b, h => by
    have h : AllSound (content o a) ∧ AllSound (content o b) := by simpa [content] using h
    exact ⟨trivial, all_finishes a h.1, all_finishes b h.2⟩
  | .color _ a, h => ⟨trivial, all_finishes a ((allSound_child o).mp h.1)⟩
  | .fraction a b, h => by
    have h : AllSound (content o a) ∧ AllSound (content o b) := by simpa [content] using h
    exact ⟨trivial, all_finishes a h.1, all_finishes b h.2⟩
  | .font none _, h => h.1.elim
  | .font (some _) a, h => ⟨Option.some_ne_none _, all_finishes a ((allSound_child o).mp h.1)⟩
  | .operatorCall _ a, h => ⟨trivial, all_finishes a h.1.2⟩
  | .functionCall _ a, h => ⟨trivial, all_finishes a h.1.2⟩
  | .scripts a b c, h => by
    obtain ⟨ha, hb, hc⟩ := allSound_of_scripted h
    exact ⟨trivial, all_finishes a ((allSound_child o).mp ha), all_finishes b hb,
      all_finishes c hc⟩
  | .limits a b c, h => by
    obtain ⟨ha, hb, hc⟩ := allSound_of_scripted h
    exact ⟨trivial, all_finishes a ((allSound_child o).mp ha), all_finishes b hb,
      all_finishes c hc⟩
  | .accent a b .below, h => by
    obtain ⟨ha, hb, -⟩ := @allSound_of_scripted o _ _ _ b .nothing _ h
    exact ⟨trivial, all_finishes a ((allSound_child o).mp ha), all_finishes b hb⟩
  | .accent a b .above, h => by
    obtain ⟨ha, -, hb⟩ := @allSound_of_scripted o _ _ _ .nothing b _ h
    exact ⟨trivial, all_finishes a ((allSound_child o).mp ha), all_finishes b hb⟩
  | .overset a b, h => by
    obtain ⟨ha, -, hb⟩ := @allSound_of_scripted o _ _ _ .nothing b _ h
    exact ⟨trivial, all_finishes a ((allSound_child o).mp ha), all_finishes b hb⟩
  | .underset a b, h => by
    obtain ⟨ha, hb, -⟩ := @allSound_of_scripted o _ _ _ b .nothing _ h
    exact ⟨trivial, all_finishes a ((allSound_child o).mp ha), all_finishes b hb⟩

theorem allItems_finishes :
    ∀ ls : List Layout, AllSound (contents o ls) →
      Layout.AllItems (Layout.Finishes o.fenced) ls
  | [], _ => trivial
  | l :: ls, h => by
    have h := allSound_append.mp h
    exact ⟨all_finishes l ((allSound_child o).mp h.1), allItems_finishes ls h.2⟩

theorem allRows_finishes :
    ∀ rows : List (List Layout), AllSound (rowContents o rows) →
      Layout.AllRows (Layout.Finishes o.fenced) rows
  | [], _ => trivial
  | row :: rows, h => ⟨allItems_finishes_cells row h.1, allRows_finishes rows h.2⟩

theorem allItems_finishes_cells :
    ∀ ls : List Layout, AllSound (cellContents o ls) →
      Layout.AllItems (Layout.Finishes o.fenced) ls
  | [], _ => trivial
  | l :: ls, h =>
    ⟨all_finishes l ((allSound_child o).mp h.1), allItems_finishes_cells ls h.2⟩

end

end

end MathML

end MathMarkup
