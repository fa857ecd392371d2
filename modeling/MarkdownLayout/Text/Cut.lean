/-!
# Cutting text

A text is cut at every occurrence of a mark; there is always one part more than there are marks.
-/

namespace MarkdownLayout.Text

/-- Cut a text at every occurrence of a character. -/
def cutAt (mark : Char) : List Char → List (List Char)
  | [] => [[]]
  | c :: rest =>
    if c = mark then [] :: cutAt mark rest
    else
      match cutAt mark rest with
      | [] => [[c]]
      | part :: parts => (c :: part) :: parts

theorem cutAt_ne_nil (mark : Char) (cs : List Char) : cutAt mark cs ≠ [] := by
  cases cs with
  | nil => simp [cutAt]
  | cons c rest =>
    rw [cutAt]
    split
    · simp
    · split <;> simp

/-- Joining the parts with the mark between them gives the text back. -/
theorem intercalate_cutAt (mark : Char) (cs : List Char) :
    List.intercalate [mark] (cutAt mark cs) = cs := by
  induction cs with
  | nil => rfl
  | cons c rest ih =>
    rw [cutAt]
    split
    · rename_i hc
      obtain ⟨part, parts, h⟩ := List.exists_cons_of_ne_nil (cutAt_ne_nil mark rest)
      rw [h] at ih ⊢
      simp only [List.intercalate, List.intersperse, List.flatten_cons, List.nil_append] at ih ⊢
      rw [ih, hc]
      rfl
    · split
      · rename_i h
        exact absurd h (cutAt_ne_nil mark rest)
      · rename_i part parts h
        rw [h] at ih
        cases parts with
        | nil => simpa [List.intercalate, List.intersperse] using ih
        | cons p ps =>
          simp only [List.intercalate, List.intersperse, List.flatten_cons,
            List.cons_append] at ih ⊢
          rw [ih]

/-- The text before the first mark and the text after it, when there is one. -/
def cutOnce (mark : Char) : List Char → Option (List Char × List Char)
  | [] => none
  | c :: rest =>
    if c = mark then some ([], rest)
    else (cutOnce mark rest).map fun (before, after) => (c :: before, after)

/-- The mark and the two parts around it make up the text. -/
theorem eq_append_of_cutOnce {mark : Char} {cs before after : List Char}
    (h : cutOnce mark cs = some (before, after)) : cs = before ++ mark :: after := by
  induction cs generalizing before with
  | nil => simp [cutOnce] at h
  | cons c rest ih =>
    rw [cutOnce] at h
    split at h
    · rename_i hc
      simp_all
    · obtain ⟨⟨front, back⟩, hr, he⟩ := Option.map_eq_some_iff.1 h
      simp only [Prod.mk.injEq] at he
      obtain ⟨rfl, rfl⟩ := he
      rw [ih hr, List.cons_append]

end MarkdownLayout.Text
