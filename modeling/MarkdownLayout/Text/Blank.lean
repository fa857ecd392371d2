/-!
# Blank characters

The characters that count as white space at the two ends of a word: the blanks, tabs, line ends and
separators of Unicode 14.
-/

namespace MarkdownLayout.Text

/-- The blank characters as ranges in increasing order, both ends included. -/
def blankRanges : List (Nat × Nat) :=
  [(9, 13), (28, 32), (133, 133), (160, 160), (5760, 5760), (8192, 8202), (8232, 8233),
    (8239, 8239), (8287, 8287), (12288, 12288)]

/-- Whether a character is blank. -/
def isBlank (c : Char) : Bool :=
  blankRanges.any fun range => range.1 ≤ c.toNat && c.toNat ≤ range.2

/-- Remove the characters that satisfy `drop` from both ends. -/
def trimBoth (drop : Char → Bool) (cs : List Char) : List Char :=
  ((cs.dropWhile drop).reverse.dropWhile drop).reverse

/-- Nothing is dropped in front of a character that is kept. -/
theorem dropWhile_eq_self {drop : Char → Bool} {cs : List Char}
    (h : ∀ c ∈ cs.head?, drop c = false) : cs.dropWhile drop = cs := by
  cases cs with
  | nil => rfl
  | cons c rest => rw [List.dropWhile_cons_of_neg (by simpa using h)]

theorem of_mem_head?_dropWhile {drop : Char → Bool} {cs : List Char} {c : Char}
    (h : c ∈ (cs.dropWhile drop).head?) : drop c = false := by
  have hfirst := List.head?_dropWhile_not drop cs
  rw [Option.mem_def] at h
  rwa [h] at hfirst

/-- What has been trimmed stays as it is. -/
theorem trimBoth_trimBoth (drop : Char → Bool) (cs : List Char) :
    trimBoth drop (trimBoth drop cs) = trimBoth drop cs := by
  have hfront : (trimBoth drop cs).dropWhile drop = trimBoth drop cs := by
    apply dropWhile_eq_self
    intro c hc
    have hprefix : trimBoth drop cs <+: cs.dropWhile drop := by
      rw [← List.reverse_suffix, trimBoth, List.reverse_reverse]
      exact List.dropWhile_suffix drop
    obtain ⟨rest, hrest⟩ := hprefix
    have hfirst : c ∈ (cs.dropWhile drop).head? := by
      rw [← hrest, List.head?_append, hc]
      rfl
    exact of_mem_head?_dropWhile hfirst
  have hback : (trimBoth drop cs).reverse.dropWhile drop = (trimBoth drop cs).reverse := by
    apply dropWhile_eq_self
    intro c hc
    rw [trimBoth, List.reverse_reverse] at hc
    exact of_mem_head?_dropWhile hc
  rw [trimBoth, hfront, hback, List.reverse_reverse]

/-- The text without the blank characters at its two ends. -/
def strip (s : String) : String :=
  String.ofList (trimBoth isBlank s.toList)

theorem strip_strip (s : String) : strip (strip s) = strip s := by
  rw [strip, strip, String.toList_ofList, trimBoth_trimBoth]

end MarkdownLayout.Text
