import MarkdownLayout.Render.Basic

/-!
# Runs of a character

The length of the longest run is found in one pass that keeps the run at the end and the longest one
so far. What is to be known of it is that no run is longer, `le_longestRun_of_infix`, and that it
does not change when runs of blanks are made one. Nor do the first character and the last one.
-/

namespace MarkdownLayout

variable {c : Char}

/-- The run at the end and the longest run, after one more character. -/
def extendRun (c : Char) (runs : Nat × Nat) (d : Char) : Nat × Nat :=
  if d = c then (runs.1 + 1, max runs.2 (runs.1 + 1)) else (0, runs.2)

/-- The longest run is found in one pass, which `extendRun` makes one step of. -/
theorem longestRun_eq (c : Char) (cs : List Char) :
    longestRun c cs = (cs.foldl (extendRun c) (0, 0)).2 := rfl

/-- Any other character ends a run and leaves the longest one as it is. -/
theorem extendRun_of_ne {d : Char} (h : d ≠ c) (runs : Nat × Nat) :
    extendRun c runs d = (0, runs.2) :=
  if_neg h

/-- Longer runs to begin with make longer runs. -/
theorem foldl_extendRun_mono (cs : List Char) {runs more : Nat × Nat} (hrun : runs.1 ≤ more.1)
    (hbest : runs.2 ≤ more.2) :
    (cs.foldl (extendRun c) runs).1 ≤ (cs.foldl (extendRun c) more).1 ∧
      (cs.foldl (extendRun c) runs).2 ≤ (cs.foldl (extendRun c) more).2 := by
  induction cs generalizing runs more with
  | nil => exact ⟨hrun, hbest⟩
  | cons d rest ih =>
    by_cases hd : d = c
    · refine ih ?_ ?_ <;> simp only [extendRun, if_pos hd] <;> omega
    · refine ih ?_ ?_ <;> simp only [extendRun, if_neg hd]
      · omega
      · exact hbest

/-- The longest run so far is never forgotten. -/
theorem le_foldl_extendRun (cs : List Char) (runs : Nat × Nat) :
    runs.2 ≤ (cs.foldl (extendRun c) runs).2 := by
  induction cs generalizing runs with
  | nil => exact Nat.le_refl _
  | cons d rest ih =>
    refine Nat.le_trans ?_ (ih (extendRun c runs d))
    by_cases hd : d = c
    · simp only [extendRun, if_pos hd]
      omega
    · simp only [extendRun, if_neg hd]
      omega

/-- A part of a text has no longer runs than the text. -/
theorem longestRun_le_of_infix {cs ds : List Char} (h : cs <:+: ds) :
    longestRun c cs ≤ longestRun c ds := by
  obtain ⟨before, after, rfl⟩ := h
  rw [longestRun_eq, longestRun_eq, List.foldl_append, List.foldl_append]
  refine Nat.le_trans ?_ (le_foldl_extendRun after _)
  exact (foldl_extendRun_mono cs (Nat.zero_le _) (Nat.zero_le _)).2

/-- A text that is one run is as long as its longest run. -/
theorem longestRun_replicate (c : Char) (n : Nat) : longestRun c (List.replicate n c) = n := by
  have hruns : (List.replicate n c).foldl (extendRun c) (0, 0) = (n, n) := by
    induction n with
    | zero => rfl
    | succ n ih =>
      rw [List.replicate_succ', List.foldl_append, ih]
      simp [extendRun]
  rw [longestRun_eq, hruns]

/-- No run is longer than the longest. -/
theorem le_longestRun_of_infix {cs : List Char} {n : Nat} (h : List.replicate n c <:+: cs) :
    n ≤ longestRun c cs := by
  rw [← longestRun_replicate c n]
  exact longestRun_le_of_infix h

/-- Any other character at the end belongs to no run. -/
theorem longestRun_append_of_ne {d : Char} (h : d ≠ c) (cs : List Char) :
    longestRun c (cs ++ [d]) = longestRun c cs := by
  rw [longestRun_eq, longestRun_eq, List.foldl_append, List.foldl_cons, List.foldl_nil,
    extendRun_of_ne h]

/-- Characters other than `c` may be exchanged for each other. -/
theorem longestRun_map {f : Char → Char} (hf : ∀ d, f d = c ↔ d = c) (cs : List Char) :
    longestRun c (cs.map f) = longestRun c cs := by
  have hstep : ∀ runs d, extendRun c runs (f d) = extendRun c runs d := by
    intro runs d
    simp only [extendRun, hf]
  rw [longestRun_eq, longestRun_eq, List.foldl_map]
  simp only [hstep]

/-- A blank more or less among blanks changes no run. -/
theorem foldl_extendRun_squeezeAfter (hc : ' ' ≠ c) (after : Bool) (cs : List Char)
    {runs : Nat × Nat} (h : after = true → runs.1 = 0) :
    (Writer.squeezeAfter after cs).foldl (extendRun c) runs = cs.foldl (extendRun c) runs := by
  induction cs generalizing after runs with
  | nil => rfl
  | cons d rest ih =>
    rw [Writer.squeezeAfter]
    split
    · rename_i hd
      subst hd
      have hblank := extendRun_of_ne hc runs
      cases after with
      | true =>
        have hruns : extendRun c runs ' ' = runs := by
          rw [hblank, ← h rfl]
        rw [if_pos rfl, List.foldl_cons, hruns]
        exact ih true h
      | false =>
        rw [if_neg (by simp), List.foldl_cons, List.foldl_cons]
        exact ih true fun _ => by rw [hblank]
    · rw [List.foldl_cons, List.foldl_cons]
      exact ih false fun hn => by cases hn

/-- Runs of other characters than blanks are the same when runs of blanks are made one. -/
theorem longestRun_squeeze (hc : ' ' ≠ c) (cs : List Char) :
    longestRun c (Writer.squeeze cs) = longestRun c cs := by
  rw [longestRun_eq, longestRun_eq, Writer.squeeze,
    foldl_extendRun_squeezeAfter hc false cs fun hn => by cases hn]

/-- The first character is the same when runs of blanks are made one. -/
theorem Writer.head?_squeeze (cs : List Char) : (squeeze cs).head? = cs.head? := by
  cases cs with
  | nil => rfl
  | cons c rest =>
    unfold squeeze squeezeAfter
    by_cases hc : c = ' ' <;> simp [hc]

/-- So is the last one. -/
theorem Writer.getLast?_squeezeAfter (cs : List Char) :
    (squeezeAfter false cs).getLast? = cs.getLast? ∧
      (' ' :: squeezeAfter true cs).getLast? = (' ' :: cs).getLast? := by
  induction cs with
  | nil => exact ⟨rfl, rfl⟩
  | cons c rest ih =>
    obtain ⟨hwithin, hbehind⟩ := ih
    by_cases hc : c = ' '
    · simp only [squeezeAfter, hc, if_true, Bool.false_eq_true, if_false, List.getLast?_cons_cons]
      exact ⟨hbehind, hbehind⟩
    · simp [squeezeAfter, hc, List.getLast?_cons, hwithin]

/-- Blanks around a text belong to no run. -/
theorem longestRun_padded (hc : ' ' ≠ c) (cs : List Char) :
    longestRun c (' ' :: (cs ++ [' '])) = longestRun c cs := by
  rw [← List.cons_append, longestRun_append_of_ne hc, longestRun_eq, longestRun_eq,
    List.foldl_cons, extendRun_of_ne hc]

/-- A run of ticks is on one line. -/
theorem newline_notMem_ticks (n : Nat) : '\n' ∉ (ticks n).toList := by
  rw [ticks, String.toList_ofList]
  exact fun h => absurd (List.eq_of_mem_replicate h) (by decide)

end MarkdownLayout
