import FrameGraph.Text.Line

/-!
Texts on one line, and the lines of texts put together. Main statement: a text goes on where the
last line of the text before it ends.
-/

namespace FrameGraph.Text

def IsLine (s : String) : Prop :=
  '\n' ∉ s.toList

instance (s : String) : Decidable (IsLine s) :=
  inferInstanceAs (Decidable ('\n' ∉ s.toList))

@[simp] theorem isLine_append {s t : String} : IsLine (s ++ t) ↔ IsLine s ∧ IsLine t := by
  simp [IsLine]

theorem isLine_ofList {cs : List Char} : IsLine (String.ofList cs) ↔ '\n' ∉ cs := by
  simp [IsLine]

theorem isLine_intercalate {separator : String} {parts : List String} (separates : IsLine separator)
    (each : ∀ part ∈ parts, IsLine part) : IsLine (separator.intercalate parts) := by
  induction parts with
  | nil => simp [IsLine]
  | cons first rest ih =>
      have head := each first List.mem_cons_self
      have tail := ih fun part member => each part (List.mem_cons_of_mem _ member)
      by_cases last : rest = []
      · simpa [last] using head
      · rw [String.intercalate_cons_of_ne_nil last, isLine_append, isLine_append]
        exact ⟨⟨head, separates⟩, tail⟩

theorem isLine_of_forall (test : Char → Bool) (newline : test '\n' = false) {s : String}
    (each : ∀ c ∈ s.toList, test c = true) : IsLine s := by
  intro member
  have passed := each '\n' member
  rw [newline] at passed
  contradiction

theorem isLine_of_mem_lines {s line : String} (member : line ∈ lines s) : IsLine line := by
  obtain ⟨piece, inside, rfl⟩ := List.mem_map.mp member
  exact isLine_ofList.mpr (not_mem_of_mem_pieces inside)

theorem lines_ne_nil (s : String) : lines s ≠ [] := by
  simpa [lines] using pieces_ne_nil s.toList

theorem length_lines (s : String) : (lines s).length = s.toList.count '\n' + 1 := by
  rw [lines, List.length_map, length_pieces]

theorem pieces_cons {c : Char} (inside : c ≠ '\n') {cs piece : List Char}
    {rest : List (List Char)} (cut : pieces cs = piece :: rest) :
    pieces (c :: cs) = (c :: piece) :: rest := by
  simp [pieces, inside, cut]

theorem pieces_of_not_mem {cs : List Char} (single : '\n' ∉ cs) : pieces cs = [cs] := by
  induction cs with
  | nil => rfl
  | cons c cs ih =>
      simp only [List.mem_cons, not_or] at single
      exact pieces_cons (Ne.symm single.1) (ih single.2)

theorem pieces_append_of_not_mem {before : List Char} (single : '\n' ∉ before)
    {cs first : List Char} {others : List (List Char)} (cut : pieces cs = first :: others) :
    pieces (before ++ cs) = (before ++ first) :: others := by
  induction before with
  | nil => exact cut
  | cons c before ih =>
      simp only [List.mem_cons, not_or] at single
      exact pieces_cons (Ne.symm single.1) (ih single.2)

theorem pieces_append {before last : List Char} {ended : List (List Char)}
    (cut : pieces before = ended ++ [last]) (cs : List Char) :
    pieces (before ++ cs) = ended ++ pieces (last ++ cs) := by
  induction before generalizing ended last with
  | nil =>
      cases ended with
      | nil =>
          obtain rfl : [] = last := by simpa using cut
          rfl
      | cons piece rest => simp at cut
  | cons c before ih =>
      by_cases newline : c = '\n'
      · subst newline
        rw [pieces_newline] at cut
        cases ended with
        | nil => simp [pieces_ne_nil] at cut
        | cons piece rest =>
            simp only [List.cons_append, List.cons.injEq] at cut
            rw [List.cons_append, pieces_newline, ih cut.2, ← cut.1, List.cons_append]
      · obtain ⟨piece, rest, front⟩ := List.exists_cons_of_ne_nil (pieces_ne_nil before)
        rw [pieces_cons newline front] at cut
        cases ended with
        | nil =>
            simp only [List.nil_append, List.cons.injEq] at cut
            obtain ⟨rfl, rfl⟩ := cut
            have front : pieces before = [] ++ [piece] := front
            have glued : pieces (before ++ cs) = pieces (piece ++ cs) := ih front
            simp [pieces, newline, glued]
        | cons first ended =>
            simp only [List.cons_append, List.cons.injEq] at cut
            obtain ⟨rfl, rfl⟩ := cut
            rw [← List.cons_append] at front
            exact pieces_cons newline (ih front)

theorem lines_of_isLine {s : String} (single : IsLine s) : lines s = [s] := by
  simp [lines, pieces_of_not_mem single]

theorem lines_append {before last : String} {ended : List String}
    (cut : lines before = ended ++ [last]) (s : String) :
    lines (before ++ s) = ended ++ lines (last ++ s) := by
  obtain ⟨front, back, split, rfl, tail⟩ := List.map_eq_append_iff.mp cut
  obtain ⟨piece, rfl, rfl⟩ := List.map_eq_singleton_iff.mp tail
  simp [lines, pieces_append split]

/-- A text on one line stays in front of the first line of what follows. -/
theorem lines_append_of_isLine {before s first : String} {others : List String}
    (single : IsLine before) (cut : lines s = first :: others) :
    lines (before ++ s) = (before ++ first) :: others := by
  obtain ⟨piece, rest, split, rfl, rfl⟩ := List.map_eq_cons_iff.mp cut
  simp [lines, pieces_append_of_not_mem single split]

@[simp] theorem joinLines_singleton (s : String) : joinLines [s] = s := by
  simp [joinLines]

theorem joinLines_append_cons (before s : String) (others : List String) :
    joinLines ((before ++ s) :: others) = before ++ joinLines (s :: others) := by
  cases others with
  | nil => simp
  | cons next rest => simp [joinLines, String.intercalate_cons_cons, String.append_assoc]

theorem joinLines_append_of_eq {ls ms : List String} (nonempty : ls ≠ []) (others : ms ≠ [])
    {s : String} (same : joinLines ms = joinLines ls ++ s) (front : List String) :
    joinLines (front ++ ms) = joinLines (front ++ ls) ++ s := by
  induction front with
  | nil => exact same
  | cons line front ih =>
      have more : front ++ ms ≠ [] := List.append_ne_nil_of_right_ne_nil _ others
      have less : front ++ ls ≠ [] := List.append_ne_nil_of_right_ne_nil _ nonempty
      simp only [joinLines] at ih ⊢
      rw [List.cons_append, List.cons_append, String.intercalate_cons_of_ne_nil more,
        String.intercalate_cons_of_ne_nil less, ih]
      simp only [String.append_assoc]

theorem lines_newline (s : String) : lines ("\n" ++ s) = "" :: lines s := by
  simp [lines]

theorem lines_joinLines {ls : List String} (nonempty : ls ≠ []) (each : ∀ l ∈ ls, IsLine l) :
    lines (joinLines ls) = ls := by
  induction ls with
  | nil => exact absurd rfl nonempty
  | cons first rest ih =>
      have head := each first List.mem_cons_self
      cases rest with
      | nil => rw [joinLines_singleton, lines_of_isLine head]
      | cons second rest =>
          have tail := ih (List.cons_ne_nil _ _) fun l member =>
            each l (List.mem_cons_of_mem _ member)
          rw [joinLines, String.intercalate_cons_cons, String.append_assoc,
            lines_append_of_isLine head (lines_newline _), String.append_empty]
          exact congrArg (first :: ·) tail

end FrameGraph.Text
