/-!
Texts as sequences of lines. Main statements: cutting at newlines leaves no newline in a piece, and
joining the pieces with newlines gives the text back.
-/

namespace FrameGraph.Text

/-- The pieces between newlines, one more than there are newlines. -/
def pieces : List Char → List (List Char)
  | [] => [[]]
  | c :: cs =>
    if c = '\n' then [] :: pieces cs
    else
      match pieces cs with
      | [] => [[c]]
      | piece :: rest => (c :: piece) :: rest

def lines (s : String) : List String :=
  (pieces s.toList).map String.ofList

def joinLines (ls : List String) : String :=
  "\n".intercalate ls

@[simp] theorem pieces_nil : pieces [] = [[]] := rfl

@[simp] theorem pieces_newline (cs : List Char) : pieces ('\n' :: cs) = [] :: pieces cs := by
  simp [pieces]

theorem pieces_ne_nil (cs : List Char) : pieces cs ≠ [] := by
  cases cs with
  | nil => simp
  | cons c cs =>
    unfold pieces
    split
    · simp
    · split <;> simp

theorem length_pieces (cs : List Char) : (pieces cs).length = cs.count '\n' + 1 := by
  induction cs with
  | nil => rfl
  | cons c cs ih =>
    by_cases h : c = '\n'
    · simp [h, ih]
    · have hne := pieces_ne_nil cs
      unfold pieces
      simp only [h, if_false]
      split
      · contradiction
      · rename_i piece rest heq
        have hcount : List.count '\n' (c :: cs) = List.count '\n' cs := by
          rw [List.count_cons_of_ne]
          exact h
        rw [hcount, ← ih, heq]
        simp

theorem not_mem_of_mem_pieces {cs piece : List Char} (h : piece ∈ pieces cs) : '\n' ∉ piece := by
  induction cs generalizing piece with
  | nil => simp_all
  | cons c cs ih =>
    by_cases hc : c = '\n'
    · simp only [hc, pieces_newline, List.mem_cons] at h
      rcases h with rfl | h
      · simp
      · exact ih h
    · unfold pieces at h
      simp only [hc, if_false] at h
      split at h
      · rename_i heq
        exact absurd heq (pieces_ne_nil cs)
      · rename_i first rest heq
        rcases List.mem_cons.mp h with rfl | h
        · have := @ih first (by simp [heq])
          simp [this, Ne.symm hc]
        · exact ih (by simp [heq, h])

theorem intercalate_pieces (cs : List Char) : ['\n'].intercalate (pieces cs) = cs := by
  induction cs with
  | nil => rfl
  | cons c cs ih =>
    have hne := pieces_ne_nil cs
    by_cases hc : c = '\n'
    · subst hc
      rw [pieces_newline]
      match hp : pieces cs with
      | [] => contradiction
      | piece :: rest => rw [hp] at ih; simp [List.intercalate_cons_cons, ih]
    · unfold pieces
      simp only [hc, if_false]
      match hp : pieces cs with
      | [] => contradiction
      | [piece] => rw [hp] at ih; simp_all
      | piece :: next :: rest =>
        rw [hp] at ih
        simp only [List.intercalate_cons_cons] at ih ⊢
        simp [← ih]

theorem joinLines_lines (s : String) : joinLines (lines s) = s := by
  apply String.toList_inj.mp
  rw [joinLines, String.toList_intercalate]
  have : (lines s).map String.toList = pieces s.toList := by
    simp [lines, Function.comp_def]
  rw [this]
  exact intercalate_pieces s.toList

end FrameGraph.Text
