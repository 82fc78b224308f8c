import FrameGraph.Code.Fragment
import FrameGraph.Proofs.TextLines

/-!
Fragments written out, each token by a text of its own. Main statements: a fragment of tokens is
written as the tokens are, and its lines are the lines of its text.
-/

namespace FrameGraph

namespace Token

def isText : Token → Bool
  | .text _ => true
  | _ => false

/-- A way of writing tokens that keeps code as it is. -/
def KeepsText (write : Token → String) : Prop :=
  ∀ s, write (.text s) = s

def OnOneLine (write : Token → String) (tokens : List Token) : Prop :=
  ∀ token ∈ tokens, token.isText = false → Text.IsLine (write token)

end Token

namespace Fragment

theorem push_cases (fragment : Fragment) (token : Token) :
    (token = .text "" ∧ fragment.push token = fragment) ∨
    (∃ init before s, token = .text s ∧ s ≠ "" ∧ fragment.tokens = init ++ [.text before] ∧
      (fragment.push token).tokens = init ++ [.text (before ++ s)]) ∨
    (token ≠ .text "" ∧ (∀ last ∈ fragment.tokens.getLast?, ¬ (last.isText ∧ token.isText)) ∧
      (fragment.push token).tokens = fragment.tokens ++ [token]) := by
  cases token with
  | text s =>
      by_cases blank : s = ""
      · exact .inl ⟨by rw [blank], by simp [push, blank]⟩
      · right
        unfold push
        simp only [blank, if_false]
        split
        · rename_i before found
          obtain ⟨init, tokens⟩ := List.getLast?_eq_some_iff.mp found
          exact .inl ⟨init, before, s, rfl, blank, tokens, by simp [tokens]⟩
        · rename_i apart
          refine .inr ⟨by simpa using blank, ?_, rfl⟩
          rintro (before | _ | _ | _) found
          · exact absurd found (apart before)
          all_goals simp [Token.isText]
  | self => exact .inr (.inr ⟨by simp, by simp [Token.isText], rfl⟩)
  | input name => exact .inr (.inr ⟨by simp, by simp [Token.isText], rfl⟩)
  | output name => exact .inr (.inr ⟨by simp, by simp [Token.isText], rfl⟩)

def render (write : Token → String) (fragment : Fragment) : String :=
  String.join (fragment.tokens.map write)

variable {write : Token → String}

@[simp] theorem render_empty : empty.render write = "" := rfl

theorem render_push (keeps : Token.KeepsText write) (fragment : Fragment) (token : Token) :
    (fragment.push token).render write = fragment.render write ++ write token := by
  rcases fragment.push_cases token with
    ⟨rfl, same⟩ | ⟨init, before, s, rfl, -, split, pushed⟩ | ⟨-, -, pushed⟩
  · rw [same, keeps "", String.append_empty]
  · simp [render, split, pushed, keeps _, String.join_append, String.append_assoc]
  · simp [render, pushed, String.join_append]

theorem render_foldl_push (keeps : Token.KeepsText write) (tokens : List Token)
    (fragment : Fragment) :
    (tokens.foldl push fragment).render write =
      fragment.render write ++ String.join (tokens.map write) := by
  induction tokens generalizing fragment with
  | nil => simp
  | cons token tokens ih =>
      rw [List.foldl_cons, ih, render_push keeps, List.map_cons, String.join_cons,
        String.append_assoc]

theorem render_ofTokens (keeps : Token.KeepsText write) (tokens : List Token) :
    (ofTokens tokens).render write = String.join (tokens.map write) := by
  rw [ofTokens, render_foldl_push keeps, render_empty, String.empty_append]

/-- The tokens that are not code. Merging text leaves them as they are. -/
def references (fragment : Fragment) : List Token :=
  fragment.tokens.filter fun token => !token.isText

theorem mem_references_iff {fragment : Fragment} {token : Token}
    (reference : token.isText = false) : token ∈ fragment.references ↔ token ∈ fragment.tokens := by
  simp [references, reference]

theorem references_push (fragment : Fragment) (token : Token) :
    (fragment.push token).references =
      fragment.references ++ [token].filter fun token => !token.isText := by
  rcases fragment.push_cases token with
    ⟨rfl, same⟩ | ⟨init, before, s, rfl, -, split, pushed⟩ | ⟨-, -, pushed⟩
  · simp [same, Token.isText]
  · simp [references, split, pushed, Token.isText]
  · simp [references, pushed]

theorem references_ofTokens (tokens : List Token) :
    (ofTokens tokens).references = tokens.filter fun token => !token.isText := by
  have run (fragment : Fragment) : (tokens.foldl push fragment).references =
      fragment.references ++ tokens.filter fun token => !token.isText := by
    induction tokens generalizing fragment with
    | nil => simp
    | cons token tokens ih =>
        rw [List.foldl_cons, ih, references_push, List.append_assoc, ← List.filter_append,
          List.singleton_append]
  exact run empty

theorem onOneLine_ofTokens {tokens : List Token} (single : Token.OnOneLine write tokens) :
    Token.OnOneLine write (ofTokens tokens).tokens := by
  intro token member reference
  have kept := (mem_references_iff reference).mpr member
  rw [references_ofTokens] at kept
  exact single token (List.mem_filter.mp kept |>.1) reference

theorem addToken_text {s first : String} {others : List String} {last : Fragment}
    (cut : Text.lines s = first :: others) :
    addToken [last] (.text s) =
      last.push (.text first) :: others.map fun piece => empty.push (.text piece) := by
  simp [addToken, pushLast, cut]

theorem map_render_addToken_text (keeps : Token.KeepsText write) {s first : String}
    {others : List String} {last : Fragment} (cut : Text.lines s = first :: others) :
    (addToken [last] (.text s)).map (render write) = (last.render write ++ first) :: others := by
  have piece : (render write ∘ fun piece => empty.push (.text piece)) = id := by
    funext piece
    simp [render_push keeps, keeps piece]
  simp [addToken_text cut, piece, render_push keeps, keeps first]

theorem addToken_concat (lines : List Fragment) (last : Fragment) (token : Token) :
    addToken (lines ++ [last]) token = lines ++ addToken [last] token := by
  cases token with
  | text s =>
      obtain ⟨first, others, cut⟩ := List.exists_cons_of_ne_nil (Text.lines_ne_nil s)
      simp [addToken, pushLast, cut]
  | self => simp [addToken, pushLast]
  | input name => simp [addToken, pushLast]
  | output name => simp [addToken, pushLast]

theorem map_render_addToken (keeps : Token.KeepsText write) {last : Fragment}
    (started : Text.IsLine (last.render write)) {token : Token}
    (single : token.isText = false → Text.IsLine (write token)) :
    (addToken [last] token).map (render write) =
      Text.lines (last.render write ++ write token) := by
  have alone : token.isText = false →
      Text.lines (last.render write ++ write token) = [(last.push token).render write] := by
    intro reference
    rw [Text.lines_of_isLine (Text.isLine_append.mpr ⟨started, single reference⟩),
      render_push keeps]
  cases token with
  | text s =>
      obtain ⟨first, others, cut⟩ := List.exists_cons_of_ne_nil (Text.lines_ne_nil s)
      rw [keeps s, Text.lines_append_of_isLine started cut, map_render_addToken_text keeps cut]
  | self => simpa [addToken, pushLast] using (alone rfl).symm
  | input name => simpa [addToken, pushLast] using (alone rfl).symm
  | output name => simpa [addToken, pushLast] using (alone rfl).symm

theorem map_render_foldl_addToken (keeps : Token.KeepsText write) {tokens : List Token}
    (single : Token.OnOneLine write tokens) (lines : List Fragment) {last : Fragment}
    (started : Text.IsLine (last.render write)) :
    (tokens.foldl addToken (lines ++ [last])).map (render write) =
      lines.map (render write) ++
        Text.lines (last.render write ++ String.join (tokens.map write)) := by
  induction tokens generalizing lines last with
  | nil => simp [Text.lines_of_isLine started]
  | cons token tokens ih =>
      have step := map_render_addToken keeps started (single token List.mem_cons_self)
      have nonempty : addToken [last] token ≠ [] := by
        intro none
        rw [none] at step
        exact Text.lines_ne_nil _ step.symm
      obtain ⟨added, next, split⟩ := (List.eq_nil_or_concat _).resolve_left nonempty
      rw [List.concat_eq_append] at split
      rw [split, List.map_append, List.map_singleton] at step
      have continued : Text.IsLine (next.render write) :=
        Text.isLine_of_mem_lines (s := last.render write ++ write token) (by simp [← step])
      have rest : Token.OnOneLine write tokens :=
        fun other member => single other (List.mem_cons_of_mem _ member)
      calc
        ((token :: tokens).foldl addToken (lines ++ [last])).map (render write)
            = (tokens.foldl addToken ((lines ++ added) ++ [next])).map (render write) := by
              rw [List.foldl_cons, addToken_concat, split, List.append_assoc]
        _ = (lines ++ added).map (render write) ++
              Text.lines (next.render write ++ String.join (tokens.map write)) :=
              ih rest _ continued
        _ = lines.map (render write) ++ Text.lines
              (last.render write ++ write token ++ String.join (tokens.map write)) := by
              rw [List.map_append, List.append_assoc, Text.lines_append step.symm]
        _ = lines.map (render write) ++ Text.lines
              (last.render write ++ String.join ((token :: tokens).map write)) := by
              rw [List.map_cons, String.join_cons, String.append_assoc]

theorem map_render_splitLines (keeps : Token.KeepsText write) {fragment : Fragment}
    (single : Token.OnOneLine write fragment.tokens) :
    fragment.splitLines.map (render write) = Text.lines (fragment.render write) := by
  have started : Text.IsLine (empty.render write) := by simp [Text.IsLine]
  have run := map_render_foldl_addToken keeps single [] started
  rwa [List.nil_append, List.map_nil, List.nil_append, render_empty, String.empty_append] at run

/-- Cutting the fragment of some tokens at newlines cuts their text. -/
theorem map_render_splitLines_ofTokens (keeps : Token.KeepsText write) {tokens : List Token}
    (single : Token.OnOneLine write tokens) :
    (ofTokens tokens).splitLines.map (render write) =
      Text.lines (String.join (tokens.map write)) := by
  rw [map_render_splitLines keeps (onOneLine_ofTokens single), render_ofTokens keeps]

/-! The lines of a fragment make up its text, whatever stands for its references. -/

theorem addToken_ne_nil (last : Fragment) (token : Token) : addToken [last] token ≠ [] := by
  cases token with
  | text s =>
      obtain ⟨first, others, cut⟩ := List.exists_cons_of_ne_nil (Text.lines_ne_nil s)
      rw [addToken_text cut]
      exact List.cons_ne_nil _ _
  | self => simp [addToken, pushLast]
  | input name => simp [addToken, pushLast]
  | output name => simp [addToken, pushLast]

theorem joinLines_addToken (keeps : Token.KeepsText write) (last : Fragment) (token : Token) :
    Text.joinLines ((addToken [last] token).map (render write)) =
      last.render write ++ write token := by
  cases token with
  | text s =>
      obtain ⟨first, others, cut⟩ := List.exists_cons_of_ne_nil (Text.lines_ne_nil s)
      rw [map_render_addToken_text keeps cut, Text.joinLines_append_cons, ← cut,
        Text.joinLines_lines, keeps s]
  | self => simp [addToken, pushLast, render_push keeps]
  | input name => simp [addToken, pushLast, render_push keeps]
  | output name => simp [addToken, pushLast, render_push keeps]

theorem joinLines_foldl_addToken (keeps : Token.KeepsText write) (tokens : List Token)
    (lines : List Fragment) (last : Fragment) :
    Text.joinLines ((tokens.foldl addToken (lines ++ [last])).map (render write)) =
      Text.joinLines ((lines ++ [last]).map (render write)) ++ String.join (tokens.map write) := by
  induction tokens generalizing lines last with
  | nil => simp
  | cons token tokens ih =>
      have step := joinLines_addToken keeps last token
      obtain ⟨added, next, split⟩ :=
        (List.eq_nil_or_concat _).resolve_left (addToken_ne_nil last token)
      rw [List.concat_eq_append] at split
      have single : last.render write = Text.joinLines ([last].map (render write)) := by simp
      rw [single] at step
      have grown := Text.joinLines_append_of_eq (by simp)
        (by simpa using addToken_ne_nil last token) step (lines.map (render write))
      rw [← List.map_append, ← List.map_append] at grown
      rw [List.foldl_cons, addToken_concat, split, ← List.append_assoc, ih, List.append_assoc,
        ← split, grown, List.map_cons, String.join_cons, String.append_assoc]

theorem joinLines_splitLines (keeps : Token.KeepsText write) (fragment : Fragment) :
    Text.joinLines (fragment.splitLines.map (render write)) = fragment.render write := by
  have run := joinLines_foldl_addToken keeps fragment.tokens [] empty
  rwa [List.nil_append, List.map_singleton, render_empty, Text.joinLines_singleton,
    String.empty_append] at run

/-! The lines of a fragment hold its references. -/

theorem references_addToken (last : Fragment) (token : Token) :
    (addToken [last] token).flatMap references =
      last.references ++ [token].filter fun token => !token.isText := by
  cases token with
  | text s =>
      obtain ⟨first, others, cut⟩ := List.exists_cons_of_ne_nil (Text.lines_ne_nil s)
      have pieces : (others.map fun piece => empty.push (.text piece)).flatMap references = [] := by
        rw [List.flatMap_eq_nil_iff]
        intro line member
        obtain ⟨piece, -, rfl⟩ := List.mem_map.mp member
        exact references_push empty (.text piece)
      simp [addToken_text cut, pieces, references_push, Token.isText]
  | self => simp [addToken, pushLast, references_push]
  | input name => simp [addToken, pushLast, references_push]
  | output name => simp [addToken, pushLast, references_push]

theorem references_foldl_addToken (tokens : List Token) (lines : List Fragment)
    (last : Fragment) :
    (tokens.foldl addToken (lines ++ [last])).flatMap references =
      (lines ++ [last]).flatMap references ++ tokens.filter fun token => !token.isText := by
  induction tokens generalizing lines last with
  | nil => simp
  | cons token tokens ih =>
      have step := references_addToken last token
      obtain ⟨added, next, split⟩ :=
        (List.eq_nil_or_concat _).resolve_left (addToken_ne_nil last token)
      rw [List.concat_eq_append] at split
      rw [List.foldl_cons, addToken_concat, split, ← List.append_assoc, ih, List.append_assoc,
        ← split, List.flatMap_append, step, List.flatMap_append, List.flatMap_singleton,
        ← List.singleton_append (l := tokens), List.filter_append]
      simp only [List.append_assoc]

theorem references_splitLines (fragment : Fragment) :
    fragment.splitLines.flatMap references = fragment.references := by
  have run := references_foldl_addToken fragment.tokens [] empty
  rwa [List.nil_append, List.flatMap_singleton] at run

end Fragment

end FrameGraph
