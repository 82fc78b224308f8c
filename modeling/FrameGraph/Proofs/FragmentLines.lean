import FrameGraph.Proofs.FragmentText
import Mathlib.Algebra.Ring.Nat
import Mathlib.Data.List.Chain

/-!
The least form of fragments, and the number of their lines. Main statement: pushed tokens leave no
empty text and no two texts side by side, and a fragment has one more line than there are newlines in
its texts, each in that form again and holding its part of the references and of the text.
-/

namespace FrameGraph

namespace Token

def newlines : Token → Nat
  | .text s => s.toList.count '\n'
  | _ => 0

end Token

namespace Fragment

variable {fragment : Fragment}

/-- The least form of a fragment: text is never empty, and never stands behind text. -/
structure Merged (fragment : Fragment) : Prop where
  written : Token.text "" ∉ fragment.tokens
  apart : fragment.tokens.IsChain fun before after => ¬ (before.isText ∧ after.isText)

theorem merged_empty : empty.Merged :=
  ⟨by simp [empty], by simp [empty]⟩

theorem Merged.push (merged : fragment.Merged) (token : Token) : (fragment.push token).Merged := by
  obtain ⟨written, apart⟩ := merged
  rcases fragment.push_cases token with
    ⟨-, same⟩ | ⟨init, before, s, -, some, split, pushed⟩ | ⟨some, behind, pushed⟩
  · rw [same]
    exact ⟨written, apart⟩
  · rw [split] at written apart
    constructor <;> rw [pushed]
    · rw [List.mem_append, List.mem_singleton, not_or] at written ⊢
      refine ⟨written.1, fun grown => some ?_⟩
      exact (String.append_eq_empty_iff.mp (Token.text.inj grown).symm).2
    · rw [List.isChain_append] at apart ⊢
      exact ⟨apart.1, List.isChain_singleton _, by simpa [Token.isText] using apart.2.2⟩
  · constructor <;> rw [pushed]
    · simp [written, Ne.symm some]
    · exact List.isChain_append.mpr ⟨apart, List.isChain_singleton _, by simpa using behind⟩

theorem merged_ofTokens (tokens : List Token) : (ofTokens tokens).Merged :=
  List.foldlRecOn tokens Fragment.push merged_empty fun _ merged token _ => merged.push token

def OneLine (fragment : Fragment) : Prop :=
  ∀ s, Token.text s ∈ fragment.tokens → Text.IsLine s

theorem oneLine_empty : empty.OneLine := by
  simp [OneLine, empty]

theorem OneLine.push (line : fragment.OneLine) {token : Token}
    (single : ∀ s, token = .text s → Text.IsLine s) : (fragment.push token).OneLine := by
  intro s member
  rcases fragment.push_cases token with
    ⟨-, same⟩ | ⟨init, before, t, rfl, -, split, pushed⟩ | ⟨-, -, pushed⟩
  · exact line s (same ▸ member)
  · have front := line before (by simp [split])
    rw [pushed, List.mem_append, List.mem_singleton] at member
    rcases member with member | grown
    · exact line s (by simp [split, member])
    · obtain rfl := Token.text.inj grown
      exact Text.isLine_append.mpr ⟨front, single t rfl⟩
  · rw [pushed, List.mem_append, List.mem_singleton] at member
    exact member.elim (line s) fun same => single s same.symm

def newlines (fragment : Fragment) : Nat :=
  (fragment.tokens.map Token.newlines).sum

theorem newlines_push (fragment : Fragment) (token : Token) :
    (fragment.push token).newlines = fragment.newlines + token.newlines := by
  rcases fragment.push_cases token with
    ⟨rfl, same⟩ | ⟨init, before, s, rfl, -, split, pushed⟩ | ⟨-, -, pushed⟩
  · simp [same, Token.newlines]
  · simp [newlines, split, pushed, Token.newlines, Nat.add_assoc]
  · simp [newlines, pushed]

theorem newlines_ofTokens (tokens : List Token) :
    (ofTokens tokens).newlines = (tokens.map Token.newlines).sum := by
  have run (fragment : Fragment) : (tokens.foldl push fragment).newlines =
      fragment.newlines + (tokens.map Token.newlines).sum := by
    induction tokens generalizing fragment with
    | nil => simp
    | cons token tokens ih => rw [List.foldl_cons, ih, newlines_push]; simp [Nat.add_assoc]
  rw [ofTokens, run, newlines, empty, List.map_nil, List.sum_nil, Nat.zero_add]

/-! ### The lines -/

section Lines

variable {P : Fragment → Prop} {lines : List Fragment}

theorem forall_pushLast
    (kept : ∀ line token, P line → (∀ s, token = .text s → Text.IsLine s) → P (line.push token))
    (each : ∀ line ∈ lines, P line) {token : Token}
    (single : ∀ s, token = .text s → Text.IsLine s) :
    ∀ line ∈ pushLast lines token, P line := by
  unfold pushLast
  split
  · rename_i last found
    obtain ⟨init, rfl⟩ := List.getLast?_eq_some_iff.mp found
    rw [List.dropLast_concat]
    simp only [List.forall_mem_append, List.forall_mem_singleton] at each ⊢
    exact ⟨each.1, kept last token each.2 single⟩
  · simp

theorem forall_addToken (start : P empty)
    (kept : ∀ line token, P line → (∀ s, token = .text s → Text.IsLine s) → P (line.push token))
    (each : ∀ line ∈ lines, P line) (token : Token) :
    ∀ line ∈ addToken lines token, P line := by
  cases token with
  | text s =>
      obtain ⟨first, others, cut⟩ := List.exists_cons_of_ne_nil (Text.lines_ne_nil s)
      have piece : ∀ piece ∈ first :: others, ∀ t, Token.text piece = .text t → Text.IsLine t := by
        rintro piece member t ⟨rfl⟩
        exact Text.isLine_of_mem_lines (s := s) (cut ▸ member)
      simp only [addToken, cut, List.forall_mem_append, List.forall_mem_map]
      exact ⟨forall_pushLast kept each (piece first List.mem_cons_self), fun next member =>
        kept empty _ start (piece next (List.mem_cons_of_mem _ member))⟩
  | self => exact forall_pushLast kept each (by simp)
  | input name => exact forall_pushLast kept each (by simp)
  | output name => exact forall_pushLast kept each (by simp)

/-- What holds at first and is kept by every token that stays on its line holds of all lines. -/
theorem forall_splitLines (start : P empty)
    (kept : ∀ line token, P line → (∀ s, token = .text s → Text.IsLine s) → P (line.push token))
    (fragment : Fragment) : ∀ line ∈ fragment.splitLines, P line := by
  have started : ∀ line ∈ [empty], P line := by simpa using start
  exact List.foldlRecOn fragment.tokens addToken (motive := fun lines => ∀ line ∈ lines, P line)
    started fun _ each token _ => forall_addToken start kept each token

end Lines

theorem merged_splitLines (fragment : Fragment) : ∀ line ∈ fragment.splitLines, line.Merged :=
  forall_splitLines merged_empty (fun _ token merged _ => merged.push token) fragment

theorem oneLine_splitLines (fragment : Fragment) : ∀ line ∈ fragment.splitLines, line.OneLine :=
  forall_splitLines oneLine_empty (fun _ _ line single => line.push single) fragment

theorem length_addToken (last : Fragment) (token : Token) :
    (addToken [last] token).length = token.newlines + 1 := by
  cases token with
  | text s =>
      have pieces := Text.length_lines s
      obtain ⟨first, others, cut⟩ := List.exists_cons_of_ne_nil (Text.lines_ne_nil s)
      rw [cut, List.length_cons] at pieces
      rw [addToken_text cut, List.length_cons, List.length_map, Token.newlines, pieces]
  | self => rfl
  | input name => rfl
  | output name => rfl

theorem length_foldl_addToken (tokens : List Token) (lines : List Fragment) (last : Fragment) :
    (tokens.foldl addToken (lines ++ [last])).length =
      lines.length + 1 + (tokens.map Token.newlines).sum := by
  induction tokens generalizing lines last with
  | nil => simp
  | cons token tokens ih =>
      have step := length_addToken last token
      obtain ⟨added, next, split⟩ :=
        (List.eq_nil_or_concat _).resolve_left (addToken_ne_nil last token)
      rw [List.concat_eq_append] at split
      rw [split, List.length_append, List.length_singleton] at step
      rw [List.foldl_cons, addToken_concat, split, ← List.append_assoc, ih, List.length_append,
        List.map_cons, List.sum_cons]
      omega

theorem length_splitLines (fragment : Fragment) :
    fragment.splitLines.length = fragment.newlines + 1 := by
  have run := length_foldl_addToken fragment.tokens [] empty
  rw [List.nil_append, List.length_nil] at run
  rw [splitLines, run, newlines]
  omega

/-- Pushing tokens keeps what they refer to and what they say, in the least form. Cutting the
fragment keeps both once more, with a line more than there are newlines. -/
theorem splitLines_ofTokens (tokens : List Token) :
    ((ofTokens tokens).Merged ∧
      (ofTokens tokens).references = tokens.filter (fun token => !token.isText) ∧
      (ofTokens tokens).newlines = (tokens.map Token.newlines).sum ∧
      (ofTokens tokens).marked = String.join (tokens.map Token.marked)) ∧
    (ofTokens tokens).splitLines.length = (ofTokens tokens).newlines + 1 ∧
    (∀ line ∈ (ofTokens tokens).splitLines, line.Merged ∧ line.OneLine) ∧
    (ofTokens tokens).splitLines.flatMap references = (ofTokens tokens).references ∧
    Text.joinLines ((ofTokens tokens).splitLines.map marked) = (ofTokens tokens).marked ∧
    (Token.OnOneLine Token.marked tokens →
      (ofTokens tokens).splitLines.map marked = Text.lines (ofTokens tokens).marked) := by
  have keeps : Token.KeepsText Token.marked := fun _ => rfl
  refine ⟨⟨merged_ofTokens tokens, references_ofTokens tokens, newlines_ofTokens tokens,
    render_ofTokens keeps tokens⟩, length_splitLines _, fun line member =>
    ⟨merged_splitLines _ line member, oneLine_splitLines _ line member⟩,
    references_splitLines _, joinLines_splitLines keeps _, ?_⟩
  intro single
  exact map_render_splitLines keeps (onOneLine_ofTokens single)

end Fragment

end FrameGraph
