import FrameGraph.Proofs.CodeLines
import FrameGraph.Proofs.LiteralText

/-!
Literals as code. Main statements: whatever string a socket holds, its literal is one lexeme, and
every literal ends outside of string literals, so code goes on behind it as if it were not there.
-/

namespace FrameGraph

open Lexeme

theorem isQuote_eq_false_of_isDigit {c : Char} (digit : c.isDigit = true) : isQuote c = false :=
  isQuote_eq_false_of_part (isNumberPart_of_part (isIdentifierPart_of_isDigit digit))

theorem Digits.closed {s : String} (digits : Digits s) : Closed s :=
  closed_of_plain fun c member => isQuote_eq_false_of_isDigit (digits c member)

theorem Numeral.Decimal.closed {n : Numeral} (decimal : n.Decimal) : Closed n.text := by
  have signs : ∀ c ∈ ['-', '+', '.', 'e'], isQuote c = false := by
    simp only [List.forall_mem_cons]
    exact ⟨rfl, rfl, rfl, rfl, List.forall_mem_nil _⟩
  apply closed_of_plain
  intro c member
  rcases decimal.of_mem_text member with digit | sign
  · exact isQuote_eq_false_of_isDigit digit
  · exact signs c sign

theorem closed_floatLiteral (x : Binary64) : Closed (floatLiteral x) := by
  unfold floatLiteral
  split
  · exact (DecimalLayout.decimal_numeral _ _ _).closed
  · split
    · decide
    · split <;> decide

namespace LiteralState

theorem run_escapeLiteralChar (c : Char) :
    (inside '"').run (escapeLiteralChar c) = inside '"' := by
  unfold escapeLiteralChar
  split
  · decide
  · decide
  · decide
  · decide
  · decide
  · rename_i quote backslash _ _ _
    rw [run_cons, run_nil, step, if_neg backslash, if_neg quote]

theorem run_flatMap_escapeLiteralChar (cs : List Char) :
    (inside '"').run (cs.flatMap escapeLiteralChar) = inside '"' := by
  induction cs with
  | nil => rfl
  | cons c cs ih => rw [List.flatMap_cons, run_append, run_escapeLiteralChar, ih]

end LiteralState

theorem closed_stringLiteral (s : String) : Closed (stringLiteral s) := by
  have opened : LiteralState.outside.run "\"".toList = .inside '"' := by decide
  have closed : (LiteralState.inside '"').run "\"".toList = .outside := by decide
  have inside := LiteralState.run_flatMap_escapeLiteralChar s.toList
  calc
    LiteralState.outside.run (stringLiteral s).toList
        = ((LiteralState.outside.run "\"".toList).run
            (s.toList.flatMap escapeLiteralChar)).run "\"".toList := by
          simp only [stringLiteral, String.toList_append, LiteralState.run_append,
            String.toList_ofList]
    _ = .outside := by rw [opened, inside, closed]

namespace Lexeme

theorem splitLiteral_escapeLiteralChar (c : Char) (rest : List Char) :
    splitLiteral '"' (escapeLiteralChar c ++ rest) =
      (escapeLiteralChar c ++ (splitLiteral '"' rest).1, (splitLiteral '"' rest).2) := by
  unfold escapeLiteralChar
  split
  · rfl
  · rfl
  · rfl
  · rfl
  · rfl
  · rename_i quote backslash _ _ _
    rw [List.singleton_append, splitLiteral_cons backslash, if_neg quote]
    rfl

theorem splitLiteral_flatMap_escapeLiteralChar (cs after : List Char) :
    splitLiteral '"' (cs.flatMap escapeLiteralChar ++ '"' :: after) =
      (cs.flatMap escapeLiteralChar ++ ['"'], after) := by
  induction cs with
  | nil =>
      rw [List.flatMap_nil, List.nil_append, splitLiteral_cons (by decide), if_pos rfl]
      rfl
  | cons c cs ih =>
      rw [List.flatMap_cons, List.append_assoc, splitLiteral_escapeLiteralChar, ih,
        List.append_assoc]

/-- A string literal is one lexeme, whatever string it stands for and whatever follows it. -/
theorem lexChars_stringLiteral_append (s : String) (after : List Char) :
    lexChars ((stringLiteral s).toList ++ after) =
      ⟨.stringLiteral, stringLiteral s⟩ :: lexChars after := by
  have text : (stringLiteral s).toList =
      '"' :: (s.toList.flatMap escapeLiteralChar ++ ['"']) := by
    simp [stringLiteral]
  have split : splitFirst '"' (s.toList.flatMap escapeLiteralChar ++ '"' :: after) =
      (.stringLiteral, s.toList.flatMap escapeLiteralChar ++ ['"'], after) := by
    rw [← splitLiteral_flatMap_escapeLiteralChar]
    rfl
  rw [text, List.cons_append, List.append_assoc, List.singleton_append, lexChars, split, ← text,
    String.ofList_toList]

theorem lex_stringLiteral (s : String) :
    lex (stringLiteral s) = [⟨.stringLiteral, stringLiteral s⟩] := by
  have alone := lexChars_stringLiteral_append s []
  rwa [List.append_nil, lexChars] at alone

end Lexeme

namespace Value

theorem closed_floatList (xs : List Binary64) : Closed (floatList xs) := by
  apply closed_intercalate (by decide)
  intro part member
  obtain ⟨x, -, rfl⟩ := List.mem_map.mp member
  exact closed_floatLiteral x

theorem closed_integer (n : Int) : Closed (toString n) := by
  rw [Int.toString_eq_repr, Int.repr_eq_if]
  split
  · exact (digits_repr n.toNat).closed
  · exact Closed.append (by decide) (digits_repr _).closed

mutual

theorem closed_literal : (value : Value) → Closed value.literal
  | .none => by
      change Closed "None"
      decide
  | .float x => closed_floatLiteral x
  | .integer n => closed_integer n.toInt
  | .boolean false => by
      change Closed "False"
      decide
  | .boolean true => by
      change Closed "True"
      decide
  | .string s => closed_stringLiteral s
  | .vector x y z => by
      change Closed ("mathutils.Vector((" ++ floatList [x, y, z] ++ "))")
      exact (Closed.append (by decide) (closed_floatList _)).append (by decide)
  | .euler x y z => by
      change Closed ("mathutils.Euler((" ++ floatList [x, y, z] ++ "))")
      exact (Closed.append (by decide) (closed_floatList _)).append (by decide)
  | .quaternion w x y z => by
      change Closed ("mathutils.Quaternion((" ++ floatList [w, x, y, z] ++ "))")
      exact (Closed.append (by decide) (closed_floatList _)).append (by decide)
  | .color r g b a => by
      change Closed ("(" ++ floatList [r, g, b, a] ++ ")")
      exact (Closed.append (by decide) (closed_floatList _)).append (by decide)
  | .list items => by
      change Closed ("[" ++ ", ".intercalate (literals items) ++ "]")
      exact (Closed.append (by decide)
        (closed_intercalate (by decide) (closed_of_mem_literals items))).append (by decide)

theorem closed_of_mem_literals : (items : List Value) → ∀ part ∈ literals items, Closed part
  | [], part, member => by simp [literals] at member
  | item :: items, part, member => by
      rw [literals, List.mem_cons] at member
      rcases member with rfl | member
      · exact closed_literal item
      · exact closed_of_mem_literals items part member

end

end Value

theorem Socket.closed_literal (socket : Socket) : Closed socket.literal.1 := by
  unfold Socket.literal
  split
  · decide
  · exact socket.value.closed_literal

end FrameGraph
