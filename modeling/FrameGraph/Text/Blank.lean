import FrameGraph.Text.Ranges

/-!
White space by the Unicode property White_Space. Main statement: every character that counts as
white space in ASCII text is blank.
-/

namespace FrameGraph.Text

/-- The code points that have the property White_Space. -/
def blankRanges : List (Nat × Nat) :=
  [(0x9, 0xD), (0x20, 0x20), (0x85, 0x85), (0xA0, 0xA0), (0x1680, 0x1680), (0x2000, 0x200A),
   (0x2028, 0x2029), (0x202F, 0x202F), (0x205F, 0x205F), (0x3000, 0x3000)]

def isBlankChar (c : Char) : Bool :=
  inRanges blankRanges c.toNat

/-- Whether the text holds white space only; the empty text does. -/
def isBlank (s : String) : Bool :=
  s.toList.all isBlankChar

def trimEnd (s : String) : String :=
  String.ofList (s.toList.reverse.dropWhile isBlankChar).reverse

theorem isBlankChar_of_isWhitespace {c : Char} (h : c.isWhitespace) : isBlankChar c := by
  simp only [Char.isWhitespace, Bool.or_eq_true, decide_eq_true_eq] at h
  rcases h with ((rfl | rfl) | rfl) | rfl <;> decide

@[simp] theorem isBlank_empty : isBlank "" = true := rfl

end FrameGraph.Text
