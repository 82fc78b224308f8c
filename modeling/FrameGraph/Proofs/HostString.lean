import FrameGraph.Value.Literal

/-!
Strings between double quotes as the host reads them. Main statements: a string literal reads as its
string, and a text put between quotes without escapes reads as itself exactly if it holds no quote,
backslash, newline or carriage return.
-/

namespace FrameGraph.HostString

def unescape? : Char → Option Char
  | '"' => some '"'
  | '\\' => some '\\'
  | 'n' => some '\n'
  | 'r' => some '\r'
  | 't' => some '\t'
  | _ => none

/-- Reads the characters of a string up to its closing quote, with what follows. A string ends on
its line, and a backslash starts one of the five escapes. -/
def read? : List Char → Option (List Char × List Char)
  | [] => none
  | '"' :: rest => some ([], rest)
  | '\\' :: letter :: rest =>
    (unescape? letter).bind fun d => (read? rest).map fun result => (d :: result.1, result.2)
  | c :: rest =>
    if c = '\\' ∨ c = '\n' ∨ c = '\r' then none
    else (read? rest).map fun result => (c :: result.1, result.2)

def IsPlainChar (c : Char) : Prop :=
  c ≠ '"' ∧ c ≠ '\\' ∧ c ≠ '\n' ∧ c ≠ '\r'

instance (c : Char) : Decidable (IsPlainChar c) :=
  inferInstanceAs (Decidable (_ ∧ _))

def IsPlain (s : String) : Prop :=
  ∀ c ∈ s.toList, IsPlainChar c

instance (s : String) : Decidable (IsPlain s) :=
  List.decidableBAll IsPlainChar s.toList

theorem read?_escape {letter c : Char} (escape : unescape? letter = some c) (rest : List Char) :
    read? ('\\' :: letter :: rest) =
      (read? rest).map fun result => (c :: result.1, result.2) := by
  rw [read?, escape, Option.bind_some]

theorem read?_plain {c : Char} (plain : IsPlainChar c) (rest : List Char) :
    read? (c :: rest) = (read? rest).map fun result => (c :: result.1, result.2) := by
  obtain ⟨quote, backslash, newline, ret⟩ := plain
  have inline : ¬ (c = '\\' ∨ c = '\n' ∨ c = '\r') := by simp [backslash, newline, ret]
  rw [read?, if_neg inline]
  · exact quote
  · exact fun _ _ escape _ => backslash escape

theorem read?_escapeLiteralChar (c : Char) (rest : List Char) :
    read? (escapeLiteralChar c ++ rest) =
      (read? rest).map fun result => (c :: result.1, result.2) := by
  unfold escapeLiteralChar
  split
  · exact read?_escape rfl rest
  · exact read?_escape rfl rest
  · exact read?_escape rfl rest
  · exact read?_escape rfl rest
  · exact read?_escape rfl rest
  · rename_i quote backslash newline ret _
    exact read?_plain ⟨quote, backslash, newline, ret⟩ rest

theorem read?_flatMap_escapeLiteralChar (cs after : List Char) :
    read? (cs.flatMap escapeLiteralChar ++ '"' :: after) = some (cs, after) := by
  induction cs with
  | nil => rfl
  | cons c cs ih =>
      rw [List.flatMap_cons, List.append_assoc, read?_escapeLiteralChar, ih]
      rfl

/-- A string literal reads as its string. -/
theorem read?_stringLiteral (s : String) (after : List Char) :
    ∃ inner, (stringLiteral s).toList ++ after = '"' :: inner ∧
      read? inner = some (s.toList, after) := by
  refine ⟨s.toList.flatMap escapeLiteralChar ++ '"' :: after, ?_,
    read?_flatMap_escapeLiteralChar _ _⟩
  simp [stringLiteral]

theorem length_of_read? {cs key after : List Char} (read : read? cs = some (key, after)) :
    key.length + after.length + 1 ≤ cs.length ∧
      (cs.length ≤ key.length + after.length + 1 → ∀ c ∈ key, IsPlainChar c) := by
  fun_induction read? cs generalizing key after with
  | case1 => contradiction
  | case2 rest => simp_all
  | case3 letter rest ih =>
      simp only [Option.bind_eq_some_iff, Option.map_eq_some_iff, Prod.mk.injEq] at read
      obtain ⟨c, -, ⟨tail, last⟩, found, rfl, rfl⟩ := read
      have bounded := (ih found).1
      simp only [List.length_cons]
      omega
  | case4 => contradiction
  | case5 c rest quote escape inline ih =>
      simp only [Option.map_eq_some_iff, Prod.mk.injEq] at read
      obtain ⟨⟨tail, last⟩, found, rfl, rfl⟩ := read
      obtain ⟨bounded, plain⟩ := ih found
      simp only [List.length_cons, List.forall_mem_cons]
      refine ⟨by omega, fun short => ⟨⟨?_, ?_, ?_, ?_⟩, plain (by omega)⟩⟩
      · exact quote
      · exact fun backslash => inline (.inl backslash)
      · exact fun newline => inline (.inr (.inl newline))
      · exact fun ret => inline (.inr (.inr ret))

/-- A text between quotes reads as itself exactly if it needs no escapes. -/
theorem read?_eq_self_iff (cs after : List Char) :
    read? (cs ++ '"' :: after) = some (cs, after) ↔ ∀ c ∈ cs, IsPlainChar c := by
  constructor
  · intro read
    exact (length_of_read? read).2 (by simp only [List.length_append, List.length_cons]; omega)
  · intro plain
    induction cs with
    | nil => rfl
    | cons c cs ih =>
        rw [List.forall_mem_cons] at plain
        rw [List.cons_append, read?_plain plain.1, ih plain.2]
        rfl

end FrameGraph.HostString
