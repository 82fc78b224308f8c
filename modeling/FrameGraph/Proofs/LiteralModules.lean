import FrameGraph.Proofs.CodeNames

/-!
The host modules that literals mention. Main statement: a module that the literal of a socket names
is the one that the literal asks for, however deep lists are nested and whatever strings hold.
-/

namespace FrameGraph

open Lexeme

def hostModules : List String := ["mathutils", "bmesh"]

/-- Whether the text names no host module but the one that it asks for, if it asks for one. -/
def NamesOnly (text : String) (required : Option String) : Prop :=
  ∀ module ∈ hostModules, module ∈ names text → required = some module

theorem not_mem_names_of_letter {code module : String} (letter : Char)
    (written : letter ∈ module.toList) (unwritten : letter ∉ code.toList) : module ∉ names code :=
  fun member => unwritten (mem_of_mem_names member written)

theorem written_of_mem_hostModules {module : String} (host : module ∈ hostModules) :
    'h' ∈ module.toList := by
  revert module
  decide

theorem not_mem_names_of_unwritten {code module : String} (host : module ∈ hostModules)
    (unwritten : 'h' ∉ code.toList) : module ∉ names code :=
  not_mem_names_of_letter 'h' (written_of_mem_hostModules host) unwritten

theorem namesOnly_of_unwritten {text : String} (unwritten : 'h' ∉ text.toList)
    (required : Option String) : NamesOnly text required :=
  fun _ host member => absurd member (not_mem_names_of_unwritten host unwritten)

theorem not_mem_floatLiteral {c : Char} (letter : c = 'h' ∨ c = 'b') (x : Binary64) :
    c ∉ (floatLiteral x).toList := by
  unfold floatLiteral
  split
  · intro member
    rcases (DecimalLayout.decimal_numeral _ _ _).of_mem_text member with digit | sign
    · rcases letter with rfl | rfl <;> exact absurd digit (by decide)
    · rcases letter with rfl | rfl <;> exact absurd sign (by decide)
  · split
    · rcases letter with rfl | rfl <;> decide
    · split <;> rcases letter with rfl | rfl <;> decide

theorem Digits.not_mem {s : String} (digits : Digits s) : 'h' ∉ s.toList :=
  fun member => absurd (digits 'h' member) (by decide)

theorem not_mem_integer (n : Int) : 'h' ∉ (toString n).toList := by
  rw [Int.toString_eq_repr, Int.repr_eq_if]
  split
  · exact (digits_repr n.toNat).not_mem
  · rw [String.toList_append, List.mem_append, not_or]
    exact ⟨by decide, (digits_repr _).not_mem⟩

theorem not_mem_intercalate {c : Char} {separator : String} (between : c ∉ separator.toList)
    {parts : List String} (each : ∀ part ∈ parts, c ∉ part.toList) :
    c ∉ (separator.intercalate parts).toList := by
  induction parts with
  | nil => simp
  | cons first rest ih =>
      obtain ⟨head, tail⟩ := List.forall_mem_cons.mp each
      by_cases last : rest = []
      · simpa [last] using head
      · rw [String.intercalate_cons_of_ne_nil last, String.toList_append, String.toList_append,
          List.mem_append, List.mem_append]
        exact fun member => member.elim (fun member => member.elim head between) (ih tail)

namespace Value

theorem not_mem_floatList {c : Char} (letter : c = 'h' ∨ c = 'b') (xs : List Binary64) :
    c ∉ (floatList xs).toList := by
  refine not_mem_intercalate (by rcases letter with rfl | rfl <;> decide) fun part member => ?_
  obtain ⟨x, -, rfl⟩ := List.mem_map.mp member
  exact not_mem_floatLiteral letter x

theorem not_mem_enclosed {c : Char} (letter : c = 'h' ∨ c = 'b') {front back : String}
    (opened : c ∉ front.toList) (closed : c ∉ back.toList) (xs : List Binary64) :
    c ∉ (front ++ floatList xs ++ back).toList := by
  rw [String.toList_append, String.toList_append, List.mem_append, List.mem_append]
  exact fun member => member.elim
    (fun member => member.elim opened (not_mem_floatList letter xs)) closed

theorem eq_of_requiredModule? {module : String} :
    (value : Value) → value.requiredModule? = some module → module = "mathutils"
  | .vector .., required | .euler .., required | .quaternion .., required =>
      (Option.some.inj required).symm
  | .list items, required => by
      change firstRequiredModule? items = some module at required
      rw [firstRequiredModule?_eq] at required
      obtain ⟨item, _, found⟩ := List.exists_of_findSome?_eq_some required
      exact eq_of_requiredModule? item found
  | .none, required | .float _, required | .integer _, required | .boolean _, required
  | .string _, required | .color .., required => by cases required

theorem firstRequiredModule?_of_mem {items : List Value} {item : Value} (inside : item ∈ items)
    {module : String} (required : item.requiredModule? = some module) :
    firstRequiredModule? items = some module := by
  rw [firstRequiredModule?_eq]
  obtain ⟨first, found⟩ : ∃ first, items.findSome? requiredModule? = some first := by
    rw [← Option.isSome_iff_exists, List.findSome?_isSome_iff]
    exact ⟨item, inside, by simp [required]⟩
  obtain ⟨_, other, _, -, asks, -⟩ := List.findSome?_eq_some_iff.mp found
  rw [found, eq_of_requiredModule? other asks, eq_of_requiredModule? item required]

theorem namesOnly_enclosed {front : String} (unwritten : 'b' ∉ front.toList)
    (xs : List Binary64) : NamesOnly (front ++ floatList xs ++ "))") (some "mathutils") := by
  intro module host member
  rcases List.mem_cons.mp host with rfl | host
  · rfl
  · obtain rfl := List.mem_singleton.mp host
    exact absurd member (not_mem_names_of_letter 'b' (by decide)
      (not_mem_enclosed (.inr rfl) unwritten (by decide) xs))

theorem namesOnly_list {items : List Value}
    (each : ∀ item ∈ items, NamesOnly item.literal item.requiredModule?) :
    NamesOnly (Value.list items).literal (Value.list items).requiredModule? := by
  have opened : ∀ c ∈ "[".toList, startsLexeme c = false := plain_ofList rfl
  have closes : ∀ c ∈ "]".toList, startsLexeme c = false := plain_ofList rfl
  have closed : Closed (", ".intercalate (literals items)) :=
    closed_intercalate (by decide) (closed_of_mem_literals items)
  have stops : ∀ d, "]".toList.head? = some d → isIdentifierPart d = false := by
    intro d head
    obtain rfl : ']' = d := Option.some.inj head
    decide
  intro module host member
  change module ∈ names ("[" ++ ", ".intercalate (literals items) ++ "]") at member
  have inner := names_enclosed_subset opened closed closes stops member
  obtain ⟨part, inside, named⟩ :=
    List.mem_flatMap.mp (names_intercalate_subset (closed_of_mem_literals items) inner)
  rw [literals_eq_map, List.mem_map] at inside
  obtain ⟨item, inside, rfl⟩ := inside
  exact firstRequiredModule?_of_mem inside (each item inside module host named)

/-- Strings apart, a literal names only the module that its value asks for. -/
theorem namesOnly_literal (value : Value) : NamesOnly value.literal value.requiredModule? := by
  cases value with
  | none =>
      change NamesOnly "None" _
      exact namesOnly_of_unwritten (by decide) _
  | float x => exact namesOnly_of_unwritten (not_mem_floatLiteral (.inl rfl) x) _
  | integer n => exact namesOnly_of_unwritten (not_mem_integer n.toInt) _
  | boolean b =>
      cases b with
      | false =>
          change NamesOnly "False" _
          exact namesOnly_of_unwritten (by decide) _
      | true =>
          change NamesOnly "True" _
          exact namesOnly_of_unwritten (by decide) _
  | string s =>
      change NamesOnly (stringLiteral s) _
      intro module _ member
      rw [names_stringLiteral] at member
      cases member
  | vector x y z =>
      change NamesOnly ("mathutils.Vector((" ++ floatList [x, y, z] ++ "))") _
      exact namesOnly_enclosed (by decide) _
  | euler x y z =>
      change NamesOnly ("mathutils.Euler((" ++ floatList [x, y, z] ++ "))") _
      exact namesOnly_enclosed (by decide) _
  | quaternion w x y z =>
      change NamesOnly ("mathutils.Quaternion((" ++ floatList [w, x, y, z] ++ "))") _
      exact namesOnly_enclosed (by decide) _
  | color r g b a =>
      change NamesOnly ("(" ++ floatList [r, g, b, a] ++ ")") _
      exact namesOnly_of_unwritten
        (not_mem_enclosed (.inl rfl) (by decide) (by decide) _) _
  | list items => exact namesOnly_list fun item _ => namesOnly_literal item

end Value

theorem Socket.namesOnly_literal (socket : Socket) :
    NamesOnly socket.literal.1 socket.literal.2 := by
  unfold Socket.literal
  split
  · intro module host member
    rcases List.mem_cons.mp host with rfl | host
    · exact absurd member (not_mem_names_of_letter 't' (by decide) (by decide))
    · exact congrArg some (List.mem_singleton.mp host).symm
  · exact socket.value.namesOnly_literal

end FrameGraph
