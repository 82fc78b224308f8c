import FrameGraph.Proofs.HostString
import FrameGraph.Proofs.JsonNumerals

/-!
The forms that literals have. Main statement: forms with the same text are the same, also where a
comma or a closing bracket follows.
-/

namespace FrameGraph

inductive LiteralWord
  | none
  | true
  | false
  | nan
  | infinity
  | negativeInfinity
deriving DecidableEq, Repr

namespace LiteralWord

def all : List LiteralWord :=
  [none, true, false, nan, infinity, negativeInfinity]

theorem mem_all (word : LiteralWord) : word ∈ all := by
  cases word <;> decide

def text : LiteralWord → String
  | none => "None"
  | true => "True"
  | false => "False"
  | nan => "float('nan')"
  | infinity => "float('inf')"
  | negativeInfinity => "float('-inf')"

theorem prefixFree (a b : LiteralWord) (front : a.text.toList <+: b.text.toList) : a = b := by
  have each : ∀ a ∈ all, ∀ b ∈ all, a.text.toList <+: b.text.toList → a = b := by decide
  exact each a a.mem_all b b.mem_all front

end LiteralWord

inductive LiteralBracket
  | list
  | color
  | vector
  | euler
  | quaternion
deriving DecidableEq, Repr

namespace LiteralBracket

def all : List LiteralBracket :=
  [list, color, vector, euler, quaternion]

theorem mem_all (bracket : LiteralBracket) : bracket ∈ all := by
  cases bracket <;> decide

def opening : LiteralBracket → String
  | list => "["
  | color => "("
  | vector => "mathutils.Vector(("
  | euler => "mathutils.Euler(("
  | quaternion => "mathutils.Quaternion(("

def closing : LiteralBracket → String
  | list => "]"
  | color => ")"
  | vector | euler | quaternion => "))"

theorem prefixFree (a b : LiteralBracket) (front : a.opening.toList <+: b.opening.toList) :
    a = b := by
  have each : ∀ a ∈ all, ∀ b ∈ all, a.opening.toList <+: b.opening.toList → a = b := by decide
  exact each a a.mem_all b b.mem_all front

end LiteralBracket

/-- The syntax of literals. -/
inductive LiteralForm
  | word (word : LiteralWord)
  | numeral (n : Numeral) (allowed : n.Allowed)
  | string (s : String)
  | group (bracket : LiteralBracket) (items : List LiteralForm)

namespace LiteralForm

mutual

def text : LiteralForm → List Char
  | .word w => w.text.toList
  | .numeral n _ => n.text.toList
  | .string s => (stringLiteral s).toList
  | .group bracket items =>
    bracket.opening.toList ++ (itemsText items ++ bracket.closing.toList)

def itemsText : List LiteralForm → List Char
  | [] => []
  | item :: items => item.text ++ moreText items

def moreText : List LiteralForm → List Char
  | [] => []
  | item :: items => ',' :: ' ' :: (item.text ++ moreText items)

end

theorem text_append_moreText (item : LiteralForm) (items : List LiteralForm) :
    item.text ++ moreText items = [',', ' '].intercalate ((item :: items).map text) := by
  induction items generalizing item with
  | nil => simp [moreText]
  | cons next items ih =>
      rw [moreText, ih next, List.map_cons, List.map_cons, List.map_cons,
        List.intercalate_cons_cons, List.append_assoc]
      rfl

theorem itemsText_eq (items : List LiteralForm) :
    itemsText items = [',', ' '].intercalate (items.map text) := by
  cases items with
  | nil => rfl
  | cons item items => exact text_append_moreText item items

theorem toList_intercalate {α : Type} {write : α → String} {form : α → LiteralForm}
    {items : List α} (each : ∀ item ∈ items, (write item).toList = (form item).text) :
    (", ".intercalate (items.map write)).toList = itemsText (items.map form) := by
  rw [itemsText_eq, String.toList_intercalate, List.map_map, List.map_map]
  exact congrArg _ (List.map_congr_left each)

theorem toList_group (bracket : LiteralBracket) {inner : String} {items : List LiteralForm}
    (inside : inner.toList = itemsText items) :
    (bracket.opening ++ inner ++ bracket.closing).toList = (group bracket items).text := by
  rw [text, String.toList_append, String.toList_append, inside, List.append_assoc]

/-! ### Where a form begins -/

inductive Shape
  | word
  | numeral
  | string
  | group
deriving DecidableEq

def shape : LiteralForm → Shape
  | .word _ => .word
  | .numeral .. => .numeral
  | .string _ => .string
  | .group .. => .group

def shapeAt? (c : Char) : Option Shape :=
  if c.isDigit || c == '-' then some .numeral
  else if c == '"' then some .string
  else if ['N', 'T', 'F', 'f'].contains c then some .word
  else if ['[', '(', 'm'].contains c then some .group
  else none

theorem shapeAt?_numeral {n : Numeral} (allowed : n.Allowed) :
    ∃ c cs, n.text.toList = c :: cs ∧ shapeAt? c = some .numeral := by
  obtain ⟨d, ds, split⟩ : ∃ d ds, n.whole.toList = d :: ds :=
    List.exists_cons_of_ne_nil (by simpa using allowed.whole)
  have digit : d.isDigit = true := allowed.decimal.whole d (by simp [split])
  cases sign : n.negative with
  | true => exact ⟨'-', _, by simp [Numeral.text, sign]; rfl, by decide⟩
  | false => exact ⟨d, _, by simp [Numeral.text, sign, split]; rfl, by simp [shapeAt?, digit]⟩

theorem exists_text (form : LiteralForm) :
    ∃ c cs, form.text = c :: cs ∧ shapeAt? c = some form.shape := by
  cases form with
  | word w => cases w <;> exact ⟨_, _, rfl, rfl⟩
  | numeral n allowed => exact shapeAt?_numeral allowed
  | string s =>
      obtain ⟨inner, text, -⟩ := HostString.read?_stringLiteral s []
      exact ⟨'"', inner, by rwa [List.append_nil] at text, rfl⟩
  | group bracket items => cases bracket <;> exact ⟨_, _, rfl, rfl⟩

theorem shape_eq {form other : LiteralForm} {rest after : List Char}
    (same : form.text ++ rest = other.text ++ after) : form.shape = other.shape := by
  obtain ⟨c, cs, text, shape⟩ := form.exists_text
  obtain ⟨d, ds, textToo, shapeToo⟩ := other.exists_text
  rw [text, textToo, List.cons_append, List.cons_append] at same
  obtain rfl : c = d := (List.cons.inj same).1
  exact Option.some.inj (shape.symm.trans shapeToo)

/-! ### Where a form ends -/

/-- What may stand behind a form: nothing, the next item, or the end of the items. -/
def Follows (rest : List Char) : Prop :=
  ∀ c, rest.head? = some c → c = ',' ∨ c = ']' ∨ c = ')'

def Closes (rest : List Char) : Prop :=
  ∃ c, rest.head? = some c ∧ (c = ']' ∨ c = ')')

theorem Follows.endsNumeral {rest : List Char} (follows : Follows rest) :
    Json.EndsNumeral rest := by
  intro c head
  rcases follows c head with rfl | rfl | rfl <;> decide

theorem follows_moreText (items : List LiteralForm) {rest : List Char} (closes : Closes rest) :
    Follows (moreText items ++ rest) := by
  intro c head
  cases items with
  | nil =>
      obtain ⟨d, first, bracket⟩ := closes
      obtain rfl : d = c := Option.some.inj (first.symm.trans head)
      exact .inr bracket
  | cons item items =>
      obtain rfl : ',' = c := by simpa [moreText] using head
      exact .inl rfl

theorem closes_closing (bracket : LiteralBracket) (rest : List Char) :
    Closes (bracket.closing.toList ++ rest) := by
  cases bracket with
  | list => exact ⟨']', rfl, .inl rfl⟩
  | color | vector | euler | quaternion => exact ⟨')', rfl, .inr rfl⟩

theorem Closes.ne_text_append {rest : List Char} (closes : Closes rest) (form : LiteralForm)
    (after : List Char) : rest ≠ form.text ++ after := by
  rintro rfl
  obtain ⟨c, cs, text, shape⟩ := form.exists_text
  obtain ⟨d, first, bracket⟩ := closes
  obtain rfl : c = d := by simpa [text] using first
  rcases bracket with rfl | rfl <;> cases shape

theorem Closes.ne_comma {rest : List Char} (closes : Closes rest) (after : List Char) :
    rest ≠ ',' :: after := by
  rintro rfl
  obtain ⟨d, first, bracket⟩ := closes
  obtain rfl : ',' = d := Option.some.inj first
  rcases bracket with wrong | wrong <;> cases wrong

/-! ### Reading a form -/

/-- Texts of which none begins another are told apart whatever follows. -/
theorem append_injective_of_prefixFree {α : Type} {text : α → String}
    (free : ∀ a b, (text a).toList <+: (text b).toList → a = b) {a b : α} {rest after : List Char}
    (same : (text a).toList ++ rest = (text b).toList ++ after) : a = b ∧ rest = after := by
  have equal : a = b := by
    have front : (text a).toList <+: (text b).toList ++ after := ⟨rest, same⟩
    rcases List.prefix_or_prefix_of_prefix front (List.prefix_append _ _) with shorter | longer
    · exact free a b shorter
    · exact (free b a longer).symm
  subst equal
  exact ⟨rfl, List.append_cancel_left same⟩

theorem stringLiteral_append_injective {s t : String} {rest after : List Char}
    (same : (stringLiteral s).toList ++ rest = (stringLiteral t).toList ++ after) :
    s = t ∧ rest = after := by
  obtain ⟨inner, text, read⟩ := HostString.read?_stringLiteral s rest
  obtain ⟨innerToo, textToo, readToo⟩ := HostString.read?_stringLiteral t after
  rw [text, textToo] at same
  obtain rfl : inner = innerToo := (List.cons.inj same).2
  obtain ⟨characters, rests⟩ := Prod.mk.inj (Option.some.inj (read.symm.trans readToo))
  exact ⟨String.toList_inj.mp characters, rests⟩

mutual

theorem append_injective : (form other : LiteralForm) → {rest after : List Char} →
    Follows rest → Follows after → form.text ++ rest = other.text ++ after →
    form = other ∧ rest = after
  | .word w, other, rest, after, _, _, same => by
      have shape := shape_eq same
      cases other with
      | word v =>
          obtain ⟨equal, rests⟩ := append_injective_of_prefixFree LiteralWord.prefixFree same
          exact ⟨congrArg _ equal, rests⟩
      | numeral | string | group => cases shape
  | .numeral n allowed, other, rest, after, follows, followsToo, same => by
      have shape := shape_eq same
      cases other with
      | numeral m allowedToo =>
          have read := Json.readNumeral_text allowed follows.endsNumeral
          have readToo := Json.readNumeral_text allowedToo followsToo.endsNumeral
          rw [text, text] at same
          rw [same, readToo] at read
          cases read
          exact ⟨rfl, rfl⟩
      | word | string | group => cases shape
  | .string s, other, rest, after, _, _, same => by
      have shape := shape_eq same
      cases other with
      | string t =>
          obtain ⟨equal, rests⟩ := stringLiteral_append_injective same
          exact ⟨congrArg _ equal, rests⟩
      | word | numeral | group => cases shape
  | .group bracket items, other, rest, after, _, _, same => by
      have shape := shape_eq same
      cases other with
      | group another others =>
          simp only [text, List.append_assoc] at same
          obtain ⟨rfl, inner⟩ := append_injective_of_prefixFree LiteralBracket.prefixFree same
          obtain ⟨rfl, closed⟩ := itemsText_append_injective items others
            (closes_closing _ _) (closes_closing _ _) inner
          exact ⟨rfl, List.append_cancel_left closed⟩
      | word | numeral | string => cases shape

theorem itemsText_append_injective : (items others : List LiteralForm) →
    {rest after : List Char} → Closes rest → Closes after →
    itemsText items ++ rest = itemsText others ++ after → items = others ∧ rest = after
  | [], [], _, _, _, _, same => ⟨rfl, same⟩
  | [], other :: others, _, _, closes, _, same => by
      rw [itemsText, itemsText, List.append_assoc] at same
      exact absurd same (closes.ne_text_append other _)
  | item :: items, [], _, _, _, closes, same => by
      rw [itemsText, itemsText, List.append_assoc] at same
      exact absurd same.symm (closes.ne_text_append item _)
  | item :: items, other :: others, _, _, closes, closesToo, same => by
      rw [itemsText, itemsText, List.append_assoc, List.append_assoc] at same
      obtain ⟨rfl, more⟩ := append_injective item other (follows_moreText items closes)
        (follows_moreText others closesToo) same
      obtain ⟨rfl, rests⟩ := moreText_append_injective items others closes closesToo more
      exact ⟨rfl, rests⟩

theorem moreText_append_injective : (items others : List LiteralForm) →
    {rest after : List Char} → Closes rest → Closes after →
    moreText items ++ rest = moreText others ++ after → items = others ∧ rest = after
  | [], [], _, _, _, _, same => ⟨rfl, same⟩
  | [], _ :: _, _, _, closes, _, same => absurd same (closes.ne_comma _)
  | _ :: _, [], _, _, _, closes, same => absurd same.symm (closes.ne_comma _)
  | item :: items, other :: others, _, _, closes, closesToo, same => by
      simp only [moreText, List.cons_append, List.append_assoc, List.cons.injEq, true_and] at same
      obtain ⟨rfl, more⟩ := append_injective item other (follows_moreText items closes)
        (follows_moreText others closesToo) same
      obtain ⟨rfl, rests⟩ := moreText_append_injective items others closes closesToo more
      exact ⟨rfl, rests⟩

end

/-- Forms with the same text are the same. -/
theorem text_injective {form other : LiteralForm} (same : form.text = other.text) :
    form = other := by
  have follows : Follows [] := fun c head => by cases head
  apply (append_injective form other follows follows ?_).1
  rw [same]

end LiteralForm

end FrameGraph
