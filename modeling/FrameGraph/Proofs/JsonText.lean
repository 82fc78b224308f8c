import FrameGraph.Json.Writer
import FrameGraph.Proofs.JsonNumerals

/-!
JSON text over several lines, written and read. Main statement: a value whose strings have texts and
whose numerals JSON allows is read back from its text.
-/

namespace FrameGraph.Json

/-! ### White space -/

theorem skipSpace_append {space : List Char} (blank : ∀ c ∈ space, isSpace c = true)
    (rest : List Char) : skipSpace (space ++ rest) = skipSpace rest :=
  List.dropWhile_append_of_pos blank

theorem skipSpace_cons {c : Char} (solid : isSpace c = false) (rest : List Char) :
    skipSpace (c :: rest) = c :: rest := by
  simp [skipSpace, solid]

theorem isSpace_of_mem_newLine {level : Nat} {c : Char} (member : c ∈ (newLine level).toList) :
    isSpace c = true := by
  simp only [newLine, String.toList_append, List.mem_append, String.toList_ofList,
    List.mem_replicate] at member
  rcases member with newline | ⟨-, rfl⟩
  · obtain rfl : c = '\n' := by simpa using newline
    rfl
  · rfl

theorem skipSpace_newLine (level : Nat) (rest : List Char) :
    skipSpace ((newLine level).toList ++ rest) = skipSpace rest :=
  skipSpace_append (fun _ => isSpace_of_mem_newLine) rest

theorem readValue_space {space : List Char} (blank : ∀ c ∈ space, isSpace c = true) (fuel : Nat)
    (rest : List Char) : readValue fuel (space ++ rest) = readValue fuel rest := by
  cases fuel with
  | zero => rfl
  | succ fuel => rw [readValue, readValue, skipSpace_append blank]

theorem readValue_newLine (fuel level : Nat) (rest : List Char) :
    readValue fuel ((newLine level).toList ++ rest) = readValue fuel rest :=
  readValue_space (fun _ => isSpace_of_mem_newLine) fuel rest

theorem readItems_newLine (fuel level : Nat) (rest : List Char) :
    readItems fuel ((newLine level).toList ++ rest) = readItems fuel rest := by
  cases fuel with
  | zero => rfl
  | succ fuel => rw [readItems, readItems, readValue_newLine]

theorem readMembers_newLine (fuel level : Nat) (rest : List Char) :
    readMembers fuel ((newLine level).toList ++ rest) = readMembers fuel rest := by
  cases fuel with
  | zero => rfl
  | succ fuel => rw [readMembers, readMembers, skipSpace_newLine]

/-! ### Strings -/

def writtenPart (c : Char) : StringPart :=
  if c.toNat < 32 ∧ c ∉ ['\x08', '\x0c', '\n', '\r', '\t'] then .unit c.toNat else .char c

theorem unit?_hexDigit :
    ∀ n < 32, unit? '0' '0' (hexDigit (n / 16)) (hexDigit (n % 16)) = some n := by
  decide

theorem readParts_escapeChar (c : Char) (taken : List StringPart) (rest : List Char) :
    readParts taken (escapeChar c ++ rest) = readParts (writtenPart c :: taken) rest := by
  unfold escapeChar
  split
  · rfl
  · rfl
  · rfl
  · rfl
  · rfl
  · rfl
  · rfl
  · rename_i quote backslash b f n r t
    split
    · rename_i control
      have part : writtenPart c = .unit c.toNat := by
        rw [writtenPart, if_pos]
        simpa [control] using ⟨b, f, n, r, t⟩
      simp [readParts, unit?_hexDigit c.toNat control, part]
    · rename_i graphic
      have part : writtenPart c = .char c := by
        rw [writtenPart, if_neg]
        exact fun control => graphic control.1
      rw [part, List.singleton_append, readParts, if_neg graphic]
      · exact quote
      · exact fun _ _ _ _ _ escape _ => backslash escape
      · exact fun _ _ escape _ => backslash escape

theorem readParts_flatMap_escapeChar (cs : List Char) (taken : List StringPart)
    (rest : List Char) :
    readParts taken (cs.flatMap escapeChar ++ '"' :: rest) =
      some (taken.reverse ++ cs.map writtenPart, rest) := by
  induction cs generalizing taken with
  | nil => simp [readParts]
  | cons c cs ih =>
      rw [List.flatMap_cons, List.append_assoc, readParts_escapeChar, ih]
      simp

theorem joinParts_writtenPart (cs taken : List Char) :
    joinParts taken (cs.map writtenPart) = some (taken.reverse ++ cs) := by
  induction cs generalizing taken with
  | nil => simp [joinParts]
  | cons c cs ih =>
      rw [List.map_cons]
      by_cases control : c.toNat < 32 ∧ c ∉ ['\x08', '\x0c', '\n', '\r', '\t']
      · have leading : isLeading c.toNat = false := by simp [isLeading]; omega
        have trailing : isTrailing c.toNat = false := by simp [isTrailing]; omega
        have next := ih (c :: taken)
        rw [writtenPart, if_pos control]
        cases cs with
        | nil => simp [joinParts, leading, trailing]
        | cons d ds =>
            rw [List.map_cons] at next ⊢
            cases part : writtenPart d with
            | char e =>
                rw [part, joinParts] at next
                simpa [joinParts, leading, trailing] using next
            | unit n =>
                rw [part] at next
                simpa [joinParts, leading, trailing] using next
      · have next := ih (c :: taken)
        rw [writtenPart, if_neg control, joinParts, next]
        simp

theorem readString_quoted (s : String) (rest : List Char) :
    readString (s.toList.flatMap escapeChar ++ '"' :: rest) = some (some s, rest) := by
  simp [readString, readParts_flatMap_escapeChar, joinParts_writtenPart]

/-! ### Values -/

/-- A value that its text stands for: every string in it has a text, and every numeral is one that
JSON allows. -/
inductive WellFormed : Json → Prop
  | null : WellFormed .null
  | boolean (b : Bool) : WellFormed (.boolean b)
  | number {n : Numeral} : n.Allowed → WellFormed (.number n)
  | string (s : String) : WellFormed (.ofString s)
  | array {items : List Json} : (∀ item ∈ items, WellFormed item) → WellFormed (.array items)
  | object {members : List (String × Json)} :
      (∀ member ∈ members, WellFormed member.2) → WellFormed (.ofMembers members)

/-- Whether the value is read back from its text at any level, with any text after it that ends a
numeral, with as much fuel as the text is long. -/
def Reads (json : Json) : Prop :=
  ∀ (level fuel : Nat) (rest : List Char), (writeValue level json).length < fuel →
    EndsNumeral rest → readValue fuel ((writeValue level json).toList ++ rest) = some (json, rest)

theorem endsNumeral_newLine (level : Nat) (rest : List Char) :
    EndsNumeral ((newLine level).toList ++ rest) := by
  simp only [newLine, String.toList_append]
  exact endsNumeral_cons (by decide)

theorem endsNumeral_writeItems (level : Nat) (items : List Json) (rest : List Char) :
    EndsNumeral ((writeItems level items).toList ++ rest) := by
  cases items with
  | nil =>
    rw [writeItems, String.toList_append, List.append_assoc]
    exact endsNumeral_newLine _ _
  | cons item items =>
      simp only [writeItems, String.toList_append, List.append_assoc]
      exact endsNumeral_cons (by decide)

theorem endsNumeral_writeMembers (level : Nat) (members : List (Option String × Json))
    (rest : List Char) : EndsNumeral ((writeMembers level members).toList ++ rest) := by
  cases members with
  | nil =>
    rw [writeMembers, String.toList_append, List.append_assoc]
    exact endsNumeral_newLine _ _
  | cons member members =>
      obtain ⟨key, value⟩ := member
      simp only [writeMembers, String.toList_append, List.append_assoc]
      exact endsNumeral_cons (by decide)

theorem length_writeItems_nil (level : Nat) :
    (writeItems level []).length = (newLine level).length + 1 := by
  rw [writeItems, String.length_append]
  rfl

theorem length_writeItems_cons (level : Nat) (item : Json) (items : List Json) :
    (writeItems level (item :: items)).length =
      1 + (newLine (level + 1)).length + (writeValue (level + 1) item).length +
        (writeItems level items).length := by
  rw [writeItems, String.length_append, String.length_append, String.length_append]
  rfl

theorem readItems_writeItems {item : Json} {items : List Json}
    (reads : ∀ i ∈ item :: items, Reads i) (level fuel : Nat) (rest : List Char)
    (enough : (writeValue (level + 1) item).length + (writeItems level items).length < fuel) :
    readItems fuel ((newLine (level + 1)).toList ++ ((writeValue (level + 1) item).toList ++
      ((writeItems level items).toList ++ rest))) = some (item :: items, rest) := by
  induction items generalizing item fuel with
  | nil =>
      obtain ⟨fuel, rfl⟩ : ∃ f, fuel = f + 1 := ⟨fuel - 1, by omega⟩
      rw [length_writeItems_nil] at enough
      have first := reads item List.mem_cons_self (level + 1) fuel
        ((writeItems level []).toList ++ rest) (by omega) (endsNumeral_writeItems _ _ _)
      rw [readItems, readValue_newLine, first]
      simp only [writeItems, String.toList_append, List.append_assoc, skipSpace_newLine]
      rfl
  | cons next items ih =>
      obtain ⟨fuel, rfl⟩ : ∃ f, fuel = f + 1 := ⟨fuel - 1, by omega⟩
      rw [length_writeItems_cons] at enough
      have first := reads item List.mem_cons_self (level + 1) fuel
        ((writeItems level (next :: items)).toList ++ rest) (by omega)
        (endsNumeral_writeItems _ _ _)
      have others := ih (fun i member => reads i (List.mem_cons_of_mem _ member)) fuel (by omega)
      rw [readItems, readValue_newLine, first]
      have comma (cs : List Char) : skipSpace (",".toList ++ cs) = ',' :: cs := rfl
      simp only [writeItems, String.toList_append, List.append_assoc, comma, others,
        Option.map_some]

theorem toList_quoted (s : String) (rest : List Char) :
    (quoted s).toList ++ rest = '"' :: (s.toList.flatMap escapeChar ++ '"' :: rest) := by
  simp [quoted]

theorem length_writeMembers_nil (level : Nat) :
    (writeMembers level []).length = (newLine level).length + 1 := by
  rw [writeMembers, String.length_append]
  rfl

theorem length_writeMembers_cons (level : Nat) (key : String) (value : Json)
    (members : List (Option String × Json)) :
    (writeMembers level ((some key, value) :: members)).length =
      1 + (newLine (level + 1)).length + (quoted key).length + 2 +
        (writeValue (level + 1) value).length + (writeMembers level members).length := by
  rw [writeMembers, String.length_append, String.length_append, String.length_append,
    String.length_append, String.length_append]
  rfl

def readAfterMember (fuel : Nat) (member : Option String × Json) (rest : List Char) :
    Option (List (Option String × Json) × List Char) :=
  match skipSpace rest with
  | ',' :: rest => (readMembers fuel rest).map fun (members, rest) => (member :: members, rest)
  | '\x7d' :: rest => some ([member], rest)
  | _ => none

theorem readMembers_step {key : String} {value : Json} (reads : Reads value) (level fuel : Nat)
    {rest : List Char} (enough : (writeValue (level + 1) value).length < fuel)
    (ends : EndsNumeral rest) :
    readMembers (fuel + 1) ((newLine (level + 1)).toList ++ ((quoted key).toList ++
        (": ".toList ++ ((writeValue (level + 1) value).toList ++ rest)))) =
      readAfterMember fuel (some key, value) rest := by
  have colon (cs : List Char) : skipSpace (": ".toList ++ cs) = ':' :: ([' '] ++ cs) := rfl
  have blank : ∀ c ∈ [' '], isSpace c = true := List.all_eq_true.mp rfl
  rw [readMembers, skipSpace_newLine, toList_quoted, skipSpace_cons rfl]
  simp only [readString_quoted, colon, readValue_space blank,
    reads (level + 1) fuel rest enough ends]
  rfl

theorem readMembers_writeMembers {key : String} {value : Json} {members : List (String × Json)}
    (reads : ∀ member ∈ (key, value) :: members, Reads member.2) (level fuel : Nat)
    (rest : List Char)
    (enough : (quoted key).length + 2 + (writeValue (level + 1) value).length +
      (writeMembers level (members.map fun member => (some member.1, member.2))).length < fuel) :
    readMembers fuel ((newLine (level + 1)).toList ++ ((quoted key).toList ++ (": ".toList ++
      ((writeValue (level + 1) value).toList ++
        ((writeMembers level (members.map fun member => (some member.1, member.2))).toList ++
          rest))))) =
      some ((some key, value) :: members.map fun member => (some member.1, member.2), rest) := by
  induction members generalizing key value fuel with
  | nil =>
      obtain ⟨fuel, rfl⟩ : ∃ f, fuel = f + 1 := ⟨fuel - 1, by omega⟩
      rw [List.map_nil, length_writeMembers_nil] at enough
      have first : Reads value := reads (key, value) List.mem_cons_self
      rw [List.map_nil, readMembers_step first level fuel (by omega)
        (endsNumeral_writeMembers _ _ _), readAfterMember]
      simp only [writeMembers, String.toList_append, List.append_assoc, skipSpace_newLine]
      rfl
  | cons next members ih =>
      obtain ⟨fuel, rfl⟩ : ∃ f, fuel = f + 1 := ⟨fuel - 1, by omega⟩
      rw [List.map_cons, length_writeMembers_cons] at enough
      have others := ih (fun member inside => reads member (List.mem_cons_of_mem _ inside)) fuel
        (by omega)
      have comma (cs : List Char) : skipSpace (",".toList ++ cs) = ',' :: cs := rfl
      have first : Reads value := reads (key, value) List.mem_cons_self
      rw [readMembers_step first level fuel (by omega) (endsNumeral_writeMembers _ _ _),
        readAfterMember]
      simp only [List.map_cons, writeMembers, writeString, String.toList_append, List.append_assoc,
        comma, others, Option.map_some]

theorem ne_of_front {c : Char} (front : c.isDigit = true ∨ c = '-') (d : Char)
    (other : d.isDigit = false ∧ d ≠ '-') : c ≠ d := by
  rintro rfl
  rcases front with digit | minus
  · exact absurd (digit.symm.trans other.1) (by decide)
  · exact other.2 minus

theorem isSpace_of_front {c : Char} (front : c.isDigit = true ∨ c = '-') : isSpace c = false := by
  simp [isSpace, ne_of_front front ' ' (by decide), ne_of_front front '\n' (by decide),
    ne_of_front front '\t' (by decide), ne_of_front front '\r' (by decide)]

theorem readValue_numeral {c : Char} (front : c.isDigit = true ∨ c = '-') (fuel : Nat)
    (rest : List Char) :
    readValue (fuel + 1) (c :: rest) =
      (readNumeral (c :: rest)).map fun (value, rest) => (number value, rest) := by
  rw [readValue, skipSpace_cons (isSpace_of_front front)]
  simp [ne_of_front front '\x7b' (by decide), ne_of_front front '[' (by decide),
    ne_of_front front '"' (by decide), ne_of_front front 'n' (by decide),
    ne_of_front front 't' (by decide), ne_of_front front 'f' (by decide)]

theorem head_text {n : Numeral} (allowed : n.Allowed) :
    ∃ c cs, n.text.toList = c :: cs ∧ (c.isDigit = true ∨ c = '-') := by
  obtain ⟨d, ds, split⟩ : ∃ d ds, n.whole.toList = d :: ds :=
    List.exists_cons_of_ne_nil (by simpa using allowed.whole)
  rw [Numeral.text_eq]
  simp only [String.toList_append, List.append_assoc, split]
  cases n.negative with
  | true => exact ⟨'-', _, rfl, .inr rfl⟩
  | false => exact ⟨d, _, rfl, .inl (allowed.decimal.whole d (by simp [split]))⟩

theorem WellFormed.head {json : Json} (wellFormed : json.WellFormed) (level : Nat) :
    ∃ c cs, (writeValue level json).toList = c :: cs ∧ isSpace c = false ∧ c ≠ ']' := by
  cases wellFormed with
  | null => exact ⟨'n', _, by rw [writeValue]; rfl, by decide⟩
  | boolean b =>
      cases b
      · exact ⟨'f', _, by rw [writeValue]; rfl, by decide⟩
      · exact ⟨'t', _, by rw [writeValue]; rfl, by decide⟩
  | number allowed =>
      obtain ⟨c, cs, split, front⟩ := head_text allowed
      rw [writeValue]
      exact ⟨c, cs, split, isSpace_of_front front, ne_of_front front ']' (by decide)⟩
  | string s =>
      rw [ofString, writeValue, writeString]
      exact ⟨'"', _, (List.append_nil _).symm.trans (toList_quoted s []), by decide⟩
  | @array items _ =>
      cases items with
      | nil => exact ⟨'[', _, by rw [writeValue]; rfl, by decide⟩
      | cons item items => exact ⟨'[', _, by rw [writeValue]; simp; rfl, by decide⟩
  | @object members _ =>
      cases members with
      | nil => exact ⟨'\x7b', _, by rw [ofMembers, List.map_nil, writeValue]; rfl, by decide⟩
      | cons member members =>
          exact ⟨'\x7b', _, by rw [ofMembers, List.map_cons, writeValue]; simp; rfl, by decide⟩

theorem reads_of_succ {json : Json}
    (read : ∀ (level fuel : Nat) (rest : List Char), (writeValue level json).length ≤ fuel →
      EndsNumeral rest →
      readValue (fuel + 1) ((writeValue level json).toList ++ rest) = some (json, rest)) :
    json.Reads := by
  intro level fuel rest enough ends
  obtain ⟨fuel, rfl⟩ : ∃ f, fuel = f + 1 := ⟨fuel - 1, by omega⟩
  exact read level fuel rest (Nat.le_of_lt_succ enough) ends

theorem reads_number {n : Numeral} (allowed : n.Allowed) : (number n).Reads := by
  refine reads_of_succ fun level fuel rest _ ends => ?_
  obtain ⟨c, cs, split, front⟩ := head_text allowed
  have read := readNumeral_text allowed ends
  rw [writeValue, split]
  rw [split] at read
  rw [List.cons_append, readValue_numeral front, ← List.cons_append, read]
  rfl

theorem reads_string (s : String) : (ofString s).Reads := by
  refine reads_of_succ fun level fuel rest _ _ => ?_
  change readValue (fuel + 1) ((quoted s).toList ++ rest) = some (.string (some s), rest)
  rw [toList_quoted, readValue, skipSpace_cons rfl]
  simp only [readString_quoted, Option.map_some]

theorem reads_array {items : List Json} (wellFormed : ∀ item ∈ items, item.WellFormed)
    (each : ∀ item ∈ items, item.Reads) : (array items).Reads := by
  refine reads_of_succ fun level fuel rest enough _ => ?_
  cases items with
  | nil =>
      rw [writeValue, readValue]
      rfl
  | cons item items =>
      rw [writeValue] at enough
      simp only [String.length_append] at enough
      have opened : "[".length = 1 := rfl
      have read := readItems_writeItems each level fuel rest (by omega)
      obtain ⟨c, cs, split, solid, unclosed⟩ :=
        (wellFormed item List.mem_cons_self).head (level + 1)
      have front (cs : List Char) : skipSpace ("[".toList ++ cs) = '[' :: cs := rfl
      rw [readItems_newLine] at read
      rw [writeValue, readValue]
      simp only [String.toList_append, List.append_assoc, front, skipSpace_newLine, split,
        List.cons_append, skipSpace_cons solid] at read ⊢
      simp [unclosed, read]

theorem reads_ofMembers {members : List (String × Json)}
    (each : ∀ member ∈ members, Reads member.2) : (ofMembers members).Reads := by
  refine reads_of_succ fun level fuel rest enough _ => ?_
  cases members with
  | nil =>
      rw [ofMembers, List.map_nil, writeValue, readValue]
      rfl
  | cons member members =>
      rw [ofMembers, List.map_cons, writeValue] at enough ⊢
      simp only [String.length_append, writeString] at enough
      have opened : "\x7b".length = 1 := rfl
      have colon : ": ".length = 2 := rfl
      have read := readMembers_writeMembers each level fuel rest (by omega)
      have front (cs : List Char) : skipSpace ("\x7b".toList ++ cs) = '\x7b' :: cs := rfl
      rw [readMembers_newLine] at read
      rw [readValue]
      have quote (cs : List Char) : skipSpace ('"' :: cs) = '"' :: cs := skipSpace_cons rfl cs
      simp only [String.toList_append, List.append_assoc, front, skipSpace_newLine, writeString]
      rw [toList_quoted] at read ⊢
      rw [quote]
      split
      · rename_i closed
        exact absurd (List.cons.inj closed).1 (by decide)
      · rw [read]
        rfl

theorem WellFormed.reads {json : Json} (wellFormed : json.WellFormed) : json.Reads := by
  induction wellFormed with
  | null =>
      refine reads_of_succ fun level fuel rest _ _ => ?_
      rw [writeValue, readValue]
      rfl
  | boolean b =>
      refine reads_of_succ fun level fuel rest _ _ => ?_
      cases b
      · rw [writeValue, readValue]
        rfl
      · rw [writeValue, readValue]
        rfl
  | number allowed => exact reads_number allowed
  | string s => exact reads_string s
  | array wellFormed each => exact reads_array wellFormed each
  | object _ each => exact reads_ofMembers each

theorem parse?_pretty {json : Json} (wellFormed : json.WellFormed) :
    parse? json.pretty = some json := by
  have long : (writeValue 0 json).length < json.pretty.toList.length + 1 := by
    rw [String.length_toList]
    exact Nat.lt_succ_self _
  have read : readValue (json.pretty.toList.length + 1) (json.pretty.toList ++ []) =
      some (json, []) :=
    wellFormed.reads 0 _ [] long fun c head => nomatch head
  rw [List.append_nil] at read
  simp only [parse?, read]
  rfl

end FrameGraph.Json
