import FrameGraph.Proofs.ClosedLiterals

/-!
The names that code mentions. Main statements: names of code put together come from its parts, those
of rewritten code from the replacements, and the literal of a string mentions none.
-/

namespace FrameGraph.Lexeme

def namesFrom (before : List Char) : List Lexeme → List String
  | [] => []
  | lexeme :: rest =>
    (if lexeme.kind = .identifier ∧ before.getLast? ≠ some '.' then [lexeme.text] else []) ++
      namesFrom (before ++ lexeme.text.toList) rest

/-- The names in a code: its identifiers, but for those directly behind a dot. What stands in a
string literal is no identifier. -/
def names (code : String) : List String :=
  namesFrom [] (lex code)

theorem mem_mapNames_iff {α : Type} {convert keep : String → α} {a : α}
    (converted : ∀ text, keep text ≠ a) {lexemes : List Lexeme}
    (nonempty : ∀ lexeme ∈ lexemes, lexeme.text.toList ≠ []) (before : List Char) :
    a ∈ mapNames convert keep (before.getLast? == some '.') lexemes ↔
      ∃ name ∈ namesFrom before lexemes, convert name = a := by
  induction lexemes generalizing before with
  | nil => simp [mapNames, namesFrom]
  | cons lexeme rest ih =>
      obtain ⟨head, others⟩ := List.forall_mem_cons.mp nonempty
      have tail := ih others (before ++ lexeme.text.toList)
      rw [List.getLast?_append_of_ne_nil _ head] at tail
      rw [mapNames, endsWithDot, List.mem_cons, tail, namesFrom]
      by_cases free : lexeme.kind = .identifier ∧ before.getLast? ≠ some '.'
      · have converts : (lexeme.kind == .identifier && !(before.getLast? == some '.')) = true := by
          simpa using free
        rw [if_pos converts, if_pos free, eq_comm (a := a)]
        simp only [List.singleton_append, List.mem_cons, exists_eq_or_imp]
      · have stays : (lexeme.kind == .identifier && !(before.getLast? == some '.')) ≠ true := by
          simpa using free
        rw [if_neg stays, if_neg free, List.nil_append]
        exact or_iff_right (converted lexeme.text).symm

/-! Names are counted by a rewriting that makes one of them longer, so what is known of rewriting
carries over to them. -/

def lengthen (name other : String) : String :=
  if other = name then other ++ " " else other

theorem length_lengthen (name other : String) :
    (lengthen name other).length = other.length + if other = name then 1 else 0 := by
  unfold lengthen
  split
  · rw [String.length_append]
    rfl
  · rfl

theorem length_rewriteFrom_lengthen (name : String) (before : List Char)
    (lexemes : List Lexeme) :
    (rewriteFrom (lengthen name) before lexemes).length =
      (lexemes.flatMap (·.text.toList)).length + (namesFrom before lexemes).count name := by
  induction lexemes generalizing before with
  | nil => rfl
  | cons lexeme rest ih =>
      rw [rewriteFrom, String.length_append, ih, namesFrom, List.count_append, List.flatMap_cons,
        List.length_append]
      split
      · rw [length_lengthen, List.count_singleton]
        simp only [beq_iff_eq, String.length_toList]
        omega
      · simp only [String.length_toList, List.count_nil]
        omega

theorem length_rewrite_lengthen (name code : String) :
    (rewrite (lengthen name) code).length = code.length + (names code).count name := by
  rw [rewrite, length_rewriteFrom_lengthen, flatMap_lex, String.length_toList, names]

variable {before other cs ds : List Char}

/-- Of the text in front of the lexemes it only matters whether it ends with a dot. -/
theorem namesFrom_congr (same : before.getLast? = some '.' ↔ other.getLast? = some '.')
    (lexemes : List Lexeme) : (namesFrom before lexemes).Perm (namesFrom other lexemes) := by
  rw [List.perm_iff_count]
  intro name
  have whole : (rewriteFrom (lengthen name) before lexemes).length = _ :=
    congrArg String.length (rewriteFrom_congr same lexemes)
  simp only [length_rewriteFrom_lengthen] at whole
  omega

theorem namesFrom_append_plain {plain : List Char} (each : ∀ c ∈ plain, startsLexeme c = false)
    (before cs : List Char) :
    (namesFrom before (lexChars (plain ++ cs))).Perm
      (namesFrom (before ++ plain) (lexChars cs)) := by
  rw [List.perm_iff_count]
  intro name
  have whole : (rewriteFrom (lengthen name) before (lexChars (plain ++ cs))).length = _ :=
    congrArg String.length (rewriteFrom_append_plain each before cs)
  simp only [String.length_append, String.length_ofList, length_rewriteFrom_lengthen,
    flatMap_lexChars, List.length_append] at whole
  omega

theorem namesFrom_append (closed : LiteralState.outside.run cs = .outside)
    (stops : ∀ d, ds.head? = some d → isNumberPart d = false) (before : List Char) :
    (namesFrom before (lexChars (cs ++ ds))).Perm
      (namesFrom before (lexChars cs) ++ namesFrom (before ++ cs) (lexChars ds)) := by
  rw [List.perm_iff_count]
  intro name
  have whole : (rewriteFrom (lengthen name) before (lexChars (cs ++ ds))).length = _ :=
    congrArg String.length (rewriteFrom_append closed stops before)
  simp only [String.length_append, length_rewriteFrom_lengthen, flatMap_lexChars,
    List.length_append] at whole
  rw [List.count_append]
  omega

theorem First.namesFrom_cons {c : Char} {kind : LexemeKind} {body after tail : List Char}
    (first : First c kind body after)
    (closed : LiteralState.outside.run (c :: body) = .outside ∨ tail = [])
    (starts : ∀ d, tail.head? = some d → after.head? = some d ∨ kind.goesOn d = false)
    (before : List Char) :
    (namesFrom before (lexChars (c :: (body ++ tail)))).Perm
      ((if kind = .identifier ∧ before.getLast? ≠ some '.' then [String.ofList (c :: body)]
        else []) ++ namesFrom (before ++ c :: body) (lexChars tail)) := by
  rw [List.perm_iff_count]
  intro name
  have whole :
      (rewriteFrom (lengthen name) before (lexChars (c :: (body ++ tail)))).length = _ :=
    congrArg String.length (first.rewriteFrom_cons_of_goesOn closed starts before)
  simp only [String.length_append, length_rewriteFrom_lengthen, flatMap_lexChars,
    List.length_append, List.length_cons] at whole
  rw [List.count_append]
  split at whole
  · rename_i free
    rw [length_lengthen, String.length_ofList, List.length_cons] at whole
    rw [if_pos free, List.count_singleton]
    simp only [beq_iff_eq]
    omega
  · rename_i bound
    rw [String.length_ofList, List.length_cons] at whole
    rw [if_neg bound, List.count_nil]
    omega

theorem namesFrom_cons {c : Char} {rest : List Char} {kind : LexemeKind} {body after : List Char}
    (split : splitFirst c rest = (kind, body, after)) (before : List Char) :
    namesFrom before (lexChars (c :: rest)) =
      (if kind = .identifier ∧ before.getLast? ≠ some '.' then [String.ofList (c :: body)]
        else []) ++ namesFrom (before ++ c :: body) (lexChars after) := by
  rw [lexChars, split, namesFrom, String.toList_ofList]

theorem namesFrom_subset (before cs : List Char) :
    namesFrom before (lexChars cs) ⊆ namesFrom [] (lexChars cs) := by
  cases cs with
  | nil => simp [lexChars, namesFrom]
  | cons c rest =>
      rcases split : splitFirst c rest with ⟨kind, body, after⟩
      rw [namesFrom_cons split, namesFrom_cons split]
      intro name member
      rcases List.mem_append.mp member with member | member
      · split at member
        · rename_i free
          rw [if_pos ⟨free.1, by simp⟩]
          exact List.mem_append_left _ member
        · cases member
      · refine List.mem_append_right _ ((namesFrom_congr ?_ _).subset member)
        rw [List.getLast?_append_of_ne_nil _ (List.cons_ne_nil c body), List.nil_append]

theorem First.number_append {c : Char} {body : List Char} (first : First c .number body [])
    (ds : List Char) : splitFirst c (body ++ ds) =
      (.number, body ++ ds.takeWhile isNumberPart, ds.dropWhile isNumberPart) := by
  cases first with
  | word inside stops again =>
      have alone := again [] (by simp)
      have parts : ∀ d ∈ body, isNumberPart d = true :=
        fun d member => inside d (List.mem_cons_of_mem _ member)
      unfold splitFirst at alone ⊢
      by_cases start : isIdentifierStart c = true
      · simp [start] at alone
      by_cases digit : c.isDigit = true
      · rw [if_neg start, if_pos digit, splitWhile, List.takeWhile_append_of_pos parts,
          List.dropWhile_append_of_pos parts]
      by_cases quote : isQuote c = true
      · simp [start, digit, quote] at alone
      · simp [start, digit, quote] at alone

theorem namesFrom_takeWhile_subset (before ds : List Char) :
    namesFrom (before ++ ds.takeWhile isNumberPart) (lexChars (ds.dropWhile isNumberPart)) ⊆
      namesFrom before (lexChars ds) := by
  obtain ⟨parts, stops⟩ := forall_splitWhile isNumberPart ds
  have closed : LiteralState.outside.run (ds.takeWhile isNumberPart) = .outside :=
    LiteralState.run_outside fun d member => isQuote_eq_false_of_part (parts d member)
  have cut := namesFrom_append closed stops before
  rw [splitWhile, List.takeWhile_append_dropWhile] at cut
  exact fun name member => cut.symm.subset (List.mem_append_right _ member)

/-- Code that is put behind closed code adds no names but its own, unless it starts with a part of
an identifier. A number in front may take in some of it. -/
theorem namesFrom_append_subset (closed : LiteralState.outside.run cs = .outside)
    (stops : ∀ d, ds.head? = some d → isIdentifierPart d = false) (before : List Char) :
    namesFrom before (lexChars (cs ++ ds)) ⊆
      namesFrom before (lexChars cs) ++ namesFrom (before ++ cs) (lexChars ds) := by
  induction cs using lexChars.induct generalizing before with
  | case1 => simp [lexChars, namesFrom]
  | case2 c rest ih =>
      have first := first_splitFirst c rest
      have whole := splitFirst_append c rest
      rcases split : splitFirst c rest with ⟨kind, body, after⟩
      rw [split] at ih first whole
      simp only at ih first whole
      have own := namesFrom_cons split before
      subst whole
      rw [← List.cons_append, LiteralState.run_append] at closed
      have inside : LiteralState.outside.run (c :: body) = .outside := by
        rcases first.closed_or_last with closes | rfl
        · exact closes
        · exact closed
      rw [inside] at closed
      rw [own, List.cons_append, List.append_assoc]
      intro name member
      by_cases absorbed : kind = .number ∧ after = []
      · obtain ⟨rfl, rfl⟩ := absorbed
        rw [List.nil_append, namesFrom_cons (first.number_append ds)] at member
        have behind := namesFrom_takeWhile_subset (before ++ c :: body) ds
        simp only [List.append_assoc, List.cons_append] at behind
        refine List.mem_append_right _ ?_
        rw [List.append_nil]
        exact behind (by simpa using member)
      · have starts (d : Char) (head : (after ++ ds).head? = some d) :
            after.head? = some d ∨ kind.goesOn d = false := by
          cases after with
          | cons e after => exact .inl head
          | nil =>
              right
              cases kind with
              | identifier => exact stops d head
              | number => exact absurd ⟨rfl, rfl⟩ absorbed
              | stringLiteral | other => rfl
        have member := (first.namesFrom_cons (.inl inside) starts before).subset member
        rw [List.append_assoc, List.mem_append]
        refine (List.mem_append.mp member).imp_right fun member => ?_
        simpa using ih closed (before ++ c :: body) member

/-! Names of rewritten code. -/

variable {replace : String → String}

theorem head?_rewriteFrom (unnamed : ∀ d, cs.head? = some d → isIdentifierStart d = false) :
    (rewriteFrom replace before (lexChars cs)).toList.head? = cs.head? := by
  cases cs with
  | nil => simp [lexChars, rewriteFrom]
  | cons c rest =>
      rcases split : splitFirst c rest with ⟨kind, body, after⟩
      have other : kind ≠ .identifier := by
        rintro rfl
        have start := unnamed c rfl
        simp only [splitFirst, start, Bool.false_eq_true, if_false] at split
        split at split
        · simp at split
        · split at split <;> simp at split
      rw [rewriteFrom_cons split, if_neg fun free => other free.1]
      simp

theorem First.unnamed {c : Char} {kind : LexemeKind} {body after : List Char}
    (first : First c kind body after) (word : kind = .identifier ∨ kind = .number) :
    ∀ d, after.head? = some d → isIdentifierStart d = false := by
  intro d head
  rw [← Bool.not_eq_true]
  intro start
  have part := isIdentifierPart_of_start start
  cases first with
  | word inside stops again =>
      have ends := stops d head
      rcases word with rfl | rfl
      · exact Bool.noConfusion (ends.symm.trans part)
      · exact Bool.noConfusion (ends.symm.trans (isNumberPart_of_part part))
  | closed | opened | other => simp at word

theorem namesFrom_rewriteFrom_subset
    (closed : ∀ name ∈ namesFrom before (lexChars cs), Closed (replace name))
    (dotted : before.getLast? = some '.' → other.getLast? = some '.') :
    namesFrom other (lexChars (rewriteFrom replace before (lexChars cs)).toList) ⊆
      (namesFrom before (lexChars cs)).flatMap fun name => names (replace name) := by
  induction cs using lexChars.induct generalizing before other with
  | case1 => simp [lexChars, rewriteFrom, namesFrom]
  | case2 c rest ih =>
      have first := first_splitFirst c rest
      have identifier : (splitFirst c rest).1 = .identifier →
          ∀ d ∈ c :: (splitFirst c rest).2.1, isIdentifierPart d = true := forall_isIdentifierPart
      rcases split : splitFirst c rest with ⟨kind, body, after⟩
      rw [split] at ih first identifier
      simp only at ih first identifier
      rw [namesFrom_cons split] at closed ⊢
      rw [rewriteFrom_cons split, String.toList_append]
      obtain ⟨closedHere, closedAfter⟩ := List.forall_mem_append.mp closed
      have behind {front : List Char} (front_dotted : (before ++ c :: body).getLast? = some '.' →
          front.getLast? = some '.') := ih closedAfter front_dotted
      generalize tailEq : (rewriteFrom replace (before ++ c :: body) (lexChars after)).toList =
        tail at behind ⊢
      have starts (word : kind = .identifier ∨ kind = .number) : tail.head? = after.head? := by
        rw [← tailEq]
        exact head?_rewriteFrom (first.unnamed word)
      rw [List.flatMap_append]
      intro name member
      by_cases free : kind = .identifier ∧ before.getLast? ≠ some '.'
      · obtain ⟨rfl, undotted⟩ := free
        rw [if_pos ⟨rfl, undotted⟩] at member closedHere ⊢
        have stops (d : Char) (head : tail.head? = some d) : isIdentifierPart d = false := by
          rw [starts (.inl rfl)] at head
          cases first with
          | word inside stops again => exact stops d head
        have undotted := not_dotted_identifier (List.cons_ne_nil c body) (identifier rfl) before
        have parts := namesFrom_append_subset (closedHere _ List.mem_cons_self) stops other member
        rcases List.mem_append.mp parts with member | member
        · refine List.mem_append_left _ ?_
          rw [List.flatMap_singleton]
          exact namesFrom_subset _ _ member
        · exact List.mem_append_right _ (behind (fun dot => absurd dot undotted) member)
      · rw [if_neg free, String.toList_ofList, List.cons_append] at member
        have ended : after = [] → tail = [] := by
          rintro rfl
          rw [← tailEq, lexChars]
          rfl
        have follows (d : Char) (head : tail.head? = some d) :
            after.head? = some d ∨ kind.goesOn d = false := by
          cases kind with
          | identifier => exact .inl (starts (.inl rfl) ▸ head)
          | number => exact .inl (starts (.inr rfl) ▸ head)
          | stringLiteral | other => exact .inr rfl
        have member := (first.namesFrom_cons (first.closed_or_last.imp_right ended) follows
          other).subset member
        rw [if_neg fun name => free ⟨name.1, fun dot => name.2 (dotted dot)⟩] at member
        refine List.mem_append_right _ (behind (fun dot => ?_) member)
        rw [List.getLast?_append_of_ne_nil _ (List.cons_ne_nil c body)] at dot ⊢
        exact dot

/-- The names of rewritten code are those of the replacements, if each closes its literals. -/
theorem names_rewrite_subset {code : String} (closed : ∀ name ∈ names code, Closed (replace name)) :
    names (rewrite replace code) ⊆ (names code).flatMap fun name => names (replace name) :=
  namesFrom_rewriteFrom_subset closed id

/-! Names of texts put together. -/

theorem names_append_subset {s t : String} (closed : Closed s)
    (stops : ∀ d, t.toList.head? = some d → isIdentifierPart d = false) :
    names (s ++ t) ⊆ names s ++ names t := by
  intro name member
  rw [names, lex, String.toList_append] at member
  rcases List.mem_append.mp (namesFrom_append_subset closed stops [] member) with member | member
  · exact List.mem_append_left _ member
  · exact List.mem_append_right _ (namesFrom_subset _ _ member)

theorem names_plain_append_subset {s : String} (plain : ∀ c ∈ s.toList, startsLexeme c = false)
    (t : String) : names (s ++ t) ⊆ names t := by
  intro name member
  rw [names, lex, String.toList_append] at member
  exact namesFrom_subset _ _ ((namesFrom_append_plain plain [] t.toList).subset member)

theorem names_intercalate_subset {parts : List String} (closed : ∀ part ∈ parts, Closed part) :
    names (", ".intercalate parts) ⊆ parts.flatMap names := by
  have comma : ∀ c ∈ ", ".toList, startsLexeme c = false := plain_ofList rfl
  induction parts with
  | nil => simp [names, lex, lexChars, namesFrom]
  | cons first rest ih =>
      obtain ⟨head, tail⟩ := List.forall_mem_cons.mp closed
      by_cases last : rest = []
      · simp [last]
      · rw [String.intercalate_cons_of_ne_nil last, String.append_assoc, List.flatMap_cons]
        intro name member
        have parts := names_append_subset head (fun d start => ?_) member
        · rcases List.mem_append.mp parts with member | member
          · exact List.mem_append_left _ member
          · exact List.mem_append_right _ (ih tail (names_plain_append_subset comma _ member))
        · rw [String.toList_append] at start
          obtain rfl : ',' = d := Option.some.inj start
          decide

theorem names_of_plain {s : String} (plain : ∀ c ∈ s.toList, startsLexeme c = false) :
    names s = [] := by
  have blank : names "" = [] := by simp [names, lex, lexChars, namesFrom]
  rw [← List.subset_nil, ← blank]
  simpa using names_plain_append_subset plain ""

theorem names_enclosed_subset {opening inner closing : String}
    (opened : ∀ c ∈ opening.toList, startsLexeme c = false) (closed : Closed inner)
    (closes : ∀ c ∈ closing.toList, startsLexeme c = false)
    (stops : ∀ d, closing.toList.head? = some d → isIdentifierPart d = false) :
    names (opening ++ inner ++ closing) ⊆ names inner := by
  have parts := names_append_subset closed stops
  rw [names_of_plain closes, List.append_nil] at parts
  rw [String.append_assoc]
  exact List.Subset.trans (names_plain_append_subset opened _) parts

theorem names_assignment_subset {targets : String} (closed : Closed targets) (value : String) :
    names (targets ++ " = " ++ value) ⊆ names targets ++ names value := by
  have equals : ∀ c ∈ " = ".toList, startsLexeme c = false := plain_ofList rfl
  rw [String.append_assoc]
  intro name member
  have parts := names_append_subset closed (fun d head => ?_) member
  · rw [List.mem_append] at parts ⊢
    exact parts.imp_right fun member => names_plain_append_subset equals value member
  · rw [String.toList_append] at head
    obtain rfl : ' ' = d := Option.some.inj head
    decide

theorem names_call_subset {function : String} (closed : Closed function)
    {arguments : List String} (each : ∀ argument ∈ arguments, Closed argument) :
    names (function ++ "(" ++ ", ".intercalate arguments ++ ")") ⊆
      names function ++ arguments.flatMap names := by
  have opens : ∀ c ∈ "(".toList, startsLexeme c = false := plain_ofList rfl
  have closes : ∀ c ∈ ")".toList, startsLexeme c = false := plain_ofList rfl
  have whole : function ++ "(" ++ ", ".intercalate arguments ++ ")" =
      function ++ ("(" ++ ", ".intercalate arguments ++ ")") := by
    simp only [String.append_assoc]
  rw [whole]
  intro name member
  have parts := names_append_subset closed (fun d head => ?_) member
  · rw [List.mem_append] at parts ⊢
    refine parts.imp_right fun member => names_intercalate_subset each ?_
    refine names_enclosed_subset opens (closed_intercalate (by decide) each) closes
      (fun d head => ?_) member
    obtain rfl : ')' = d := Option.some.inj head
    decide
  · rw [String.toList_append, String.toList_append] at head
    obtain rfl : '(' = d := Option.some.inj head
    decide

theorem names_joinLines {lines : List String} (closed : ∀ line ∈ lines, Closed line) :
    (names (Text.joinLines lines)).Perm (lines.flatMap names) := by
  rw [List.perm_iff_count]
  intro name
  induction lines with
  | nil => simp [Text.joinLines, names, lex, lexChars, namesFrom]
  | cons first rest ih =>
      obtain ⟨head, tail⟩ := List.forall_mem_cons.mp closed
      cases rest with
      | nil => simp
      | cons second rest =>
          have tail := ih tail
          have whole : (rewrite (lengthen name)
              (first ++ "\n" ++ Text.joinLines (second :: rest))).length = _ :=
            congrArg String.length (rewrite_append_newline head _)
          simp only [String.length_append, length_rewrite_lengthen] at whole
          simp only [Text.joinLines, String.intercalate_cons_cons] at tail whole ⊢
          rw [List.flatMap_cons, List.count_append, ← tail]
          omega

theorem exists_lexeme_of_mem_names {code name : String} (member : name ∈ names code) :
    ∃ lexeme ∈ lex code, lexeme.kind = .identifier ∧ lexeme.text = name := by
  have listed (before : List Char) (lexemes : List Lexeme)
      (member : name ∈ namesFrom before lexemes) :
      ∃ lexeme ∈ lexemes, lexeme.kind = .identifier ∧ lexeme.text = name := by
    induction lexemes generalizing before with
    | nil => cases member
    | cons lexeme rest ih =>
        rcases List.mem_append.mp member with member | member
        · split at member
          · rename_i free
            exact ⟨lexeme, List.mem_cons_self, free.1, (List.mem_singleton.mp member).symm⟩
          · cases member
        · obtain ⟨other, inside, same⟩ := ih _ member
          exact ⟨other, List.mem_cons_of_mem _ inside, same⟩
  exact listed [] _ member

theorem infix_of_mem_names {code name : String} (member : name ∈ names code) :
    name.toList <:+: code.toList := by
  obtain ⟨lexeme, inside, -, rfl⟩ := exists_lexeme_of_mem_names member
  obtain ⟨before, after, split⟩ := List.append_of_mem inside
  rw [← flatMap_lex code, split, List.flatMap_append, List.flatMap_cons]
  exact ⟨_, _, List.append_assoc _ _ _⟩

theorem mem_of_mem_names {code name : String} (member : name ∈ names code) {c : Char}
    (written : c ∈ name.toList) : c ∈ code.toList :=
  (infix_of_mem_names member).subset written

theorem isIdentifier_of_mem_names {code name : String} (member : name ∈ names code) :
    IsIdentifier name := by
  obtain ⟨lexeme, inside, identifier, rfl⟩ := exists_lexeme_of_mem_names member
  unfold lex at inside
  clear member
  generalize code.toList = cs at inside
  fun_induction lexChars cs with
  | case1 => cases inside
  | case2 c rest ih =>
      rcases List.mem_cons.mp inside with rfl | inside
      · have parts := forall_isIdentifierPart identifier
        exact ⟨c, _, String.toList_ofList, isIdentifierStart_of_splitFirst identifier,
          fun d member => parts d (List.mem_cons_of_mem _ member)⟩
      · exact ih inside

theorem names_of_isIdentifier {s : String} (identifier : IsIdentifier s) : names s = [s] := by
  obtain ⟨c, body, cs, start, parts⟩ := identifier
  have split : splitFirst c body = (.identifier, body, []) := by
    have whole : splitWhile isIdentifierPart (body ++ []) = (body, []) :=
      splitWhile_boundary parts (by simp)
    rw [List.append_nil] at whole
    rw [splitFirst, if_pos start, whole]
  rw [names, lex, cs, namesFrom_cons split, if_pos ⟨rfl, by simp⟩, lexChars, namesFrom, ← cs,
    String.ofList_toList, List.append_nil]

theorem names_stringLiteral (s : String) : names (stringLiteral s) = [] := by
  rw [names, lex_stringLiteral, namesFrom, if_neg (by simp), namesFrom, List.append_nil]

end FrameGraph.Lexeme
