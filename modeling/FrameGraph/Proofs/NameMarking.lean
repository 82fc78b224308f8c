import FrameGraph.Proofs.FragmentText
import FrameGraph.Proofs.LexemeBoundaries

/-!
Marking names in code that may already hold markers. Main statements: markers put around a name do
not change how the code around it is read, so names are tagged one after the other, in any order, as
they are in one pass; and the marked lines of a node are its code with the names of the node tagged.
-/

namespace FrameGraph

namespace Lexeme

/-- A character that neither belongs to a word or a string literal nor makes the next name an
attribute. -/
def IsMarker (c : Char) : Prop :=
  isIdentifierPart c = false ∧ isQuote c = false ∧ c ≠ '.'

instance (c : Char) : Decidable (IsMarker c) :=
  inferInstanceAs (Decidable (_ ∧ _ ∧ _))

theorem IsMarker.plain {c : Char} (marker : IsMarker c) : startsLexeme c = false := by
  have start : isIdentifierStart c = false := by
    rw [← Bool.not_eq_true]
    exact fun start => Bool.noConfusion (marker.1.symm.trans (isIdentifierPart_of_start start))
  have digit : c.isDigit = false := by
    rw [← Bool.not_eq_true]
    exact fun digit => Bool.noConfusion (marker.1.symm.trans (isIdentifierPart_of_isDigit digit))
  simp [startsLexeme, start, digit, marker.2.1]

theorem IsMarker.ends {c : Char} (marker : IsMarker c) : isNumberPart c = false := by
  simp [isNumberPart, marker.1, marker.2.2]

/-- A name between the characters chosen for it, read from both sides towards the name. -/
def padded (pads : String → List Char) (name : String) : String :=
  String.ofList (pads name) ++ name ++ String.ofList (pads name).reverse

variable {pads : String → List Char}

@[simp] theorem toList_padded (name : String) :
    (padded pads name).toList = pads name ++ name.toList ++ (pads name).reverse := by
  simp [padded]

theorem head?_rewriteFrom_padded (markers : ∀ name, ∀ c ∈ pads name, IsMarker c)
    {before cs : List Char} {d : Char}
    (head : (rewriteFrom (padded pads) before (lexChars cs)).toList.head? = some d) :
    cs.head? = some d ∨ IsMarker d := by
  cases cs with
  | nil => simp [lexChars, rewriteFrom] at head
  | cons c rest =>
      rcases split : splitFirst c rest with ⟨kind, body, after⟩
      rw [rewriteFrom_cons split, String.toList_append] at head
      split at head
      · rw [toList_padded, String.toList_ofList] at head
        cases pad : pads (String.ofList (c :: body)) with
        | nil =>
            rw [pad] at head
            exact .inl head
        | cons marker more =>
            rw [pad] at head
            obtain rfl : marker = d := Option.some.inj head
            exact .inr (markers _ marker (pad ▸ List.mem_cons_self))
      · rw [String.toList_ofList] at head
        exact .inl head

theorem dotted_of_append {pad : List Char} (markers : ∀ c ∈ pad, IsMarker c) {before : List Char}
    (dotted : (before ++ pad).getLast? = some '.') : before.getLast? = some '.' := by
  rw [List.getLast?_append] at dotted
  cases last : pad.getLast? with
  | none => rwa [last] at dotted
  | some c =>
      rw [last] at dotted
      obtain rfl : c = '.' := Option.some.inj dotted
      exact ((markers '.' (List.mem_of_getLast? last)).2.2 rfl).elim

theorem First.rewriteFrom_between {replace : String → String} {c : Char}
    {body after tail pad before : List Char} (first : First c .identifier body after)
    (markers : ∀ d ∈ pad, IsMarker d)
    (starts : ∀ d, tail.head? = some d → after.head? = some d ∨ IsMarker d)
    (free : before.getLast? ≠ some '.') :
    rewriteFrom replace before (lexChars (pad ++ c :: body ++ pad.reverse ++ tail)) =
      String.ofList pad ++ replace (String.ofList (c :: body)) ++ String.ofList pad.reverse ++
        rewriteFrom replace (before ++ pad ++ c :: body ++ pad.reverse) (lexChars tail) := by
  have behind : ∀ d ∈ pad.reverse, IsMarker d := fun d member =>
    markers d (List.mem_reverse.mp member)
  have closed : LiteralState.outside.run (c :: body) = .outside := by
    cases first with
    | word inside stops again =>
        exact LiteralState.run_outside fun d member => isQuote_eq_false_of_part (inside d member)
  have startsBehind (d : Char) (head : (pad.reverse ++ tail).head? = some d) :
      after.head? = some d ∨ isNumberPart d = false := by
    rw [List.head?_append] at head
    cases last : pad.reverse.head? with
    | none =>
        rw [last] at head
        exact (starts d head).imp_right IsMarker.ends
    | some e =>
        rw [last] at head
        obtain rfl : e = d := Option.some.inj head
        exact .inr (behind e (List.mem_of_head? last)).ends
  have undotted : (before ++ pad).getLast? ≠ some '.' := fun dotted =>
    free (dotted_of_append markers dotted)
  rw [List.append_assoc, List.append_assoc,
    rewriteFrom_append_plain fun d member => (markers d member).plain, List.cons_append,
    first.rewriteFrom_cons (.inl closed) startsBehind, if_pos ⟨rfl, undotted⟩,
    rewriteFrom_append_plain fun d member => (behind d member).plain]
  simp only [String.append_assoc]

/-- Rewriting padded code rewrites the same names as rewriting the code, each between its pads. -/
theorem rewriteFrom_padded (markers : ∀ name, ∀ c ∈ pads name, IsMarker c)
    (replace : String → String) {before other : List Char}
    (same : before.getLast? = some '.' ↔ other.getLast? = some '.') (cs : List Char) :
    rewriteFrom replace other (lexChars (rewriteFrom (padded pads) before (lexChars cs)).toList) =
      rewriteFrom
        (fun name => String.ofList (pads name) ++ replace name ++ String.ofList (pads name).reverse)
        before (lexChars cs) := by
  induction cs using lexChars.induct generalizing before other with
  | case1 => simp [lexChars, rewriteFrom]
  | case2 c rest ih =>
      have first := first_splitFirst c rest
      have identifier : (splitFirst c rest).1 = .identifier →
          ∀ d ∈ c :: (splitFirst c rest).2.1, isIdentifierPart d = true := forall_isIdentifierPart
      rcases split : splitFirst c rest with ⟨kind, body, after⟩
      rw [split] at ih first identifier
      simp only at ih first identifier
      rw [rewriteFrom_cons split, rewriteFrom_cons split, String.toList_append]
      generalize tailEq : (rewriteFrom (padded pads) (before ++ c :: body) (lexChars after)).toList =
        tail
      have next {front : List Char}
          (same : (before ++ c :: body).getLast? = some '.' ↔ front.getLast? = some '.') :=
        tailEq ▸ ih same
      have starts (d : Char) (head : tail.head? = some d) : after.head? = some d ∨ IsMarker d :=
        head?_rewriteFrom_padded markers (tailEq ▸ head)
      have ended (last : after = []) : tail = [] := by
        rw [← tailEq, last, lexChars]
        rfl
      by_cases free : kind = .identifier ∧ before.getLast? ≠ some '.'
      · obtain ⟨rfl, undotted⟩ := free
        have marker := markers (String.ofList (c :: body))
        have name := not_dotted_identifier (List.cons_ne_nil c body) (identifier rfl)
        rw [if_pos ⟨rfl, undotted⟩, if_pos ⟨rfl, undotted⟩, toList_padded, String.toList_ofList,
          first.rewriteFrom_between marker starts fun dotted => undotted (same.mpr dotted), next]
        refine iff_of_false (name before) fun dotted => ?_
        exact name _ (dotted_of_append (fun d member => marker d (List.mem_reverse.mp member)) dotted)
      · rw [if_neg free, if_neg free, String.toList_ofList, List.cons_append,
          first.rewriteFrom_cons (first.closed_or_last.imp_right ended)
            (fun d head => (starts d head).imp_right IsMarker.ends),
          if_neg fun name => free ⟨name.1, fun dotted => name.2 (same.mp dotted)⟩,
          next (getLast?_append_iff same _)]

theorem rewrite_padded (markers : ∀ name, ∀ c ∈ pads name, IsMarker c)
    (replace : String → String) (code : String) :
    rewrite replace (rewrite (padded pads) code) =
      rewrite
        (fun name => String.ofList (pads name) ++ replace name ++ String.ofList (pads name).reverse)
        code :=
  rewriteFrom_padded markers replace Iff.rfl code.toList

theorem rewrite_self (code : String) : rewrite (fun name => name) code = code := by
  have run (before : List Char) (lexemes : List Lexeme) :
      (rewriteFrom (fun name => name) before lexemes).toList = lexemes.flatMap (·.text.toList) := by
    induction lexemes generalizing before with
    | nil => rfl
    | cons lexeme rest ih =>
        rw [rewriteFrom, ite_self, String.toList_append, ih, List.flatMap_cons]
  exact String.toList_inj.mp ((run [] _).trans (flatMap_lex code))

end Lexeme

namespace Tag

open Lexeme

abbrev Marking := List (String × Char)

def tagNames (code : String) (marking : Marking) : String :=
  marking.foldl (fun code tag => tagName code tag.1 tag.2) code

def padsOf (marking : Marking) (name : String) : List Char :=
  (marking.filter (·.1 = name)).map (·.2)

theorem padsOf_cons (tag : String × Char) (marking : Marking) (name : String) :
    padsOf (tag :: marking) name =
      if tag.1 = name then tag.2 :: padsOf marking name else padsOf marking name := by
  by_cases named : tag.1 = name <;> simp [padsOf, named]

theorem padded_of_padsOf {pads : String → List Char} {name : String} {tag : Char}
    (single : pads name = [tag]) : padded pads name = wrap tag name := by
  rw [padded, single, wrap]
  rfl

theorem padded_of_nil {pads : String → List Char} {name : String} (none : pads name = []) :
    padded pads name = name := by
  simp [padded, none]

theorem tagName_eq_rewrite (code name : String) (tag : Char) :
    tagName code name tag = rewrite (padded (padsOf [(name, tag)])) code := by
  have same : (fun text => if text = name then wrap tag text else text) =
      padded (padsOf [(name, tag)]) := by
    funext text
    by_cases named : text = name
    · rw [if_pos named, padded_of_padsOf (by rw [padsOf_cons, if_pos named.symm]; rfl)]
    · rw [if_neg named, padded_of_nil (by rw [padsOf_cons, if_neg (Ne.symm named)]; rfl)]
  rw [tagName, same]
  exact join_mapNames _ (fun _ member => text_ne_nil_of_mem_lexChars member) []

/-- Tagging names one after the other puts all their markers around them in one pass. -/
theorem tagNames_eq_rewrite {marking : Marking} (markers : ∀ tag ∈ marking, IsMarker tag.2)
    (code : String) : tagNames code marking = rewrite (padded (padsOf marking)) code := by
  induction marking generalizing code with
  | nil =>
      have unpadded : padded (padsOf []) = fun name => name := funext fun _ => padded_of_nil rfl
      rw [unpadded, rewrite_self]
      rfl
  | cons tag marking ih =>
      have first (name : String) (c : Char) (member : c ∈ padsOf [tag] name) : IsMarker c := by
        rw [padsOf_cons] at member
        split at member
        · obtain rfl : c = tag.2 := List.mem_singleton.mp member
          exact markers tag List.mem_cons_self
        · cases member
      have both : (fun name => String.ofList (padsOf [tag] name) ++ padded (padsOf marking) name ++
          String.ofList (padsOf [tag] name).reverse) = padded (padsOf (tag :: marking)) := by
        funext name
        apply String.toList_inj.mp
        by_cases named : tag.1 = name <;> simp [padsOf, named]
      calc
        tagNames code (tag :: marking)
            = tagNames (tagName code tag.1 tag.2) marking := rfl
        _ = rewrite (padded (padsOf marking)) (rewrite (padded (padsOf [tag])) code) := by
              rw [ih fun other member => markers other (List.mem_cons_of_mem _ member),
                tagName_eq_rewrite]
        _ = rewrite (padded (padsOf (tag :: marking))) code := by
              rw [rewrite_padded first, both]

variable {marking : Marking}

theorem padsOf_of_not_mem {name : String} (unnamed : name ∉ marking.map (·.1)) :
    padsOf marking name = [] := by
  rw [padsOf, List.map_eq_nil_iff, List.filter_eq_nil_iff]
  intro tag member named
  exact unnamed (List.mem_map.mpr ⟨tag, member, of_decide_eq_true named⟩)

theorem padsOf_of_mem (distinct : (marking.map (·.1)).Nodup) {tag : String × Char}
    (member : tag ∈ marking) : padsOf marking tag.1 = [tag.2] := by
  induction marking with
  | nil => cases member
  | cons first rest ih =>
      rw [List.map_cons, List.nodup_cons] at distinct
      rw [padsOf_cons]
      rcases List.mem_cons.mp member with rfl | member
      · rw [if_pos rfl, padsOf_of_not_mem distinct.1]
      · have other : first.1 ≠ tag.1 := fun same =>
          distinct.1 (same ▸ List.mem_map_of_mem member)
        rw [if_neg other, ih distinct.2 member]

/-- Names that are told apart may be tagged in any order. -/
theorem tagNames_perm (markers : ∀ tag ∈ marking, IsMarker tag.2)
    (distinct : (marking.map (·.1)).Nodup) {other : Marking} (perm : other.Perm marking)
    (code : String) : tagNames code other = tagNames code marking := by
  have same : padsOf other = padsOf marking := by
    funext name
    have pads : (padsOf other name).Perm (padsOf marking name) := (perm.filter _).map _
    by_cases named : name ∈ marking.map (·.1)
    · obtain ⟨tag, member, rfl⟩ := List.mem_map.mp named
      rw [padsOf_of_mem distinct member] at pads ⊢
      exact List.perm_singleton.mp pads
    · rw [padsOf_of_not_mem named] at pads ⊢
      exact List.perm_nil.mp pads
  rw [tagNames_eq_rewrite markers, ← same,
    tagNames_eq_rewrite fun tag member => markers tag (perm.mem_iff.mp member)]

end Tag

namespace Assembly

def nameMarking (node : Node) : Tag.Marking :=
  (node.inputs.map fun socket => (socket.identifier, Tag.input)) ++
    ((node.outputs.filter fun socket => !node.hasInput socket.identifier).map fun socket =>
      (socket.identifier, Tag.output)) ++
    if node.hasInput selfName || node.hasOutput selfName then [] else [(selfName, Tag.self)]

variable {node : Node}

theorem mem_nameMarking {name : String} {tag : Char} :
    (name, tag) ∈ nameMarking node ↔
      (node.hasInput name = true ∧ tag = Tag.input) ∨
      (node.hasInput name = false ∧ node.hasOutput name = true ∧ tag = Tag.output) ∨
      (node.hasInput name = false ∧ node.hasOutput name = false ∧ name = selfName ∧
        tag = Tag.self) := by
  have input : (name, tag) ∈ node.inputs.map (fun socket => (socket.identifier, Tag.input)) ↔
      node.hasInput name = true ∧ tag = Tag.input := by
    simp only [Node.hasInput_iff, List.mem_map, Prod.mk.injEq]
    constructor
    · rintro ⟨socket, inside, named, rfl⟩
      exact ⟨⟨socket, inside, named⟩, rfl⟩
    · rintro ⟨⟨socket, inside, named⟩, rfl⟩
      exact ⟨socket, inside, named, rfl⟩
  have output : (name, tag) ∈ (node.outputs.filter fun socket =>
        !node.hasInput socket.identifier).map (fun socket => (socket.identifier, Tag.output)) ↔
      node.hasInput name = false ∧ node.hasOutput name = true ∧ tag = Tag.output := by
    simp only [Node.hasOutput_iff, List.mem_map, List.mem_filter, Prod.mk.injEq, Bool.not_eq_true']
    constructor
    · rintro ⟨socket, ⟨inside, notInput⟩, rfl, rfl⟩
      exact ⟨notInput, ⟨socket, inside, rfl⟩, rfl⟩
    · rintro ⟨notInput, ⟨socket, inside, rfl⟩, rfl⟩
      exact ⟨socket, ⟨inside, notInput⟩, rfl, rfl⟩
  have self : ((name, tag) ∈ if node.hasInput selfName || node.hasOutput selfName then []
        else [(selfName, Tag.self)]) ↔
      node.hasInput name = false ∧ node.hasOutput name = false ∧ name = selfName ∧
        tag = Tag.self := by
    split
    · rename_i taken
      refine iff_of_false List.not_mem_nil ?_
      rintro ⟨notInput, notOutput, rfl, -⟩
      rw [notInput, notOutput] at taken
      contradiction
    · rename_i free
      rw [Bool.not_eq_true, Bool.or_eq_false_iff] at free
      rw [List.mem_singleton, Prod.mk.injEq]
      constructor
      · rintro ⟨rfl, rfl⟩
        exact ⟨free.1, free.2, rfl, rfl⟩
      · rintro ⟨-, -, named⟩
        exact named
  rw [nameMarking, List.mem_append, List.mem_append, input, output, self, or_assoc]

theorem markers_nameMarking : ∀ tag ∈ nameMarking node, Lexeme.IsMarker tag.2 := by
  rintro ⟨name, tag⟩ member
  rcases mem_nameMarking.mp member with ⟨-, rfl⟩ | ⟨-, -, rfl⟩ | ⟨-, -, -, rfl⟩
  · exact (by decide : Lexeme.IsMarker Tag.input)
  · exact (by decide : Lexeme.IsMarker Tag.output)
  · exact (by decide : Lexeme.IsMarker Tag.self)

theorem nodup_nameMarking (inputs : (node.inputs.map (·.identifier)).Nodup)
    (outputs : (node.outputs.map (·.identifier)).Nodup) :
    ((nameMarking node).map (·.1)).Nodup := by
  have self : ((if node.hasInput selfName || node.hasOutput selfName then []
      else [(selfName, Tag.self)]).map (·.1)).Nodup := by
    split <;> simp
  rw [nameMarking, List.map_append, List.map_append, List.map_map, List.map_map, List.nodup_append,
    List.nodup_append]
  refine ⟨⟨inputs, (List.filter_sublist.map _).nodup outputs, ?_⟩, self, ?_⟩
  · rintro name input _ output rfl
    obtain ⟨socket, inside, rfl⟩ := List.mem_map.mp output
    have notInput := (List.mem_filter.mp inside).2
    have taken : node.hasInput socket.identifier = true := Node.hasInput_iff.mpr input
    rw [taken] at notInput
    contradiction
  · rintro name socket _ member rfl
    split at member
    · cases member
    · rename_i free
      obtain rfl : name = selfName := List.mem_singleton.mp member
      rw [Bool.or_eq_true, not_or, Node.hasInput_iff, Node.hasOutput_iff] at free
      rcases List.mem_append.mp socket with input | output
      · exact free.1 input
      · exact free.2 ((List.filter_sublist.map _).subset output)

theorem marked_tokenOf (inputs : (node.inputs.map (·.identifier)).Nodup)
    (outputs : (node.outputs.map (·.identifier)).Nodup) (name : String) :
    (tokenOf node name).marked = Lexeme.padded (Tag.padsOf (nameMarking node)) name := by
  have pads {tag : Char} (member : (name, tag) ∈ nameMarking node) :
      Lexeme.padded (Tag.padsOf (nameMarking node)) name = Tag.wrap tag name :=
    Tag.padded_of_padsOf (Tag.padsOf_of_mem (nodup_nameMarking inputs outputs) member)
  rw [tokenOf]
  cases input : node.hasInput name with
  | true => exact (pads (mem_nameMarking.mpr (.inl ⟨input, rfl⟩))).symm
  | false =>
      cases output : node.hasOutput name with
      | true => exact (pads (mem_nameMarking.mpr (.inr (.inl ⟨input, output, rfl⟩)))).symm
      | false =>
          by_cases self : name = selfName
          · have member := mem_nameMarking.mpr (.inr (.inr ⟨input, output, self, rfl⟩))
            rw [pads member]
            simp [self, Token.marked, selfName]
          · have unnamed : name ∉ (nameMarking node).map (·.1) := by
              intro member
              obtain ⟨⟨_, tag⟩, inside, rfl⟩ := List.mem_map.mp member
              rcases mem_nameMarking.mp inside with ⟨found, -⟩ | ⟨-, found, -⟩ | ⟨-, -, found, -⟩
              · exact Bool.noConfusion (input.symm.trans found)
              · exact Bool.noConfusion (output.symm.trans found)
              · exact self found
            rw [Tag.padded_of_nil (Tag.padsOf_of_not_mem unnamed)]
            simp [self, Token.marked]

/-- The marked lines of a node are its code with the names that refer to it tagged one after the
other, in any order. -/
theorem joinLines_markedLines (inputs : (node.inputs.map (·.identifier)).Nodup)
    (outputs : (node.outputs.map (·.identifier)).Nodup) {code : RawCode}
    (nonempty : code.isEmpty = false) :
    Text.joinLines (markedLines node (.raw code)) = Tag.tagNames code.joined (nameMarking node) ∧
      ∀ marking, marking.Perm (nameMarking node) →
        Tag.tagNames code.joined marking = Tag.tagNames code.joined (nameMarking node) := by
  have keeps : Token.KeepsText Token.marked := fun _ => rfl
  refine ⟨?_, fun marking perm =>
    Tag.tagNames_perm markers_nameMarking (nodup_nameMarking inputs outputs) perm code.joined⟩
  calc
    Text.joinLines (markedLines node (.raw code))
        = Text.joinLines ((Fragment.ofTokens (tokens node code.joined)).splitLines.map
            (Fragment.render Token.marked)) := by
          rw [markedLines, assemble, rawLines, nonempty]
          rfl
    _ = String.join ((tokens node code.joined).map Token.marked) := by
          rw [Fragment.joinLines_splitLines keeps, Fragment.render_ofTokens keeps]
    _ = Lexeme.rewrite (fun name => (tokenOf node name).marked) code.joined :=
          Lexeme.join_map_mapNames_lex _ _ _ (fun _ => rfl) code.joined
    _ = Tag.tagNames code.joined (nameMarking node) := by
          rw [Tag.tagNames_eq_rewrite markers_nameMarking]
          exact congrArg (Lexeme.rewrite · code.joined) (funext (marked_tokenOf inputs outputs))

/-- A node with an output that is also an input, and code that names it in strings, as an attribute
and on several lines. -/
def scaled : Node :=
  (((Node.ofKind "n" "scaled").addInput (.ofType .integer "Value" "value")).addOutput
    (.ofType .integer "Value" "value")).addOutput (.ofType .integer "Factor" "factor")

def scaledCode : RawCode :=
  .lines ["value = self.value * 'value # \\' self'", "factor=value.factor", "\"self", "factor = 2"]

theorem joinLines_markedLines_scaled :
    Text.joinLines (markedLines scaled (.raw scaledCode)) =
      "%value% = #self#.value * 'value # \\' self'\n$factor$=%value%.factor\n\"self\nfactor = 2" ∧
    Tag.tagNames scaledCode.joined [("self", '#'), ("factor", '$'), ("value", '%')] =
      Text.joinLines (markedLines scaled (.raw scaledCode)) := by
  have marked := @joinLines_markedLines scaled (by decide) (by decide) scaledCode (by decide)
  have marking : nameMarking scaled = [("value", '%'), ("factor", '$'), ("self", '#')] := by decide
  rw [marking] at marked
  have perm : [("self", '#'), ("factor", '$'), ("value", '%')].Perm
      [("value", '%'), ("factor", '$'), ("self", '#')] := by decide
  have text : Tag.tagNames scaledCode.joined [("value", '%'), ("factor", '$'), ("self", '#')] =
      "%value% = #self#.value * 'value # \\' self'\n$factor$=%value%.factor\n\"self\nfactor = 2" := by
    decide +kernel
  exact ⟨marked.1.trans text, (marked.2 _ perm).trans marked.1.symm⟩

end Assembly

end FrameGraph
