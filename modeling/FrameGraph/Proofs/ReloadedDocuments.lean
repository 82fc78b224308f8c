import FrameGraph.Proofs.DocumentJson
import FrameGraph.Proofs.ReadableNumerals

/-!
Which documents can be loaded again once they are stored. Main statement: just those whose floats
are finite and whose values are not nested too deeply.
-/

namespace FrameGraph

theorem isSome_mapM_map {α β γ : Type} {read? : β → Option γ} {write : α → β} {items : List α} :
    ((items.map write).mapM read?).isSome ↔ ∀ item ∈ items, (read? (write item)).isSome := by
  induction items with
  | nil => simp
  | cons item items ih =>
      rw [List.map_cons, List.mapM_cons, List.forall_mem_cons, ← ih]
      cases read? (write item) <;> cases (items.map write).mapM read? <;> simp

/-! ### Values -/

namespace Value

variable {depth : Nat}

theorem levels_le_listLevels {item : Value} {items : List Value} (member : item ∈ items) :
    item.levels ≤ listLevels items := by
  induction items with
  | nil => contradiction
  | cons first items ih =>
      rcases List.mem_cons.mp member with rfl | member
      · exact le_max_left _ _
      · exact (ih member).trans (le_max_right _ _)

theorem fits_list_iff {items : List Value} :
    (list items).Fits (depth + 2) ↔ ∀ item ∈ items, item.Fits depth := by
  refine ⟨fun fits item member => ⟨?_, fun x found => ?_⟩, fits_list⟩
  · exact (levels_le_listLevels member).trans (Nat.le_of_add_le_add_right fits.shallow)
  · exact fits.finite x (mem_listFloats.mpr ⟨item, member, found⟩)

theorem fits_iff {value : Value} : value.Fits depth ↔
    value.levels ≤ depth ∧ ∀ x ∈ value.floats, x.toJson.float?.isSome := by
  simp only [Binary64.isSome_float?_toJson]
  exact ⟨fun fits => ⟨fits.shallow, fits.finite⟩, fun ⟨shallow, finite⟩ => ⟨shallow, finite⟩⟩

theorem isSome_bind₃ {α β : Type} {x y z : Option α} {f : α → α → α → β} :
    (do return f (← x) (← y) (← z) : Option β).isSome ↔ x.isSome ∧ y.isSome ∧ z.isSome := by
  cases x <;> cases y <;> cases z <;> simp

theorem isSome_bind₄ {α β : Type} {x y z w : Option α} {f : α → α → α → α → β} :
    (do return f (← x) (← y) (← z) (← w) : Option β).isSome ↔
      x.isSome ∧ y.isSome ∧ z.isSome ∧ w.isSome := by
  cases x <;> cases y <;> cases z <;> cases w <;> simp

mutual

/-- Just a value that fits is read from its JSON. -/
theorem isSome_ofJson?_toJson : (value : Value) → (depth : Nat) →
    ((ofJson? depth value.toJson).isSome ↔ value.Fits depth)
  | .none, depth => by simp [fits_iff, toJson, Json.ofString, ofJson?, levels, floats]
  | .float _, 0 | .integer _, 0 | .boolean _, 0 | .string _, 0 | .vector .., 0 | .vector .., 1
  | .euler .., 0 | .euler .., 1 | .quaternion .., 0 | .quaternion .., 1 | .color .., 0
  | .color .., 1 | .list _, 0 | .list _, 1 => by
      simp [fits_iff, toJson, Json.ofMembers, ofJson?, levels]
  | .float x, depth + 1 => by
      simp [fits_iff, toJson, Json.ofMembers, ofJson?, levels, floats]
  | .integer n, depth + 1 => by
      simp [fits_iff, toJson, Json.ofMembers, ofJson?, levels, floats, Numeral.toInt64?_ofInt]
  | .boolean b, depth + 1 => by
      simp [fits_iff, toJson, Json.ofMembers, ofJson?, levels, floats]
  | .string s, depth + 1 => by
      simp [fits_iff, toJson, Json.ofMembers, Json.ofString, ofJson?, levels, floats]
  | .vector x y z, depth + 2 | .euler x y z, depth + 2 => by
      simpa [fits_iff, toJson, Json.ofMembers, ofJson?, levels, floats] using isSome_bind₃
  | .quaternion w x y z, depth + 2 | .color w x y z, depth + 2 => by
      simpa [fits_iff, toJson, Json.ofMembers, ofJson?, levels, floats] using isSome_bind₄
  | .list items, depth + 2 => by
      rw [fits_list_iff, ← isSome_mapM_ofJson? items depth]
      simp [toJson, Json.ofMembers, ofJson?]

theorem isSome_mapM_ofJson? : (items : List Value) → (depth : Nat) →
    (((listToJson items).mapM (ofJson? depth)).isSome ↔ ∀ item ∈ items, item.Fits depth)
  | [], _ => by simp [listToJson]
  | item :: items, depth => by
      rw [listToJson, List.mapM_cons, List.forall_mem_cons, ← isSome_ofJson?_toJson item depth,
        ← isSome_mapM_ofJson? items depth]
      cases ofJson? depth item.toJson <;> cases (listToJson items).mapM (ofJson? depth) <;> simp

end

end Value

/-! ### Sockets and properties -/

theorem Socket.isSome_ofJson?_toJson (socket : Socket) :
    (ofJson? socket.toJson).isSome ↔ socket.value.Fits (nestingLimit - 7) := by
  have fields : socket.toJson.fields? ["name", "identifier", "socket_type", "value"] =
      some [some (.ofString socket.name), some (.ofString socket.identifier),
        some socket.type.toJson, some socket.value.toJson] := rfl
  have type := SocketType.ofJson?_toJson socket.type
  rw [← Value.isSome_ofJson?_toJson socket.value (nestingLimit - 7)]
  simp only [ofJson?, fields, Json.ofString, Json.text?, Json.optionalField?, type,
    Option.bind_eq_bind, Option.bind_some]
  cases Value.ofJson? (nestingLimit - 7) socket.value.toJson <;> simp

theorem Properties.isSome_propertiesOfJson?_propertiesToJson (properties : Properties) :
    (propertiesOfJson? (propertiesToJson properties)).isSome ↔
      ∀ property ∈ properties.entries, property.2.Fits (nestingLimit - 6) := by
  have each (property : String × Value) :
      (do return (← some property.1, ← Value.ofJson? (nestingLimit - 6) property.2.toJson) :
        Option (String × Value)).isSome ↔ property.2.Fits (nestingLimit - 6) := by
    rw [← Value.isSome_ofJson?_toJson]
    cases Value.ofJson? (nestingLimit - 6) property.2.toJson <;> simp
  simp only [propertiesOfJson?, propertiesToJson, Json.ofMembers, List.map_map, Function.comp_def,
    ← each, bind_pure_comp, Option.map_eq_map, Option.isSome_map, isSome_mapM_map]

theorem Json.isSome_list?_map {α β : Type} {read? : Json → Option β} {write : α → Json}
    {items : List α} : (list? read? (.array (items.map write))).isSome ↔
      ∀ item ∈ items, (read? (write item)).isSome :=
  isSome_mapM_map

/-! ### Nodes, trees and documents -/

theorem Node.isSome_ofJson?_toJson (node : Node) : (ofJson? node.toJson).isSome ↔ node.Fits := by
  have fields : node.toJson.fields? ["identifier", "kind", "label", "inputs", "outputs",
      "properties", "in_invalid_network"] =
      some [some (.ofString node.identifier), some (.ofString node.kind),
        some ((node.label.map Json.ofString).getD .null),
        some (.array (node.inputs.map Socket.toJson)),
        some (.array (node.outputs.map Socket.toJson)), some (propertiesToJson node.properties),
        some (.boolean node.inInvalidNetwork)] := rfl
  have label : Json.optionalText? ((node.label.map Json.ofString).getD .null) = some node.label :=
    by cases node.label <;> rfl
  have fits : node.Fits ↔
      (Json.list? Socket.ofJson? (.array (node.inputs.map Socket.toJson))).isSome ∧
        (Json.list? Socket.ofJson? (.array (node.outputs.map Socket.toJson))).isSome ∧
        (propertiesOfJson? (propertiesToJson node.properties)).isSome := by
    simp only [Json.isSome_list?_map, Socket.isSome_ofJson?_toJson,
      Properties.isSome_propertiesOfJson?_propertiesToJson]
    exact ⟨fun fits => ⟨fits.inputs, fits.outputs, fits.properties⟩,
      fun ⟨inputs, outputs, properties⟩ => ⟨inputs, outputs, properties⟩⟩
  rw [fits]
  simp only [ofJson?, fields, Json.ofString, Json.text?, Json.boolean?, Json.optionalField?, label,
    Option.bind_eq_bind, Option.bind_some]
  cases Json.list? Socket.ofJson? (.array (node.inputs.map Socket.toJson)) <;>
    cases Json.list? Socket.ofJson? (.array (node.outputs.map Socket.toJson)) <;>
    cases propertiesOfJson? (propertiesToJson node.properties) <;> simp

theorem Tree.isSome_ofJson?_toJson (tree : Tree) (revision : Nat) :
    (ofJson? revision tree.toJson).isSome ↔ ∀ node ∈ tree.nodes, node.Fits := by
  have fields : tree.toJson.fields? ["name", "nodes", "links", "metadata"] =
      some [some (.ofString tree.name), some (.array (tree.nodes.map Node.toJson)),
        some (.array (tree.links.map Link.toJson)), some tree.metadata.toJson] := rfl
  have links := Json.list?_map fun link (_ : link ∈ tree.links) => link.ofJson?_toJson
  have metadata := tree.metadata.ofJson?_toJson
  have nodes : (∀ node ∈ tree.nodes, node.Fits) ↔
      (Json.list? Node.ofJson? (.array (tree.nodes.map Node.toJson))).isSome := by
    simp only [Json.isSome_list?_map, Node.isSome_ofJson?_toJson]
  rw [nodes]
  simp only [ofJson?, fields, Json.ofString, Json.text?, links, metadata, Option.bind_eq_bind,
    Option.bind_some]
  cases Json.list? Node.ofJson? (.array (tree.nodes.map Node.toJson)) <;> simp

namespace Document

theorem isSome_ofJson?_toJson (document : Document) (revision : Nat) :
    (ofJson? revision document.toJson).isSome ↔
      ∀ tree ∈ document.trees, ∀ node ∈ tree.nodes, node.Fits := by
  have fields : document.toJson.fields? ["trees"] =
      some [some (.array (document.trees.map Tree.toJson))] := rfl
  have trees : (∀ tree ∈ document.trees, ∀ node ∈ tree.nodes, node.Fits) ↔
      ∀ item ∈ document.trees.zipIdx,
        (Tree.ofJson? (revision + item.2) item.1.toJson).isSome := by
    simp only [Tree.isSome_ofJson?_toJson]
    conv_lhs => rw [← List.zipIdx_map_fst 0 document.trees]
    exact List.forall_mem_map
  rw [trees]
  simp only [ofJson?, fields, Option.bind_eq_bind, Option.bind_some, List.zipIdx_map]
  simp only [← Option.bind_eq_bind, bind_pure_comp, Option.map_eq_map, Option.isSome_map]
  exact isSome_mapM_map

theorem parse?_text_eq (document : Document) (revision : Nat) :
    parse? revision document.text = ofJson? revision document.toJson := by
  have stored : Json.parse? document.text = some document.toJson :=
    Json.parse?_pretty document.wellFormed_toJson
  rw [parse?, stored, Option.bind_some]

/-- A document is loaded again from the text in which it is stored just when all its floats are
finite and its values are not nested deeper than the reader follows them. -/
theorem isSome_parse?_text (document : Document) (revision : Nat) :
    (parse? revision document.text).isSome ↔
      ∀ tree ∈ document.trees, ∀ node ∈ tree.nodes, node.Fits := by
  rw [parse?_text_eq]
  exact document.isSome_ofJson?_toJson revision

def ofProperty (value : Value) : Document where
  trees := [{ Tree.new "Main" ⟨1, ""⟩ with
    nodes := [(Node.ofKind "n" "k").setProperty "p" value] }]

def nestedLists : Nat → Value
  | 0 => .none
  | count + 1 => .list [nestedLists count]

theorem levels_nestedLists (count : Nat) : (nestedLists count).levels = 2 * count := by
  induction count with
  | zero => rfl
  | succ count ih => simp [nestedLists, Value.levels, Value.listLevels, ih, Nat.mul_succ]

/-- Documents that are stored and not loaded again: one with NaN, which is written as `null`, and
one with more lists in one another than the reader follows. -/
theorem parse?_text_eq_none :
    parse? 1 (ofProperty (.float .nan)).text = none ∧
      parse? 1 (ofProperty (nestedLists 61)).text = none := by
  have lost {value : Value} (large : ¬ value.Fits (nestingLimit - 6)) :
      parse? 1 (ofProperty value).text = none := by
    rw [parse?_text_eq, ← Option.not_isSome_iff_eq_none, isSome_ofJson?_toJson]
    exact fun each => large
      ((each _ List.mem_cons_self _ List.mem_cons_self).properties ("p", value) List.mem_cons_self)
  refine ⟨lost fun fits => ?_, lost fun fits => ?_⟩
  · exact absurd (fits.finite .nan List.mem_cons_self) (by decide)
  · exact absurd fits.shallow (levels_nestedLists 61 ▸ by decide)

end Document

end FrameGraph
