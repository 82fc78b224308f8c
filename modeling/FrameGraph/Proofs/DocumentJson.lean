import FrameGraph.Proofs.ValueJson

/-!
Documents in JSON. Main statements: the values of a document that is read fit, a document whose
values fit is read back from its text if the digits of its floats are, and so a document that was
read is read back.
-/

namespace FrameGraph

/-! ### Dictionaries -/

namespace Dictionary

variable {α : Type}

theorem insertEntry_last {key : String} {value : α} {entries : List (String × α)}
    (last : ∀ entry ∈ entries, entry.1 < key) :
    insertEntry key value entries = entries ++ [(key, value)] := by
  induction entries with
  | nil => rfl
  | cons first rest ih =>
      rw [List.forall_mem_cons] at last
      have above : ¬ key < first.1 := String.lt_asymm last.1
      have differs : key ≠ first.1 := fun same => String.lt_irrefl _ (same ▸ last.1)
      rw [insertEntry, if_neg above, if_neg differs, ih last.2, List.cons_append]

theorem entries_foldl_insert {pairs : List (String × α)} {d : Dictionary α}
    (ascending : (d.entries ++ pairs).Pairwise (·.1 < ·.1)) :
    (pairs.foldl (fun d pair => d.insert pair.1 pair.2) d).entries = d.entries ++ pairs := by
  induction pairs generalizing d with
  | nil => simp
  | cons pair rest ih =>
      have last : ∀ entry ∈ d.entries, entry.1 < pair.1 := fun entry member =>
        (List.pairwise_append.mp ascending).2.2 entry member pair List.mem_cons_self
      have inserted : (d.insert pair.1 pair.2).entries = d.entries ++ [pair] :=
        insertEntry_last last
      rw [List.foldl_cons, ih (by simpa [inserted] using ascending), inserted]
      simp

theorem ofList_entries (d : Dictionary α) : ofList d.entries = d :=
  ext_entries (entries_foldl_insert d.sorted)

theorem mem_of_mem_foldl_insert {pairs : List (String × α)} {d : Dictionary α}
    {entry : String × α}
    (member : entry ∈ (pairs.foldl (fun d pair => d.insert pair.1 pair.2) d).entries) :
    entry ∈ d.entries ∨ entry ∈ pairs := by
  induction pairs generalizing d with
  | nil => exact .inl member
  | cons pair rest ih =>
      rcases ih member with inserted | later
      · rcases fst_mem_insertEntry inserted with rfl | before
        · exact .inr List.mem_cons_self
        · exact .inl before
      · exact .inr (List.mem_cons_of_mem _ later)

theorem mem_of_mem_ofList {pairs : List (String × α)} {entry : String × α}
    (member : entry ∈ (ofList pairs).entries) : entry ∈ pairs :=
  (mem_of_mem_foldl_insert member).resolve_left List.not_mem_nil

end Dictionary

/-! ### Fields -/

namespace Json

variable {α : Type}

theorem exists_of_list? {item? : Json → Option α} {json : Json} {items : List α}
    (read : list? item? json = some items) {item : α} (member : item ∈ items) :
    ∃ json, item? json = some item := by
  unfold list? at read
  split at read
  · obtain ⟨json, -, one⟩ := exists_of_mapM read member
    exact ⟨json, one⟩
  · contradiction

theorem list?_map {write : α → Json} {item? : Json → Option α} {items : List α}
    (each : ∀ item ∈ items, item? (write item) = some item) :
    list? item? (.array (items.map write)) = some items :=
  mapM_map_eq_some each

theorem of_optionalField? {default a : α} {read? : Json → Option α} {field : Option Json}
    (read : optionalField? default read? field = some a) :
    a = default ∨ ∃ json, read? json = some a := by
  cases field with
  | none => exact .inl (Option.some.inj read).symm
  | some json => exact .inr ⟨json, read⟩

end Json

theorem Link.ofJson?_toJson (link : Link) : ofJson? link.toJson = some link :=
  rfl

theorem TreeMetadata.ofJson?_toJson (metadata : TreeMetadata) :
    ofJson? metadata.toJson = some metadata :=
  rfl

theorem SocketType.ofJson?_toJson (type : SocketType) : ofJson? type.toJson = some type :=
  ofName?_name type

theorem Link.wellFormed_toJson (link : Link) : link.toJson.WellFormed :=
  .object (by simp [Json.WellFormed.string])

theorem TreeMetadata.wellFormed_toJson (metadata : TreeMetadata) : metadata.toJson.WellFormed :=
  .object (by simp [Json.WellFormed.string])

theorem SocketType.wellFormed_toJson (type : SocketType) : type.toJson.WellFormed :=
  .string type.name

/-! ### Sockets and properties -/

namespace Socket

theorem wellFormed_toJson (socket : Socket) : socket.toJson.WellFormed :=
  .object (by
    simp [Json.WellFormed.string, socket.type.wellFormed_toJson, socket.value.wellFormed_toJson])

theorem fits_of_ofJson? {json : Json} {socket : Socket} (read : ofJson? json = some socket) :
    socket.value.Fits (nestingLimit - 7) := by
  simp only [ofJson?, Option.bind_eq_bind, Option.bind_eq_some_iff] at read
  obtain ⟨fields, -, read⟩ := read
  split at read
  · simp only [Option.bind_eq_some_iff, Option.pure_def, Option.some.injEq] at read
    obtain ⟨_, -, _, -, _, -, value, field, rfl⟩ := read
    rcases Json.of_optionalField? field with rfl | ⟨json, read⟩
    · exact ⟨by simp [Value.levels], by simp [Value.floats]⟩
    · exact Value.fits_of_ofJson? read
  · contradiction

theorem ofJson?_toJson {socket : Socket} (fits : socket.value.Fits (nestingLimit - 7))
    (back : ∀ x ∈ socket.value.floats, x.ReadsBack) : ofJson? socket.toJson = some socket := by
  have fields : socket.toJson.fields? ["name", "identifier", "socket_type", "value"] =
      some [some (.ofString socket.name), some (.ofString socket.identifier),
        some socket.type.toJson, some socket.value.toJson] := rfl
  have type := SocketType.ofJson?_toJson socket.type
  have value := Value.ofJson?_toJson fits back
  simp [ofJson?, fields, Json.ofString, Json.text?, Json.optionalField?, type, value]

end Socket

theorem Properties.wellFormed_propertiesToJson (properties : Properties) :
    (propertiesToJson properties).WellFormed := by
  refine .object fun member inside => ?_
  obtain ⟨property, -, rfl⟩ := List.mem_map.mp inside
  exact property.2.wellFormed_toJson

theorem Properties.fits_of_propertiesOfJson? {json : Json} {properties : Properties}
    (read : propertiesOfJson? json = some properties) :
    ∀ property ∈ properties.entries, property.2.Fits (nestingLimit - 6) := by
  intro property member
  unfold propertiesOfJson? at read
  split at read
  · simp only [Option.bind_eq_bind, Option.bind_eq_some_iff, Option.pure_def,
      Option.some.injEq] at read
    obtain ⟨pairs, each, rfl⟩ := read
    obtain ⟨item, -, one⟩ := exists_of_mapM each (Dictionary.mem_of_mem_ofList member)
    simp only [Option.bind_eq_some_iff, Option.some.injEq] at one
    obtain ⟨_, -, value, read, rfl⟩ := one
    exact Value.fits_of_ofJson? read
  · contradiction

theorem Properties.propertiesOfJson?_propertiesToJson {properties : Properties}
    (fits : ∀ property ∈ properties.entries, property.2.Fits (nestingLimit - 6))
    (back : ∀ property ∈ properties.entries, ∀ x ∈ property.2.floats, x.ReadsBack) :
    propertiesOfJson? (propertiesToJson properties) = some properties := by
  simp only [propertiesOfJson?, propertiesToJson, Json.ofMembers, List.map_map, Function.comp_def]
  rw [mapM_map_eq_some]
  · simp [Dictionary.ofList_entries]
  · intro property member
    simp [Value.ofJson?_toJson (fits property member) (back property member)]

/-! ### Nodes, trees and documents -/

namespace Node

/-- A node whose values open no more arrays and objects than are left around them, and whose floats
JSON has numerals for. -/
structure Fits (node : Node) : Prop where
  inputs : ∀ socket ∈ node.inputs, socket.value.Fits (nestingLimit - 7)
  outputs : ∀ socket ∈ node.outputs, socket.value.Fits (nestingLimit - 7)
  properties : ∀ property ∈ node.properties.entries, property.2.Fits (nestingLimit - 6)

def floats (node : Node) : List Binary64 :=
  node.inputs.flatMap (·.value.floats) ++ node.outputs.flatMap (·.value.floats) ++
    node.properties.entries.flatMap (·.2.floats)

theorem wellFormed_toJson (node : Node) : node.toJson.WellFormed := by
  have label : ((node.label.map Json.ofString).getD .null).WellFormed := by
    cases node.label with
    | none => exact .null
    | some label => exact .string label
  have sockets : ∀ sockets : List Socket, (Json.array (sockets.map Socket.toJson)).WellFormed :=
    fun sockets => .array (List.forall_mem_map.mpr fun socket _ => socket.wellFormed_toJson)
  refine .object ?_
  simp [Json.WellFormed.string, Json.WellFormed.boolean, label, sockets,
    Properties.wellFormed_propertiesToJson]

theorem fits_of_ofJson? {json : Json} {node : Node} (read : ofJson? json = some node) :
    node.Fits := by
  simp only [ofJson?, Option.bind_eq_bind, Option.bind_eq_some_iff] at read
  obtain ⟨fields, -, read⟩ := read
  split at read
  · simp only [Option.bind_eq_some_iff, Option.pure_def, Option.some.injEq] at read
    obtain ⟨_, -, _, -, _, -, inputs, readInputs, outputs, readOutputs, properties,
      readProperties, _, -, rfl⟩ := read
    have sockets : ∀ {field : Option Json} {sockets : List Socket},
        Json.optionalField? [] (Json.list? Socket.ofJson?) field = some sockets →
        ∀ socket ∈ sockets, socket.value.Fits (nestingLimit - 7) := by
      intro field sockets read socket member
      rcases Json.of_optionalField? read with rfl | ⟨json, read⟩
      · contradiction
      · obtain ⟨item, one⟩ := Json.exists_of_list? read member
        exact Socket.fits_of_ofJson? one
    refine ⟨sockets readInputs, sockets readOutputs, ?_⟩
    rcases Json.of_optionalField? readProperties with rfl | ⟨json, read⟩
    · exact fun property member => absurd member List.not_mem_nil
    · exact Properties.fits_of_propertiesOfJson? read
  · contradiction

theorem ofJson?_toJson {node : Node} (fits : node.Fits)
    (back : ∀ x ∈ node.floats, x.ReadsBack) : ofJson? node.toJson = some node := by
  have fields : node.toJson.fields? ["identifier", "kind", "label", "inputs", "outputs",
      "properties", "in_invalid_network"] =
      some [some (.ofString node.identifier), some (.ofString node.kind),
        some ((node.label.map Json.ofString).getD .null),
        some (.array (node.inputs.map Socket.toJson)),
        some (.array (node.outputs.map Socket.toJson)), some (propertiesToJson node.properties),
        some (.boolean node.inInvalidNetwork)] := rfl
  simp only [floats, List.forall_mem_append, List.forall_mem_flatMap] at back
  have inputs := Json.list?_map fun socket member =>
    Socket.ofJson?_toJson (fits.inputs socket member) (back.1.1 socket member)
  have outputs := Json.list?_map fun socket member =>
    Socket.ofJson?_toJson (fits.outputs socket member) (back.1.2 socket member)
  have properties := Properties.propertiesOfJson?_propertiesToJson fits.properties back.2
  have label : Json.optionalText? ((node.label.map Json.ofString).getD .null) = some node.label :=
    by cases node.label <;> rfl
  simp [ofJson?, fields, Json.ofString, Json.text?, Json.boolean?, Json.optionalField?, inputs,
    outputs, properties, label]

end Node

namespace Tree

def floats (tree : Tree) : List Binary64 :=
  tree.nodes.flatMap Node.floats

theorem wellFormed_toJson (tree : Tree) : tree.toJson.WellFormed := by
  have nodes : (Json.array (tree.nodes.map Node.toJson)).WellFormed :=
    .array (List.forall_mem_map.mpr fun node _ => node.wellFormed_toJson)
  have links : (Json.array (tree.links.map Link.toJson)).WellFormed :=
    .array (List.forall_mem_map.mpr fun link _ => link.wellFormed_toJson)
  refine .object ?_
  simp [Json.WellFormed.string, nodes, links, tree.metadata.wellFormed_toJson]

theorem fits_of_ofJson? {revision : Nat} {json : Json} {tree : Tree}
    (read : ofJson? revision json = some tree) : ∀ node ∈ tree.nodes, node.Fits := by
  simp only [ofJson?, Option.bind_eq_bind, Option.bind_eq_some_iff] at read
  obtain ⟨fields, -, read⟩ := read
  split at read
  · simp only [Option.bind_eq_some_iff, Option.pure_def, Option.some.injEq] at read
    obtain ⟨_, -, nodes, ⟨_, -, readNodes⟩, _, -, _, -, rfl⟩ := read
    intro node member
    obtain ⟨item, one⟩ := Json.exists_of_list? readNodes member
    exact Node.fits_of_ofJson? one
  · contradiction

theorem ofJson?_toJson {tree : Tree} (fits : ∀ node ∈ tree.nodes, node.Fits)
    (back : ∀ x ∈ tree.floats, x.ReadsBack) (revision : Nat) :
    ofJson? revision tree.toJson = some { tree with revision } := by
  have fields : tree.toJson.fields? ["name", "nodes", "links", "metadata"] =
      some [some (.ofString tree.name), some (.array (tree.nodes.map Node.toJson)),
        some (.array (tree.links.map Link.toJson)), some tree.metadata.toJson] := rfl
  simp only [floats, List.forall_mem_flatMap] at back
  have nodes := Json.list?_map fun node member =>
    Node.ofJson?_toJson (fits node member) (back node member)
  have links := Json.list?_map fun link (_ : link ∈ tree.links) => link.ofJson?_toJson
  have metadata := tree.metadata.ofJson?_toJson
  simp [ofJson?, fields, Json.ofString, Json.text?, nodes, links, metadata]

end Tree

namespace Document

def floats (document : Document) : List Binary64 :=
  document.trees.flatMap Tree.floats

def withRevisions (document : Document) (revision : Nat) : Document :=
  ⟨document.trees.zipIdx.map fun (tree, i) => { tree with revision := revision + i }⟩

theorem wellFormed_toJson (document : Document) : document.toJson.WellFormed := by
  have trees : (Json.array (document.trees.map Tree.toJson)).WellFormed :=
    .array (List.forall_mem_map.mpr fun tree _ => tree.wellFormed_toJson)
  refine .object ?_
  simp [trees]

theorem fits_of_ofJson? {revision : Nat} {json : Json} {document : Document}
    (read : ofJson? revision json = some document) :
    ∀ tree ∈ document.trees, ∀ node ∈ tree.nodes, node.Fits := by
  simp only [ofJson?, Option.bind_eq_bind, Option.bind_eq_some_iff] at read
  obtain ⟨fields, -, read⟩ := read
  split at read
  · split at read
    · simp only [Option.bind_eq_some_iff, Option.pure_def, Option.some.injEq] at read
      obtain ⟨trees, readTrees, rfl⟩ := read
      intro tree member
      obtain ⟨item, -, one⟩ := exists_of_mapM readTrees member
      exact Tree.fits_of_ofJson? one
    · contradiction
  · contradiction

theorem ofJson?_toJson {document : Document}
    (fits : ∀ tree ∈ document.trees, ∀ node ∈ tree.nodes, node.Fits)
    (back : ∀ x ∈ document.floats, x.ReadsBack) (revision : Nat) :
    ofJson? revision document.toJson = some (document.withRevisions revision) := by
  have fields : document.toJson.fields? ["trees"] =
      some [some (.array (document.trees.map Tree.toJson))] := rfl
  simp only [floats, List.forall_mem_flatMap] at back
  simp only [ofJson?, fields, Option.bind_eq_bind, Option.bind_some, Option.bind_eq_some_iff]
  refine ⟨(document.withRevisions revision).trees, ?_, rfl⟩
  rw [mapM_eq_some_iff, List.zipIdx_map, List.forall₂_map_left_iff]
  refine List.forall₂_map_right_iff.mpr (List.forall₂_same.mpr fun item member => ?_)
  have inside : item.1 ∈ document.trees := List.fst_mem_of_mem_zipIdx member
  exact Tree.ofJson?_toJson (fits item.1 inside) (back item.1 inside) (revision + item.2)

/-- A document whose values fit is read back from its text, wherever it comes from. -/
theorem parse?_text_of_fits {document : Document}
    (fits : ∀ tree ∈ document.trees, ∀ node ∈ tree.nodes, node.Fits)
    (back : ∀ x ∈ document.floats, x.ReadsBack) (revision : Nat) :
    parse? revision document.text = some (document.withRevisions revision) := by
  have stored : Json.parse? document.text = some document.toJson :=
    Json.parse?_pretty document.wellFormed_toJson
  rw [parse?, stored, Option.bind_some]
  exact ofJson?_toJson fits back revision

/-- A document that was read from a text is read back from the text in which it is stored, however
it was written before; only its revisions are new. -/
theorem parse?_text {revision : Nat} {text : String} {document : Document}
    (read : parse? revision text = some document) (back : ∀ x ∈ document.floats, x.ReadsBack)
    (again : Nat) : parse? again document.text = some (document.withRevisions again) := by
  -- The first text is forgotten here; all that stays of it is that its values fit.
  obtain ⟨json, -, read⟩ := Option.bind_eq_some_iff.mp read
  exact parse?_text_of_fits (fits_of_ofJson? read) back again

/-- A document with arrays for a tree and its metadata, an unknown field, an escaped letter, missing
fields, and properties that are not in order. -/
def looseText : String :=
  "\x7b\"trees\":[[\"t\",[\x7b\"kind\":\"k\",\"at\":0," ++
    "\"properties\":\x7b\"b\":\x7b\"List\":[\x7b\"None\":null\x7d,\x7b\"Float\":2\x7d]\x7d," ++
    "\"a\":\x7b\"String\":\"\\u0041\\n\"\x7d\x7d\x7d],[],[\"\",\"0\",\"1\"]]]\x7d"

def looseDocument : Document where
  trees := [{
    name := "t"
    nodes := [{
      identifier := ""
      kind := "k"
      label := none
      inputs := []
      outputs := []
      properties := .ofList [("a", .string "A\n"), ("b", .list [.none, .float (.ofNat 2)])]
      inInvalidNetwork := false }]
    links := []
    metadata := ⟨"", "0", "1"⟩
    revision := 1 }]

theorem parse?_text_looseText : parse? 1 looseText = some looseDocument ∧
    (∀ x ∈ looseDocument.floats, x.ReadsBack) ∧
    parse? 8 looseDocument.text = some (looseDocument.withRevisions 8) := by
  have read : parse? 1 looseText = some looseDocument := by decide +kernel
  have back : ∀ x ∈ looseDocument.floats, x.ReadsBack := by decide +kernel
  exact ⟨read, back, parse?_text read back 8⟩

end Document

end FrameGraph
