import FrameGraph.Kind
import FrameGraph.Text.LowerCase

/-!
Registries of node kinds, in the order of their names. Main statement: what is found after a
registration; a later kind replaces an earlier one of the same name.
-/

namespace FrameGraph

namespace Declaration

def containsPart (part : List Char) : List Char → Bool
  | [] => part.isEmpty
  | c :: cs => part.isPrefixOf (c :: cs) || containsPart part cs

/-- Whether the lower case of the term stands in that of the label, where it is searched, or of a
tag. -/
def mentions (d : Declaration) (term : String) : Bool :=
  let hit (text : String) := containsPart (Text.lowerCase term).toList (Text.lowerCase text).toList
  (!d.onlySearchTags && hit d.label) || d.searchTags.any hit

def listing (d : Declaration) : String :=
  d.category ++ ": " ++ d.label ++ " (" ++ d.idName ++ ")"

end Declaration

structure Registry where
  kinds : Dictionary Kind

namespace Registry

def empty : Registry := ⟨.empty⟩

def register (registry : Registry) (kind : Kind) : Registry :=
  ⟨registry.kinds.insert kind.declaration.idName kind⟩

def ofKinds (kinds : List Kind) : Registry :=
  kinds.foldl register empty

def kind? (registry : Registry) (idName : String) : Option Kind :=
  registry.kinds.get? idName

def contains (registry : Registry) (idName : String) : Bool :=
  (registry.kind? idName).isSome

def size (registry : Registry) : Nat :=
  registry.kinds.size

def declarations (registry : Registry) : List Declaration :=
  registry.kinds.values.map (·.declaration)

def inCategory (registry : Registry) (category : String) : List Declaration :=
  registry.declarations.filter (·.category = category)

def categories (registry : Registry) : List String :=
  sortedNames (registry.declarations.map (·.category))

def search (registry : Registry) (term : String) : List Declaration :=
  registry.declarations.filter (·.mentions term)

theorem kind?_register (registry : Registry) (kind : Kind) (idName : String) :
    (registry.register kind).kind? idName =
      if idName = kind.declaration.idName then some kind else registry.kind? idName :=
  Dictionary.get?_insert registry.kinds _ kind idName

theorem kind?_foldl_register {kinds : List Kind} {registry : Registry} {idName : String}
    {kind : Kind} (found : (kinds.foldl register registry).kind? idName = some kind) :
    (kind ∈ kinds ∧ kind.declaration.idName = idName) ∨ registry.kind? idName = some kind := by
  induction kinds generalizing registry with
  | nil => exact .inr found
  | cons first rest ih =>
    rcases ih found with ⟨member, named⟩ | found
    · exact .inl ⟨List.mem_cons_of_mem _ member, named⟩
    · rw [kind?_register] at found
      split at found
      · rename_i named
        obtain rfl := Option.some.inj found
        exact .inl ⟨List.mem_cons_self, named.symm⟩
      · exact .inr found

theorem mem_of_kind?_ofKinds {kinds : List Kind} {idName : String} {kind : Kind}
    (found : (ofKinds kinds).kind? idName = some kind) :
    kind ∈ kinds ∧ kind.declaration.idName = idName := by
  rcases kind?_foldl_register found with given | found
  · exact given
  · cases found

end Registry

end FrameGraph
