import FrameGraph.Proofs.AbsorbedLinks

/-!
Edits that change a tree where it stands, one statement after the other, and are refused in between.
Main statement: an edit is refused before it has changed anything, so whatever tree it is made in,
it either comes to its end or leaves everything as it was.
-/

namespace FrameGraph

/-- The tree that is edited, and the hooks that have been called. -/
structure EditState where
  tree : Tree
  calls : List (String × HookCall)

/-- A part of an edit. What it has done stays done when it is refused. -/
abbrev InPlace := ExceptT EditError (StateM EditState)

namespace InPlace

variable {α β : Type}

/-- What comes of a part of an edit, and the state that it leaves, be it refused or not. -/
def outcome (part : InPlace α) (state : EditState) : Except EditError α × EditState :=
  part.run.run state

def tree : InPlace Tree := do
  return (← get).tree

def modifyTree (change : Tree → Tree) : InPlace Unit :=
  modify fun state => { state with tree := change state.tree }

def require (found : Except EditError α) : InPlace α :=
  ExceptT.mk (pure found)

def check (test : Bool) (error : EditError) : InPlace Unit :=
  require (if test then .ok () else .error error)

def hooks (registry : Registry) (kind : String) (call : HookCall) : List (String × HookCall) :=
  if (registry.kind? kind).isSome then [(kind, call)] else []

def callHook (registry : Registry) (kind : String) (call : HookCall) : InPlace Unit :=
  modify fun state => { state with calls := state.calls ++ hooks registry kind call }

variable {state : EditState}

@[simp] theorem outcome_pure (a : α) : outcome (pure a) state = (.ok a, state) := rfl

theorem outcome_bind (part : InPlace α) (next : α → InPlace β) :
    outcome (part >>= next) state =
      match outcome part state with
      | (.ok a, after) => outcome (next a) after
      | (.error error, after) => (.error error, after) := by
  simp only [outcome, ExceptT.run_bind, StateT.run_bind]
  rcases (part.run.run state : Except EditError α × EditState) with ⟨a | a, after⟩ <;> rfl

@[simp] theorem outcome_map (f : α → β) (part : InPlace α) :
    outcome (f <$> part) state = ((outcome part state).1.map f, (outcome part state).2) := by
  rw [← bind_pure_comp, outcome_bind]
  rcases outcome part state with ⟨a | a, after⟩ <;> rfl

@[simp] theorem outcome_tree : outcome tree state = (.ok state.tree, state) := rfl

@[simp] theorem outcome_modifyTree (change : Tree → Tree) :
    outcome (modifyTree change) state = (.ok (), { state with tree := change state.tree }) := rfl

@[simp] theorem outcome_require (found : Except EditError α) :
    outcome (require found) state = (found, state) := rfl

/-- A change is not undone by a refusal that comes after it. -/
example (change : Tree → Tree) (error : EditError) :
    outcome (do modifyTree change; (require (.error error) : InPlace Unit)) state =
      (.error error, { state with tree := change state.tree }) := rfl

@[simp] theorem outcome_check (test : Bool) (error : EditError) :
    outcome (check test error) state = (if test then .ok () else .error error, state) := rfl

@[simp] theorem outcome_callHook (registry : Registry) (kind : String) (call : HookCall) :
    outcome (callHook registry kind call) state =
      (.ok (), { state with calls := state.calls ++ hooks registry kind call }) := rfl

/-! The edits, statement by statement. -/

def requireNode (identifier : String) : InPlace Node := do
  require ((← tree).requireNode identifier)

@[simp] theorem outcome_requireNode (identifier : String) :
    outcome (requireNode identifier) state = (state.tree.requireNode identifier, state) := rfl

def requireSocket (target : Node) (side : Side) (socket : String) : InPlace Socket :=
  require (Tree.requireSocket target side socket)

@[simp] theorem outcome_requireSocket (target : Node) (side : Side) (socket : String) :
    outcome (requireSocket target side socket) state =
      (Tree.requireSocket target side socket, state) := rfl

def newNode (registry : Registry) (kind fresh : String) (stamp : Stamp) : InPlace String := do
  let k ← require (Tree.requireKind registry kind)
  callHook registry kind .create
  let node := k.create (Node.ofKind fresh kind)
  modifyTree (·.addNode node stamp)
  return node.identifier

def duplicateNode (registry : Registry) (source fresh : String) (stamp : Stamp) :
    InPlace String := do
  let node ← requireNode source
  let k ← require (Tree.requireKind registry node.kind)
  callHook registry node.kind (.duplicate source)
  let copy := k.duplicate { node with identifier := fresh, inInvalidNetwork := false } node
  modifyTree (·.addNode copy stamp)
  return copy.identifier

def removeNode (registry : Registry) (identifier : String) (stamp : Stamp) : InPlace Node := do
  let node ← requireNode identifier
  modifyTree fun tree =>
    { tree with nodes := tree.nodes.eraseP (·.identifier = identifier) }
  callHook registry node.kind (.delete identifier)
  modifyTree fun tree =>
    { tree with links := tree.links.filter fun link => !link.touches identifier }
  modifyTree (·.touch stamp)
  return node

def link (new : Link) (stamp : Stamp) : InPlace Unit := do
  let source ← requireNode new.fromNode
  check (source.hasOutput new.fromSocket) (.socketNotFound new.fromNode new.fromSocket)
  let target ← requireNode new.toNode
  check (target.hasInput new.toSocket) (.socketNotFound new.toNode new.toSocket)
  modifyTree fun tree =>
    { tree with
      links := tree.links.filter fun link => !Link.entersInput link new.toNode new.toSocket }
  modifyTree fun tree => { tree with links := tree.links ++ [new] }
  modifyTree (·.touch stamp)

def dropLinks (keep : Tree → Link → Bool) (stamp : Stamp) : InPlace Nat := do
  let before := (← tree).links.length
  modifyTree fun tree => { tree with links := tree.links.filter (keep tree) }
  let removed := before - (← tree).links.length
  if 0 < removed then
    modifyTree (·.touch stamp)
  return removed

def unlink (node socket : String) (stamp : Stamp) : InPlace Bool := do
  let removed ← dropLinks (fun _ link => !link.entersInput node socket) stamp
  return 0 < removed

def prune (stamp : Stamp) : InPlace Nat :=
  dropLinks (fun tree link => tree.hasSource link && tree.hasTarget link) stamp

def settle (stamp : Stamp) : InPlace Unit := do
  let _ ← prune stamp
  modifyTree (·.touch stamp)

def changeNode (registry : Registry) (node kind : String) (change : Node → Node) (call : HookCall)
    (hook : Node → Node) : InPlace Unit := do
  modifyTree (·.updateNode node change)
  callHook registry kind call
  modifyTree (·.updateNode node hook)

def setProperty (registry : Registry) (node property : String) (value : Value) (stamp : Stamp) :
    InPlace Unit := do
  let kind := (← requireNode node).kind
  let k ← require (Tree.requireKind registry kind)
  let _ ← requireNode node
  changeNode registry node kind (·.setProperty property value) (.propertyChanged node property)
    (k.propertyChanged · property)
  settle stamp

def editNode (registry : Registry) (node : String) (stamp : Stamp) : InPlace Unit := do
  let kind := (← requireNode node).kind
  let k ← require (Tree.requireKind registry kind)
  if ((← tree).node? node).isSome then
    changeNode registry node kind id (.edit node) k.edit
  settle stamp

def removeSocket (registry : Registry) (node socket : String) (side : Side) (stamp : Stamp) :
    InPlace Socket := do
  let kind := (← requireNode node).kind
  let k ← require (Tree.requireKind registry kind)
  let target ← requireNode node
  let removed ← requireSocket target side socket
  changeNode registry node kind
    (fun n => n.setSockets side ((n.sockets side).eraseP (·.identifier = socket)))
    (.socketChanged node) k.socketChanged
  settle stamp
  return removed

def moveSocket (registry : Registry) (node socket : String) (side : Side) (index : Nat)
    (stamp : Stamp) : InPlace Unit := do
  let kind := (← requireNode node).kind
  let k ← require (Tree.requireKind registry kind)
  let target ← requireNode node
  let moved ← requireSocket target side socket
  modifyTree (·.updateNode node fun n =>
    n.setSockets side ((n.sockets side).eraseP (·.identifier = socket)))
  let place (sockets : List Socket) := sockets.take index ++ moved :: sockets.drop index
  changeNode registry node kind (fun n => n.setSockets side (place (n.sockets side)))
    (.socketChanged node) k.socketChanged
  modifyTree (·.touch stamp)

def absorbEach (node : String) (stamp : Stamp) : List (String × String) → InPlace Nat
  | [] => return 0
  | (toNode, toSocket) :: rest => do
    match Catalog.GroupInput.typedInput? (← tree) toNode toSocket with
    | none =>
      let _ ← unlink toNode toSocket stamp
      absorbEach node stamp rest
    | some target =>
      let group ← requireNode node
      let parameter := Catalog.GroupInput.nextParameter group
      modifyTree (·.updateNode node
        (Catalog.GroupInput.addParameter · target.type target.name target.value))
      link ⟨node, parameter, toNode, toSocket⟩ stamp
      let count ← absorbEach node stamp rest
      return count + 1

def absorb (node : String) (stamp : Stamp) : InPlace Nat := do
  let _ ← requireNode node
  let targets := Catalog.GroupInput.absorbTargets (← tree) node
  absorbEach node stamp targets

/-! What the edits leave. -/

/-- An edit that is not refused gives its result, leaves its tree and has called hooks; one that is
refused leaves everything as it was. -/
def conclusion (state : EditState) (calls : List (String × HookCall)) :
    Except EditError (α × Tree) → Except EditError α × EditState
  | .ok (a, changed) => (.ok a, ⟨changed, state.calls ++ calls⟩)
  | .error error => (.error error, state)

@[simp] theorem conclusion_pure (calls : List (String × HookCall)) (a : α) (changed : Tree) :
    conclusion state calls (pure (a, changed)) = (.ok a, ⟨changed, state.calls ++ calls⟩) := rfl

/-- What comes before the first change may refuse the edit. -/
theorem outcome_bind_eq_conclusion {part : InPlace α} {found : Except EditError α}
    {next : α → InPlace β} {rest : α → Except EditError (β × Tree)}
    {calls : List (String × HookCall)} (unchanged : outcome part state = (found, state))
    (concludes : ∀ a, found = .ok a → outcome (next a) state = conclusion state calls (rest a)) :
    outcome (part >>= next) state = conclusion state calls (found >>= rest) := by
  rw [outcome_bind, unchanged]
  cases found with
  | error error => rfl
  | ok a => exact concludes a rfl

theorem outcome_registered {registry : Registry} {node : String} {next : Node → Kind → InPlace β}
    {rest : Node → Kind → Except EditError (β × Tree)} {calls : List (String × HookCall)}
    (concludes : ∀ target kind, state.tree.node? node = some target →
      outcome (next target kind) state = conclusion state calls (rest target kind)) :
    outcome (do
      let target ← requireNode node
      let kind ← require (Tree.requireKind registry target.kind)
      next target kind) state =
    conclusion state calls (do
      let target ← state.tree.requireNode node
      let kind ← Tree.requireKind registry target.kind
      rest target kind) :=
  outcome_bind_eq_conclusion (outcome_requireNode node) fun target found =>
    outcome_bind_eq_conclusion (outcome_require _) fun kind _ =>
      concludes target kind (Tree.requireNode_eq_ok.mp found)

theorem filter_eq_self_of_sub_eq_zero {keep : α → Bool} {items : List α}
    (none : items.length - (items.filter keep).length = 0) : items.filter keep = items := by
  have fewer := List.length_filter_le keep items
  exact List.filter_eq_self.mpr (List.length_filter_eq_length_iff.mp (by omega))

theorem outcome_dropLinks (keep : Tree → Link → Bool) (stamp : Stamp) :
    outcome (dropLinks keep stamp) state =
      let links := state.tree.links.filter (keep state.tree)
      let removed := state.tree.links.length - links.length
      (.ok removed, { state with
        tree := if removed = 0 then state.tree else { state.tree with links }.touch stamp }) := by
  by_cases none : state.tree.links.length - (state.tree.links.filter (keep state.tree)).length = 0
  · have all := filter_eq_self_of_sub_eq_zero none
    simp only [dropLinks, outcome_bind, outcome_tree, outcome_modifyTree, all, Nat.sub_self,
      lt_irrefl, if_false, if_true, outcome_pure]
  · simp only [dropLinks, outcome_bind, outcome_tree, outcome_modifyTree, none,
      Nat.pos_of_ne_zero none, if_false, if_true, outcome_pure]

theorem outcome_prune (stamp : Stamp) :
    outcome (prune stamp) state =
      (.ok (state.tree.prune stamp).1, { state with tree := (state.tree.prune stamp).2 }) := by
  rw [prune, outcome_dropLinks]
  rfl

theorem outcome_unlink (node socket : String) (stamp : Stamp) :
    outcome (unlink node socket stamp) state =
      (.ok (state.tree.unlink node socket stamp).1,
        { state with tree := (state.tree.unlink node socket stamp).2 }) := by
  have dropped : 0 < state.tree.links.length -
      (state.tree.links.filter fun link => !link.entersInput node socket).length ↔
        state.tree.isInputLinked node socket = true := by
    rw [Nat.sub_pos_iff_lt, List.length_filter_lt_length_iff_exists]
    simp [Tree.isInputLinked]
  rw [unlink, outcome_bind, outcome_dropLinks]
  by_cases linked : state.tree.isInputLinked node socket = true
  · have removed := dropped.mpr linked
    simp only [outcome_pure, Tree.unlink, if_pos linked, removed, Nat.pos_iff_ne_zero.mp removed,
      if_false, decide_true]
  · have removed := mt dropped.mp linked
    simp only [outcome_pure, Tree.unlink, if_neg linked, Nat.eq_zero_of_not_pos removed, if_true,
      lt_irrefl, decide_false]

theorem outcome_link (new : Link) (stamp : Stamp) :
    outcome (link new stamp) state =
      conclusion state [] ((state.tree.link new stamp).map fun changed => ((), changed)) := by
  simp only [link, outcome_bind, outcome_requireNode, outcome_check, outcome_modifyTree, Tree.link]
  cases state.tree.requireNode new.fromNode with
  | error error => rfl
  | ok source =>
      cases output : source.hasOutput new.fromSocket with
      | false => simp [output, bind, Except.bind, Except.map, conclusion]
      | true =>
          cases entered : state.tree.requireNode new.toNode with
          | error error => simp [output, entered, bind, Except.bind, Except.map, conclusion]
          | ok target =>
              cases input : target.hasInput new.toSocket <;>
                simp [output, entered, input, bind, Except.bind, pure, Except.pure, Except.map,
                  conclusion, Tree.relink]

theorem outcome_changeNode {change : Node → Node}
    (keeps : ∀ n, (change n).identifier = n.identifier) (registry : Registry) (node kind : String)
    (call : HookCall) (hook : Node → Node) :
    outcome (changeNode registry node kind change call hook) state =
      (.ok (), ⟨state.tree.updateNode node fun n => hook (change n),
        state.calls ++ hooks registry kind call⟩) := by
  simp only [changeNode, outcome_bind, outcome_modifyTree, outcome_callHook]
  rw [Tree.updateNode_updateNode fun n same => (keeps n).trans same]

theorem outcome_settle (stamp : Stamp) :
    outcome (settle stamp) state = (.ok (), { state with tree := state.tree.settle stamp }) := by
  simp only [settle, outcome_bind, outcome_prune, outcome_modifyTree, Tree.prune]
  split
  · rename_i none
    have all : state.tree.soundLinks = state.tree.links := filter_eq_self_of_sub_eq_zero none
    rw [Tree.settle, all]
  · rfl

open Catalog.GroupInput in
theorem outcome_absorbEach {tree : Tree} {node : String} {group : Node}
    (found : tree.node? node = some group) (stamp : Stamp) (targets : List (String × String))
    (calls : List (String × HookCall)) :
    ∃ count changed, absorbInto node stamp targets tree = .ok (count, changed) ∧
      outcome (absorbEach node stamp targets) ⟨tree, calls⟩ = (.ok count, ⟨changed, calls⟩) := by
  induction targets generalizing tree group with
  | nil => exact ⟨0, tree, rfl, rfl⟩
  | cons target rest ih =>
      cases typed : typedInput? tree target.1 target.2 with
      | none =>
          have still : (tree.unlink target.1 target.2 stamp).2.node? node = some group := by
            rw [Tree.node?, Tree.nodes_unlink]
            exact found
          obtain ⟨count, changed, into, inPlace⟩ := ih still
          refine ⟨count, changed, ?_, ?_⟩
          · rw [absorbInto, typed]
            exact into
          · simp only [absorbEach, outcome_bind, outcome_tree, typed, outcome_unlink, inPlace]
      | some input =>
          -- The node has a parameter more before the link is made, so a link that were refused
          -- would leave a trace; `link_addParameter` says that it is not.
          obtain ⟨-, rfl⟩ := Tree.mem_of_node? found
          obtain ⟨count, changed, into, inPlace⟩ :=
            ih (node?_linkParameter found target input stamp)
          refine ⟨count + 1, changed, ?_, ?_⟩
          · simp only [absorbInto, typed, Tree.requireNode, found, bind, Except.bind,
              link_addParameter found typed, into]
            rfl
          · simp only [absorbEach, outcome_bind, outcome_tree, typed, outcome_requireNode,
              Tree.requireNode, found, outcome_modifyTree, outcome_link,
              link_addParameter found typed, Except.map, conclusion, List.append_nil, inPlace,
              outcome_pure]

end InPlace

namespace Edit

open InPlace in
def perform (edit : Edit) (registry : Registry) (stamp : Stamp) : InPlace EditResult :=
  match edit with
  | newNode kind fresh => do
    return .identifier (← InPlace.newNode registry kind fresh stamp)
  | addNode node => do
    modifyTree (·.addNode node stamp)
    return .done
  | duplicateNode source fresh => do
    return .identifier (← InPlace.duplicateNode registry source fresh stamp)
  | removeNode node => do
    return .node (← InPlace.removeNode registry node stamp)
  | link new => do
    InPlace.link new stamp
    return .done
  | unlink node socket => do
    return .flag (← InPlace.unlink node socket stamp)
  | prune => do
    return .count (← InPlace.prune stamp)
  | setProperty node property value => do
    InPlace.setProperty registry node property value stamp
    return .done
  | editNode node => do
    InPlace.editNode registry node stamp
    return .done
  | removeSocket node socket side => do
    return .socket (← InPlace.removeSocket registry node socket side stamp)
  | moveSocket node socket side index => do
    InPlace.moveSocket registry node socket side index stamp
    return .done
  | absorbParameters node => do
    return .count (← InPlace.absorb node stamp)

def hooksCalled (edit : Edit) (registry : Registry) (tree : Tree) : List (String × HookCall) :=
  (edit.hookCall? tree).elim [] fun called => InPlace.hooks registry called.1 called.2

open InPlace

/-- Whether the edit made in place comes to the conclusion of the edit as such. -/
def Concludes (edit : Edit) (registry : Registry) (stamp : Stamp) (state : EditState) : Prop :=
  outcome (edit.perform registry stamp) state =
    conclusion state (edit.hooksCalled registry state.tree) (edit.apply registry stamp state.tree)

variable {registry : Registry} {stamp : Stamp} {state : EditState}

theorem concludes_newNode (kind fresh : String) :
    (newNode kind fresh).Concludes registry stamp state := by
  simp only [Concludes, perform, apply, InPlace.newNode, Tree.newNode, bind_assoc, pure_bind]
  refine outcome_bind_eq_conclusion (outcome_require _) fun k registered => ?_
  simp [outcome_bind, Except.map, hooksCalled, hookCall?]

theorem concludes_addNode (node : Node) : (addNode node).Concludes registry stamp state := by
  simp [Concludes, perform, apply, conclusion, Except.map, hooksCalled, hookCall?]

theorem concludes_duplicateNode (source fresh : String) :
    (duplicateNode source fresh).Concludes registry stamp state := by
  simp only [Concludes, perform, apply, InPlace.duplicateNode, Tree.duplicateNode, bind_assoc,
    pure_bind]
  refine outcome_registered fun node k found => ?_
  simp [outcome_bind, Except.map, hooksCalled, hookCall?, found]

theorem concludes_removeNode (node : String) :
    (removeNode node).Concludes registry stamp state := by
  simp only [Concludes, perform, apply, InPlace.removeNode, Tree.removeNode, bind_assoc, pure_bind]
  refine outcome_bind_eq_conclusion (outcome_requireNode _) fun removed found => ?_
  simp [outcome_bind, Except.map, hooksCalled, hookCall?, Tree.requireNode_eq_ok.mp found]

theorem concludes_link (new : Link) : (link new).Concludes registry stamp state := by
  simp only [Concludes, perform, apply, outcome_bind, outcome_link]
  cases state.tree.link new stamp <;> rfl

theorem concludes_unlink (node socket : String) :
    (unlink node socket).Concludes registry stamp state := by
  simp [Concludes, perform, apply, outcome_unlink, conclusion, Except.map, hooksCalled, hookCall?]

theorem concludes_prune : prune.Concludes registry stamp state := by
  simp [Concludes, perform, apply, outcome_prune, conclusion, Except.map, hooksCalled, hookCall?]

theorem concludes_setProperty (node property : String) (value : Value) :
    (setProperty node property value).Concludes registry stamp state := by
  simp only [Concludes, perform, apply, InPlace.setProperty, Tree.setProperty, bind_assoc,
    pure_bind]
  refine outcome_registered fun target k found => ?_
  have keeps (n : Node) : (n.setProperty property value).identifier = n.identifier := rfl
  simp [outcome_bind, Tree.requireNode_eq_ok.mpr found, outcome_changeNode keeps, outcome_settle,
    Except.map, hooksCalled, hookCall?, found]

theorem concludes_editNode (node : String) : (editNode node).Concludes registry stamp state := by
  simp only [Concludes, perform, apply, InPlace.editNode, Tree.editNode, bind_assoc, pure_bind]
  refine outcome_registered fun target k found => ?_
  have keeps (n : Node) : (id n).identifier = n.identifier := rfl
  simp [outcome_bind, found, outcome_changeNode keeps, outcome_settle, Except.map, hooksCalled,
    hookCall?]

theorem concludes_removeSocket (node socket : String) (side : Side) :
    (removeSocket node socket side).Concludes registry stamp state := by
  simp only [Concludes, perform, apply, InPlace.removeSocket, Tree.removeSocket, bind_assoc,
    pure_bind]
  refine outcome_registered fun target k found => ?_
  rw [outcome_bind, outcome_requireNode, Tree.requireNode_eq_ok.mpr found]
  refine outcome_bind_eq_conclusion (outcome_requireSocket _ _ _) fun removed _ => ?_
  rw [outcome_bind, outcome_changeNode fun _ => Node.identifier_setSockets _ _ _]
  simp [outcome_settle, Except.map, hooksCalled, hookCall?, found]

theorem concludes_moveSocket (node socket : String) (side : Side) (index : Nat) :
    (moveSocket node socket side index).Concludes registry stamp state := by
  simp only [Concludes, perform, apply, InPlace.moveSocket, Tree.moveSocket, bind_assoc,
    pure_bind]
  refine outcome_registered fun target k found => ?_
  rw [outcome_bind, outcome_requireNode, Tree.requireNode_eq_ok.mpr found]
  refine outcome_bind_eq_conclusion (outcome_requireSocket _ _ _) fun moved _ => ?_
  simp only [outcome_bind, outcome_modifyTree]
  rw [outcome_changeNode fun _ => Node.identifier_setSockets _ _ _,
    Tree.updateNode_updateNode fun _ => (Node.identifier_setSockets _ _ _).trans]
  simp [hooksCalled, hookCall?, found]

theorem concludes_absorbParameters (node : String) :
    (absorbParameters node).Concludes registry stamp state := by
  simp only [Concludes, perform, apply, InPlace.absorb, Catalog.GroupInput.absorb,
    bind_assoc]
  refine outcome_bind_eq_conclusion (outcome_requireNode _) fun group found => ?_
  obtain ⟨count, changed, into, inPlace⟩ := outcome_absorbEach (Tree.requireNode_eq_ok.mp found)
    stamp (Catalog.GroupInput.absorbTargets state.tree node) state.calls
  rw [outcome_bind, outcome_tree, into]
  simp [inPlace, conclusion, Except.map, hooksCalled, hookCall?]

/-- An edit that is refused leaves the tree, be it intact or not, and has called no hook; one that
is not refused comes to the same as if it had been made at once. -/
theorem outcome_perform (edit : Edit) (registry : Registry) (stamp : Stamp) (state : EditState) :
    outcome (edit.perform registry stamp) state =
      match edit.apply registry stamp state.tree with
      | .error error => (.error error, state)
      | .ok (result, changed) =>
          (.ok result, ⟨changed, state.calls ++ edit.hooksCalled registry state.tree⟩) := by
  have concludes : edit.Concludes registry stamp state := by
    cases edit with
    | newNode kind fresh => exact concludes_newNode kind fresh
    | addNode node => exact concludes_addNode node
    | duplicateNode source fresh => exact concludes_duplicateNode source fresh
    | removeNode node => exact concludes_removeNode node
    | link new => exact concludes_link new
    | unlink node socket => exact concludes_unlink node socket
    | prune => exact concludes_prune
    | setProperty node property value => exact concludes_setProperty node property value
    | editNode node => exact concludes_editNode node
    | removeSocket node socket side => exact concludes_removeSocket node socket side
    | moveSocket node socket side index => exact concludes_moveSocket node socket side index
    | absorbParameters node => exact concludes_absorbParameters node
  refine concludes.trans ?_
  cases edit.apply registry stamp state.tree <;> rfl

end Edit

end FrameGraph
