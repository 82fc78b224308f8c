import FrameGraph.Proofs.Networks
import FrameGraph.Proofs.ProcedureBody
import FrameGraph.Proofs.ReportedProblems

/-!
The flags of nodes along a session. Main statement: after a frame, exactly the nodes are flagged
that links join to what their tree is refused for, and nothing but flags has changed.
-/

namespace FrameGraph

namespace Tree

def unflagged (tree : Tree) : Tree :=
  tree.flagInvalid []

/-- Whether the nodes flagged are those joined to a node that the tree is refused for. -/
def FlagsExact (tree : Tree) (registry : Registry) (options : CompileOptions) : Prop :=
  ∀ node ∈ tree.nodes, node.inInvalidNetwork = true ↔
    ∃ error, tree.compile registry options = .error error ∧
      ∃ problem ∈ error.problems, ∃ named ∈ problem.nodes, tree.Joined named node.identifier

variable {tree : Tree} {registry : Registry} {options : CompileOptions} {invalid : List String}

theorem unflagged_flagInvalid : (tree.flagInvalid invalid).unflagged = tree.unflagged :=
  tree.flagInvalid_flagInvalid invalid []

theorem same_of_unflagged {changed : Tree} (same : changed.unflagged = tree.unflagged) :
    changed.name = tree.name ∧ changed.revision = tree.revision := by
  have name : changed.unflagged.name = tree.unflagged.name := congrArg Tree.name same
  have revision : changed.unflagged.revision = tree.unflagged.revision :=
    congrArg Tree.revision same
  exact ⟨name, revision⟩

theorem joined_flagInvalid {source target : String} :
    (tree.flagInvalid invalid).Joined source target ↔ tree.Joined source target := by
  have identifiers : (tree.flagInvalid invalid).identifiers = tree.identifiers := by
    simp [identifiers, nodes_flagInvalid, Function.comp_def, Node.flagInvalid]
  have feeds : (tree.flagInvalid invalid).Feeds = tree.Feeds := by
    funext source target
    rw [Feeds, identifiers]
    rfl
  rw [Joined, identifiers, feeds, Joined]

theorem compile_eq_error_iff {error : CompileError} :
    tree.compile registry options = .error error ↔
      if tree.problems registry = [] then
        ∃ nodes, tree.evaluationOrder = .error nodes ∧ .cycle nodes = error
      else .invalidNetwork tree.name (tree.problems registry) = error := by
  by_cases sound : tree.problems registry = []
  · have wellFormed := problems_eq_nil_iff_wellFormed.mp sound
    rw [if_pos sound]
    cases ordered : tree.evaluationOrder with
    | error nodes => simp [wellFormed.compile_eq_of_cycle ordered]
    | ok order =>
        obtain ⟨compiled, done⟩ : ∃ compiled, tree.compile registry options = .ok compiled :=
          wellFormed.exists_compile ordered
        simp [done]
  · simp [compile, sound]

theorem compile_flagInvalid_eq_error_iff {error : CompileError} :
    (tree.flagInvalid invalid).compile registry options = .error error ↔
      tree.compile registry options = .error error := by
  simp only [compile_eq_error_iff, problems_flagInvalid, evaluationOrder_flagInvalid]
  rfl

theorem mem_invalidNodes_iff {problems : List Problem} {identifier : String} :
    identifier ∈ tree.invalidNodes problems ↔
      ∃ problem ∈ problems, ∃ named ∈ problem.nodes, tree.Joined named identifier := by
  simp only [invalidNodes, mem_networkMembers_iff, List.mem_flatMap]
  constructor
  · rintro ⟨named, ⟨problem, reported, about⟩, joined⟩
    exact ⟨problem, reported, named, about, joined⟩
  · rintro ⟨problem, reported, named, about, joined⟩
    exact ⟨named, ⟨problem, reported, about⟩, joined⟩

end Tree

namespace Runner

variable {runner middle : Runner} {tree changed : Tree}

theorem flagsExact_judge (runner : Runner) (tree : Tree) :
    (tree.flagInvalid (runner.judge tree).2.2).FlagsExact runner.registry runner.options := by
  intro node member
  obtain ⟨node, inside, rfl⟩ := List.mem_map.mp member
  simp only [Tree.compile_flagInvalid_eq_error_iff, Tree.joined_flagInvalid]
  unfold judge
  cases refused : tree.compile runner.registry runner.options with
  | ok compiled => simp
  | error error => simp [← Tree.mem_invalidNodes_iff]

/-- Preparing a tree changes nothing of it but its flags, and leaves them exact if they were where
the cache was current. -/
theorem prepare_settles (exact : runner.isCurrent tree →
      tree.FlagsExact runner.registry runner.options) :
    ∃ compiled middle changed state, runner.prepare tree = (compiled, middle, changed) ∧
      changed.unflagged = tree.unflagged ∧
      changed.FlagsExact runner.registry runner.options ∧ runner.Settles tree state middle := by
  rw [prepare_eq]
  by_cases isCurrent : runner.isCurrent tree
  · obtain ⟨state, present⟩ := isCurrent_iff.mp isCurrent
    exact ⟨false, runner, tree, state, if_pos isCurrent, rfl, exact isCurrent,
      settles_self present⟩
  · exact ⟨true, runner.recompiled tree, _, _, if_neg isCurrent, Tree.unflagged_flagInvalid,
      runner.flagsExact_judge tree, runner.settles_recompiled tree⟩

theorem Settles.execute {σ : Type} {state : CacheState} (settles : runner.Settles tree state middle)
    (name : changed.name = tree.name) (host : Host σ) (before : σ) (report : FrameReport) :
    ∃ next after ended last, middle.execute host changed before report = (next, after, ended) ∧
      runner.Settles tree last next := by
  have present : middle.entry? tree.name = some ⟨tree.revision, state⟩ := by
    rw [settles.entry, if_pos rfl]
  unfold Runner.execute
  rw [name, present]
  cases state with
  | failed => exact ⟨_, _, _, _, rfl, settles⟩
  | ready procedure =>
      simp only
      cases host procedure before with
      | mk error after =>
          cases error with
          | none => exact ⟨_, _, _, _, rfl, settles⟩
          | some error => exact ⟨_, _, _, _, rfl, settles.fail _⟩

/-- A runner on trees with revisions of their own below the limit, with exact flags where its cache
is current. -/
structure KeepsFlags (registry : Registry) (options : CompileOptions) (runner : Runner)
    (limit : Nat) (trees : List Tree) : Prop where
  settings : runner.registry = registry ∧ runner.options = options
  distinct : (trees.map (·.revision)).Nodup
  below : ∀ tree ∈ trees, tree.revision < limit
  stored : ∀ name entry, runner.entry? name = some entry → entry.revision < limit
  exact : ∀ tree ∈ trees, ∀ state, runner.entry? tree.name = some ⟨tree.revision, state⟩ →
    tree.FlagsExact registry options

namespace KeepsFlags

variable {registry : Registry} {options : CompileOptions} {next : Runner} {limit : Nat}
  {trees others : List Tree}

theorem subperm (keeps : KeepsFlags registry options runner limit trees)
    (fewer : others.Subperm trees) : KeepsFlags registry options runner limit others :=
  have ⟨_, same, inside⟩ := fewer
  { keeps with
    distinct := (same.map (·.revision)).nodup_iff.mp (keeps.distinct.sublist (inside.map _))
    below := fun tree member => keeps.below tree (fewer.subset member)
    exact := fun tree member => keeps.exact tree (fewer.subset member) }

theorem mono (keeps : KeepsFlags registry options runner limit trees) :
    KeepsFlags registry options runner (limit + 1) trees :=
  { keeps with
    below := fun tree member => Nat.lt_succ_of_lt (keeps.below tree member)
    stored := fun name entry found => Nat.lt_succ_of_lt (keeps.stored name entry found) }

theorem cons (keeps : KeepsFlags registry options runner limit trees)
    (fresh : tree.revision = limit) :
    KeepsFlags registry options runner (limit + 1) (tree :: trees) := by
  refine { keeps.mono with distinct := ?_, below := ?_, exact := ?_ }
  · exact nodup_revisions_cons keeps.distinct fun other inside => fresh ▸ keeps.below other inside
  · rw [List.forall_mem_cons]
    exact ⟨by omega, keeps.mono.below⟩
  · rw [List.forall_mem_cons]
    refine ⟨fun state found => ?_, keeps.exact⟩
    have old := keeps.stored _ _ found
    simp only at old
    omega

theorem update {state : CacheState}
    (keeps : KeepsFlags registry options runner limit (tree :: others))
    (settles : runner.Settles tree state next) (same : changed.unflagged = tree.unflagged)
    (exact : changed.FlagsExact registry options) :
    KeepsFlags registry options next limit (changed :: others) := by
  obtain ⟨name, revision⟩ := Tree.same_of_unflagged same
  have revisions : (changed :: others).map (·.revision) = (tree :: others).map (·.revision) := by
    simp [revision]
  refine ⟨⟨settles.registry.trans keeps.settings.1, settles.options.trans keeps.settings.2⟩,
    revisions ▸ keeps.distinct, ?_, ?_, ?_⟩
  · rw [List.forall_mem_cons, revision]
    exact List.forall_mem_cons.mp keeps.below
  · intro name entry found
    rw [settles.entry] at found
    split at found
    · obtain rfl := Option.some.inj found
      exact keeps.below tree List.mem_cons_self
    · exact keeps.stored name entry found
  · rw [List.forall_mem_cons]
    refine ⟨fun _ _ => exact, fun other member found present => ?_⟩
    rw [settles.entry] at present
    split at present
    · have equal : tree.revision = other.revision := by
        simpa using congrArg (Option.map CacheEntry.revision) present
      exact absurd equal.symm (revision_ne_of_nodup keeps.distinct member)
    · exact keeps.exact other (List.mem_cons_of_mem _ member) found present

theorem runTree {σ : Type} (keeps : KeepsFlags registry options runner limit (tree :: others))
    (host : Host σ) (before : σ) (report : FrameReport) :
    ∃ changed next after ended,
      runner.runTree host tree before report = (changed, next, after, ended) ∧
      changed.unflagged = tree.unflagged ∧ changed.FlagsExact registry options ∧
      KeepsFlags registry options next limit (changed :: others) := by
  obtain ⟨rfl, rfl⟩ := keeps.settings
  have current : runner.isCurrent tree → tree.FlagsExact runner.registry runner.options := by
    intro isCurrent
    obtain ⟨state, present⟩ := isCurrent_iff.mp isCurrent
    exact keeps.exact tree List.mem_cons_self state present
  obtain ⟨compiled, middle, changed, state, prepared, same, exact, settles⟩ :=
    prepare_settles current
  obtain ⟨next, after, ended, last, executed, settled⟩ :=
    settles.execute (Tree.same_of_unflagged same).1 host before
      (if compiled then { report with compiled := report.compiled ++ [changed.name] } else report)
  refine ⟨changed, next, after, ended, ?_, same, exact, keeps.update settled same exact⟩
  simp only [Runner.runTree, prepared, executed]

theorem runTrees {σ : Type} (keeps : KeepsFlags registry options runner limit (trees ++ others))
    (host : Host σ) (before : σ) (report : FrameReport) :
    ∃ next after ended flagged,
      runner.runTrees host before report trees = (next, after, ended, flagged) ∧
      flagged.map (·.unflagged) = trees.map (·.unflagged) ∧
      (∀ tree ∈ flagged, tree.FlagsExact registry options) ∧
      KeepsFlags registry options next limit (flagged ++ others) := by
  induction trees generalizing runner before report others with
  | nil =>
      exact ⟨runner, before, report, [], rfl, rfl, fun _ member => (nomatch member), keeps⟩
  | cons tree rest ih =>
      obtain ⟨changed, middle, between, noted, ran, same, exact, kept⟩ :=
        KeepsFlags.runTree keeps host before report
      obtain ⟨next, after, ended, flagged, ranRest, sameRest, exactRest, final⟩ :=
        ih (kept.subperm List.perm_middle.subperm) between noted
      refine ⟨next, after, ended, changed :: flagged, ?_, ?_, ?_, ?_⟩
      · rw [runTrees_cons, ran]
        simp only [ranRest]
      · rw [List.map_cons, List.map_cons, same, sameRest]
      · exact List.forall_mem_cons.mpr ⟨exact, exactRest⟩
      · exact final.subperm List.perm_middle.symm.subperm

theorem drop (keeps : KeepsFlags registry options runner limit trees)
    (sameRegistry : next.registry = runner.registry) (sameOptions : next.options = runner.options)
    (entry : ∀ name entry, next.entry? name = some entry → runner.entry? name = some entry) :
    KeepsFlags registry options next limit trees where
  settings := ⟨sameRegistry.trans keeps.settings.1, sameOptions.trans keeps.settings.2⟩
  distinct := keeps.distinct
  below := keeps.below
  stored name found present := keeps.stored name found (entry name found present)
  exact tree member state present := keeps.exact tree member state (entry _ _ present)

theorem retain (keeps : KeepsFlags registry options runner limit trees) (document : Document) :
    KeepsFlags registry options (runner.retain document) limit trees :=
  keeps.drop rfl rfl fun _ _ => entry?_of_retain

theorem retryTree (keeps : KeepsFlags registry options runner limit trees) (name : String) :
    KeepsFlags registry options (runner.retryTree name) limit trees :=
  keeps.drop rfl rfl fun _ _ => entry?_of_retryTree

theorem retry (keeps : KeepsFlags registry options runner limit trees) :
    KeepsFlags registry options runner.retry limit trees :=
  keeps.drop runner.settings_retry.1 runner.settings_retry.2 fun _ _ => entry?_of_retry

theorem moved (keeps : KeepsFlags registry options runner limit trees) {later : Nat}
    (moved : TreesMoved limit trees later others) :
    KeepsFlags registry options runner later others := by
  cases moved with
  | same same => exact keeps.subperm same.subperm
  | counted same => exact (keeps.subperm same.subperm).mono
  | stamped fresh kept same => exact ((keeps.subperm kept).cons fresh).subperm same.subperm

end KeepsFlags

end Runner

namespace Session

variable {σ : Type} {registry : Registry} {options : CompileOptions} {session : Session Runner σ}

/-- The trees of the session have exact flags where the cache is current. -/
def KeepsFlags (registry : Registry) (options : CompileOptions) (session : Session Runner σ) :
    Prop :=
  session.runner.KeepsFlags registry options session.revision session.trees

theorem keepsFlags_start (registry : Registry) (options : CompileOptions) (host : σ) :
    KeepsFlags registry options (start (.new registry options) host) where
  settings := ⟨rfl, rfl⟩
  distinct := .nil
  below _ member := nomatch member
  stored _ _ found := nomatch found
  exact _ member := nomatch member

theorem KeepsFlags.moved {next : Session Runner σ} (keeps : session.KeepsFlags registry options)
    (moved : session.Moved next) : next.KeepsFlags registry options := by
  rw [KeepsFlags, moved.runner]
  exact Runner.KeepsFlags.moved keeps moved.trees

theorem KeepsFlags.runFrame (keeps : session.KeepsFlags registry options) (host : Host σ) :
    let next := session.runFrame (.caching _) host
    next.KeepsFlags registry options ∧
      (∀ tree ∈ next.document.trees, tree.FlagsExact registry options) ∧
      next.document.trees.map (·.unflagged) = session.document.trees.map (·.unflagged) := by
  obtain ⟨next, ⟨after, procedures⟩, ended, flagged, ran, same, exact, final⟩ :=
    Runner.KeepsFlags.runTrees keeps host.noting (session.host, []) .empty
  simp only [Session.runFrame, FrameDriver.caching, Runner.runFrame, ran]
  exact ⟨final.retain ⟨flagged⟩, exact, same⟩

theorem KeepsFlags.step (keeps : session.KeepsFlags registry options) (action : SessionAction σ) :
    (session.step (.caching _) action).KeepsFlags registry options := by
  cases action with
  | edit kinds tree edit => exact keeps.moved (session.moved_edit kinds tree edit)
  | makeTree tree => exact keeps.moved (session.moved_makeTree tree)
  | addTree position => exact keeps.moved (session.moved_addTree position)
  | removeTree name => exact keeps.moved (session.moved_removeTree name)
  | frame host => exact (keeps.runFrame host).1
  | retry => exact Runner.KeepsFlags.retry keeps
  | retryTree name => exact Runner.KeepsFlags.retryTree keeps name

theorem KeepsFlags.run (keeps : session.KeepsFlags registry options)
    (actions : List (SessionAction σ)) :
    (session.run (.caching _) actions).KeepsFlags registry options := by
  induction actions generalizing session with
  | nil => exact keeps
  | cons action rest ih => exact ih (keeps.step action)

/-- After a frame of any session, a node is flagged exactly if its tree, as it now is, does not
compile and links join the node to one that a problem names; also where the frame found the tree in
its cache. But for flags the document is the one that the frame was given. -/
theorem flags_after_frame (registry : Registry) (options : CompileOptions) (host : σ)
    (actions : List (SessionAction σ)) (frameHost : Host σ) :
    let before := (start (Runner.new registry options) host).run (.caching _) actions
    let after := before.step (.caching _) (.frame frameHost)
    (∀ tree ∈ after.document.trees, ∀ node ∈ tree.nodes, node.inInvalidNetwork = true ↔
      ∃ error, tree.compile registry options = .error error ∧
        ∃ problem ∈ error.problems, ∃ named ∈ problem.nodes,
          tree.Joined named node.identifier) ∧
      after.document.trees.map (·.unflagged) = before.document.trees.map (·.unflagged) :=
  (((keepsFlags_start registry options host).run actions).runFrame frameHost).2

/-- A node of an unknown kind is in the network of a sum and apart from another node. The flags that
it leads to last through a frame from the cache and go with the node. -/
example :
    let idle : Host Unit := fun _ state => (none, state)
    let unknown := (Node.ofKind "x" "gone").addOutput (.ofType .integer "Value" "value")
    let mixed : Tree :=
      { Tree.sumOfSource with
        nodes := Tree.sumOfSource.nodes ++ [unknown, Node.ofKind "u" "source"]
        links := ⟨"x", "value", "t", "offset"⟩ :: Tree.sumOfSource.links }
    let flagged (session : Session Runner Unit) : List (List String) :=
      session.document.trees.map fun tree =>
        (tree.nodes.filter (·.inInvalidNetwork)).map (·.identifier)
    let broken := (start (Runner.new .sourceAndSum .default) ()).run (.caching _)
      [.makeTree mixed, .addTree 0, .frame idle, .frame idle]
    let mended := broken.run (.caching _)
      [.edit .sourceAndSum "sum" (.removeNode "x"), .frame idle]
    flagged broken = [["t", "s", "x"]] ∧ flagged mended = [[]] := by
  decide +kernel

end Session

end FrameGraph
