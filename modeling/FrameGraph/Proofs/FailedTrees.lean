import FrameGraph.Proofs.ReportedProblems
import FrameGraph.Proofs.SessionEquivalence

/-!
Trees that failed in the host. Main statement: a tree that failed is passed over in every frame that
finds its name in the document only at the revision at which it failed, until it is retried; where
two trees share a name but not the revision, both are run again.
-/

namespace FrameGraph

namespace Runner

/-- Whether the procedures that are kept go by the names of their trees. -/
def Named (runner : Runner) : Prop :=
  ∀ name revision procedure,
    runner.entry? name = some ⟨revision, .ready procedure⟩ → procedure.tree = name

/-- What a frame may do with one tree, on a host that notes what it is handed: the tree is passed
over, or its procedure is handed to the host and runs or fails. A tree that is known to have failed
at its revision is passed over. -/
inductive Turn (runner : Runner) (tree : Tree) (report : FrameReport) (noted : List Procedure) :
    Runner → FrameReport → List Procedure → Prop
  | skipped {next : Runner} {compiled : List String} (settles : runner.Settles tree .failed next) :
      Turn runner tree report noted next
        { report with compiled, skipped := report.skipped ++ [tree.name] } noted
  | executed {next : Runner} {procedure : Procedure} {compiled : List String}
      (unfailed : runner.entry? tree.name ≠ some ⟨tree.revision, .failed⟩)
      (owner : procedure.tree = tree.name) (settles : runner.Settles tree (.ready procedure) next) :
      Turn runner tree report noted next
        { report with compiled, executed := report.executed ++ [tree.name] } (noted ++ [procedure])
  | failed {next : Runner} {procedure : Procedure} {compiled : List String}
      (unfailed : runner.entry? tree.name ≠ some ⟨tree.revision, .failed⟩)
      (owner : procedure.tree = tree.name) (settles : runner.Settles tree .failed next) :
      Turn runner tree report noted next
        { report with compiled, failed := report.failed ++ [tree.name] } (noted ++ [procedure])

/-- Whether what holds of the runner, the report and the handed procedures is kept by every turn of
the tree. -/
def KeptInTurn (holds : Runner → FrameReport → List Procedure → Prop) (tree : Tree) : Prop :=
  ∀ runner report noted next ended handed, holds runner report noted →
    Turn runner tree report noted next ended handed → holds next ended handed

section Turn

variable {runner next : Runner} {tree : Tree} {report ended : FrameReport}
  {noted handed : List Procedure}

theorem Settles.named (named : runner.Named) {state : CacheState}
    (settles : runner.Settles tree state next)
    (owner : ∀ procedure, state = .ready procedure → procedure.tree = tree.name) : next.Named := by
  intro name revision procedure present
  rw [settles.entry] at present
  split at present
  · rename_i same
    simp only [Option.some.injEq, CacheEntry.mk.injEq] at present
    exact same ▸ owner procedure present.2
  · exact named name revision procedure present

theorem Turn.named (turn : runner.Turn tree report noted next ended handed)
    (named : runner.Named) : next.Named := by
  cases turn with
  | skipped settles => exact settles.named named fun _ ready => by contradiction
  | executed _ owner settles =>
      exact settles.named named fun _ ready => CacheState.ready.inj ready ▸ owner
  | failed _ _ settles => exact settles.named named fun _ ready => by contradiction

theorem Turn.outcomes (turn : runner.Turn tree report noted next ended handed) :
    ended.outcomes.Perm (tree.name :: report.outcomes) := by
  cases turn with
  | skipped => exact report.outcomes_skipped tree.name
  | executed => exact report.outcomes_executed tree.name
  | failed => exact report.outcomes_failed tree.name

theorem settles_prepare (named : runner.Named) (tree : Tree) : ∃ state,
    runner.Settles tree state (runner.prepare tree).2.1 ∧
      (∀ procedure, state = .ready procedure → procedure.tree = tree.name) ∧
      (runner.entry? tree.name = some ⟨tree.revision, .failed⟩ → state = .failed) := by
  rw [prepare_eq]
  by_cases current : runner.isCurrent tree
  · obtain ⟨state, present⟩ := isCurrent_iff.mp current
    rw [if_pos current]
    refine ⟨state, settles_self present, ?_, ?_⟩
    · rintro procedure rfl
      exact named _ _ _ present
    · intro failed
      rw [present] at failed
      simpa using failed
  · rw [if_neg current]
    refine ⟨_, runner.settles_recompiled tree, fun _ => tree_of_judge, ?_⟩
    intro failed
    exact absurd (isCurrent_iff.mpr ⟨_, failed⟩) current

theorem prepare_tree (runner : Runner) (tree : Tree) :
    (runner.prepare tree).2.2.name = tree.name ∧
      (runner.prepare tree).2.2.revision = tree.revision := by
  rw [prepare_eq]
  split <;> exact ⟨rfl, rfl⟩

theorem runTree_turn {σ : Type} (named : runner.Named) (host : Host σ) (tree : Tree) (state : σ)
    (noted : List Procedure) (report : FrameReport) :
    ∃ changed next after handed ended,
      runner.runTree host.noting tree (state, noted) report =
        (changed, next, (after, handed), ended) ∧
      changed.name = tree.name ∧ changed.revision = tree.revision ∧
      runner.Turn tree report noted next ended handed := by
  obtain ⟨kept, settles, owner, failed⟩ := runner.settles_prepare named tree
  obtain ⟨sameName, sameRevision⟩ := runner.prepare_tree tree
  unfold runTree
  generalize runner.prepare tree = result at settles sameName sameRevision ⊢
  obtain ⟨compiled, middle, changed⟩ := result
  dsimp only at settles sameName sameRevision
  have present : middle.entry? tree.name = some ⟨tree.revision, kept⟩ := by
    rw [settles.entry, if_pos rfl]
  obtain ⟨names, started⟩ : ∃ names, (if compiled then
      { report with compiled := report.compiled ++ [tree.name] } else report) =
        { report with compiled := names } := by
    cases compiled
    · exact ⟨report.compiled, rfl⟩
    · exact ⟨_, rfl⟩
  simp only [sameName, started, execute, present]
  cases kept with
  | failed =>
      exact ⟨changed, middle, state, noted, _, rfl, sameName, sameRevision, .skipped settles⟩
  | ready procedure =>
      have unfailed : runner.entry? tree.name ≠ some ⟨tree.revision, .failed⟩ :=
        fun known => by simpa using failed known
      have owned := owner procedure rfl
      simp only [Host.noting]
      cases host procedure state with
      | mk error after =>
          cases error with
          | none =>
              exact ⟨changed, middle, after, _, _, rfl, sameName, sameRevision,
                .executed unfailed owned settles⟩
          | some error =>
              exact ⟨changed, _, after, _, _, rfl, sameName, sameRevision,
                .failed unfailed owned (settles.fail _)⟩

/-- What is kept in the turns of the trees holds once the trees have run; each tree is accounted
for. -/
theorem runTrees_turns {σ : Type} {holds : Runner → FrameReport → List Procedure → Prop}
    {trees : List Tree} (kept : ∀ tree ∈ trees, KeptInTurn holds tree)
    (named : runner.Named) (start : holds runner report noted) (host : Host σ) (state : σ) :
    ∃ next after handed ended flagged,
      runner.runTrees host.noting (state, noted) report trees =
        (next, (after, handed), ended, flagged) ∧
      flagged.map (fun tree => (tree.name, tree.revision)) =
        trees.map (fun tree => (tree.name, tree.revision)) ∧
      ended.outcomes.Perm (trees.map (·.name) ++ report.outcomes) ∧
      next.Named ∧ holds next ended handed := by
  induction trees generalizing runner report noted state with
  | nil => exact ⟨runner, state, noted, report, [], rfl, rfl, .refl _, named, start⟩
  | cons tree rest ih =>
      obtain ⟨first, others⟩ := List.forall_mem_cons.mp kept
      obtain ⟨changed, middle, middleState, middleNoted, middleReport, ran, sameName, sameRevision,
        turn⟩ := runner.runTree_turn named host tree state noted report
      obtain ⟨next, after, handed, ended, flagged, ranRest, same, accounted, stillNamed, held⟩ :=
        ih others (turn.named named) (first _ _ _ _ _ _ start turn) middleState
      refine ⟨next, after, handed, ended, changed :: flagged, ?_, ?_, ?_, stillNamed, held⟩
      · rw [runTrees_cons, ran]
        simp only [ranRest]
      · rw [List.map_cons, List.map_cons, sameName, sameRevision, same]
      · exact accounted.trans ((turn.outcomes.append_left _).trans List.perm_middle)

end Turn

end Runner

def Document.OnlyAt (document : Document) (name : String) (revision : Nat) : Prop :=
  (∃ tree ∈ document.trees, tree.name = name) ∧
    ∀ tree ∈ document.trees, tree.name = name → tree.revision = revision

instance (document : Document) (name : String) (revision : Nat) :
    Decidable (document.OnlyAt name revision) :=
  inferInstanceAs (Decidable (_ ∧ _))

/-- Whether a frame passed over the trees of the name: they were neither executed nor did they fail,
and the host was handed no procedure of theirs. -/
structure FrameRecord.PassesOver (record : FrameRecord) (name : String) : Prop where
  skipped : name ∈ record.skipped
  unexecuted : name ∉ record.executed
  unfailed : name ∉ record.failed
  unhanded : ∀ procedure ∈ record.procedures, procedure.tree ≠ name

namespace Runner

section Failure

variable {tree : Tree} {name : String} {revision : Nat}

/-- A failure that is known of the name, at the revision, while the trees of a frame run: they have
not been handed to the host. -/
structure Known (name : String) (revision : Nat) (runner : Runner) (report : FrameReport)
    (noted : List Procedure) : Prop where
  entry : runner.entry? name = some ⟨revision, .failed⟩
  unexecuted : name ∉ report.executed
  unfailed : name ∉ report.failed
  unhanded : ∀ procedure ∈ noted, procedure.tree ≠ name

theorem keptInTurn_known (same : tree.name = name → tree.revision = revision) :
    KeptInTurn (Known name revision) tree := by
  intro runner report noted next ended handed known turn
  by_cases own : tree.name = name
  · obtain rfl := own
    obtain rfl := same rfl
    cases turn with
    | skipped settles =>
        refine ⟨?_, known.unexecuted, known.unfailed, known.unhanded⟩
        rw [settles.entry, if_pos rfl]
    | executed unfailed => exact absurd known.entry unfailed
    | failed unfailed => exact absurd known.entry unfailed
  · have other : name ≠ tree.name := Ne.symm own
    have kept {state : CacheState} (settles : runner.Settles tree state next) :
        next.entry? name = some ⟨revision, .failed⟩ := by
      rw [settles.entry, if_neg other, known.entry]
    have unhanded {procedure : Procedure} (owner : procedure.tree = tree.name) :
        ∀ one ∈ noted ++ [procedure], one.tree ≠ name := by
      intro one member
      rcases List.mem_append.mp member with member | member
      · exact known.unhanded one member
      · rw [List.mem_singleton.mp member, owner]
        exact own
    have unlisted {names : List String} (absent : name ∉ names) : name ∉ names ++ [tree.name] := by
      simp [absent, other]
    cases turn with
    | skipped settles => exact ⟨kept settles, known.unexecuted, known.unfailed, known.unhanded⟩
    | executed _ owner settles =>
        exact ⟨kept settles, unlisted known.unexecuted, known.unfailed, unhanded owner⟩
    | failed _ owner settles =>
        exact ⟨kept settles, known.unexecuted, unlisted known.unfailed, unhanded owner⟩

theorem keptInTurn_listed (same : tree.name = name → tree.revision = revision) :
    KeptInTurn (fun runner report _ => name ∈ report.failed →
      runner.entry? name = some ⟨revision, .failed⟩) tree := by
  intro runner report noted next ended handed listed turn failed
  by_cases own : tree.name = name
  · obtain rfl := own
    obtain rfl := same rfl
    cases turn with
    | skipped settles => rw [settles.entry, if_pos rfl]
    | executed unfailed => exact absurd (listed failed) unfailed
    | failed _ _ settles => rw [settles.entry, if_pos rfl]
  · have other : name ≠ tree.name := Ne.symm own
    cases turn with
    | skipped settles | executed _ _ settles =>
        rw [settles.entry, if_neg other]
        exact listed failed
    | failed _ _ settles =>
        rw [settles.entry, if_neg other]
        exact listed (by simpa [other] using failed)

end Failure

theorem Named.of_entries {runner next : Runner} (named : runner.Named)
    (entries : ∀ name entry, next.entry? name = some entry → runner.entry? name = some entry) :
    next.Named :=
  fun name revision procedure present =>
    named name revision procedure (entries name _ present)

end Runner

namespace Session

variable {σ : Type} {session : Session Runner σ} {name : String} {revision : Nat}

theorem runFrame_turns {holds : Runner → FrameReport → List Procedure → Prop}
    (kept : ∀ tree ∈ session.document.trees, Runner.KeptInTurn holds tree)
    (named : session.runner.Named) (start : holds session.runner .empty []) (host : Host σ) :
    ∃ (next : Runner) (flagged : List Tree) (after : σ) (handed : List Procedure)
      (ended : FrameReport),
      session.runFrame (.caching _) host =
        { session with
          runner := next.retain ⟨flagged⟩
          document := ⟨flagged⟩
          host := after
          frames := session.frames ++
            [{ trees := session.document.trees.map (·.name)
               procedures := handed
               executed := ended.executed
               failed := ended.failed
               skipped := ended.skipped }] } ∧
      flagged.map (fun tree => (tree.name, tree.revision)) =
        session.document.trees.map (fun tree => (tree.name, tree.revision)) ∧
      ended.outcomes.Perm (session.document.trees.map (·.name)) ∧
      next.Named ∧ holds next ended handed := by
  obtain ⟨next, after, handed, ended, flagged, ran, same, accounted, stillNamed, held⟩ :=
    Runner.runTrees_turns kept named start host session.host
  refine ⟨next, flagged, after, handed, ended, ?_, same, ?_, stillNamed, held⟩
  · simp only [runFrame, FrameDriver.caching, Runner.runFrame, ran]
  · simpa [FrameReport.outcomes, FrameReport.empty] using accounted

theorem named_runFrame (named : session.runner.Named) (host : Host σ) :
    (session.runFrame (.caching _) host).runner.Named := by
  have kept (tree : Tree) (_ : tree ∈ session.document.trees) :
      Runner.KeptInTurn (fun _ _ _ => True) tree := fun _ _ _ _ _ _ held _ => held
  obtain ⟨next, flagged, after, handed, ended, ran, -, -, stillNamed, -⟩ :=
    session.runFrame_turns kept named trivial host
  rw [ran]
  exact stillNamed.of_entries fun _ _ => Runner.entry?_of_retain

theorem runner_edit (session : Session Runner σ) (registry : Registry) (tree : String)
    (edit : Edit) :
    (session.edit registry tree edit).runner = session.runner ∧
      (session.edit registry tree edit).frames = session.frames := by
  unfold Session.edit
  split
  · exact ⟨rfl, rfl⟩
  · split <;> exact ⟨rfl, rfl⟩

theorem runner_addTree (session : Session Runner σ) (position : Nat) :
    (session.addTree position).runner = session.runner ∧
      (session.addTree position).frames = session.frames := by
  unfold Session.addTree
  split <;> exact ⟨rfl, rfl⟩

theorem named_step (named : session.runner.Named) (action : SessionAction σ) :
    (session.step (.caching _) action).runner.Named := by
  cases action with
  | edit registry tree edit =>
      exact (session.runner_edit registry tree edit).1.symm ▸ named
  | makeTree tree => exact named
  | addTree position => exact (session.runner_addTree position).1.symm ▸ named
  | removeTree name => exact named
  | frame host => exact named_runFrame named host
  | retry => exact named.of_entries fun _ _ => Runner.entry?_of_retry
  | retryTree name => exact named.of_entries fun _ _ => Runner.entry?_of_retryTree

theorem named_run (named : session.runner.Named) (actions : List (SessionAction σ)) :
    (session.run (.caching _) actions).runner.Named := by
  induction actions generalizing session with
  | nil => exact named
  | cons action rest ih => exact ih (named_step named action)

/-- Whether a failure of the name, at the revision, stands in the runner. -/
structure Failed (session : Session Runner σ) (name : String) (revision : Nat) : Prop where
  named : session.runner.Named
  entry : session.runner.entry? name = some ⟨revision, .failed⟩

theorem entry?_retain_of_onlyAt {runner : Runner} {flagged : List Tree}
    (onlyAt : session.document.OnlyAt name revision)
    (same : flagged.map (fun tree => (tree.name, tree.revision)) =
      session.document.trees.map (fun tree => (tree.name, tree.revision))) :
    Runner.entry? (runner.retain ⟨flagged⟩) name = runner.entry? name := by
  obtain ⟨⟨tree, member, named⟩, -⟩ := onlyAt
  have listed : (name, tree.revision) ∈
      flagged.map (fun tree => (tree.name, tree.revision)) := by
    rw [same, ← named]
    exact List.mem_map_of_mem (f := fun tree : Tree => (tree.name, tree.revision)) member
  obtain ⟨other, inside, equal⟩ := List.mem_map.mp listed
  rw [Runner.entry?_retain, if_pos]
  simp only [List.any_eq_true, decide_eq_true_eq]
  exact ⟨other, inside, congrArg Prod.fst equal⟩

theorem failed_runFrame (named : session.runner.Named)
    (onlyAt : session.document.OnlyAt name revision) (host : Host σ)
    (failed : ∃ record ∈ (session.runFrame (.caching _) host).frames.getLast?,
      name ∈ record.failed) :
    (session.runFrame (.caching _) host).Failed name revision := by
  refine ⟨named_runFrame named host, ?_⟩
  obtain ⟨next, flagged, after, handed, ended, ran, same, -, -, listed⟩ :=
    session.runFrame_turns
      (fun tree member => Runner.keptInTurn_listed (onlyAt.2 tree member)) named
      (fun listed => by contradiction) host
  rw [ran] at failed ⊢
  obtain ⟨record, last, failed⟩ := failed
  rw [List.getLast?_concat, Option.mem_some_iff] at last
  subst last
  rw [entry?_retain_of_onlyAt onlyAt same]
  exact listed failed

theorem Failed.runFrame (standing : session.Failed name revision)
    (onlyAt : session.document.OnlyAt name revision) (host : Host σ) :
    (session.runFrame (.caching _) host).Failed name revision ∧
      ∃ record : FrameRecord, record.PassesOver name ∧
        (session.runFrame (.caching _) host).frames = session.frames ++ [record] := by
  obtain ⟨next, flagged, after, handed, ended, ran, same, accounted, stillNamed, known⟩ :=
    session.runFrame_turns
      (fun tree member => Runner.keptInTurn_known (onlyAt.2 tree member)) standing.named
      ⟨standing.entry, List.not_mem_nil, List.not_mem_nil, by simp⟩ host
  have listed : name ∈ ended.outcomes := by
    obtain ⟨⟨tree, member, rfl⟩, -⟩ := onlyAt
    exact accounted.mem_iff.mpr (List.mem_map_of_mem member)
  rw [ran]
  refine ⟨⟨stillNamed.of_entries fun _ _ => Runner.entry?_of_retain, ?_⟩, _, ?_, rfl⟩
  · exact (entry?_retain_of_onlyAt onlyAt same).trans known.entry
  · refine ⟨?_, known.unexecuted, known.unfailed, known.unhanded⟩
    simpa [FrameReport.outcomes, known.unexecuted, known.unfailed] using listed

/-- Whether a failure of the name stands through the actions: it is not retried, and frames find the
name in the document only at the revision. -/
def LeftAlone (name : String) (revision : Nat) : Session Runner σ → List (SessionAction σ) → Prop
  | _, [] => True
  | session, action :: later =>
    (match action with
      | .retry => False
      | .retryTree other => other ≠ name
      | .frame _ => session.document.OnlyAt name revision
      | _ => True) ∧
    LeftAlone name revision (session.step (.caching _) action) later

theorem Failed.of_runner {next : Session Runner σ} (standing : session.Failed name revision)
    (same : next.runner = session.runner) : next.Failed name revision :=
  ⟨same ▸ standing.named, same ▸ standing.entry⟩

/-- A failure that is left alone stands, and is passed over in the frame, if one is run. -/
theorem Failed.step (standing : session.Failed name revision) {action : SessionAction σ}
    {later : List (SessionAction σ)} (alone : session.LeftAlone name revision (action :: later)) :
    (session.step (.caching _) action).Failed name revision ∧
      ∃ records : List FrameRecord, (∀ record ∈ records, record.PassesOver name) ∧
        (session.step (.caching _) action).frames = session.frames ++ records := by
  have idle {next : Session Runner σ}
      (same : next.runner = session.runner ∧ next.frames = session.frames) :
      next.Failed name revision ∧ ∃ records : List FrameRecord,
        (∀ record ∈ records, record.PassesOver name) ∧ next.frames = session.frames ++ records :=
    ⟨standing.of_runner same.1, [], by simp, by simp [same.2]⟩
  cases action with
  | edit registry tree edit => exact idle (session.runner_edit registry tree edit)
  | makeTree tree => exact idle ⟨rfl, rfl⟩
  | addTree position => exact idle (session.runner_addTree position)
  | removeTree name => exact idle ⟨rfl, rfl⟩
  | frame host =>
      obtain ⟨still, record, passed, ran⟩ := standing.runFrame alone.1 host
      exact ⟨still, [record], by simpa using passed, ran⟩
  | retry => exact absurd alone.1 id
  | retryTree other =>
      refine ⟨⟨named_step standing.named (.retryTree other), ?_⟩, [], by simp,
        (List.append_nil _).symm⟩
      have kept := session.runner.entry?_retryTree other name
      rw [if_neg (Ne.symm alone.1)] at kept
      exact kept.trans standing.entry

theorem Failed.run (standing : session.Failed name revision) {later : List (SessionAction σ)}
    (alone : session.LeftAlone name revision later) :
    ∃ records : List FrameRecord, (∀ record ∈ records, record.PassesOver name) ∧
      (session.run (.caching _) later).frames = session.frames ++ records := by
  induction later generalizing session with
  | nil => exact ⟨[], by simp, (List.append_nil _).symm⟩
  | cons action later ih =>
      obtain ⟨still, first, passed, ran⟩ := standing.step alone
      obtain ⟨rest, others, ranRest⟩ := ih still alone.2
      refine ⟨first ++ rest, List.forall_mem_append.mpr ⟨passed, others⟩, ?_⟩
      calc (session.run (.caching _) (action :: later)).frames
          = (session.step (.caching _) action).frames ++ rest := ranRest
        _ = session.frames ++ (first ++ rest) := by rw [ran, List.append_assoc]

/-- Once a tree has failed in the host, every later frame passes over it, as long as its name is in
the document only at the revision at which it failed and is not retried. This holds of whatever
documents and actions came before. -/
theorem failed_passed_over (fresh : session.runner.cache = []) (earlier : List (SessionAction σ))
    (onlyAt : (session.run (.caching _) earlier).document.OnlyAt name revision) (host : Host σ)
    (failed : ∃ record ∈ (session.run (.caching _) (earlier ++ [.frame host])).frames.getLast?,
      name ∈ record.failed)
    (later : List (SessionAction σ))
    (alone : (session.run (.caching _) (earlier ++ [.frame host])).LeftAlone name revision later) :
    ∃ records : List FrameRecord, (∀ record ∈ records, record.PassesOver name) ∧
      (session.run (.caching _) (earlier ++ .frame host :: later)).frames =
        (session.run (.caching _) (earlier ++ [.frame host])).frames ++ records := by
  have empty : session.runner.Named := by
    intro name revision procedure present
    simp [Runner.entry?, fresh] at present
  have ran (more : List (SessionAction σ)) :
      session.run (.caching _) (earlier ++ .frame host :: more) =
        ((session.run (.caching _) earlier).runFrame (.caching _) host).run (.caching _) more := by
    rw [run, List.foldl_append]
    rfl
  rw [ran []] at failed alone ⊢
  rw [ran later]
  exact (failed_runFrame (named_run empty earlier) onlyAt host failed).run alone

def choosy : Host Unit := fun procedure state =>
  (if procedure.tree = "main" then some (.script "broken") else none, state)

def besideTwins : List (SessionAction Unit) :=
  [.makeTree (.new "main" ⟨0, ""⟩), .addTree 0, .makeTree (.new "twin" ⟨0, ""⟩), .addTree 0,
    .makeTree (.new "twin" ⟨0, ""⟩), .addTree 0]

/-- Two frames; between them one of the twins is edited, both are retried, and `main` leaves the
document and comes back. -/
def twinEdited : List (SessionAction Unit) :=
  [.frame choosy, .edit Catalog.registry "twin" (.newNode "an_ColorMix" "c"), .retryTree "twin",
    .removeTree "main", .addTree 0, .frame choosy]

theorem failed_passed_over_besideTwins :
    let session := start (Runner.new Catalog.registry .default) ()
    let failed := session.run (.caching _) (besideTwins ++ [.frame choosy])
    let after := session.run (.caching _) (besideTwins ++ .frame choosy :: twinEdited)
    (∃ records : List FrameRecord, (∀ record ∈ records, record.PassesOver "main") ∧
      after.frames = failed.frames ++ records) ∧
    after.frames.map (·.failed) = [["main"], [], []] ∧
    after.frames.map (·.executed) = [["twin", "twin"], ["twin", "twin"], ["twin", "twin"]] := by
  intro session failed after
  have onlyAt : (session.run (.caching _) besideTwins).document.OnlyAt "main" 1 := by
    decide +kernel
  have alone : failed.LeftAlone "main" 1 twinEdited :=
    ⟨by decide +kernel, trivial, by decide, trivial, trivial, by decide +kernel, trivial⟩
  exact ⟨failed_passed_over rfl besideTwins onlyAt choosy ⟨_, rfl, by decide +kernel⟩ twinEdited
    alone, by decide +kernel, by decide +kernel⟩

/-- Two trees of one name fail in the host. Nothing is changed or retried, but each turn overwrites
what is known of the other tree, so the next frame runs both again. -/
theorem failed_twins_executed_again :
    let broken : Host Unit := fun _ state => (some (.script "broken"), state)
    let session := (start (Runner.new Catalog.registry .default) ()).run (.caching _)
      [.makeTree (.new "twin" ⟨0, ""⟩), .addTree 0, .makeTree (.new "twin" ⟨0, ""⟩), .addTree 0,
        .frame broken]
    session.document.trees.map (fun tree => (tree.name, tree.revision)) =
        [("twin", 1), ("twin", 2)] ∧
      session.frames.map (·.failed) = [["twin", "twin"]] ∧
      (session.run (.caching _) [.frame broken]).frames.map (·.failed) =
        [["twin", "twin"], ["twin", "twin"]] := by
  decide +kernel

end Session

end FrameGraph
