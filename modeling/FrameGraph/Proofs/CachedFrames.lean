import FrameGraph.Proofs.InvalidFlags
import FrameGraph.Proofs.PlainRunner

/-!
Keeping procedures between frames. Main statement: in a frame, a runner with a cache that is in step
with the failures a plain runner remembers does what the plain runner does, and stays in step.
-/

namespace FrameGraph

namespace Runner

def runTree {σ : Type} (runner : Runner) (host : Host σ) (tree : Tree) (state : σ)
    (report : FrameReport) : Tree × Runner × σ × FrameReport :=
  let (compiled, runner, tree) := runner.prepare tree
  let report :=
    if compiled then { report with compiled := report.compiled ++ [tree.name] } else report
  (tree, runner.execute host tree state report)

theorem runTrees_cons {σ : Type} (runner : Runner) (host : Host σ) (state : σ)
    (report : FrameReport) (tree : Tree) (rest : List Tree) :
    runner.runTrees host state report (tree :: rest) =
      let (tree, runner, state, report) := runner.runTree host tree state report
      let (runner, state, report, trees) := runner.runTrees host state report rest
      (runner, state, report, tree :: trees) :=
  rfl

end Runner

namespace FrameReport

structure SameOutcomes (report other : FrameReport) : Prop where
  executed : report.executed = other.executed
  failed : report.failed = other.failed
  skipped : report.skipped = other.skipped

namespace SameOutcomes

variable {report other : FrameReport}

theorem execute (same : report.SameOutcomes other) (tree : String) {compiled : List String} :
    SameOutcomes { report with executed := report.executed ++ [tree] }
      { other with compiled, executed := other.executed ++ [tree] } :=
  ⟨by simp [same.executed], same.failed, same.skipped⟩

theorem fail (same : report.SameOutcomes other) (tree : String) {compiled : List String} :
    SameOutcomes { report with failed := report.failed ++ [tree] }
      { other with compiled, failed := other.failed ++ [tree] } :=
  ⟨same.executed, by simp [same.failed], same.skipped⟩

theorem skip (same : report.SameOutcomes other) (tree : String) {compiled : List String} :
    SameOutcomes { report with skipped := report.skipped ++ [tree] }
      { other with compiled, skipped := other.skipped ++ [tree] } :=
  ⟨same.executed, same.failed, by simp [same.skipped]⟩

end SameOutcomes

def outcomes (report : FrameReport) : List String :=
  report.executed ++ report.failed ++ report.skipped

end FrameReport

/-- Whether the state in the cache is what compiling the tree leads to, given the revision at which
it failed in the host. -/
def CacheState.Accounts (plain : PlainRunner) (tree : Tree) : CacheState → Prop
  | .ready procedure =>
    ∃ compiled, tree.compile plain.registry plain.options = .ok compiled ∧
      compiled.procedure = procedure
  | .failed =>
    (∃ error, tree.compile plain.registry plain.options = .error error) ∨
      plain.failure? tree.name = some tree.revision

/-! Trees with revisions of their own -/

theorem nodup_revisions_cons {tree : Tree} {trees : List Tree}
    (distinct : (trees.map (·.revision)).Nodup)
    (below : ∀ other ∈ trees, other.revision < tree.revision) :
    ((tree :: trees).map (·.revision)).Nodup := by
  rw [List.map_cons, List.nodup_cons]
  refine ⟨?_, distinct⟩
  intro member
  obtain ⟨other, inside, same⟩ := List.mem_map.mp member
  exact Nat.ne_of_lt (below other inside) same

theorem revision_ne_of_nodup {tree other : Tree} {trees : List Tree}
    (distinct : ((tree :: trees).map (·.revision)).Nodup) (member : other ∈ trees) :
    other.revision ≠ tree.revision := by
  intro equal
  rw [List.map_cons, List.nodup_cons] at distinct
  exact distinct.1 (equal ▸ List.mem_map_of_mem member)

/-- A cache and remembered failures in step on trees with revisions of their own below the limit. A
remembered failure is in the cache, and an entry of the present revision of a tree accounts for the
tree, whose flags are settled. -/
structure InStep (runner : Runner) (plain : PlainRunner) (limit : Nat) (trees : List Tree) :
    Prop where
  ignores : plain.registry.IgnoresFlags
  registry : plain.registry = runner.registry
  options : plain.options = runner.options
  distinct : (trees.map (·.revision)).Nodup
  below : ∀ tree ∈ trees, tree.revision < limit
  stored : ∀ name entry, runner.entry? name = some entry → entry.revision < limit
  remembered : ∀ name revision, plain.failure? name = some revision →
    runner.entry? name = some ⟨revision, .failed⟩
  current : ∀ tree ∈ trees, ∀ state, runner.entry? tree.name = some ⟨tree.revision, state⟩ →
    plain.flag tree = tree ∧ state.Accounts plain tree

namespace PlainRunner

variable {plain : PlainRunner} {tree : Tree}

theorem name_flag : (plain.flag tree).name = tree.name := by
  unfold flag
  split <;> rfl

theorem revision_flag : (plain.flag tree).revision = tree.revision := by
  unfold flag
  split <;> rfl

theorem compile_flag (ignores : plain.registry.IgnoresFlags) (tree : Tree) :
    (plain.flag tree).compile plain.registry plain.options =
      tree.compile plain.registry plain.options := by
  have same (invalid : List String) := tree.compile_flagInvalid invalid ignores plain.options
  unfold flag
  split
  · exact same _
  · exact same _

theorem flag_flag (ignores : plain.registry.IgnoresFlags) :
    plain.flag (plain.flag tree) = plain.flag tree := by
  have same := compile_flag ignores tree
  cases compiled : tree.compile plain.registry plain.options with
  | ok result =>
      rw [compiled] at same
      have flagged : plain.flag tree = tree.flagInvalid [] := by simp [flag, compiled]
      rw [flagged] at same ⊢
      simp [flag, same, Tree.flagInvalid_flagInvalid]
  | error error =>
      rw [compiled] at same
      have flagged : plain.flag tree = tree.flagInvalid (tree.invalidNodes error.problems) := by
        simp [flag, compiled]
      rw [flagged] at same ⊢
      simp [flag, same, Tree.flagInvalid_flagInvalid, Tree.invalidNodes_flagInvalid]

end PlainRunner

namespace InStep

variable {runner : Runner} {plain : PlainRunner} {limit : Nat} {tree : Tree} {trees : List Tree}

theorem perm (inStep : InStep runner plain limit trees) {others : List Tree}
    (same : trees.Perm others) : InStep runner plain limit others :=
  { inStep with
    distinct := (same.map (·.revision)).nodup_iff.mp inStep.distinct
    below := fun tree member => inStep.below tree (same.mem_iff.mpr member)
    current := fun tree member => inStep.current tree (same.mem_iff.mpr member) }

theorem tail (inStep : InStep runner plain limit (tree :: trees)) :
    InStep runner plain limit trees :=
  { inStep with
    distinct := (List.nodup_cons.mp inStep.distinct).2
    below := fun other member => inStep.below other (List.mem_cons_of_mem _ member)
    current := fun other member => inStep.current other (List.mem_cons_of_mem _ member) }

theorem mono (inStep : InStep runner plain limit trees) : InStep runner plain (limit + 1) trees :=
  { inStep with
    below := fun tree member => Nat.lt_succ_of_lt (inStep.below tree member)
    stored := fun name entry found => Nat.lt_succ_of_lt (inStep.stored name entry found) }

theorem cons (inStep : InStep runner plain limit trees) (fresh : tree.revision = limit) :
    InStep runner plain (limit + 1) (tree :: trees) := by
  refine { inStep.mono with distinct := ?_, below := ?_, current := ?_ }
  · exact nodup_revisions_cons inStep.distinct fun other inside => fresh ▸ inStep.below other inside
  · intro other member
    rcases List.mem_cons.mp member with rfl | member
    · omega
    · exact inStep.mono.below other member
  · intro other member state found
    rcases List.mem_cons.mp member with rfl | member
    · have old := inStep.stored _ _ found
      simp only at old
      omega
    · exact inStep.current other member state found

theorem apart (inStep : InStep runner plain limit (tree :: trees)) {other : Tree}
    (member : other ∈ trees) : other.revision ≠ tree.revision :=
  revision_ne_of_nodup inStep.distinct member

end InStep

/-- The next runner holds a state for the tree at its revision; of other names it knows what the
runner knew. -/
structure Runner.Settles (runner : Runner) (tree : Tree) (state : CacheState) (next : Runner) :
    Prop where
  registry : next.registry = runner.registry
  options : next.options = runner.options
  entry : ∀ name, next.entry? name =
    if name = tree.name then some ⟨tree.revision, state⟩ else runner.entry? name

theorem Runner.settles_self {runner : Runner} {tree : Tree} {state : CacheState}
    (present : runner.entry? tree.name = some ⟨tree.revision, state⟩) :
    runner.Settles tree state runner := by
  refine ⟨rfl, rfl, fun name => ?_⟩
  split
  · rename_i same
    rw [same, present]
  · rfl

structure PlainRunner.SameBut (plain : PlainRunner) (tree : String) (other : PlainRunner) :
    Prop where
  registry : other.registry = plain.registry
  options : other.options = plain.options
  failure : ∀ name, name ≠ tree → other.failure? name = plain.failure? name

/-- What preparing a tree achieves, told of the runner and the state that it leads to. -/
structure Prepared (runner : Runner) (plain : PlainRunner) (tree : Tree) (prepared : Runner)
    (state : CacheState) : Prop where
  settles : runner.Settles tree state prepared
  accounts : state.Accounts plain tree
  /-- A failure that is remembered at the present revision is in the cache. -/
  failed : plain.failure? tree.name = some tree.revision → state = .failed

theorem Runner.Settles.fail {runner next : Runner} {tree : Tree} {state : CacheState}
    (settles : runner.Settles tree state next) (problems : ProblemList) :
    runner.Settles tree .failed
      ({ next with problems }.setEntry tree.name ⟨tree.revision, .failed⟩) where
  registry := settles.registry
  options := settles.options
  entry name := by
    have before : Runner.entry? { next with problems } name = next.entry? name := rfl
    rw [Runner.entry?_setEntry, before, settles.entry]
    split <;> rfl

theorem PlainRunner.sameBut_forget (plain : PlainRunner) (tree : String) :
    plain.SameBut tree (plain.forget tree) where
  registry := rfl
  options := rfl
  failure name differs := by rw [PlainRunner.failure?_forget, if_neg differs]

theorem PlainRunner.SameBut.remember {plain other : PlainRunner} {tree : String}
    (same : plain.SameBut tree other) (revision : Nat) :
    plain.SameBut tree (other.remember tree revision) where
  registry := same.registry
  options := same.options
  failure name differs := by
    rw [PlainRunner.failure?_remember, if_neg differs, same.failure name differs]

theorem Runner.isCurrent_iff {runner : Runner} {tree : Tree} :
    runner.isCurrent tree ↔ ∃ state, runner.entry? tree.name = some ⟨tree.revision, state⟩ := by
  unfold Runner.isCurrent
  cases runner.entry? tree.name with
  | none => simp
  | some entry =>
      obtain ⟨revision, state⟩ := entry
      simp

theorem InStep.judge {runner : Runner} {plain : PlainRunner} {limit : Nat} {trees : List Tree}
    (inStep : InStep runner plain limit trees) (tree : Tree) :
    tree.flagInvalid (runner.judge tree).2.2 = plain.flag tree ∧
      (runner.judge tree).1.Accounts plain tree := by
  unfold Runner.judge PlainRunner.flag
  rw [← inStep.registry, ← inStep.options]
  cases compiled : tree.compile plain.registry plain.options with
  | ok result => exact ⟨rfl, result, compiled, rfl⟩
  | error error => exact ⟨rfl, .inl ⟨error, compiled⟩⟩

theorem InStep.prepare {runner : Runner} {plain : PlainRunner} {limit : Nat} {trees : List Tree}
    {tree : Tree} (inStep : InStep runner plain limit trees) (member : tree ∈ trees) :
    (runner.prepare tree).2.2 = plain.flag tree ∧
      ∃ state, Prepared runner plain tree (runner.prepare tree).2.1 state := by
  have found : plain.failure? tree.name = some tree.revision → runner.isCurrent tree := by
    intro remembered
    exact Runner.isCurrent_iff.mpr ⟨.failed, inStep.remembered _ _ remembered⟩
  unfold Runner.prepare
  by_cases isCurrent : runner.isCurrent tree
  · obtain ⟨state, present⟩ := Runner.isCurrent_iff.mp isCurrent
    obtain ⟨settled, accounts⟩ := inStep.current tree member state present
    rw [if_pos isCurrent]
    refine ⟨settled.symm, state, Runner.settles_self present, accounts, ?_⟩
    intro remembered
    have failed := inStep.remembered _ _ remembered
    rw [present] at failed
    simpa using failed
  · obtain ⟨flagged, accounts⟩ := inStep.judge tree
    rw [if_neg isCurrent]
    exact ⟨flagged, (runner.judge tree).1, ⟨rfl, rfl, Runner.entry?_setEntry _ _⟩, accounts,
      fun remembered => absurd (found remembered) isCurrent⟩

theorem CacheState.Accounts.congr {plain other : PlainRunner} {tree changed : Tree}
    {state : CacheState} (accounts : state.Accounts plain tree)
    (compiled : changed.compile other.registry other.options =
      tree.compile plain.registry plain.options)
    (revision : changed.revision = tree.revision)
    (remembered : other.failure? changed.name = plain.failure? tree.name) :
    state.Accounts other changed := by
  cases state with
  | ready procedure =>
      obtain ⟨result, done, same⟩ := accounts
      exact ⟨result, compiled.trans done, same⟩
  | failed =>
      rcases accounts with ⟨error, refused⟩ | failed
      · exact .inl ⟨error, compiled.trans refused⟩
      · exact .inr (by rw [remembered, failed, revision])

/-- Both runners turn to one tree; what they know of trees of other names stays. -/
theorem InStep.update {runner next : Runner} {plain other : PlainRunner} {tree : Tree}
    {others : List Tree} {limit : Nat} (inStep : InStep runner plain limit (tree :: others))
    {state : CacheState} (settles : runner.Settles tree state next)
    (same : plain.SameBut tree.name other)
    (own : ∀ revision, other.failure? tree.name = some revision →
      revision = tree.revision ∧ state = .failed)
    (accounts : state.Accounts other tree) :
    InStep next other limit (plain.flag tree :: others) := by
  have sameFlag (t : Tree) : other.flag t = plain.flag t := by
    rw [PlainRunner.flag, PlainRunner.flag, same.registry, same.options]
  have ignores : other.registry.IgnoresFlags := same.registry ▸ inStep.ignores
  refine ⟨ignores, ?_, ?_, ?_, ?_, ?_, ?_, ?_⟩
  · rw [same.registry, settles.registry, inStep.registry]
  · rw [same.options, settles.options, inStep.options]
  · simpa [PlainRunner.revision_flag] using inStep.distinct
  · intro t member
    rcases List.mem_cons.mp member with rfl | member
    · rw [PlainRunner.revision_flag]
      exact inStep.below tree List.mem_cons_self
    · exact inStep.below t (List.mem_cons_of_mem _ member)
  · intro name found present
    rw [settles.entry] at present
    split at present
    · obtain rfl := Option.some.inj present
      exact inStep.below tree List.mem_cons_self
    · exact inStep.stored name found present
  · intro name revision remembered
    rw [settles.entry]
    by_cases named : name = tree.name
    · obtain ⟨rfl, rfl⟩ := own revision (named ▸ remembered)
      rw [if_pos named]
    · rw [if_neg named]
      exact inStep.remembered name revision (same.failure name named ▸ remembered)
  · intro t member found present
    rw [settles.entry] at present
    rcases List.mem_cons.mp member with rfl | member
    · rw [PlainRunner.name_flag, if_pos rfl, PlainRunner.revision_flag] at present
      obtain rfl : state = found := by simpa using present
      refine ⟨?_, accounts.congr ?_ PlainRunner.revision_flag ?_⟩
      · rw [sameFlag, PlainRunner.flag_flag inStep.ignores]
      · rw [← sameFlag tree]
        exact PlainRunner.compile_flag ignores tree
      · rw [PlainRunner.name_flag]
    · by_cases named : t.name = tree.name
      · rw [if_pos named] at present
        have revision : tree.revision = t.revision := by
          simpa using congrArg (Option.map CacheEntry.revision) present
        exact absurd revision.symm (inStep.apart member)
      · rw [if_neg named] at present
        obtain ⟨settled, before⟩ := inStep.current t (List.mem_cons_of_mem _ member) found present
        refine ⟨by rw [sameFlag, settled], before.congr ?_ rfl (same.failure _ named)⟩
        rw [same.registry, same.options]

theorem InStep.forget {runner next : Runner} {plain : PlainRunner} {tree : Tree}
    {others : List Tree} {limit : Nat} (inStep : InStep runner plain limit (tree :: others))
    {state : CacheState} (settles : runner.Settles tree state next)
    (accounts : state.Accounts (plain.forget tree.name) tree) :
    InStep next (plain.forget tree.name) limit (plain.flag tree :: others) := by
  refine inStep.update settles (plain.sameBut_forget tree.name) ?_ accounts
  intro revision found
  rw [PlainRunner.failure?_forget, if_pos rfl] at found
  contradiction

/-- Executing a tree that is prepared does what running it afresh does. -/
theorem InStep.execute {σ : Type} {runner middle : Runner} {plain : PlainRunner} {tree : Tree}
    {others : List Tree} {limit : Nat} (inStep : InStep runner plain limit (tree :: others))
    {kept : CacheState} (prepared : Prepared runner plain tree middle kept) (host : Host σ)
    (state : σ) {report other : FrameReport} (same : report.SameOutcomes other) :
    ∃ next nextPlain nextState nextReport nextOther,
      middle.execute host (plain.flag tree) state report = (next, nextState, nextReport) ∧
      plain.runTree host tree state other = (nextPlain, nextState, nextOther) ∧
      nextReport.SameOutcomes nextOther ∧
      InStep next nextPlain limit (plain.flag tree :: others) := by
  have present : middle.entry? tree.name = some ⟨tree.revision, kept⟩ := by
    rw [prepared.settles.entry, if_pos rfl]
  simp only [Runner.execute, PlainRunner.name_flag, present]
  by_cases remembered : plain.failure? tree.name = some tree.revision
  · obtain rfl := prepared.failed remembered
    simp only [PlainRunner.runTree, if_pos remembered]
    refine ⟨middle, plain, state, _, _, rfl, rfl, same.skip tree.name, ?_⟩
    refine inStep.update prepared.settles ⟨rfl, rfl, fun _ _ => rfl⟩ ?_ prepared.accounts
    intro revision found
    rw [remembered] at found
    exact ⟨(Option.some.inj found).symm, rfl⟩
  · simp only [PlainRunner.runTree, if_neg remembered, PlainRunner.registry_forget,
      PlainRunner.options_forget]
    cases kept with
    | failed =>
        obtain ⟨error, refused⟩ := prepared.accounts.resolve_right remembered
        rw [refused]
        exact ⟨middle, plain.forget tree.name, state, _, _, rfl, rfl, same.skip tree.name,
          inStep.forget prepared.settles (.inl ⟨error, refused⟩)⟩
    | ready procedure =>
        obtain ⟨result, done, rfl⟩ := prepared.accounts
        rw [done]
        simp only
        cases host result.procedure state with
        | mk error after =>
            cases error with
            | none =>
                exact ⟨middle, plain.forget tree.name, after, _, _, rfl, rfl,
                  same.execute tree.name, inStep.forget prepared.settles ⟨result, done, rfl⟩⟩
            | some error =>
                have remembers : ((plain.forget tree.name).remember tree.name
                    tree.revision).failure? tree.name = some tree.revision := by
                  rw [PlainRunner.failure?_remember, if_pos rfl]
                refine ⟨_, (plain.forget tree.name).remember tree.name tree.revision, after, _, _,
                  rfl, rfl, same.fail tree.name, ?_⟩
                refine inStep.update (prepared.settles.fail _)
                  ((plain.sameBut_forget tree.name).remember tree.revision) ?_ (.inr remembers)
                intro revision found
                rw [remembers] at found
                exact ⟨(Option.some.inj found).symm, rfl⟩

theorem InStep.runTree {σ : Type} {runner : Runner} {plain : PlainRunner} {tree : Tree}
    {others : List Tree} {limit : Nat} (inStep : InStep runner plain limit (tree :: others))
    (host : Host σ) (state : σ) {report other : FrameReport} (same : report.SameOutcomes other) :
    ∃ next nextPlain nextState nextReport nextOther,
      runner.runTree host tree state report =
        (plain.flag tree, next, nextState, nextReport) ∧
      plain.runTree host tree state other = (nextPlain, nextState, nextOther) ∧
      nextReport.SameOutcomes nextOther ∧
      InStep next nextPlain limit (plain.flag tree :: others) := by
  obtain ⟨flagged, kept, prepared⟩ := inStep.prepare (List.mem_cons_self : tree ∈ tree :: others)
  unfold Runner.runTree
  generalize runner.prepare tree = result at flagged prepared ⊢
  obtain ⟨compiled, middle, changed⟩ := result
  obtain rfl : changed = plain.flag tree := flagged
  have agree : FrameReport.SameOutcomes
      (if compiled then { report with compiled := report.compiled ++ [(plain.flag tree).name] }
        else report) other := by
    cases compiled
    · exact same
    · exact ⟨same.executed, same.failed, same.skipped⟩
  obtain ⟨next, nextPlain, nextState, nextReport, nextOther, executed, ran, agrees, stepped⟩ :=
    inStep.execute prepared host state agree
  refine ⟨next, nextPlain, nextState, nextReport, nextOther, ?_, ran, agrees, stepped⟩
  simp only [executed]

namespace InStep

variable {σ : Type} {runner : Runner} {plain : PlainRunner} {limit : Nat}
  {trees others : List Tree}

/-- Running the trees keeps the runners in step, also on the trees that are not run. -/
theorem runTrees (inStep : InStep runner plain limit (trees ++ others)) (host : Host σ) (state : σ)
    {report other : FrameReport} (same : report.SameOutcomes other) :
    ∃ next nextPlain nextState nextReport nextOther flagged,
      runner.runTrees host state report trees = (next, nextState, nextReport, flagged) ∧
      plain.runTrees host state other trees = (nextPlain, nextState, nextOther, flagged) ∧
      nextReport.SameOutcomes nextOther ∧ InStep next nextPlain limit (flagged ++ others) := by
  induction trees generalizing runner plain state report other others with
  | nil => exact ⟨runner, plain, state, report, other, [], rfl, rfl, same, inStep⟩
  | cons tree rest ih =>
      have whole : InStep runner plain limit (tree :: (rest ++ others)) := inStep
      obtain ⟨middle, middlePlain, middleState, middleReport, middleOther, ran, ranPlain, agree,
        stepped⟩ := whole.runTree host state same
      have reordered : InStep middle middlePlain limit (rest ++ plain.flag tree :: others) :=
        stepped.perm List.perm_middle.symm
      obtain ⟨next, nextPlain, nextState, nextReport, nextOther, flagged, ranRest, ranRestPlain,
        agreeRest, ended⟩ := ih reordered middleState agree
      refine ⟨next, nextPlain, nextState, nextReport, nextOther, plain.flag tree :: flagged, ?_, ?_,
        agreeRest, ended.perm List.perm_middle⟩
      · rw [Runner.runTrees_cons, ran]
        simp only [ranRest]
      · rw [PlainRunner.runTrees, ranPlain]
        simp only [ranRestPlain]

theorem drop {next : Runner} {other : PlainRunner} (inStep : InStep runner plain limit trees)
    (registry : next.registry = runner.registry) (options : next.options = runner.options)
    (sameRegistry : other.registry = plain.registry) (sameOptions : other.options = plain.options)
    (entry : ∀ name entry, next.entry? name = some entry → runner.entry? name = some entry)
    (failure : ∀ name revision, other.failure? name = some revision →
      plain.failure? name = some revision ∧ next.entry? name = runner.entry? name)
    (failed : ∀ tree : Tree, next.entry? tree.name = some ⟨tree.revision, .failed⟩ →
      other.failure? tree.name = plain.failure? tree.name) :
    InStep next other limit trees := by
  refine ⟨sameRegistry ▸ inStep.ignores, ?_, ?_, inStep.distinct, inStep.below, ?_, ?_, ?_⟩
  · rw [sameRegistry, registry, inStep.registry]
  · rw [sameOptions, options, inStep.options]
  · intro name found present
    exact inStep.stored name found (entry name found present)
  · intro name revision remembered
    obtain ⟨before, kept⟩ := failure name revision remembered
    rw [kept]
    exact inStep.remembered name revision before
  · intro tree member state present
    obtain ⟨settled, before⟩ := inStep.current tree member state (entry _ _ present)
    have sameFlag : other.flag tree = plain.flag tree := by
      rw [PlainRunner.flag, PlainRunner.flag, sameRegistry, sameOptions]
    refine ⟨sameFlag.trans settled, ?_⟩
    cases state with
    | ready procedure =>
        rw [CacheState.Accounts, sameRegistry, sameOptions]
        exact before
    | failed =>
        rw [CacheState.Accounts, sameRegistry, sameOptions, failed tree present]
        exact before

theorem retain (inStep : InStep runner plain limit trees) (document : Document) :
    InStep (runner.retain document) (plain.retain document) limit trees := by
  refine inStep.drop rfl rfl rfl rfl (fun _ _ => Runner.entry?_of_retain) ?_ ?_
  · intro name revision remembered
    rw [PlainRunner.failure?_retain] at remembered
    rw [Runner.entry?_retain]
    split at remembered
    · exact ⟨remembered, if_pos ‹_›⟩
    · contradiction
  · intro tree found
    rw [Runner.entry?_retain] at found
    rw [PlainRunner.failure?_retain]
    split at found
    · exact if_pos ‹_›
    · contradiction

theorem retryTree (inStep : InStep runner plain limit trees) (name : String) :
    InStep (runner.retryTree name) (plain.forget name) limit trees := by
  refine inStep.drop rfl rfl rfl rfl (fun _ _ => Runner.entry?_of_retryTree) ?_ ?_
  · intro other revision remembered
    rw [PlainRunner.failure?_forget] at remembered
    rw [Runner.entry?_retryTree]
    split at remembered
    · contradiction
    · exact ⟨remembered, if_neg ‹_›⟩
  · intro tree found
    rw [Runner.entry?_retryTree] at found
    rw [PlainRunner.failure?_forget]
    split at found
    · contradiction
    · exact if_neg ‹_›

theorem retry (inStep : InStep runner plain limit trees) :
    InStep runner.retry plain.retry limit trees := by
  refine inStep.drop runner.settings_retry.1 runner.settings_retry.2 rfl rfl
    (fun _ _ => Runner.entry?_of_retry) ?_ ?_
  · intro name revision remembered
    contradiction
  · intro tree found
    rw [Runner.entry?_retry] at found
    split at found
    · contradiction
    · rename_i kept
      simp [Runner.isFailed, found] at kept

end InStep

end FrameGraph
