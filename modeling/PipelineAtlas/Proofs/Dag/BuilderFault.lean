import PipelineAtlas.Proofs.Dag.BuilderCall
import PipelineAtlas.Proofs.Dag.History

/-! The faults of builders. A builder fails with the first of its conditions that does not hold, in the
order start, schedule, name, tasks, dependencies, cycles; where all hold, it gives the DAG that was
declared. -/
namespace PipelineAtlas

open Fallible

namespace Dag

theorem addTask_error {d : Dag} {t : Task} {e : DagError} : d.addTask t = .error e ↔
    isWellFormed t.id = false ∧ e = .invalidTaskId t.id ∨
      isWellFormed t.id = true ∧ t.id ∈ d.ids ∧ e = .duplicateTask t.id := by
  unfold addTask
  rw [← contains_iff]
  cases isWellFormed t.id <;> cases d.contains t.id <;> simp [eq_comm]

/-- Validation names the first task that lies on a cycle or behind one. -/
theorem Consistent.validate_error {d : Dag} (consistent : Consistent d) {e : DagError} :
    d.validate = .error e ↔ ∃ before id after, d.ids = before ++ id :: after ∧
      Edge.Trapped d.edges id ∧ (∀ x ∈ before, ¬ Edge.Trapped d.edges x) ∧
      e = .cycleDetected id := by
  let sweep := Sweep.complete d.ids d.edges
  have failed : d.validate = .error e ↔
      ∃ id rest, sweep.blocked d.ids = id :: rest ∧ e = .cycleDetected id := by
    unfold validate
    cases blocked : sweep.blocked d.ids with
    | nil => simp [consistent.sort_ok blocked,bind,Except.bind,pure,Except.pure]
    | cons id rest => simp [consistent.sort_error blocked,bind,Except.bind,eq_comm]
  -- what the sweep leaves waiting is what is trapped, in the order of the tasks
  have trapped : ∀ id ∈ d.ids,
      decide (0 < sweep.waiting.count id) = true ↔ Edge.Trapped d.edges id := by
    intro id member
    have left := consistent.finished.mem_blocked_iff
      (fun e inside => (consistent.closed e inside).1) id
    rw [Sweep.blocked,List.mem_filter] at left
    exact (and_congr_right_iff.mp left) member
  rw [failed]
  simp only [Sweep.blocked,List.filter_eq_cons_iff]
  constructor
  · rintro ⟨id,_,⟨before,after,split,free,waits,-⟩,rfl⟩
    refine ⟨before,id,after,split,(trapped id (by simp [split])).mp waits,?_,rfl⟩
    exact fun x inFront => (trapped x (by simp [split,inFront])).not.mp (free x inFront)
  · rintro ⟨before,id,after,split,waits,free,rfl⟩
    refine ⟨id,_,⟨before,after,split,?_,(trapped id (by simp [split])).mpr waits,rfl⟩,rfl⟩
    exact fun x inFront => (trapped x (by simp [split,inFront])).not.mpr (free x inFront)

end Dag

namespace DagBuilder

open Dag

/-- Tasks that can be registered one after the other. -/
structure Registrable (tasks : List Task) : Prop where
  wellFormed : ∀ t ∈ tasks, isWellFormed t.id = true
  distinct : (tasks.map (·.id)).Nodup

/-- What is looked at before the tasks. -/
structure Headed (b : DagBuilder) : Prop where
  started : ∃ start, b.start = some start
  scheduled : ∃ s, b.schedule.resolve = .ok s
  named : isWellFormed b.id = true

/-- A dependency between declared tasks. -/
def Known (b : DagBuilder) (e : Edge) : Prop :=
  e.source ∈ b.tasks.map (·.id) ∧ e.target ∈ b.tasks.map (·.id)

/-- The first condition that does not hold, as an error. -/
inductive Fault (b : DagBuilder) : DagError → Prop
  | start (missing : b.start = none) : Fault b (.missingStartDate b.id)
  | schedule {e} (started : ∃ start, b.start = some start)
      (refused : b.schedule.resolve = .error e) : Fault b (.schedule e)
  | name (started : ∃ start, b.start = some start)
      (scheduled : ∃ s, b.schedule.resolve = .ok s) (misnamed : isWellFormed b.id = false) :
      Fault b (.invalidDagId b.id)
  | taskName {before t after} (headed : Headed b) (split : b.tasks = before ++ t :: after)
      (registrable : Registrable before) (misnamed : isWellFormed t.id = false) :
      Fault b (.invalidTaskId t.id)
  | duplicate {before t after} (headed : Headed b) (split : b.tasks = before ++ t :: after)
      (registrable : Registrable before) (wellFormed : isWellFormed t.id = true)
      (taken : t.id ∈ before.map (·.id)) : Fault b (.duplicateTask t.id)
  | target {before e after} (headed : Headed b) (registrable : Registrable b.tasks)
      (split : b.dependencies = before ++ e :: after) (known : ∀ x ∈ before, b.Known x)
      (unknown : e.target ∉ b.tasks.map (·.id)) : Fault b (.taskNotFound e.target)
  | source {before e after} (headed : Headed b) (registrable : Registrable b.tasks)
      (split : b.dependencies = before ++ e :: after) (known : ∀ x ∈ before, b.Known x)
      (target : e.target ∈ b.tasks.map (·.id)) (unknown : e.source ∉ b.tasks.map (·.id)) :
      Fault b (.missingDependency e.target e.source)
  | cycle {before t after} (headed : Headed b) (registrable : Registrable b.tasks)
      (known : ∀ x ∈ b.dependencies, b.Known x) (split : b.tasks = before ++ t :: after)
      (trapped : Edge.Trapped b.dependencies t.id)
      (free : ∀ x ∈ before, ¬ Edge.Trapped b.dependencies x.id) : Fault b (.cycleDetected t.id)

variable {b : DagBuilder} {d d' : Dag} {e : DagError}

theorem registerAll_ok {tasks : List Task} (empty : d.tasks = []) :
    register d tasks = .ok d' ↔ Registrable tasks ∧ d' = { d with tasks := tasks } := by
  have ids : d.ids = [] := by rw [Dag.ids,empty,List.map_nil]
  rw [register_ok (by simp [ids]),ids,empty,List.nil_append,List.nil_append]
  constructor
  · rintro ⟨wellFormed,distinct,rfl⟩
    exact ⟨⟨wellFormed,distinct⟩,rfl⟩
  · rintro ⟨⟨wellFormed,distinct⟩,rfl⟩
    exact ⟨wellFormed,distinct,rfl⟩

theorem registerAll_error {tasks : List Task} (empty : d.tasks = []) :
    register d tasks = .error e ↔ ∃ before t after, tasks = before ++ t :: after ∧
      Registrable before ∧ (isWellFormed t.id = false ∧ e = .invalidTaskId t.id ∨
        isWellFormed t.id = true ∧ t.id ∈ before.map (·.id) ∧ e = .duplicateTask t.id) := by
  rw [register,foldlM_error]
  constructor
  · rintro ⟨before,t,after,_,split,registered,failed⟩
    obtain ⟨registrable,rfl⟩ := (registerAll_ok empty).mp registered
    exact ⟨before,t,after,split,registrable,addTask_error.mp (map_error.mp failed)⟩
  · rintro ⟨before,t,after,split,registrable,failed⟩
    exact ⟨before,t,after,_,split,(registerAll_ok empty).mpr ⟨registrable,rfl⟩,
      map_error.mpr (addTask_error.mpr failed)⟩

theorem link_error {x : Edge} : link d x = .error e ↔
    x.target ∉ d.ids ∧ e = .taskNotFound x.target ∨
      x.target ∈ d.ids ∧ x.source ∉ d.ids ∧ e = .missingDependency x.target x.source := by
  cases linked : link d x with
  | ok d' =>
    obtain ⟨⟨source,target⟩,-⟩ := link_ok.mp linked
    simp [source,target]
  | error other =>
    unfold link at linked
    by_cases target : x.target ∈ d.ids
    · by_cases source : x.source ∈ d.ids
      · have good := link_ok.mpr ⟨⟨source,target⟩,rfl⟩
        rw [link,linked] at good
        cases good
      · simp only [handle?_of_mem target,handle?_of_notMem source,Except.error.injEq] at linked
        simp [target,source,← linked,eq_comm]
    · simp only [handle?_of_notMem target,Except.error.injEq] at linked
      simp [target,← linked,eq_comm]

theorem linkAll_error {edges : List Edge} : edges.foldlM link d = .error e ↔
    ∃ before x after, edges = before ++ x :: after ∧
      (∀ y ∈ before, y.source ∈ d.ids ∧ y.target ∈ d.ids) ∧
      (x.target ∉ d.ids ∧ e = .taskNotFound x.target ∨
        x.target ∈ d.ids ∧ x.source ∉ d.ids ∧ e = .missingDependency x.target x.source) := by
  rw [foldlM_error]
  constructor
  · rintro ⟨before,x,after,_,split,linked,failed⟩
    obtain ⟨known,rfl⟩ := linkAll_ok.mp linked
    have ends := link_error.mp failed
    exact ⟨before,x,after,split,known,ends⟩
  · rintro ⟨before,x,after,split,known,failed⟩
    exact ⟨before,x,after,_,split,linkAll_ok.mpr ⟨known,rfl⟩,link_error.mpr failed⟩

theorem Headed.build_eq (headed : Headed b) : ∃ start schedule, b.build = do
    let d ← register ⟨b.id,b.description,start,schedule,b.catchup,[],[]⟩ b.tasks
    let d ← b.dependencies.foldlM link d
    d.validate
    return d := by
  obtain ⟨⟨start,started⟩,⟨schedule,resolved⟩,named⟩ := headed
  have made : Dag.new b.id start schedule b.catchup =
      .ok ⟨b.id,none,start,schedule,b.catchup,[],[]⟩ := new_ok.mpr ⟨named,rfl⟩
  refine ⟨start,schedule,?_⟩
  unfold build
  simp only [started,resolved,mapError_of_ok,bind_of_ok,made]

theorem Headed.build_registered (headed : Headed b) (registrable : Registrable b.tasks) :
    ∃ start schedule, b.build = do
      let d ← b.dependencies.foldlM link
        ⟨b.id,b.description,start,schedule,b.catchup,b.tasks,[]⟩
      d.validate
      return d := by
  obtain ⟨start,schedule,same⟩ := headed.build_eq
  refine ⟨start,schedule,?_⟩
  rw [same,(registerAll_ok rfl).mpr ⟨registrable,rfl⟩,bind_of_ok]

theorem Headed.build_linked (headed : Headed b) (registrable : Registrable b.tasks)
    (known : ∀ x ∈ b.dependencies, b.Known x) :
    ∃ start schedule, b.build = do
      (b.result start schedule).validate
      return b.result start schedule := by
  obtain ⟨start,schedule,same⟩ := headed.build_registered registrable
  refine ⟨start,schedule,?_⟩
  rw [same,linkAll_ok.mpr ⟨known,rfl⟩,bind_of_ok]
  rfl

theorem Headed.validate_error (headed : Headed b) (registrable : Registrable b.tasks)
    (known : ∀ x ∈ b.dependencies, b.Known x) (start : Instant) (schedule : Schedule) :
    (b.result start schedule).validate = .error e ↔ ∃ before t after,
      b.tasks = before ++ t :: after ∧ Edge.Trapped b.dependencies t.id ∧
      (∀ x ∈ before, ¬ Edge.Trapped b.dependencies x.id) ∧ e = .cycleDetected t.id := by
  have consistent : Consistent (b.result start schedule) :=
    result_consistent headed.named registrable.wellFormed registrable.distinct known
  have trapped : ∀ id, Edge.Trapped (b.result start schedule).edges id ↔
      Edge.Trapped b.dependencies id :=
    Edge.trapped_congr fun x => by simp [result,Edge.mem_insertAll]
  rw [consistent.validate_error]
  simp only [trapped,Dag.ids,List.map_eq_append_iff,List.map_eq_cons_iff]
  constructor
  · rintro ⟨_,_,_,⟨before,_,split,rfl,t,after,rfl,rfl,rfl⟩,waits,free,rfl⟩
    exact ⟨before,t,after,split,waits,fun x inFront => free x.id (List.mem_map_of_mem inFront),rfl⟩
  · rintro ⟨before,t,after,split,waits,free,rfl⟩
    exact ⟨_,_,_,⟨before,_,split,rfl,t,after,rfl,rfl,rfl⟩,waits,List.forall_mem_map.mpr free,rfl⟩

/-- Whatever is a fault of a builder is what building it ends with. -/
theorem Fault.build_eq (fault : Fault b e) : b.build = .error e := by
  cases fault with
  | start missing => simp [build,missing]
  | schedule started refused =>
    obtain ⟨start,started⟩ := started
    simp [build,started,refused,mapError_of_error,bind,Except.bind]
  | name started scheduled misnamed =>
    obtain ⟨start,started⟩ := started
    obtain ⟨s,resolved⟩ := scheduled
    simp [build,started,resolved,mapError_of_ok,Dag.new,misnamed,bind,Except.bind]
  | taskName headed split registrable misnamed =>
    obtain ⟨start,schedule,same⟩ := headed.build_eq
    rw [same,bind_error]
    exact .inl ((registerAll_error rfl).mpr ⟨_,_,_,split,registrable,.inl ⟨misnamed,rfl⟩⟩)
  | duplicate headed split registrable wellFormed taken =>
    obtain ⟨start,schedule,same⟩ := headed.build_eq
    rw [same,bind_error]
    exact .inl ((registerAll_error rfl).mpr
      ⟨_,_,_,split,registrable,.inr ⟨wellFormed,taken,rfl⟩⟩)
  | target headed registrable split known unknown =>
    obtain ⟨start,schedule,same⟩ := headed.build_registered registrable
    rw [same,bind_error]
    exact .inl (linkAll_error.mpr ⟨_,_,_,split,known,.inl ⟨unknown,rfl⟩⟩)
  | source headed registrable split known target unknown =>
    obtain ⟨start,schedule,same⟩ := headed.build_registered registrable
    rw [same,bind_error]
    exact .inl (linkAll_error.mpr ⟨_,_,_,split,known,.inr ⟨target,unknown,rfl⟩⟩)
  | cycle headed registrable known split trapped free =>
    obtain ⟨start,schedule,same⟩ := headed.build_linked registrable known
    rw [same,bind_error]
    exact .inl ((headed.validate_error registrable known start schedule).mpr
      ⟨_,_,_,split,trapped,free,rfl⟩)

theorem Headed.fault (headed : Headed b) (failed : b.build = .error e) : Fault b e := by
  by_cases registrable : Registrable b.tasks
  · by_cases known : ∀ x ∈ b.dependencies, b.Known x
    · obtain ⟨start,schedule,same⟩ := headed.build_linked registrable known
      rw [same,bind_error] at failed
      rcases failed with cyclic | ⟨_,-,built⟩
      · obtain ⟨before,t,after,split,trapped,free,rfl⟩ :=
          (headed.validate_error registrable known start schedule).mp cyclic
        exact .cycle headed registrable known split trapped free
      · cases built
    · obtain ⟨start,schedule,same⟩ := headed.build_registered registrable
      rw [same,bind_error] at failed
      rcases failed with unlinked | ⟨_,linked,-⟩
      · obtain ⟨before,x,after,split,others,⟨target,rfl⟩ | ⟨target,source,rfl⟩⟩ :=
          linkAll_error.mp unlinked
        · exact .target headed registrable split others target
        · exact .source headed registrable split others target source
      · exact absurd (linkAll_ok.mp linked).1 known
  · obtain ⟨start,schedule,same⟩ := headed.build_eq
    rw [same,bind_error] at failed
    rcases failed with unregistered | ⟨_,registered,-⟩
    · obtain ⟨before,t,after,split,others,⟨misnamed,rfl⟩ | ⟨wellFormed,taken,rfl⟩⟩ :=
        (registerAll_error rfl).mp unregistered
      · exact .taskName headed split others misnamed
      · exact .duplicate headed split others wellFormed taken
    · exact absurd ((registerAll_ok rfl).mp registered).1 registrable

/-- Building ends with the first condition that does not hold, and with no other error. -/
theorem build_error_iff : b.build = .error e ↔ Fault b e := by
  refine ⟨fun failed => ?_,Fault.build_eq⟩
  cases started : b.start with
  | none =>
    have missing := (Fault.start started).build_eq
    obtain rfl := Except.error.inj (missing.symm.trans failed)
    exact .start started
  | some start =>
    cases resolved : b.schedule.resolve with
    | error refused =>
      have unread := (Fault.schedule ⟨start,started⟩ resolved).build_eq
      obtain rfl := Except.error.inj (unread.symm.trans failed)
      exact .schedule ⟨start,started⟩ resolved
    | ok schedule =>
      cases named : isWellFormed b.id with
      | true => exact Headed.fault ⟨⟨start,started⟩,⟨schedule,resolved⟩,named⟩ failed
      | false =>
        have misnamed := (Fault.name ⟨start,started⟩ ⟨schedule,resolved⟩ named).build_eq
        obtain rfl := Except.error.inj (misnamed.symm.trans failed)
        exact .name ⟨start,started⟩ ⟨schedule,resolved⟩ named

theorem build_error {start : Instant} {schedule : Schedule} (started : b.start = some start)
    (resolved : b.schedule.resolve = .ok schedule) (coherent : b.Coherent)
    (failed : b.build = .error e) :
    e = .invalidDagId b.id ∨ ∃ t ∈ b.tasks, e = .invalidTaskId t.id := by
  cases build_error_iff.mp failed with
  | start missing => simp [started] at missing
  | schedule _ refused => simp [resolved] at refused
  | name => exact .inl rfl
  | taskName _ split => exact .inr ⟨_,by simp [split],rfl⟩
  | duplicate _ split _ _ taken =>
    have distinct := coherent.distinct
    rw [split,List.map_append,List.map_cons] at distinct
    exact absurd rfl ((List.nodup_append.mp distinct).2.2 _ taken _ List.mem_cons_self)
  | target _ _ split _ unknown => exact absurd (coherent.known _ (by simp [split])).2 unknown
  | source _ _ split _ _ unknown => exact absurd (coherent.known _ (by simp [split])).1 unknown
  | cycle _ _ _ _ trapped => exact absurd trapped.cyclic coherent.acyclic

theorem exists_build_iff : (∃ d, b.build = .ok d) ↔ (∃ start, b.start = some start) ∧
    (∃ s, b.schedule.resolve = .ok s) ∧ isWellFormed b.id = true ∧
    (∀ t ∈ b.tasks, isWellFormed t.id = true) ∧ (b.tasks.map (·.id)).Nodup ∧
    (∀ x ∈ b.dependencies, b.Known x) ∧ ¬ Edge.Cyclic b.dependencies := by
  constructor
  · rintro ⟨d,built⟩
    cases started : b.start with
    | none => cases (Fault.start started).build_eq.symm.trans built
    | some start =>
      cases resolved : b.schedule.resolve with
      | error refused =>
        cases (Fault.schedule ⟨start,started⟩ resolved).build_eq.symm.trans built
      | ok schedule =>
        obtain ⟨named,wellFormed,coherent,-⟩ := (build_ok started resolved).mp built
        exact ⟨⟨start,rfl⟩,⟨schedule,rfl⟩,named,wellFormed,coherent.distinct,coherent.known,
          coherent.acyclic⟩
  · rintro ⟨⟨start,started⟩,⟨schedule,resolved⟩,named,wellFormed,distinct,known,acyclic⟩
    exact ⟨_,(build_ok started resolved).mpr
      ⟨named,wellFormed,⟨distinct,known,acyclic⟩,rfl⟩⟩

/-- What is built is what was declared, each dependency where it came up first. -/
theorem build_eq_declared (built : b.build = .ok d) : ∃ start schedule, b.start = some start ∧
    b.schedule.resolve = .ok schedule ∧ d = ⟨b.id,b.description,start,schedule,b.catchup,b.tasks,
      b.dependencies.eraseDups⟩ := by
  obtain ⟨⟨start,started⟩,⟨schedule,resolved⟩,-⟩ := exists_build_iff.mp ⟨d,built⟩
  obtain ⟨-,-,-,rfl⟩ := (build_ok started resolved).mp built
  refine ⟨start,schedule,started,resolved,?_⟩
  rw [result,Edge.insertAll_nil]

/-- Building after any calls. It succeeds if and only if the start was set, the schedule set last can be
read, the names are well formed, those of the tasks are distinct, every dependency is between declared
tasks, and no dependencies form a cycle. It gives what was declared, tasks and dependencies in the order of
their calls, and otherwise ends with the first fault. Only the last value of each kind counts, also where a
schedule and a text have places of their own, and how the tasks stand to the dependencies does not. -/
theorem build_of_calls (id : String) (calls : List Call) :
    let b := calls.foldl after (new id)
    let schedule := (lastOf Call.schedule? calls).getD .preset
    let tasks := calls.filterMap Call.task?
    let dependencies := calls.flatMap Call.dependencies
    ((∃ d, b.build = .ok d) ↔ (∃ start, lastOf Call.start? calls = some start) ∧
      (∃ s, schedule.resolve = .ok s) ∧ isWellFormed id = true ∧
      (∀ t ∈ tasks, isWellFormed t.id = true) ∧ (tasks.map (·.id)).Nodup ∧
      (∀ x ∈ dependencies, x.source ∈ tasks.map (·.id) ∧ x.target ∈ tasks.map (·.id)) ∧
      ¬ Edge.Cyclic dependencies) ∧
    (∀ d, b.build = .ok d → ∃ start s, lastOf Call.start? calls = some start ∧
      schedule.resolve = .ok s ∧ d = ⟨id,lastOf Call.description? calls,start,s,
        (lastOf Call.catchup? calls).getD false,tasks,dependencies.eraseDups⟩) ∧
    (∀ e, b.build = .error e ↔ Fault (declared id calls) e) ∧
    (calls.foldl ScheduleSlots.after {}).resolve = schedule.resolve ∧
    ∀ others, lastOf Call.description? others = lastOf Call.description? calls →
      lastOf Call.start? others = lastOf Call.start? calls →
      lastOf Call.schedule? others = lastOf Call.schedule? calls →
      lastOf Call.catchup? others = lastOf Call.catchup? calls →
      others.filterMap Call.task? = tasks → others.flatMap Call.dependencies = dependencies →
      (others.foldl after (new id)).build = b.build := by
  dsimp only
  simp only [foldl_after]
  refine ⟨exists_build_iff,fun d built => build_eq_declared built,fun e => build_error_iff,?_,?_⟩
  · rw [ScheduleSlots.foldl_after id,ScheduleSlots.resolve_ofChoice]
    rfl
  · intro others description start schedule catchup tasks dependencies
    simp only [declared,description,start,schedule,catchup,tasks,dependencies]

/-- A dependency in front of its tasks and once more behind them, and a schedule set twice. -/
def shuffled : List Call :=
  [.dependency "a" "b",.scheduleText "never",.task ⟨"a","x"⟩,.start ⟨0,0⟩,
    .taskAfter ⟨"b","y"⟩ ["a"],.scheduleText "@hourly"]

/-- The same in another order of the kinds of calls. -/
def arranged : List Call :=
  [.start ⟨0,0⟩,.scheduleText "@hourly",.task ⟨"a","x"⟩,.task ⟨"b","y"⟩,.dependency "a" "b",
    .dependency "a" "b"]

theorem build_of_calls_shuffled : ∃ d, (shuffled.foldl after (new "d")).build = .ok d ∧
    d.tasks = [⟨"a","x"⟩,⟨"b","y"⟩] ∧ d.edges = [⟨"a","b"⟩] ∧
    d.schedule.period = some Interval.hour ∧ (arranged.foldl after (new "d")).build = .ok d ∧
    ((.dependency "b" "a" :: shuffled).foldl after (new "d")).build =
      .error (.cycleDetected "a") ∧
    Fault (declared "d" (.dependency "b" "a" :: shuffled)) (.cycleDetected "a") := by
  obtain ⟨-,gives,-,-,only⟩ := build_of_calls "d" shuffled
  obtain ⟨-,-,fails,-,-⟩ := build_of_calls "d" (.dependency "b" "a" :: shuffled)
  have read : ((lastOf Call.schedule? shuffled).getD .preset).resolve =
      .ok ⟨"@hourly",.cron (some 3600)⟩ := by rfl
  have same : (arranged.foldl after (new "d")).build = (shuffled.foldl after (new "d")).build :=
    only arranged rfl rfl rfl rfl rfl rfl
  have circular : ((.dependency "b" "a" :: shuffled).foldl after (new "d")).build =
      .error (.cycleDetected "a") := by decide +kernel
  cases built : (shuffled.foldl after (new "d")).build with
  | error e =>
    have fine : (shuffled.foldl after (new "d")).build.isOk = true := by decide +kernel
    rw [built] at fine
    cases fine
  | ok d =>
    obtain ⟨start,schedule,-,resolved,rfl⟩ := gives d built
    obtain rfl := Except.ok.inj (read.symm.trans resolved)
    have once : (shuffled.flatMap Call.dependencies).eraseDups = [⟨"a","b"⟩] := by decide
    exact ⟨_,rfl,rfl,once,rfl,same.trans built,circular,(fails _).mp circular⟩

end DagBuilder

end PipelineAtlas
