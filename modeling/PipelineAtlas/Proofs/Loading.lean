import PipelineAtlas.CommandLine.Run
import PipelineAtlas.Proofs.Airflow.Effect
import PipelineAtlas.Proofs.Dag.Builder
import PipelineAtlas.Proofs.Definition.Build

/-! What is loaded is valid: every DAG from a definition file, a directory of them or an Airflow file has
tasks and edges that fit together and no cycle. -/
namespace PipelineAtlas

open Fallible

theorem DagBuilder.valid_of_build {b : DagBuilder} {d : Dag} (built : b.build = .ok d) :
    d.Valid := by
  obtain ⟨⟨start,started⟩,⟨schedule,resolved⟩,-⟩ := exists_build_iff.mp ⟨d,built⟩
  obtain ⟨named,wellFormed,coherent,rfl⟩ := (build_ok started resolved).mp built
  exact (result_consistent named wellFormed coherent.distinct coherent.known).valid
    (validate_of_build built)

theorem Definition.valid_of_build {c : Definition} {d : Dag} (built : c.build = .ok d) :
    d.Valid := by
  obtain ⟨_,_,-,-,builtBy⟩ := build_ok.mp built
  exact DagBuilder.valid_of_build builtBy

namespace Airflow

open Dag

theorem consistent_of_readDeclared {source : List Char} {d : Dag}
    (declared : readDeclared source = .ok d) : Consistent d := by
  obtain ⟨named,tasks,edges⟩ := new_of_readDeclared declared
  have ids : d.ids = [] := by rw [Dag.ids,tasks,List.map_nil]
  exact ⟨named,by simp [ids],by simp [ids],by simp [edges],by simp [edges]⟩

theorem consistent_of_registerTasks {d d' : Dag} {vars vars' : Variables}
    {calls : List OperatorCall} (consistent : Consistent d)
    (run : calls.foldlM registerTask (d,vars) = .ok (d',vars')) : Consistent d' := by
  induction calls generalizing d vars with
  | nil =>
    cases run
    exact consistent
  | cons c calls ih =>
    rw [List.foldlM_cons,bind_ok] at run
    obtain ⟨⟨d₁,vars₁⟩,here,later⟩ := run
    obtain ⟨t,-,wellFormed,fresh,rfl,-⟩ := registerTask_ok.mp here
    exact ih (consistent.addTask (addTask_ok.mpr ⟨wellFormed,fresh,rfl,rfl⟩)) later

theorem consistent_linked {d : Dag} {vars : Variables} (consistent : Consistent d)
    (registered : Registered d vars) (links : List Link) : Consistent (linked vars links d) where
  named := consistent.named
  distinct := consistent.distinct
  wellFormed := consistent.wellFormed
  unique := Edge.nodup_insertAll consistent.unique
  closed := by
    intro e inside
    rcases Edge.mem_insertAll.mp inside with old | new
    · exact consistent.closed e old
    · obtain ⟨l,-,found⟩ := List.mem_filterMap.mp new
      simp only [Link.edge?,bind,Option.bind_eq_some_iff,Option.some.injEq] at found
      obtain ⟨source,sourceHeld,target,targetHeld,rfl⟩ := found
      exact ⟨(checkHandle_ok.mp (registered _ source sourceHeld)).2,
        (checkHandle_ok.mp (registered _ target targetHeld)).2⟩

theorem valid_of_readDag {source : List Char} {d : Dag} (read : readDag source = .ok d) :
    d.Valid := by
  obtain ⟨d₀,d₁,vars,declared,registered,applied,validated⟩ := readDag_ok.mp read
  have tasks := consistent_of_registerTasks (consistent_of_readDeclared declared) registered
  have held := (registerTasks_ok (registered_nil d₀) registered).1
  obtain ⟨-,rfl⟩ := (applyStatements_ok held).mp applied
  exact (consistent_linked tasks held _).valid validated

end Airflow

namespace Paths

variable {paths : Paths} {path : String}

theorem valid_of_definitionDag {t : FileTree} {d : Dag} (loaded : definitionDag t = .ok d) :
    d.Valid := by
  unfold definitionDag at loaded
  split at loaded
  next => cases loaded
  next =>
    split at loaded
    next => cases loaded
    next =>
      obtain ⟨-,built⟩ := andThen_ok.mp loaded
      exact Definition.valid_of_build built

theorem valid_of_loadDefinition {d : Dag} (loaded : paths.loadDefinition path = .ok d) :
    d.Valid := by
  unfold loadDefinition at loaded
  split at loaded
  next => exact valid_of_definitionDag loaded
  next => cases loaded

theorem valid_of_loadDirectory {ds : List Dag} (loaded : paths.loadDirectory path = .ok ds) :
    ∀ d ∈ ds, d.Valid := by
  unfold loadDirectory at loaded
  split at loaded
  next =>
    intro d member
    obtain ⟨_,-,here⟩ := exists_of_mem_mapM loaded d member
    exact valid_of_definitionDag here
  next => cases loaded

theorem valid_of_loadAirflow {d : Dag} (loaded : paths.loadAirflow path = .ok d) : d.Valid := by
  unfold loadAirflow at loaded
  split at loaded
  next => exact Airflow.valid_of_readDag loaded
  next => cases loaded

end Paths

theorem CommandLine.valid_of_dags {paths : Paths} {path : String} {ds : List Dag}
    (loaded : dags paths path = .ok ds) : ∀ d ∈ ds, d.Valid := by
  unfold dags at loaded
  split at loaded
  next => exact Paths.valid_of_loadDirectory (mapError_ok.mp loaded)
  next =>
    split at loaded
    next =>
      obtain ⟨d,read,rfl⟩ := map_ok.mp (mapError_ok.mp loaded)
      exact List.forall_mem_singleton.mpr (Paths.valid_of_loadAirflow read)
    next =>
      obtain ⟨d,read,rfl⟩ := map_ok.mp (mapError_ok.mp loaded)
      exact List.forall_mem_singleton.mpr (Paths.valid_of_loadDefinition read)

end PipelineAtlas
