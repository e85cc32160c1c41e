import PipelineAtlas.Proofs.FileTree.Added
import PipelineAtlas.Proofs.Graph.WellFormed
import PipelineAtlas.Proofs.Workspace.Finding

/-! Scans of more. A new file adds to the graph of a workspace and takes nothing from it, a file that cannot
be read changes nothing, and settings that let more pass give a graph with all that was there. -/
namespace PipelineAtlas

open PipelineGraph

theorem PipelineGraph.Records.grows {calls others : List Call} {g g' : PipelineGraph}
    (records : Records calls g) (records' : Records others g') (inside : calls ⊆ others) :
    Grows g g' where
  nodes id here := by
    have named (h : PipelineGraph) : h.contains id = true ↔ id ∈ h.ids := by
      simp [contains,PipelineGraph.ids]
    rw [named,records.mem_ids] at here
    rw [named,records'.mem_ids]
    exact List.map_subset _ (List.filterMap_subset _ inside) here
  locations id here := by
    rw [records.locations,Option.isSome_or,Bool.or_eq_true,List.lookup_isSome_iff,
      List.lookup_isSome_iff] at here
    rw [records'.locations,Option.isSome_or,Bool.or_eq_true,List.lookup_isSome_iff,
      List.lookup_isSome_iff]
    refine here.imp ?_ ?_
    · rintro ⟨place,member,same⟩
      rw [List.mem_reverse] at member
      exact ⟨place,List.mem_reverse.mpr (List.filterMap_subset _ inside member),same⟩
    · rintro ⟨place,member,same⟩
      exact ⟨place,List.filterMap_subset _ inside member,same⟩
  edges e here := by
    rw [records.edges,List.mem_eraseDups] at here
    rw [records'.edges,List.mem_eraseDups]
    exact List.filterMap_subset _ inside here

theorem PipelineGraph.grows_record {findings more : List Finding} (inside : findings ⊆ more) :
    Grows (empty.record findings) (empty.record more) :=
  (records_afterAll _).grows (records_afterAll _) (List.map_subset _ inside)

theorem FileTree.Holds.pass {ignored fewer path : List String} {t : FileTree} {c : Content}
    (less : fewer ⊆ ignored) (holds : Holds ignored t path c) : Holds fewer t path c := by
  induction holds with
  | file c => exact .file c
  | entry member kept below ih =>
    apply Holds.entry member _ ih
    rw [Bool.and_eq_false_iff,List.contains_eq_mem,decide_eq_false_iff_not] at kept ⊢
    exact kept.imp_right fun outside inside => outside (less inside)

/-- Toggles that are on are on in the others too. -/
structure SourceToggles.Within (s s' : SourceToggles) : Prop where
  airflow : s.airflow = true → s'.airflow = true
  prefect : s.prefect = true → s'.prefect = true
  dbt : s.dbt = true → s'.dbt = true
  githubActions : s.githubActions = true → s'.githubActions = true
  definitions : s.definitions = true → s'.definitions = true

/-- Settings that let everything pass that these let pass. -/
structure ScanSettings.Within (settings wider : ScanSettings) : Prop where
  ignored : wider.ignoredDirectories ⊆ settings.ignoredDirectories
  sources : settings.sources.Within wider.sources
  size : settings.maxFileBytes ≤ wider.maxFileBytes

theorem ScanSettings.Within.refl (settings : ScanSettings) : settings.Within settings where
  ignored := List.Subset.refl _
  sources := ⟨id,id,id,id,id⟩
  size := Nat.le_refl _

namespace Workspace

/-- What is found in a file that has one of the extensions. -/
def fileFinding (settings : ScanSettings) (extensions : List String)
    (found : SourceToggles → FoundFile → List Char → List Finding) (f : FoundFile) : List Finding :=
  if f.hasExtension extensions then
    match readable? settings f with
    | some content => found settings.sources f content
    | none => []
  else []

theorem fileFindings_eq (settings : ScanSettings) (extensions : List String)
    (found : SourceToggles → FoundFile → List Char → List Finding) (files : List FoundFile) :
    fileFindings settings extensions found files =
      files.flatMap (fileFinding settings extensions found) := by
  induction files with
  | nil => rfl
  | cons f files ih =>
    rw [List.flatMap_cons,← ih,fileFindings,List.filter_cons,fileFinding]
    split
    next => exact List.flatMap_cons
    next => rfl

variable {settings wider : ScanSettings} {root : FileTree}

theorem mem_findIf {wanted : Bool} {findings : List Finding} {a : Finding} :
    a ∈ findIf wanted findings ↔ wanted = true ∧ a ∈ findings := by
  cases wanted <;> simp [findIf]

theorem scriptFindings_subset (wide : settings.sources.Within wider.sources) (f : FoundFile)
    (content : List Char) :
    scriptFindings settings.sources f content ⊆ scriptFindings wider.sources f content := by
  intro a
  simp only [scriptFindings,mem_findIf,List.mem_append]
  rintro ⟨pipeline,either⟩
  exact ⟨pipeline,either.imp (And.imp_left wide.airflow) (And.imp_left wide.prefect)⟩

theorem sqlFindings_subset (wide : settings.sources.Within wider.sources) (f : FoundFile)
    (content : List Char) :
    sqlFindings settings.sources f content ⊆ sqlFindings wider.sources f content := by
  intro a
  simp only [sqlFindings,mem_findIf]
  exact And.imp_left wide.dbt

theorem yamlFindings_subset (wide : settings.sources.Within wider.sources) (f : FoundFile)
    (content : List Char) :
    yamlFindings settings.sources f content ⊆ yamlFindings wider.sources f content := by
  intro a
  unfold yamlFindings
  cases Yaml.Value.read? content with
  | none => exact id
  | some v =>
    simp only [mem_findIf,List.mem_append]
    exact Or.imp (Or.imp (And.imp_left wide.dbt) (And.imp_left wide.githubActions))
      (And.imp_left wide.definitions)

theorem readable?_of_le (larger : settings.maxFileBytes ≤ wider.maxFileBytes) {f : FoundFile}
    {content : List Char} (read : readable? settings f = some content) :
    readable? wider f = some content := by
  unfold readable? at read ⊢
  split at read
  next => cases read
  next small => rwa [if_neg (fun large => small (Nat.lt_of_le_of_lt larger large))]

theorem fileFinding_subset (wide : settings.Within wider) {extensions : List String}
    {found : SourceToggles → FoundFile → List Char → List Finding}
    (more : ∀ f content, found settings.sources f content ⊆ found wider.sources f content)
    (f : FoundFile) :
    fileFinding settings extensions found f ⊆ fileFinding wider extensions found f := by
  intro a inside
  unfold fileFinding at inside ⊢
  split at inside
  next kind =>
    split at inside
    next content read =>
      rw [if_pos kind,readable?_of_le wide.size read]
      exact more f content inside
    next => cases inside
  next => cases inside

theorem fileFindings_subset (wide : settings.Within wider) {extensions : List String}
    {found : SourceToggles → FoundFile → List Char → List Finding}
    (more : ∀ f content, found settings.sources f content ⊆ found wider.sources f content)
    {files files' : List FoundFile} (among : files ⊆ files') :
    fileFindings settings extensions found files ⊆ fileFindings wider extensions found files' := by
  intro a inside
  rw [fileFindings_eq,List.mem_flatMap] at inside ⊢
  obtain ⟨f,member,here⟩ := inside
  exact ⟨f,among member,fileFinding_subset wide more f here⟩

theorem grows_scan {root' : FileTree} (wide : settings.Within wider)
    (among : root.files settings.ignoredDirectories ⊆ root'.files wider.ignoredDirectories) :
    Grows (scan settings root) (scan wider root') := by
  rw [scan_eq,scan_eq]
  apply grows_record
  intro a
  simp only [findings,List.mem_append]
  refine Or.imp (Or.imp ?_ ?_) ?_
  · exact fun found => fileFindings_subset wide (scriptFindings_subset wide.sources) among found
  · exact fun found => fileFindings_subset wide (sqlFindings_subset wide.sources) among found
  · exact fun found => fileFindings_subset wide (yamlFindings_subset wide.sources) among found

theorem files_pass {ignored fewer : List String} (less : fewer ⊆ ignored) :
    root.files ignored ⊆ root.files fewer := fun _ found =>
  FileTree.mem_files ((FileTree.holds_of_mem_files found).pass less)

theorem files_put {ignored path : List String} {c : Content}
    (free : FileTree.isFree path root = true) :
    root.files ignored ⊆ (FileTree.put (.file c) path root).files ignored := fun _ found =>
  FileTree.mem_files ((FileTree.holds_of_mem_files found).put free)

/-- A file that is too large, not text, or should be a document and is none. -/
def IsSkipped (settings : ScanSettings) (f : FoundFile) : Prop :=
  settings.maxFileBytes < f.content.size ∨ f.content.text? = none ∨
    f.hasExtension ["yml","yaml"] = true ∧
      ∃ s, f.content.text? = some s ∧ Yaml.Value.read? s.toList = none

theorem hasExtension_apart {f : FoundFile} {extensions others : List String}
    (apart : extensions.Disjoint others) (has : f.hasExtension extensions = true) :
    f.hasExtension others = false := by
  unfold FoundFile.hasExtension at has ⊢
  cases kind : FileName.extension? f.name with
  | none => rfl
  | some extension =>
    rw [kind,Option.any_some,List.contains_iff_mem] at has
    rw [Option.any_some,List.contains_eq_mem,decide_eq_false_iff_not]
    exact apart has

theorem fileFinding_of_unreadable {f : FoundFile} (unreadable : readable? settings f = none)
    (extensions : List String) (found : SourceToggles → FoundFile → List Char → List Finding) :
    fileFinding settings extensions found f = [] := by
  rw [fileFinding,unreadable]
  exact ite_self _

theorem nothing_found {f : FoundFile} (skipped : IsSkipped settings f) :
    fileFinding settings ["py"] scriptFindings f = [] ∧
    fileFinding settings ["sql"] sqlFindings f = [] ∧
    fileFinding settings ["yml","yaml"] yamlFindings f = [] := by
  have unread (unreadable : readable? settings f = none) :
      fileFinding settings ["py"] scriptFindings f = [] ∧
      fileFinding settings ["sql"] sqlFindings f = [] ∧
      fileFinding settings ["yml","yaml"] yamlFindings f = [] :=
    ⟨fileFinding_of_unreadable unreadable _ _,fileFinding_of_unreadable unreadable _ _,
      fileFinding_of_unreadable unreadable _ _⟩
  rcases skipped with large | binary | ⟨kind,s,text,broken⟩
  · exact unread (if_pos large)
  · apply unread
    rw [readable?,binary]
    exact ite_self _
  · refine ⟨?_,?_,?_⟩
    · rw [fileFinding,hasExtension_apart (by simp) kind]
      rfl
    · rw [fileFinding,hasExtension_apart (by simp) kind]
      rfl
    · by_cases large : settings.maxFileBytes < f.content.size
      · exact (unread (if_pos large)).2.2
      · have read : readable? settings f = some s.toList := by
          rw [readable?,if_neg large,text]
          rfl
        rw [fileFinding,if_pos kind,read]
        simp only [yamlFindings,broken]

theorem scan_put_of_skipped {path : List String} {c : Content}
    (free : FileTree.isFree path root = true) (skipped : IsSkipped settings ⟨path,c⟩) :
    scan settings (FileTree.put (.file c) path root) = scan settings root := by
  obtain ⟨script,sql,yaml⟩ := nothing_found skipped
  have same {take : FoundFile → List Finding} (nothing : take ⟨path,c⟩ = []) :
      ((FileTree.put (.file c) path root).files settings.ignoredDirectories).flatMap take =
        (root.files settings.ignoredDirectories).flatMap take :=
    FileTree.flatMap_filesAt_put free (by rwa [List.nil_append])
  have found : findings settings (FileTree.put (.file c) path root) = findings settings root := by
    simp only [findings,fileFindings_eq]
    rw [same script,same sql,same yaml]
  rw [scan_eq,scan_eq,found]

/-- A new file takes no node and no edge from the graph of a workspace, and one that is skipped changes
nothing. Settings that let more pass take nothing from it either. -/
theorem scan_monotone (settings : ScanSettings) (root : FileTree) :
    (∀ path c, FileTree.isFree path root = true →
      Grows (scan settings root) (scan settings (FileTree.put (.file c) path root))) ∧
    (∀ path c, FileTree.isFree path root = true → IsSkipped settings ⟨path,c⟩ →
      scan settings (FileTree.put (.file c) path root) = scan settings root) ∧
    (∀ wider : ScanSettings, settings.Within wider →
      Grows (scan settings root) (scan wider root)) := by
  refine ⟨fun path c free => ?_,fun path c free skipped => ?_,fun wider wide => ?_⟩
  · exact grows_scan (.refl settings) (files_put free)
  · exact scan_put_of_skipped free skipped
  · exact grows_scan wide (files_pass wide.ignored)

def shelvedWorkspace : FileTree :=
  .directory
    [("orders.sql",.file (.text "select * from ref('raw')")),
      ("dist",.directory [("raw.sql",.file (.text "select 1"))])]

def everyDirectory : ScanSettings where
  ignoredDirectories := []

theorem within_everyDirectory : ScanSettings.Within {} everyDirectory where
  ignored := List.nil_subset _
  sources := ⟨id,id,id,id,id⟩
  size := Nat.le_refl _

/-- A broken document changes nothing, and a directory that is no longer ignored adds the place of a
model to a graph that keeps all of its own. -/
theorem scan_monotone_shelved :
    scan {} (FileTree.put (.file (.text "models: [")) ["ci","broken.yml"] shelvedWorkspace) =
      scan {} shelvedWorkspace ∧
    Grows (scan {} shelvedWorkspace)
      (scan {} (FileTree.put (.file (.text "select 2")) ["dist","old.sql"] shelvedWorkspace)) ∧
    Grows (scan {} shelvedWorkspace) (scan everyDirectory shelvedWorkspace) ∧
    (scan {} shelvedWorkspace).location? (nodeId "dbt" "raw") = some ⟨"orders.sql",1⟩ ∧
    (scan everyDirectory shelvedWorkspace).location? (nodeId "dbt" "raw") =
      some ⟨"dist/raw.sql",1⟩ := by
  obtain ⟨new,skipped,wide⟩ := scan_monotone {} shelvedWorkspace
  have broken : IsSkipped {} ⟨["ci","broken.yml"],.text "models: ["⟩ :=
    .inr (.inr ⟨by decide,"models: [",rfl,by decide +kernel⟩)
  exact ⟨skipped _ _ rfl broken,new _ _ rfl,wide _ within_everyDirectory,by decide +kernel,
    by decide +kernel⟩

end Workspace

end PipelineAtlas
