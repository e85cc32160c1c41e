import PipelineAtlas.Proofs.Workspace.ModelFiles

/-! Where the models of a workspace are located. A file of its own comes before all else, and what a schema
file lists counts no more than a reference: the first of both decides, and SQL files are read first. -/
namespace PipelineAtlas

open Text PipelineGraph FirstOccurrence

namespace Dbt

structure SchemaFile where
  path : String
  content : List Char
  value : Yaml.Value

namespace SchemaFile

def Lists (f : SchemaFile) (x : String) : Prop := x ∈ listed f.value

def lineOf (f : SchemaFile) (x : String) : Nat :=
  Source.lineGiving ["- name:","name:"] x (trimmedLines f.content)

def findings (f : SchemaFile) : List Finding := schemaFindings f.value f.content f.path

theorem definitions_findings (f : SchemaFile) : Finding.definitions f.findings = [] := by
  rw [findings,schemaFindings,Finding.definitions_flatMap,List.flatMap_eq_nil_iff]
  exact fun _ _ => rfl

def mentions (f : SchemaFile) : List (String × Location) :=
  (listed f.value).map fun x => (x,⟨f.path,f.lineOf x⟩)

theorem mem_mentions {f : SchemaFile} {x : String} {l : Location} :
    (x,l) ∈ f.mentions ↔ f.Lists x ∧ l = ⟨f.path,f.lineOf x⟩ := by
  rw [mentions,List.mem_map]
  constructor
  · rintro ⟨y,lists,same⟩
    obtain ⟨rfl,rfl⟩ := Prod.mk.inj same
    exact ⟨lists,rfl⟩
  · rintro ⟨lists,rfl⟩
    exact ⟨x,lists,rfl⟩

theorem mentions_findings (f : SchemaFile) :
    Finding.mentions f.findings = f.mentions.map fun e => (model e.1,e.2) := by
  rw [findings,schemaFindings,Finding.mentions_flatMap,mentions,List.map_map,List.map_eq_flatMap]
  rfl

instance (f : SchemaFile) (x : String) : Decidable (f.Lists x) :=
  inferInstanceAs (Decidable (x ∈ listed f.value))

end SchemaFile

namespace ModelFile

def RefersAt (f : ModelFile) (x : String) (n : Nat) : Prop :=
  ∃ line, (line,n) ∈ (lines f.content).zipIdx 1 ∧ HasReference line x

theorem RefersAt.refersTo {f : ModelFile} {x : String} {n : Nat} (refers : f.RefersAt x n) :
    f.RefersTo x := by
  obtain ⟨line,among,has⟩ := refers
  exact ⟨line,List.fst_mem_of_mem_zipIdx among,has⟩

theorem RefersTo.exists_refersAt {f : ModelFile} {x : String} (refers : f.RefersTo x) :
    ∃ n, f.RefersAt x n := by
  obtain ⟨line,among,has⟩ := refers
  obtain ⟨i,bound,rfl⟩ := List.getElem_of_mem among
  refine ⟨1 + i,_,List.mk_mem_zipIdx_iff_le_and_getElem?_sub.mpr ⟨Nat.le_add_right 1 i,?_⟩,has⟩
  rw [Nat.add_sub_cancel_left,List.getElem?_eq_getElem bound]

def mentions (f : ModelFile) : List (String × Location) :=
  ((lines f.content).zipIdx 1).flatMap fun (line,n) =>
    (Dbt.references line).map fun x => (x,⟨f.path,n⟩)

theorem mem_mentions {f : ModelFile} {x : String} {l : Location} :
    (x,l) ∈ f.mentions ↔ ∃ n, f.RefersAt x n ∧ l = ⟨f.path,n⟩ := by
  rw [mentions,List.mem_flatMap]
  constructor
  · rintro ⟨⟨line,n⟩,among,inside⟩
    obtain ⟨y,has,same⟩ := List.mem_map.mp inside
    obtain ⟨rfl,rfl⟩ := Prod.mk.inj same
    exact ⟨n,⟨line,among,Dbt.mem_references.mp has⟩,rfl⟩
  · rintro ⟨n,⟨line,among,has⟩,rfl⟩
    exact ⟨(line,n),among,List.mem_map.mpr ⟨x,Dbt.mem_references.mpr has,rfl⟩⟩

theorem mentions_findings (f : ModelFile) :
    Finding.mentions f.findings = f.mentions.map fun e => (model e.1,e.2) := by
  have parts : f.findings = .defined (model f.name) ⟨f.path,1⟩ ::
      ((lines f.content).zipIdx 1).flatMap fun p =>
        (Dbt.references p.1).flatMap (referenceFindings (model f.name) f.path p.2) := rfl
  rw [parts,Finding.mentions,List.filterMap_cons_none rfl,← Finding.mentions,
    Finding.mentions_flatMap,mentions,List.map_flatMap]
  refine congrArg (List.flatMap · _) (funext fun p => ?_)
  rw [Function.comp_apply,Finding.mentions_flatMap,List.map_map,List.map_eq_flatMap]
  rfl

end ModelFile

/-- The files of models and the schema files of a workspace, each in the order in which they are read. -/
structure Project where
  models : List ModelFile
  schemas : List SchemaFile

namespace Project

variable (p : Project)

def findings : List Finding :=
  p.models.flatMap ModelFile.findings ++ p.schemas.flatMap SchemaFile.findings

def own : List (String × Location) := p.models.map fun f => (f.name,⟨f.path,1⟩)

def mentions : List (String × Location) :=
  p.models.flatMap ModelFile.mentions ++ p.schemas.flatMap SchemaFile.mentions

theorem definitions_findings :
    Finding.definitions p.findings = p.own.map fun e => (model e.1,e.2) := by
  have schemas : Finding.definitions (p.schemas.flatMap SchemaFile.findings) = [] := by
    rw [Finding.definitions_flatMap,List.flatMap_eq_nil_iff]
    exact fun f _ => f.definitions_findings
  rw [findings,Finding.definitions_append,schemas,List.append_nil,Finding.definitions_flatMap,own,
    List.map_map,List.map_eq_flatMap]
  exact congrArg (List.flatMap · _) (funext ModelFile.definitions_findings)

theorem mentions_findings :
    Finding.mentions p.findings = p.mentions.map fun e => (model e.1,e.2) := by
  rw [findings,Finding.mentions_append,Finding.mentions_flatMap,Finding.mentions_flatMap,mentions,
    List.map_append,List.map_flatMap,List.map_flatMap]
  congr 2
  · exact funext ModelFile.mentions_findings
  · exact funext SchemaFile.mentions_findings

def involved : List String := Dbt.involved p.models ++ p.schemas.flatMap fun f => listed f.value

/-- Different models have different nodes. -/
def Apart : Prop := ∀ x ∈ p.involved, ∀ y ∈ p.involved, modelId x = modelId y → x = y

instance : Decidable p.Apart := inferInstanceAs (Decidable (∀ x ∈ _, ∀ y ∈ _, _ → _))

variable {p}

theorem mem_involved {x : String} : x ∈ p.involved ↔
    Dbt.Involved p.models x ∨ ∃ f ∈ p.schemas, f.Lists x := by
  rw [involved,List.mem_append,Dbt.mem_involved,List.mem_flatMap]
  rfl

theorem mem_own {x : String} {l : Location} :
    (x,l) ∈ p.own ↔ ∃ f ∈ p.models, f.name = x ∧ l = ⟨f.path,1⟩ := by
  rw [own,List.mem_map]
  refine exists_congr fun f => and_congr_right fun _ => ?_
  rw [Prod.mk.injEq,eq_comm (a := l)]

theorem mem_mentions {x : String} {l : Location} : (x,l) ∈ p.mentions ↔
    (∃ f ∈ p.models, ∃ n, f.RefersAt x n ∧ l = ⟨f.path,n⟩) ∨
      ∃ f ∈ p.schemas, f.Lists x ∧ l = ⟨f.path,f.lineOf x⟩ := by
  simp only [mentions,List.mem_append,List.mem_flatMap,ModelFile.mem_mentions,
    SchemaFile.mem_mentions]

theorem involved_of_own {e : String × Location} (inside : e ∈ p.own) : e.1 ∈ p.involved := by
  obtain ⟨f,among,named,-⟩ := mem_own.mp inside
  exact mem_involved.mpr (.inl ⟨f,among,.inl named.symm⟩)

theorem involved_of_mentions {e : String × Location} (inside : e ∈ p.mentions) :
    e.1 ∈ p.involved := by
  rcases mem_mentions.mp inside with ⟨f,among,n,refers,-⟩ | ⟨f,among,lists,-⟩
  · exact mem_involved.mpr (.inl ⟨f,among,.inr refers.refersTo⟩)
  · exact mem_involved.mpr (.inr ⟨f,among,lists⟩)

/-- The last file of a model is its place, and without one the first mention. -/
theorem Apart.location? (apart : p.Apart) {x : String} (among : x ∈ p.involved) :
    (empty.record p.findings).location? (modelId x) =
      (p.own.reverse.lookup x).or (p.mentions.lookup x) := by
  have own : ((p.own.map fun e => (model e.1,e.2)).map Finding.place).reverse.lookup (modelId x) =
      p.own.reverse.lookup x := by
    rw [List.map_map,← List.map_reverse]
    exact lookup_map (f := modelId) fun e inside =>
      apart _ (involved_of_own (List.mem_reverse.mp inside)) x among
  have mentioned : ((p.mentions.map fun e => (model e.1,e.2)).map Finding.place).lookup (modelId x) =
      p.mentions.lookup x := by
    rw [List.map_map]
    exact lookup_map (f := modelId) fun e inside => apart _ (involved_of_mentions inside) x among
  rw [location?_record_empty,p.definitions_findings,p.mentions_findings,own,mentioned]

end Project

end Dbt

theorem FileName.suffix_of_extension? {name extension : String}
    (has : extension? name = some extension) : extension.toList <:+ name.toList := by
  obtain ⟨⟨before,behind⟩,split,rfl⟩ := Option.map_eq_some_iff.mp has
  unfold splitAtStop? at split
  dsimp only at split
  split at split
  next =>
    obtain ⟨-,rfl⟩ := Prod.mk.inj (Option.some.inj split)
    rw [String.toList_ofList,← List.reverse_prefix,List.reverse_reverse]
    exact List.takeWhile_prefix _
  next => cases split

namespace FoundFile

theorem suffix_pathText (f : FoundFile) : f.name.toList <:+ f.pathText.toList := by
  obtain ⟨path,c⟩ := f
  rcases List.eq_nil_or_concat' path with rfl | ⟨above,last,rfl⟩
  · exact List.suffix_refl _
  · have named : name ⟨above ++ [last],c⟩ = last := by simp [name]
    rw [named,pathText]
    by_cases top : above = []
    · rw [top]
      simp
    · rw [String.intercalate_append_of_ne_nil top (List.cons_ne_nil _ _),String.toList_append,
        String.intercalate_singleton]
      exact List.suffix_append _ _

theorem suffix_of_hasExtension {f : FoundFile} {extensions : List String}
    (has : f.hasExtension extensions = true) :
    ∃ extension ∈ extensions, extension.toList <:+ f.pathText.toList := by
  obtain ⟨extension,found,listed⟩ := (Option.any_eq_true _ _).mp has
  exact ⟨extension,List.contains_iff_mem.mp listed,
    (FileName.suffix_of_extension? found).trans f.suffix_pathText⟩

end FoundFile

namespace Dbt

open Workspace

def modelFile? (settings : ScanSettings) (f : FoundFile) : Option ModelFile :=
  (readable? settings f).map fun content => ⟨FileName.stem f.name,f.pathText,content⟩

def schemaFile? (settings : ScanSettings) (f : FoundFile) : Option SchemaFile :=
  (readable? settings f).bind fun content =>
    (Yaml.Value.read? content).map fun v => ⟨f.pathText,content,v⟩

def project (settings : ScanSettings) (root : FileTree) : Project where
  models := ((root.files settings.ignoredDirectories).filter (·.hasExtension ["sql"])).filterMap
    (modelFile? settings)
  schemas := ((root.files settings.ignoredDirectories).filter
    (·.hasExtension ["yml","yaml"])).filterMap (schemaFile? settings)

/-- Only the files of dbt are read. -/
def dbtOnly : SourceToggles where
  airflow := false
  prefect := false
  githubActions := false
  definitions := false

variable {settings : ScanSettings} {root : FileTree}

theorem flatMap_filterMap (read : α → Option β) (found : β → List γ) (items : List α) :
    (items.filterMap read).flatMap found =
      items.flatMap fun x => (read x).toList.flatMap found := by
  rw [List.filterMap_eq_flatMap_toList,List.flatMap_assoc]

theorem findings_eq (only : settings.sources = dbtOnly) :
    Workspace.findings settings root = (project settings root).findings := by
  have scripts : fileFindings settings ["py"] scriptFindings
      (root.files settings.ignoredDirectories) = [] := by
    rw [fileFindings,List.flatMap_eq_nil_iff]
    intro f _
    cases readable? settings f with
    | none => rfl
    | some content =>
      simp only [scriptFindings,only]
      exact ite_self _
  rw [Workspace.findings,scripts,List.nil_append,Project.findings,project,flatMap_filterMap,
    flatMap_filterMap]
  congr 1
  · refine congrArg (List.flatMap · _) (funext fun f => ?_)
    rw [modelFile?]
    cases readable? settings f with
    | none => rfl
    | some content =>
      simp only [sqlFindings,only]
      exact (List.append_nil _).symm
  · refine congrArg (List.flatMap · _) (funext fun f => ?_)
    rw [schemaFile?]
    cases readable? settings f with
    | none => rfl
    | some content =>
      simp only [yamlFindings,only,Option.bind_some]
      cases Yaml.Value.read? content with
      | none => rfl
      | some v => simp [findIf,dbtOnly,SchemaFile.findings]

theorem paths_ne {f : ModelFile} (model : f ∈ (project settings root).models) {s : SchemaFile}
    (schema : s ∈ (project settings root).schemas) : f.path ≠ s.path := by
  obtain ⟨file,among,read⟩ := List.mem_filterMap.mp model
  obtain ⟨content,-,rfl⟩ := Option.map_eq_some_iff.mp read
  obtain ⟨file',among',read'⟩ := List.mem_filterMap.mp schema
  obtain ⟨content',-,valued⟩ := Option.bind_eq_some_iff.mp read'
  obtain ⟨v,-,rfl⟩ := Option.map_eq_some_iff.mp valued
  obtain ⟨e,sql,ends⟩ := FoundFile.suffix_of_hasExtension (List.mem_filter.mp among).2
  obtain ⟨e',yaml,ends'⟩ := FoundFile.suffix_of_hasExtension (List.mem_filter.mp among').2
  obtain rfl := List.mem_singleton.mp sql
  intro same
  dsimp only at same
  rw [same] at ends
  rcases List.suffix_or_suffix_of_suffix ends ends' with within | within <;>
    rcases List.mem_pair.mp yaml with rfl | rfl <;> revert within <;> decide

namespace Project

variable {p : Project}

theorem lookup_own {f : ModelFile} (among : f ∈ p.models) :
    ∃ f' ∈ p.models, f'.name = f.name ∧ p.own.reverse.lookup f.name = some ⟨f'.path,1⟩ := by
  obtain ⟨l,found,inside⟩ := exists_lookup
    (List.mem_reverse.mpr (mem_own.mpr ⟨f,among,rfl,rfl⟩))
  obtain ⟨f',among',named,rfl⟩ := mem_own.mp (List.mem_reverse.mp inside)
  exact ⟨f',among',named,found⟩

theorem lookup_own_of_absent {x : String} (absent : ∀ f ∈ p.models, f.name ≠ x) :
    p.own.reverse.lookup x = none := by
  apply lookup_of_absent
  intro l inside
  obtain ⟨f,among,named,-⟩ := mem_own.mp (List.mem_reverse.mp inside)
  exact absent f among named

theorem lookup_mentions_of_refers {f : ModelFile} (among : f ∈ p.models) {x : String}
    (refers : f.RefersTo x) :
    ∃ f' ∈ p.models, ∃ n, f'.RefersAt x n ∧ p.mentions.lookup x = some ⟨f'.path,n⟩ := by
  obtain ⟨n,here⟩ := refers.exists_refersAt
  obtain ⟨l,found,inside⟩ := exists_lookup
    (List.mem_flatMap.mpr ⟨f,among,ModelFile.mem_mentions.mpr ⟨n,here,rfl⟩⟩)
  obtain ⟨f',among',first⟩ := List.mem_flatMap.mp inside
  obtain ⟨n',there,rfl⟩ := ModelFile.mem_mentions.mp first
  refine ⟨f',among',n',there,?_⟩
  rw [mentions,List.lookup_append,found]
  rfl

theorem lookup_mentions_of_lists {s : SchemaFile} (among : s ∈ p.schemas) {x : String}
    (lists : s.Lists x) (unreferenced : ∀ f ∈ p.models, ¬ f.RefersTo x) :
    ∃ s' ∈ p.schemas, s'.Lists x ∧ p.mentions.lookup x = some ⟨s'.path,s'.lineOf x⟩ := by
  have none : (p.models.flatMap ModelFile.mentions).lookup x = none := by
    apply lookup_of_absent
    intro l inside
    obtain ⟨f,among,first⟩ := List.mem_flatMap.mp inside
    obtain ⟨n,here,-⟩ := ModelFile.mem_mentions.mp first
    exact unreferenced f among here.refersTo
  obtain ⟨l,found,inside⟩ := exists_lookup
    (List.mem_flatMap.mpr ⟨s,among,SchemaFile.mem_mentions.mpr ⟨lists,rfl⟩⟩)
  obtain ⟨s',among',first⟩ := List.mem_flatMap.mp inside
  obtain ⟨lists',rfl⟩ := SchemaFile.mem_mentions.mp first
  refine ⟨s',among',lists',?_⟩
  rw [mentions,List.lookup_append,none,found]
  rfl

end Project

/-- If only dbt is scanned and different models have different nodes, a model with a file is located at
the beginning of its last file. One that has none is located where it is first referred to, and in a
schema file that lists it only if no file refers to it. -/
theorem location?_of_listed (only : settings.sources = dbtOnly)
    (apart : (project settings root).Apart) :
    (∀ x ∈ (project settings root).involved, (scan settings root).location? (modelId x) =
      ((project settings root).own.reverse.lookup x).or
        ((project settings root).mentions.lookup x)) ∧
    (∀ f ∈ (project settings root).models, ∃ f' ∈ (project settings root).models,
      f'.name = f.name ∧
        (scan settings root).location? (modelId f.name) = some ⟨f'.path,1⟩) ∧
    ∀ s ∈ (project settings root).schemas, ∀ x, s.Lists x →
      (∀ f ∈ (project settings root).models, f.name ≠ x) →
      ∃ l, (scan settings root).location? (modelId x) = some l ∧
        ((∃ s' ∈ (project settings root).schemas, s'.Lists x ∧ l.file = s'.path) ↔
          ∀ f ∈ (project settings root).models, ¬ f.RefersTo x) ∧
        ((∃ s' ∈ (project settings root).schemas, s'.Lists x ∧ l = ⟨s'.path,s'.lineOf x⟩) ∨
          ∃ f ∈ (project settings root).models, ∃ n, f.RefersAt x n ∧ l = ⟨f.path,n⟩) := by
  have places {x : String} (among : x ∈ (project settings root).involved) :
      (scan settings root).location? (modelId x) =
        ((project settings root).own.reverse.lookup x).or
          ((project settings root).mentions.lookup x) := by
    rw [scan_eq,findings_eq only]
    exact apart.location? among
  refine ⟨fun x => places,fun f among => ?_,fun s schema x lists fileless => ?_⟩
  · obtain ⟨f',among',named,found⟩ := Project.lookup_own among
    refine ⟨f',among',named,?_⟩
    rw [places (Project.mem_involved.mpr (.inl ⟨f,among,.inl rfl⟩)),found]
    rfl
  · rw [places (Project.mem_involved.mpr (.inr ⟨s,schema,lists⟩)),
      Project.lookup_own_of_absent fileless,Option.none_or]
    by_cases referenced : ∃ f ∈ (project settings root).models, f.RefersTo x
    · obtain ⟨f,among,refers⟩ := referenced
      obtain ⟨f',among',n,here,found⟩ := Project.lookup_mentions_of_refers among refers
      refine ⟨_,found,iff_of_false ?_ fun none => none f among refers,.inr ⟨f',among',n,here,rfl⟩⟩
      rintro ⟨s',schema',-,same⟩
      exact paths_ne among' schema' same
    · have unreferenced : ∀ f ∈ (project settings root).models, ¬ f.RefersTo x :=
        fun f among refers => referenced ⟨f,among,refers⟩
      obtain ⟨s',schema',lists',found⟩ := Project.lookup_mentions_of_lists schema lists unreferenced
      exact ⟨_,found,iff_of_true ⟨s',schema',lists',rfl⟩ unreferenced,
        .inl ⟨s',schema',lists',rfl⟩⟩

def onlyModels : ScanSettings where
  sources := dbtOnly

def schemaText : String := "models:\n  - name: orders\n  - name: raw\n  - name: users\n"

def listedWorkspace : FileTree :=
  .directory
    [("orders.sql",.file (.text "select *\nfrom ref('raw')\n")),
      ("schema.yml",.file (.text schemaText))]

theorem location?_of_listed_users :
    onlyModels.sources = dbtOnly ∧ (project onlyModels listedWorkspace).Apart ∧
    (scan onlyModels listedWorkspace).location? (modelId "orders") = some ⟨"orders.sql",1⟩ ∧
    ∃ l, (scan onlyModels listedWorkspace).location? (modelId "users") = some l ∧
      ∃ s ∈ (project onlyModels listedWorkspace).schemas, s.Lists "users" ∧ l.file = s.path := by
  have only : onlyModels.sources = dbtOnly := rfl
  have facts : (project onlyModels listedWorkspace).Apart ∧
      (∃ s ∈ (project onlyModels listedWorkspace).schemas, s.Lists "users") ∧
      (∀ f ∈ (project onlyModels listedWorkspace).models, f.name ≠ "users" ∧ ¬ f.RefersTo "users") ∧
      "orders" ∈ (project onlyModels listedWorkspace).involved ∧
      ((project onlyModels listedWorkspace).own.reverse.lookup "orders").or
        ((project onlyModels listedWorkspace).mentions.lookup "orders") =
          some ⟨"orders.sql",1⟩ := by
    decide +kernel
  obtain ⟨apart,⟨s,among,lists⟩,nowhere,involved,place⟩ := facts
  obtain ⟨places,-,listed⟩ := location?_of_listed only apart
  obtain ⟨l,found,inside,-⟩ := listed s among "users" lists fun f model => (nowhere f model).1
  exact ⟨only,apart,(places "orders" involved).trans place,l,found,
    inside.mpr fun f model => (nowhere f model).2⟩

/-- A model without a file is listed in a schema file, and yet it is located in a file that refers to it. -/
theorem location?_of_referenced_raw :
    ¬ ∀ (settings : ScanSettings) (root : FileTree), settings.sources = dbtOnly →
      (project settings root).Apart → ∀ s ∈ (project settings root).schemas, ∀ x, s.Lists x →
        (∀ f ∈ (project settings root).models, f.name ≠ x) →
        ∃ l, (scan settings root).location? (modelId x) = some l ∧
          ∃ s' ∈ (project settings root).schemas, s'.Lists x ∧ l.file = s'.path := by
  intro listed
  have facts : (project onlyModels listedWorkspace).Apart ∧
      (∃ s ∈ (project onlyModels listedWorkspace).schemas, s.Lists "raw") ∧
      (∀ f ∈ (project onlyModels listedWorkspace).models, f.name ≠ "raw") ∧
      (scan onlyModels listedWorkspace).location? (modelId "raw") = some ⟨"orders.sql",2⟩ ∧
      ∀ s ∈ (project onlyModels listedWorkspace).schemas, s.path ≠ "orders.sql" := by
    decide +kernel
  obtain ⟨apart,⟨s,among,lists⟩,fileless,referred,elsewhere⟩ := facts
  obtain ⟨l,found,s',among',-,file⟩ :=
    listed onlyModels listedWorkspace rfl apart s among "raw" lists fileless
  obtain rfl := Option.some.inj (referred.symm.trans found)
  exact elsewhere s' among' file.symm

end Dbt

end PipelineAtlas
