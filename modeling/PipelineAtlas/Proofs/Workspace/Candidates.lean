import PipelineAtlas.Loading
import PipelineAtlas.Proofs.FileTree.WalkOrder

/-! Which files a scan reads, and in which order: of each kind those below the root with the
extensions of the kind that are in no ignored directory, by their paths. -/
namespace PipelineAtlas

namespace FileName

theorem takeWhile_append_free {s : List Char} (free : '.' ∉ s) (rest : List Char) :
    (s ++ rest).takeWhile (fun c => decide (c ≠ '.')) =
      s ++ rest.takeWhile fun c => decide (c ≠ '.') := by
  refine List.takeWhile_append_of_pos fun c member => decide_eq_true ?_
  rintro rfl
  exact free member

theorem takeWhile_reverse {before behind : List Char} (free : '.' ∉ behind) :
    (before ++ '.' :: behind).reverse.takeWhile (fun c => decide (c ≠ '.')) = behind.reverse := by
  rw [List.reverse_append,List.reverse_cons,List.append_assoc,
    takeWhile_append_free (List.mem_reverse.not.mpr free)]
  simp

theorem splitAtStop?_of_last {before behind : List Char} (free : '.' ∉ behind) :
    splitAtStop? (before ++ '.' :: behind) =
      if before.isEmpty then none else some (before,behind) := by
  have count : (before ++ '.' :: behind).length - behind.length - 1 = before.length := by
    rw [List.length_append,List.length_cons]
    omega
  have short : behind.length < (before ++ '.' :: behind).length := by
    rw [List.length_append,List.length_cons]
    omega
  unfold splitAtStop?
  simp only [takeWhile_reverse free,List.reverse_reverse,count,List.take_left,short,true_and]
  cases before <;> rfl

theorem splitAtStop?_of_free {name : List Char} (free : '.' ∉ name) : splitAtStop? name = none := by
  have all := takeWhile_append_free (List.mem_reverse.not.mpr free) []
  rw [List.takeWhile_nil,List.append_nil] at all
  unfold splitAtStop?
  simp only [all,List.reverse_reverse,lt_self_iff_false,false_and,if_false]

theorem eq_append_last {name : List Char} (stops : '.' ∈ name) :
    ∃ before behind, name = before ++ '.' :: behind ∧ '.' ∉ behind := by
  obtain ⟨behind,before,whole,free⟩ := List.eq_append_cons_of_mem (List.mem_reverse.mpr stops)
  refine ⟨before.reverse,behind.reverse,?_,by simpa using free⟩
  rw [← List.reverse_reverse name,whole]
  simp

theorem splitAtStop?_eq_some {name before behind : List Char} :
    splitAtStop? name = some (before,behind) ↔
      before ≠ [] ∧ name = before ++ '.' :: behind ∧ '.' ∉ behind := by
  constructor
  · intro split
    by_cases stops : '.' ∈ name
    · obtain ⟨before',behind',rfl,free⟩ := eq_append_last stops
      rw [splitAtStop?_of_last free] at split
      obtain ⟨something,same⟩ := Option.ite_none_left_eq_some.mp split
      obtain ⟨rfl,rfl⟩ := Prod.mk.inj (Option.some.inj same)
      exact ⟨fun empty => something (List.isEmpty_iff.mpr empty),rfl,free⟩
    · rw [splitAtStop?_of_free stops] at split
      cases split
  · rintro ⟨something,rfl,free⟩
    rw [splitAtStop?_of_last free,if_neg (by simpa using something)]

def IsNamed (name extension : String) : Prop :=
  ∃ stem, stem ≠ "" ∧ name = stem ++ "." ++ extension

theorem extension?_eq_some {name extension : String} :
    extension? name = some extension ↔
      IsNamed name extension ∧ '.' ∉ extension.toList := by
  unfold extension?
  rw [Option.map_eq_some_iff]
  constructor
  · rintro ⟨⟨before,behind⟩,split,rfl⟩
    obtain ⟨something,whole,free⟩ := splitAtStop?_eq_some.mp split
    refine ⟨⟨String.ofList before,?_,?_⟩,by simpa using free⟩
    · intro empty
      exact something (by simpa using congrArg String.toList empty)
    · rw [← String.toList_inj]
      simp [whole]
  · rintro ⟨⟨stem,something,rfl⟩,free⟩
    refine ⟨(stem.toList,extension.toList),?_,String.ofList_toList⟩
    refine splitAtStop?_eq_some.mpr ⟨?_,by simp,free⟩
    intro empty
    exact something (String.toList_eq_nil_iff.mp empty)

end FileName

theorem FoundFile.hasExtension_iff {f : FoundFile} {extensions : List String}
    (plain : ∀ e ∈ extensions, '.' ∉ e.toList) :
    f.hasExtension extensions = true ↔ ∃ e ∈ extensions, FileName.IsNamed f.name e := by
  rw [hasExtension,Option.any_eq_true]
  constructor
  · rintro ⟨e,found,listed⟩
    exact ⟨e,List.contains_iff_mem.mp listed,(FileName.extension?_eq_some.mp found).1⟩
  · rintro ⟨e,listed,named⟩
    exact ⟨e,FileName.extension?_eq_some.mpr ⟨named,plain e listed⟩,
      List.contains_iff_mem.mpr listed⟩

namespace Workspace

def candidates (settings : ScanSettings) (root : FileTree) (extensions : List String) :
    List FoundFile :=
  (root.files settings.ignoredDirectories).filter (·.hasExtension extensions)

/-- A file below the root with one of the extensions and in no ignored directory. -/
structure IsCandidate (settings : ScanSettings) (root : FileTree) (extensions : List String)
    (f : FoundFile) : Prop where
  place : root.At f.path (.file f.content)
  named : ∃ e ∈ extensions, FileName.IsNamed f.name e
  kept : ∀ name ∈ f.path.dropLast, name ∉ settings.ignoredDirectories

def readEach (settings : ScanSettings)
    (add : SourceToggles → FoundFile → List Char → PipelineGraph → PipelineGraph)
    (files : List FoundFile) (g : PipelineGraph) : PipelineGraph :=
  files.foldl
    (fun g f =>
      match readable? settings f with
      | some content => add settings.sources f content g
      | none => g) g

theorem mem_candidates {settings : ScanSettings} {root : FileTree} {extensions : List String}
    {f : FoundFile} (plain : ∀ e ∈ extensions, '.' ∉ e.toList) :
    f ∈ candidates settings root extensions ↔ IsCandidate settings root extensions f := by
  rw [candidates,List.mem_filter,FileTree.mem_files_iff,FoundFile.hasExtension_iff plain]
  exact ⟨fun ⟨⟨place,kept⟩,named⟩ => ⟨place,named,kept⟩,
    fun ⟨place,named,kept⟩ => ⟨⟨place,kept⟩,named⟩⟩

theorem pairwise_candidates {root : FileTree} (distinct : root.Distinct) (settings : ScanSettings)
    (extensions : List String) :
    (candidates settings root extensions).Pairwise fun f g => f.path < g.path :=
  (List.pairwise_map.mp
    (FileTree.pairwise_files distinct settings.ignoredDirectories)).filter _

/-- A scan reads the Python files first, then the SQL files, then the YAML files, each kind by the
paths, name by name and the names by their bytes, and each file once. The name of the root does not
matter. -/
theorem scan?_of_directory {root : FileTree} (distinct : root.Distinct)
    (directory : root.isDirectory = true) (settings : ScanSettings) :
    (∀ extensions ∈ [["py"],["sql"],["yml","yaml"]],
      (∀ f, f ∈ candidates settings root extensions ↔ IsCandidate settings root extensions f) ∧
      (candidates settings root extensions).Nodup ∧
      (candidates settings root extensions).Pairwise fun f g =>
        f.path < g.path ∧ f.path.map FileTree.nameBytes < g.path.map FileTree.nameBytes) ∧
    ∀ (paths : Paths) (path : String), paths path = some root → paths.scan? settings path =
      some (readEach settings addYaml (candidates settings root ["yml","yaml"])
        (readEach settings addSql (candidates settings root ["sql"])
          (readEach settings addScript (candidates settings root ["py"]) .empty))) := by
  constructor
  · intro extensions kind
    have plain : ∀ e ∈ extensions, '.' ∉ e.toList := by
      revert extensions
      decide
    have increasing := pairwise_candidates distinct settings extensions
    refine ⟨fun f => mem_candidates plain,increasing.imp ?_,
      increasing.imp fun less => ⟨less,FileTree.map_nameBytes_lt less⟩⟩
    rintro f g less rfl
    exact lt_irrefl _ less
  · intro paths path stands
    rw [Paths.scan?,stands,Option.filter_some,if_pos directory]
    rfl

/-- A workspace with a directory and a file of ignored names, in a directory of such a name. -/
def ignoring : FileTree :=
  .directory
    [("target",.directory [("b.py",.file (.text "b = BashOperator("))]),
      ("a-b.py",.file (.text "# airflow\nc = BashOperator(")),
      ("x.py",.file (.text "# airflow\nd = BashOperator(")),
      ("a",.directory [("x.py",.file (.text "# airflow\ne = BashOperator(")),
        (".py",.file (.text "# airflow\nf = BashOperator(")),
        ("X.PY",.file (.text "# airflow\ng = BashOperator("))])]

theorem distinct_ignoring : ignoring.Distinct := by
  have files {entries : List (String × FileTree)} (all : ∀ e ∈ entries, e.2.isDirectory = false)
      (e : String × FileTree) (member : e ∈ entries) : e.2.Distinct := by
    obtain ⟨name,c | entries⟩ := e
    · exact .file c
    · cases all _ member
  refine .directory (by decide) ?_
  refine List.forall_mem_cons.mpr ⟨.directory (by decide) (files (by decide)),?_⟩
  refine List.forall_mem_cons.mpr ⟨.file _,List.forall_mem_cons.mpr ⟨.file _,?_⟩⟩
  exact List.forall_mem_singleton.mpr (.directory (by decide) (files (by decide)))

theorem scan?_of_directory_ignoring :
    let settings : ScanSettings := { ignoredDirectories := ["target","x.py"] }
    let paths : Paths := fun path => if path = "ws/target" then some ignoring else none
    ignoring.Distinct ∧ ignoring.isDirectory = true ∧
    (candidates settings ignoring ["py"]).map (·.pathText) = ["a/x.py","a-b.py","x.py"] ∧
    (∀ f, f ∈ candidates settings ignoring ["py"] ↔ IsCandidate settings ignoring ["py"] f) ∧
    paths.scan? settings "ws/target" =
      some (readEach settings addScript (candidates settings ignoring ["py"]) .empty) ∧
    (paths.scan? settings "ws/target").map (fun g => g.nodes.map (·.label)) =
      some ["e","c","d"] := by
  intro settings paths
  have directory : ignoring.isDirectory = true := rfl
  have stands : paths "ws/target" = some ignoring := rfl
  obtain ⟨lists,scanned⟩ := scan?_of_directory distinct_ignoring directory settings
  have found := scanned paths "ws/target" stands
  have models : candidates settings ignoring ["sql"] = [] := by decide +kernel
  have definitions : candidates settings ignoring ["yml","yaml"] = [] := by decide +kernel
  rw [models,definitions] at found
  refine ⟨distinct_ignoring,directory,by decide +kernel,(lists ["py"] (by simp)).1,found,?_⟩
  rw [found]
  decide +kernel

end Workspace

end PipelineAtlas
