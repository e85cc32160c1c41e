import PipelineAtlas.FileTree

/-! Which files a walk meets: those that the tree holds on paths without ignored directories. -/
namespace PipelineAtlas.FileTree

/-- A file at a path through directories that are not passed over. -/
inductive Holds (ignored : List String) : FileTree → List String → Content → Prop
  | file (c : Content) : Holds ignored (.file c) [] c
  | entry {entries : List (String × FileTree)} {name : String} {t : FileTree} {rest : List String}
      {c : Content} (member : (name,t) ∈ entries)
      (kept : (t.isDirectory && ignored.contains name) = false) (below : Holds ignored t rest c) :
      Holds ignored (.directory entries) (name :: rest) c

theorem mem_insertByName {entry x : String × α} {entries : List (String × α)} :
    x ∈ insertByName entry entries ↔ x = entry ∨ x ∈ entries := by
  induction entries with
  | nil => simp [insertByName]
  | cons other rest ih =>
    unfold insertByName
    split
    next => simp
    next =>
      rw [List.mem_cons,ih,List.mem_cons]
      exact or_left_comm

theorem mem_sortByName {x : String × α} {entries : List (String × α)} :
    x ∈ sortByName entries ↔ x ∈ entries := by
  induction entries with
  | nil => simp [sortByName]
  | cons entry rest ih =>
    have sorted : sortByName (entry :: rest) = insertByName entry (sortByName rest) := rfl
    rw [sorted,mem_insertByName,ih,List.mem_cons]

theorem mem_entryFiles {ignored path : List String} {entries : List (String × FileTree)}
    {name : String} {t : FileTree} (member : (name,t) ∈ entries)
    (kept : (t.isDirectory && ignored.contains name) = false) :
    (name,filesAt ignored (path ++ [name]) t) ∈ entryFiles ignored path entries := by
  induction entries with
  | nil => simp at member
  | cons entry rest ih =>
    obtain ⟨name',t'⟩ := entry
    rw [entryFiles]
    rcases List.mem_cons.mp member with same | later
    · obtain ⟨rfl,rfl⟩ := Prod.mk.inj same
      rw [kept]
      exact List.mem_cons_self
    · exact List.mem_cons_of_mem _ (ih later)

theorem mem_of_mem_entryFiles {ignored path : List String} {entries : List (String × FileTree)}
    {entry : String × List FoundFile} {f : FoundFile} (member : entry ∈ entryFiles ignored path entries)
    (inside : f ∈ entry.2) : ∃ t, (entry.1,t) ∈ entries ∧
      (t.isDirectory && ignored.contains entry.1) = false ∧
        f ∈ filesAt ignored (path ++ [entry.1]) t := by
  induction entries with
  | nil => simp [entryFiles] at member
  | cons other rest ih =>
    obtain ⟨name,t⟩ := other
    rw [entryFiles] at member
    rcases List.mem_cons.mp member with rfl | later
    · refine ⟨t,List.mem_cons_self,?_⟩
      split at inside
      next => simp at inside
      next kept => exact ⟨Bool.eq_false_iff.mpr kept,inside⟩
    · obtain ⟨t',among,kept,found⟩ := ih later
      exact ⟨t',List.mem_cons_of_mem _ among,kept,found⟩

theorem mem_filesAt {ignored : List String} {t : FileTree} {rest : List String} {c : Content}
    (holds : Holds ignored t rest c) (path : List String) :
    ⟨path ++ rest,c⟩ ∈ filesAt ignored path t := by
  induction holds generalizing path with
  | file c => simp [filesAt]
  | @entry entries name t rest c member kept below ih =>
    rw [filesAt,List.mem_flatMap]
    refine ⟨_,mem_sortByName.mpr (mem_entryFiles member kept),?_⟩
    simpa using ih (path ++ [name])

theorem mem_files {ignored : List String} {t : FileTree} {path : List String} {c : Content}
    (holds : Holds ignored t path c) : ⟨path,c⟩ ∈ t.files ignored := mem_filesAt holds []

theorem holds_of_mem_filesAt {ignored path : List String} {t : FileTree} {f : FoundFile}
    (found : f ∈ filesAt ignored path t) :
    ∃ rest, f.path = path ++ rest ∧ Holds ignored t rest f.content := by
  -- the entries of a directory are smaller than it is
  induction bound : sizeOf t using Nat.strongRecOn generalizing t path with
  | _ size ih =>
  cases t with
  | file c =>
    rw [filesAt] at found
    obtain rfl := List.mem_singleton.mp found
    exact ⟨[],(List.append_nil path).symm,.file c⟩
  | directory entries =>
    rw [filesAt,List.mem_flatMap] at found
    obtain ⟨entry,among,inside⟩ := found
    obtain ⟨t,member,kept,below⟩ := mem_of_mem_entryFiles (mem_sortByName.mp among) inside
    have smaller : sizeOf t < size := by
      have less := List.sizeOf_lt_of_mem member
      simp only [Prod.mk.sizeOf_spec] at less
      simp only [FileTree.directory.sizeOf_spec] at bound
      omega
    obtain ⟨rest,longer,holds⟩ := ih _ smaller below rfl
    exact ⟨entry.1 :: rest,by simp [longer],.entry member kept holds⟩

theorem holds_of_mem_files {ignored : List String} {t : FileTree} {f : FoundFile}
    (found : f ∈ t.files ignored) : Holds ignored t f.path f.content := by
  obtain ⟨rest,path,holds⟩ := holds_of_mem_filesAt found
  rw [List.nil_append] at path
  rwa [path]

end PipelineAtlas.FileTree
