import Mathlib.Order.Basic
import Mathlib.Data.String.Basic
import PipelineAtlas.Proofs.FileTree.Walk

/-! Trees to which a file is added. A walk meets all the files that it met before, and the new one at its
place among them, so that a file from which nothing is taken leaves what is taken from the tree as
it is. -/
namespace PipelineAtlas.FileTree

/-- A place where a file may be added: nothing is there, and no file is in the way. -/
def isFree : List String → FileTree → Bool
  | name :: rest,.directory entries =>
    match entries.lookup name with
    | some t => isFree rest t
    | none => true
  | _,_ => false

theorem isDirectory_of_isFree {path : List String} {t : FileTree} (free : isFree path t = true) :
    t.isDirectory = true := by
  cases t with
  | file c => cases path <;> cases free
  | directory entries => rfl

theorem isDirectory_put {path : List String} {t : FileTree} {c : Content}
    (free : isFree path t = true) : (put (.file c) path t).isDirectory = true := by
  cases path with
  | nil => cases t <;> cases free
  | cons name rest => rfl

theorem put_of_lookup {entries : List (String × FileTree)} {name : String} {t : FileTree}
    (found : entries.lookup name = some t) (new : FileTree) (rest : List String) :
    put new (name :: rest) (.directory entries) =
      .directory (setEntry name (put new rest t) entries) := by
  rw [put,FileTree.entries,found,Option.getD_some]

theorem put_of_absent {entries : List (String × FileTree)} {name : String}
    (absent : entries.lookup name = none) (new : FileTree) (rest : List String) :
    put new (name :: rest) (.directory entries) =
      .directory (setEntry name (put new rest empty) entries) := by
  rw [put,FileTree.entries,absent,Option.getD_none]

theorem setEntry_of_absent {entries : List (String × FileTree)} {name : String}
    (absent : entries.lookup name = none) (t : FileTree) :
    setEntry name t entries = entries ++ [(name,t)] := by
  induction entries with
  | nil => rfl
  | cons entry rest ih =>
    obtain ⟨key,old⟩ := entry
    rw [List.lookup_cons] at absent
    split at absent
    next => cases absent
    next other =>
      rw [setEntry,if_neg (Ne.symm (beq_eq_false_iff_ne.mp other)),ih absent]
      rfl

theorem mem_setEntry_self (name : String) (t : FileTree) (entries : List (String × FileTree)) :
    (name,t) ∈ setEntry name t entries := by
  induction entries with
  | nil => exact List.mem_singleton_self _
  | cons entry rest ih =>
    unfold setEntry
    split
    next => exact List.mem_cons_self
    next => exact List.mem_cons_of_mem _ ih

theorem mem_setEntry_of_mem {entries : List (String × FileTree)} {name key : String}
    {t : FileTree} (new : FileTree) (member : (key,t) ∈ entries) :
    (key,t) ∈ setEntry name new entries ∨ key = name ∧ entries.lookup name = some t := by
  induction entries with
  | nil => simp at member
  | cons entry rest ih =>
    obtain ⟨other,old⟩ := entry
    unfold setEntry
    rcases List.mem_cons.mp member with same | later
    · obtain ⟨rfl,rfl⟩ := Prod.mk.inj same
      split
      next here =>
        subst here
        exact .inr ⟨rfl,List.lookup_cons_self⟩
      next => exact .inl List.mem_cons_self
    · split
      next => exact .inl (List.mem_cons_of_mem _ later)
      next apart =>
        rw [List.lookup_cons,beq_eq_false_iff_ne.mpr (Ne.symm apart)]
        exact (ih later).imp_left (List.mem_cons_of_mem _)

theorem Holds.put {ignored path new : List String} {t : FileTree} {c x : Content}
    (holds : Holds ignored t path c) (free : isFree new t = true) :
    Holds ignored (put (.file x) new t) path c := by
  induction holds generalizing new with
  | file c => cases new <;> cases free
  | @entry entries name t rest c member kept below ih =>
    cases new with
    | nil => cases free
    | cons key new =>
      rw [isFree] at free
      split at free
      next t' found =>
        rw [put_of_lookup found]
        let added := FileTree.put (.file x) new t'
        have there : (name,t) ∈ setEntry key added entries ∨
            name = key ∧ entries.lookup key = some t := mem_setEntry_of_mem added member
        rcases there with there | ⟨rfl,first⟩
        · exact .entry there kept below
        · rw [found] at first
          obtain rfl := Option.some.inj first
          apply Holds.entry (mem_setEntry_self _ _ _) _ (ih free)
          rwa [isDirectory_put free,← isDirectory_of_isFree free]
      next absent =>
        rw [put_of_absent absent,setEntry_of_absent absent]
        exact .entry (List.mem_append_left _ member) kept below

def filesUnder (ignored path : List String) (entry : String × FileTree) : List FoundFile :=
  if entry.2.isDirectory && ignored.contains entry.1 then []
  else filesAt ignored (path ++ [entry.1]) entry.2

theorem entryFiles_eq (ignored path : List String) (entries : List (String × FileTree)) :
    entryFiles ignored path entries = entries.map fun e => (e.1,filesUnder ignored path e) := by
  induction entries with
  | nil => rfl
  | cons entry rest ih =>
    rw [entryFiles,ih]
    rfl

section Sorting

variable {α β : Type}

theorem insertByName_map (f : α → β) (entry : String × α) (entries : List (String × α)) :
    insertByName (entry.1,f entry.2) (entries.map fun e => (e.1,f e.2)) =
      (insertByName entry entries).map fun e => (e.1,f e.2) := by
  induction entries with
  | nil => rfl
  | cons other rest ih =>
    rw [List.map_cons,insertByName,insertByName]
    split
    next => rfl
    next => rw [ih,List.map_cons]

theorem sortByName_map (f : α → β) (entries : List (String × α)) :
    sortByName (entries.map fun e => (e.1,f e.2)) =
      (sortByName entries).map fun e => (e.1,f e.2) := by
  induction entries with
  | nil => rfl
  | cons entry rest ih =>
    calc insertByName (entry.1,f entry.2) (sortByName (rest.map fun e => (e.1,f e.2)))
      _ = insertByName (entry.1,f entry.2) ((sortByName rest).map fun e => (e.1,f e.2)) := by
        rw [ih]
      _ = _ := insertByName_map f entry (sortByName rest)

theorem insertByName_comm {x y : String × α} (apart : x.1 ≠ y.1) (entries : List (String × α)) :
    insertByName x (insertByName y entries) = insertByName y (insertByName x entries) := by
  induction entries with
  | nil =>
    rcases lt_or_gt_of_ne apart with less | less
    · simp [insertByName,less.le,less.not_ge]
    · simp [insertByName,less.le,less.not_ge]
  | cons z rest ih =>
    by_cases first : x.1 ≤ z.1
    · by_cases second : y.1 ≤ z.1
      · rcases lt_or_gt_of_ne apart with less | less
        · simp [insertByName,first,second,less.le,less.not_ge]
        · simp [insertByName,first,second,less.le,less.not_ge]
      · have behind : ¬ y.1 ≤ x.1 := fun less => second (less.trans first)
        simp [insertByName,first,second,behind]
    · by_cases second : y.1 ≤ z.1
      · have behind : ¬ x.1 ≤ y.1 := fun less => first (less.trans second)
        simp [insertByName,first,second,behind]
      · simp [insertByName,first,second,ih]

theorem sortByName_concat {x : String × α} {entries : List (String × α)}
    (apart : ∀ y ∈ entries, y.1 ≠ x.1) :
    sortByName (entries ++ [x]) = insertByName x (sortByName entries) := by
  induction entries with
  | nil => rfl
  | cons y rest ih =>
    obtain ⟨here,later⟩ := List.forall_mem_cons.mp apart
    calc insertByName y (sortByName (rest ++ [x]))
      _ = insertByName y (insertByName x (sortByName rest)) := by rw [ih later]
      _ = _ := insertByName_comm here (sortByName rest)

theorem flatMap_insertByName_nil (name : String) (entries : List (String × List α)) :
    (insertByName (name,[]) entries).flatMap (·.2) = entries.flatMap (·.2) := by
  induction entries with
  | nil => rfl
  | cons other rest ih =>
    unfold insertByName
    split
    next => rfl
    next => rw [List.flatMap_cons,ih,List.flatMap_cons]

end Sorting

variable {β : Type}

theorem flatMap_filesAt (ignored path : List String) (entries : List (String × FileTree))
    (take : FoundFile → List β) :
    (filesAt ignored path (.directory entries)).flatMap take =
      (sortByName (entries.map fun e =>
        (e.1,(filesUnder ignored path e).flatMap take))).flatMap (·.2) := by
  have named : entries.map (fun e => (e.1,(filesUnder ignored path e).flatMap take)) =
      (entryFiles ignored path entries).map fun e => (e.1,e.2.flatMap take) := by
    rw [entryFiles_eq,List.map_map]
    rfl
  rw [filesAt,List.flatMap_assoc,named,sortByName_map,List.flatMap_map]

theorem map_setEntry {entries : List (String × FileTree)} {name : String} {t t' : FileTree}
    {f : String × FileTree → β} (found : entries.lookup name = some t)
    (same : f (name,t') = f (name,t)) : (setEntry name t' entries).map f = entries.map f := by
  induction entries with
  | nil => cases found
  | cons entry rest ih =>
    obtain ⟨key,old⟩ := entry
    unfold setEntry
    split
    next here =>
      subst here
      rw [List.lookup_cons_self] at found
      obtain rfl := Option.some.inj found
      rw [List.map_cons,List.map_cons,same]
    next apart =>
      rw [List.lookup_cons,beq_eq_false_iff_ne.mpr (Ne.symm apart)] at found
      rw [List.map_cons,List.map_cons,ih found]

/-- If nothing is taken from the new file, the same is taken from the tree as without it. -/
theorem flatMap_filesAt_put {ignored new : List String} {t : FileTree} {c : Content}
    {take : FoundFile → List β} (free : isFree new t = true) {path : List String}
    (nothing : take ⟨path ++ new,c⟩ = []) :
    (filesAt ignored path (put (.file c) new t)).flatMap take =
      (filesAt ignored path t).flatMap take := by
  induction new generalizing t path with
  | nil => cases t <;> cases free
  | cons name rest ih =>
    have nothing' : take ⟨path ++ [name] ++ rest,c⟩ = [] := by simpa using nothing
    cases t with
    | file => cases free
    | directory entries =>
      rw [isFree] at free
      split at free
      next t found =>
        rw [put_of_lookup found,flatMap_filesAt,flatMap_filesAt,map_setEntry found]
        simp only [filesUnder,isDirectory_put free,isDirectory_of_isFree free]
        split
        next => rfl
        next => rw [ih free nothing']
      next absent =>
        have apart : ∀ y ∈ entries.map fun e => (e.1,(filesUnder ignored path e).flatMap take),
            y.1 ≠ name := by
          intro y member
          obtain ⟨e,inside,rfl⟩ := List.mem_map.mp member
          exact Ne.symm (by simpa using List.lookup_eq_none_iff.mp absent e inside)
        have under : (filesUnder ignored path (name,put (.file c) rest empty)).flatMap take = [] := by
          unfold filesUnder
          split
          next => rfl
          next =>
            cases rest with
            | nil => simpa [put,isDirectory,filesAt] using nothing'
            | cons name' rest => exact ih (t := empty) rfl nothing'
        rw [put_of_absent absent,setEntry_of_absent absent,flatMap_filesAt,flatMap_filesAt,
          List.map_append,List.map_singleton,under,sortByName_concat apart,
          flatMap_insertByName_nil]

end PipelineAtlas.FileTree
