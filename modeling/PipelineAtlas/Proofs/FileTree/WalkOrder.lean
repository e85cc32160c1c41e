import PipelineAtlas.Proofs.FileTree.Added

/-! The order of a walk. In a tree in whose directories no two entries have one name, the paths of the
files that a walk meets increase strictly, name by name, so that no file is met twice. The order of
names is that of their bytes. -/
namespace PipelineAtlas.FileTree

/-- What stands at a path. -/
inductive At : FileTree → List String → FileTree → Prop
  | here (t : FileTree) : At t [] t
  | entry {entries : List (String × FileTree)} {name : String} {t : FileTree} {rest : List String}
      {x : FileTree} (member : (name,t) ∈ entries) (below : At t rest x) :
      At (.directory entries) (name :: rest) x

/-- In no directory two entries have one name. -/
inductive Distinct : FileTree → Prop
  | file (c : Content) : Distinct (.file c)
  | directory {entries : List (String × FileTree)} (names : (entries.map (·.1)).Nodup)
      (below : ∀ e ∈ entries, Distinct e.2) : Distinct (.directory entries)

theorem Holds.at {ignored path : List String} {t : FileTree} {c : Content}
    (holds : Holds ignored t path c) : At t path (.file c) := by
  induction holds with
  | file c => exact .here _
  | entry member _ _ ih => exact .entry member ih

theorem isDirectory_of_at {name : String} {path : List String} {t x : FileTree}
    (place : At t (name :: path) x) : t.isDirectory = true := by
  cases place
  rfl

/-- A walk meets the files below the root that are in no ignored directory. The name of the root and those
of the files do not matter. -/
theorem holds_iff {ignored path : List String} {t : FileTree} {c : Content} :
    Holds ignored t path c ↔
      At t path (.file c) ∧ ∀ name ∈ path.dropLast, name ∉ ignored := by
  constructor
  · intro holds
    refine ⟨holds.at,?_⟩
    induction holds with
    | file c => simp
    | @entry entries name t rest c member kept below ih =>
      cases rest with
      | nil => simp
      | cons next rest =>
        rw [isDirectory_of_at below.at,Bool.true_and,List.contains_eq_mem,decide_eq_false_iff_not]
          at kept
        rw [List.dropLast_cons_cons]
        exact List.forall_mem_cons.mpr ⟨kept,ih⟩
  · rintro ⟨place,clear⟩
    induction path generalizing t with
    | nil =>
      cases place
      exact .file c
    | cons name rest ih =>
      obtain ⟨⟩ | ⟨member,below⟩ := place
      cases rest with
      | nil =>
        cases below
        exact .entry member rfl (.file c)
      | cons next rest =>
        rw [List.dropLast_cons_cons] at clear
        obtain ⟨outside,clear⟩ := List.forall_mem_cons.mp clear
        refine .entry member ?_ (ih below clear)
        rw [List.contains_eq_mem,decide_eq_false outside,Bool.and_false]

theorem mem_files_iff {ignored : List String} {t : FileTree} {f : FoundFile} :
    f ∈ t.files ignored ↔
      At t f.path (.file f.content) ∧ ∀ name ∈ f.path.dropLast, name ∉ ignored :=
  ⟨fun found => holds_iff.mp (holds_of_mem_files found),fun found => mem_files (holds_iff.mpr found)⟩

theorem perm_sortByName (entries : List (String × α)) : (sortByName entries).Perm entries := by
  have inserted (entry : String × α) (sorted : List (String × α)) :
      (insertByName entry sorted).Perm (entry :: sorted) := by
    induction sorted with
    | nil => exact .refl _
    | cons other rest ih =>
      unfold insertByName
      split
      next => exact .refl _
      next => exact (ih.cons other).trans (.swap entry other rest)
  induction entries with
  | nil => exact .nil
  | cons entry rest ih => exact (inserted entry (sortByName rest)).trans (ih.cons entry)

theorem pairwise_sortByName (entries : List (String × α)) :
    (sortByName entries).Pairwise fun a b => a.1 ≤ b.1 := by
  have inserted {entry : String × α} {sorted : List (String × α)}
      (before : sorted.Pairwise fun a b => a.1 ≤ b.1) :
      (insertByName entry sorted).Pairwise fun a b => a.1 ≤ b.1 := by
    induction sorted with
    | nil => exact List.pairwise_singleton _ _
    | cons other rest ih =>
      obtain ⟨least,sortedRest⟩ := List.pairwise_cons.mp before
      unfold insertByName
      split
      next first =>
        refine List.pairwise_cons.mpr ⟨List.forall_mem_cons.mpr ⟨first,?_⟩,before⟩
        exact fun later member => first.trans (least later member)
      next behind =>
        refine List.pairwise_cons.mpr ⟨fun later member => ?_,ih sortedRest⟩
        rcases mem_insertByName.mp member with rfl | old
        · exact le_of_not_ge behind
        · exact least later old
  induction entries with
  | nil => exact .nil
  | cons entry rest ih => exact inserted ih

theorem pairwise_lt_sortByName {entries : List (String × α)} (names : (entries.map (·.1)).Nodup) :
    (sortByName entries).Pairwise fun a b => a.1 < b.1 := by
  have distinct : (sortByName entries).Pairwise fun a b => a.1 ≠ b.1 :=
    List.pairwise_map.mp (((perm_sortByName entries).map Prod.fst).nodup_iff.mpr names)
  exact ((pairwise_sortByName entries).and distinct).imp fun both => lt_of_le_of_ne both.1 both.2

def nameBytes (name : String) : List UInt8 := name.toUTF8.data.toList

theorem nameBytes_eq (name : String) : nameBytes name = name.toList.flatMap String.utf8EncodeChar := by
  rw [nameBytes,String.toUTF8_eq_toByteArray,← String.utf8Encode_toList,List.utf8Encode,
    List.data_toByteArray]

/-- The encoding of a character is in front of that of a greater one, whatever comes behind. -/
theorem utf8EncodeChar_lt {c d : Char} (less : c < d) (s t : List UInt8) :
    String.utf8EncodeChar c ++ s < String.utf8EncodeChar d ++ t := by
  have values : c.val.toNat < d.val.toNat := less
  have top : d.val.toNat ≤ 0x10ffff := by
    have valid := d.valid
    simp only [UInt32.isValidChar,Nat.isValidChar] at valid
    omega
  unfold String.utf8EncodeChar
  generalize c.val.toNat = m at values
  generalize d.val.toNat = n at values top
  dsimp only
  -- a case for each pair of lengths
  split_ifs <;>
    simp (disch := omega) only [List.cons_append,List.nil_append,List.cons_lt_cons_iff,
      UInt8.lt_iff_toNat_lt,← UInt8.toNat_inj,UInt8.toNat_ofNat',Nat.reducePow,Nat.mod_eq_of_lt] <;>
    omega

theorem nameBytes_lt {a b : String} (less : a < b) : nameBytes a < nameBytes b := by
  rw [nameBytes_eq,nameBytes_eq]
  have chars : a.toList < b.toList := String.lt_iff_toList_lt.mp less
  generalize a.toList = s at chars
  generalize b.toList = t at chars
  induction chars with
  | @nil d t =>
    obtain ⟨byte,more,bytes⟩ : ∃ byte more, String.utf8EncodeChar d = byte :: more :=
      List.exists_cons_of_ne_nil fun none => by
        have size := String.length_utf8EncodeChar d
        have positive := d.utf8Size_pos
        rw [none,List.length_nil] at size
        omega
    rw [List.flatMap_nil,List.flatMap_cons,bytes]
    exact List.nil_lt_cons _ _
  | rel less => exact utf8EncodeChar_lt less _ _
  | cons _ ih => exact List.append_left_lt ih

theorem map_nameBytes_lt {path path' : List String} (less : path < path') :
    path.map nameBytes < path'.map nameBytes := by
  induction less with
  | nil => exact List.nil_lt_cons _ _
  | rel less => exact .rel (nameBytes_lt less)
  | cons _ ih => exact .cons ih

theorem path_of_mem_filesUnder {ignored path : List String} {entry : String × FileTree}
    {f : FoundFile} (found : f ∈ filesUnder ignored path entry) :
    ∃ rest, f.path = path ++ entry.1 :: rest := by
  unfold filesUnder at found
  split at found
  next => cases found
  next =>
    obtain ⟨rest,same,-⟩ := holds_of_mem_filesAt found
    exact ⟨rest,by rw [same,List.append_assoc,List.singleton_append]⟩

/-- All below an entry comes before all below an entry with a greater name. -/
theorem pairwise_filesAt {t : FileTree} (distinct : Distinct t) (ignored path : List String) :
    ((filesAt ignored path t).map (·.path)).Pairwise (· < ·) := by
  rw [List.pairwise_map]
  induction distinct generalizing path with
  | file c =>
    rw [filesAt]
    exact List.pairwise_singleton _ _
  | @directory entries names _ ih =>
    rw [filesAt,entryFiles_eq,List.pairwise_flatMap]
    have known {group : String × List FoundFile}
        (member : group ∈ sortByName (entries.map fun e => (e.1,filesUnder ignored path e))) :
        ∃ e ∈ entries, (e.1,filesUnder ignored path e) = group :=
      List.mem_map.mp (mem_sortByName.mp member)
    have increasing : (sortByName (entries.map fun e =>
        (e.1,filesUnder ignored path e))).Pairwise fun a b => a.1 < b.1 := by
      refine pairwise_lt_sortByName ?_
      rwa [List.map_map]
    constructor
    · intro group member
      obtain ⟨e,among,rfl⟩ := known member
      unfold filesUnder
      dsimp only
      split
      next => exact .nil
      next => exact ih e among _
    · refine increasing.imp_of_mem fun member member' less f first g second => ?_
      obtain ⟨e,-,rfl⟩ := known member
      obtain ⟨e',-,rfl⟩ := known member'
      obtain ⟨rest,here⟩ := path_of_mem_filesUnder first
      obtain ⟨rest',there⟩ := path_of_mem_filesUnder second
      rw [here,there]
      exact List.append_left_lt (List.cons_lt_cons_iff.mpr (.inl less))

theorem pairwise_files {t : FileTree} (distinct : Distinct t) (ignored : List String) :
    ((t.files ignored).map (·.path)).Pairwise (· < ·) := pairwise_filesAt distinct ignored []

end PipelineAtlas.FileTree
