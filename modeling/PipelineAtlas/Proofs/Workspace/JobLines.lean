import PipelineAtlas.Proofs.Text.Token
import PipelineAtlas.Proofs.Workspace.Recorded

/-! The lines of jobs in workflows that are written in blocks. The first line below the jobs that begins
like the key of a job is taken for it, however deep it stands: the key of the job itself is found only if
nothing nested in the jobs before it begins so. -/
namespace PipelineAtlas.Workflow

open Text PipelineGraph

theorem definitions_findings (v : Yaml.Value) (content : List Char) (file : String) :
    Finding.definitions (findings v content file) = (jobs v).map fun job =>
      (⟨file,job.1⟩,⟨file,jobLine (linesBelowJobs content) job.1⟩) := by
  have needs (name : String) (needs : List String) :
      Finding.definitions (needFindings file name needs) = [] := by
    rw [needFindings,Finding.definitions_flatMap,List.flatMap_eq_nil_iff]
    exact fun _ _ => rfl
  rw [findings,Finding.definitions_flatMap,List.map_eq_flatMap]
  refine congrArg (List.flatMap · _) (funext fun job => ?_)
  have here : Finding.definitions (jobFindings (linesBelowJobs content) file job) =
      (⟨file,job.1⟩,⟨file,jobLine (linesBelowJobs content) job.1⟩) ::
        Finding.definitions (needFindings file job.1 job.2) := rfl
  rw [Function.comp_apply,here,needs]

/-- A job that shares its node with no other job of the file. -/
structure IsJobOf (v : Yaml.Value) (file name : String) : Prop where
  among : name ∈ (jobs v).map (·.1)
  apart : ∀ other ∈ (jobs v).map (·.1), nodeId file other = nodeId file name → other = name

theorem IsJobOf.location? {v : Yaml.Value} {file name : String} (job : IsJobOf v file name)
    (content : List Char) (g : PipelineGraph) :
    (extract v content file g).location? (nodeId file name) =
      some ⟨file,jobLine (linesBelowJobs content) name⟩ := by
  have found : (((Finding.definitions (findings v content file)).map Finding.place).reverse.lookup
      (nodeId file name)) = some ⟨file,jobLine (linesBelowJobs content) name⟩ := by
    rw [definitions_findings,List.map_map]
    apply FirstOccurrence.lookup_of_unique
    · obtain ⟨entry,member,rfl⟩ := List.mem_map.mp job.among
      exact List.mem_reverse.mpr (List.mem_map.mpr ⟨entry,member,rfl⟩)
    · intro l inside
      obtain ⟨entry,member,same⟩ := List.mem_map.mp (List.mem_reverse.mp inside)
      obtain ⟨node,rfl⟩ := Prod.mk.inj same
      rw [← job.apart entry.1 (List.mem_map_of_mem member) node]
  rw [extract_eq,location?_record_onto,found]
  rfl

/-- A job as it is written: its name, the line of its key, and the lines below this. -/
structure JobBlock where
  name : String
  key : List Char
  nested : List (List Char)

def JobBlock.lines (j : JobBlock) : List (List Char) := j.key :: j.nested

/-- A workflow as it is written: the lines above the jobs, the line that begins them, remarks in front
of the first one, the jobs, and what follows them. -/
structure BlockText where
  above : List (List Char)
  header : List Char
  remarks : List (List Char)
  jobs : List JobBlock
  behind : List (List Char)

namespace BlockText

def below (w : BlockText) : List (List Char) :=
  w.remarks ++ (w.jobs.flatMap JobBlock.lines ++ w.behind)

def lines (w : BlockText) : List (List Char) := w.above ++ w.header :: w.below

def front (w : BlockText) (before : List JobBlock) : List (List Char) :=
  w.remarks ++ before.flatMap JobBlock.lines

/-- The number of the line with the key of the job behind some others. -/
def keyLine (w : BlockText) (before : List JobBlock) : Nat :=
  w.above.length + 2 + (w.front before).length

end BlockText

def IsRemark (line : List Char) : Prop := ∀ c ∈ (trim line).head?, c = '#'

def indentation (n : Nat) : List Char := List.replicate n ' '

/-- The line of a key, this far to the right, as it is or in quotation marks. -/
def IsKeyLine (indent : Nat) (name : String) (line : List Char) : Prop :=
  ∃ form ∈ keyForms name, ∃ rest, (∀ c ∈ form.toList.head?, isBlank c = false) ∧
    (∀ c ∈ rest.head?, isBlank c = true) ∧ line = indentation indent ++ (form.toList ++ rest)

/-- A line that belongs to something this far to the right. -/
def IsNested (indent : Nat) (line : List Char) : Prop :=
  indentation (indent + 1) <+: line ∨ IsRemark line

def isJobChar (c : Char) : Bool := isAsciiWord c || c == '-'

def IsJobName (name : String) : Prop := name ≠ "" ∧ ∀ c ∈ name.toList, isJobChar c = true

/-- The jobs stand in blocks, one level to the right, under a line that begins with `jobs:`. -/
structure BlockText.IsBlock (w : BlockText) (indent : Nat) : Prop where
  indented : 0 < indent
  above : ∀ line ∈ w.above, ¬ "jobs:".toList <+: line
  header : "jobs:".toList <+: w.header
  remarks : ∀ line ∈ w.remarks, IsRemark line
  distinct : (w.jobs.map (·.name)).Nodup
  keys : ∀ j ∈ w.jobs, IsKeyLine indent j.name j.key
  nested : ∀ j ∈ w.jobs, ∀ line ∈ j.nested, IsNested indent line

theorem BlockText.IsBlock.linesBelowJobs {w : BlockText} {indent : Nat} (block : w.IsBlock indent)
    {content : List Char} (laid : Text.lines content = w.lines) :
    Workflow.linesBelowJobs content =
      (w.below.zipIdx (w.above.length + 2)).map fun (line,n) => (trim line,n) := by
  have passed : ∀ p ∈ w.above.zipIdx 1, (!"jobs:".toList.isPrefixOf p.1) = true := by
    intro p inside
    rw [Bool.not_eq_true',Bool.eq_false_iff,ne_eq,List.isPrefixOf_iff_prefix]
    exact block.above p.1 (List.fst_mem_of_mem_zipIdx inside)
  have begins : "jobs:".toList.isPrefixOf w.header = true :=
    List.isPrefixOf_iff_prefix.mpr block.header
  simp only [Workflow.linesBelowJobs]
  rw [laid,BlockText.lines,List.zipIdx_append,List.dropWhile_append_of_pos passed,List.zipIdx_cons,
    List.dropWhile_cons_of_neg (by rw [begins]; decide)]
  rw [List.drop_one,List.tail_cons,Nat.add_comm 1 w.above.length]

theorem hasKey_iff {name : String} {line : List Char} :
    hasKey name line = true ↔ ∃ form ∈ keyForms name, form.toList <+: line := by
  simp only [hasKey,List.any_eq_true,List.isPrefixOf_iff_prefix]

/-- What stands at the beginning of a line in the place of a key. -/
def keyOf (line : List Char) : List Char :=
  (line.dropWhile Source.isQuoteMark).takeWhile isJobChar

theorem keyOf_quote {q : Char} (mark : Source.isQuoteMark q = true) (line : List Char) :
    keyOf (q :: line) = keyOf line := by
  rw [keyOf,List.dropWhile_cons_of_pos mark,keyOf]

theorem isQuoteMark_of_isJobChar {c : Char} (word : isJobChar c = true) :
    Source.isQuoteMark c = false := by
  cases mark : Source.isQuoteMark c with
  | false => rfl
  | true =>
    rw [Source.isQuoteMark,Bool.or_eq_true,beq_iff_eq,beq_iff_eq] at mark
    rcases mark with rfl | rfl <;> exact absurd word (by decide)

theorem IsJobName.exists_cons {name : String} (word : IsJobName name) :
    ∃ c t, name.toList = c :: t ∧ isJobChar c = true := by
  have nonempty : name.toList ≠ [] := by simpa using word.1
  obtain ⟨c,t,start⟩ := List.exists_cons_of_ne_nil nonempty
  exact ⟨c,t,start,word.2 c (by simp [start])⟩

theorem keyOf_name {name : String} (word : IsJobName name) {d : Char} (stops : isJobChar d = false)
    (rest : List Char) : keyOf (name.toList ++ d :: rest) = name.toList := by
  obtain ⟨c,t,start,first⟩ := word.exists_cons
  have kept : (name.toList ++ d :: rest).dropWhile Source.isQuoteMark = name.toList ++ d :: rest := by
    rw [start,List.cons_append,List.dropWhile_cons_of_neg (by simp [isQuoteMark_of_isJobChar first])]
  rw [keyOf,kept,List.takeWhile_append_of_pos word.2,List.takeWhile_cons_of_neg (by simp [stops]),
    List.append_nil]

theorem keyOf_of_hasKey {name : String} (word : IsJobName name) {line : List Char}
    (has : hasKey name line = true) : keyOf line = name.toList := by
  obtain ⟨form,among,rest,rfl⟩ := hasKey_iff.mp has
  simp only [keyForms,List.mem_cons,List.not_mem_nil,or_false] at among
  rcases among with rfl | rfl | rfl
  · simpa using keyOf_name word (d := ':') (by decide) rest
  · have inner := keyOf_name word (d := '"') (by decide) (':' :: rest)
    rw [← keyOf_quote (q := '"') (by decide)] at inner
    simpa using inner
  · have inner := keyOf_name word (d := '\'') (by decide) (':' :: rest)
    rw [← keyOf_quote (q := '\'') (by decide)] at inner
    simpa using inner

theorem prefix_trim {front : List Char} (some : front ≠ [])
    (first : ∀ c ∈ front.head?, isBlank c = false) (last : ∀ c ∈ front.getLast?, isBlank c = false)
    {blanks : List Char} (blank : ∀ c ∈ blanks, isBlank c = true) (rest : List Char) :
    front <+: trim (blanks ++ (front ++ rest)) := by
  have kept : trimLeft (front ++ rest) = front ++ rest := by
    obtain ⟨c,t,rfl⟩ := List.exists_cons_of_ne_nil some
    exact List.dropWhile_cons_of_neg (by simp [first c rfl])
  rw [trim_blanks_append blank,trim,kept]
  obtain ⟨gone,split,blank'⟩ := exists_trimRight (front ++ rest)
  generalize trimRight (front ++ rest) = cut at split
  rcases List.prefix_or_prefix_of_prefix (List.prefix_append front rest) ⟨gone,split.symm⟩ with
    within | ⟨behind,rfl⟩
  · exact within
  · -- a character behind the cut would be a blank, and the last one is none
    cases ended : behind.getLast? with
    | none =>
      rw [List.getLast?_eq_none_iff.mp ended,List.append_nil]
    | some c =>
      have end' : c ∈ (cut ++ behind).getLast? := by
        rw [List.getLast?_append,ended]
        rfl
      rw [List.append_assoc,List.append_cancel_left_eq] at split
      have inside : c ∈ gone := by
        rw [← split]
        exact List.mem_append_left rest (List.mem_of_getLast? ended)
      exact absurd (blank' c inside) (by simp [last c end'])

theorem ends_of_keyForms {name form : String} (among : form ∈ keyForms name) :
    ∃ t, form.toList = t ++ [':'] := by
  simp only [keyForms,List.mem_cons,List.not_mem_nil,or_false] at among
  rcases among with rfl | rfl | rfl
  · exact ⟨name.toList,by simp⟩
  · exact ⟨'"' :: (name.toList ++ ['"']),by simp⟩
  · exact ⟨'\'' :: (name.toList ++ ['\'']),by simp⟩

theorem hasKey_keyLine {indent : Nat} {name : String} {line : List Char}
    (key : IsKeyLine indent name line) : hasKey name (trim line) = true := by
  obtain ⟨form,among,rest,first,-,rfl⟩ := key
  have spaces : ∀ c ∈ indentation indent, isBlank c = true := by
    intro c inside
    obtain rfl := List.eq_of_mem_replicate inside
    decide
  obtain ⟨t,ends⟩ := ends_of_keyForms among
  refine hasKey_iff.mpr ⟨form,among,prefix_trim ?_ first ?_ spaces rest⟩
  · simp [ends]
  · rw [ends,List.getLast?_concat]
    intro d last
    obtain rfl := Option.some.inj last
    decide

theorem hasKey_other {name other : String} (word : IsJobName name) (word' : IsJobName other)
    (apart : other ≠ name) {indent : Nat} {line : List Char} (key : IsKeyLine indent other line) :
    hasKey name (trim line) = false := by
  rw [Bool.eq_false_iff]
  intro has
  have own := keyOf_of_hasKey word' (hasKey_keyLine key)
  rw [keyOf_of_hasKey word has] at own
  exact apart (String.toList_inj.mp own).symm

theorem hasKey_remark {name : String} (word : IsJobName name) {line : List Char}
    (remark : IsRemark line) : hasKey name (trim line) = false := by
  rw [Bool.eq_false_iff]
  intro has
  have key := keyOf_of_hasKey word has
  have nothing : keyOf (trim line) = [] := by
    unfold IsRemark at remark
    cases first : trim line with
    | nil => rfl
    | cons c rest =>
      rw [first] at remark
      obtain rfl := remark c rfl
      rfl
  rw [nothing] at key
  exact word.1 (by simpa using key.symm)

theorem find?_zipIdx_eq_some {p : α → Bool} {items : List α} {k n : Nat} {x : α} :
    (items.zipIdx k).find? (fun e => p e.1) = some (x,n) ↔ ∃ front back,
      items = front ++ x :: back ∧ (∀ y ∈ front, p y = false) ∧ p x = true ∧ n = k + front.length := by
  induction items generalizing k with
  | nil => simp
  | cons y items ih =>
    rw [List.zipIdx_cons,List.find?_cons]
    cases passes : p y with
    | true =>
      constructor
      · intro found
        obtain ⟨rfl,rfl⟩ := Prod.mk.inj (Option.some.inj found)
        exact ⟨[],items,rfl,by simp,passes,rfl⟩
      · rintro ⟨front,back,split,none,has,rfl⟩
        cases front with
        | nil =>
          obtain ⟨rfl,rfl⟩ := List.cons.inj split
          rfl
        | cons z front =>
          obtain ⟨rfl,-⟩ := List.cons.inj split
          simp [passes] at none
    | false =>
      refine ih.trans ⟨?_,?_⟩
      · rintro ⟨front,back,rfl,none,has,rfl⟩
        refine ⟨y :: front,back,rfl,List.forall_mem_cons.mpr ⟨passes,none⟩,has,?_⟩
        rw [List.length_cons]
        omega
      · rintro ⟨front,back,split,none,has,rfl⟩
        cases front with
        | nil =>
          obtain ⟨rfl,-⟩ := List.cons.inj split
          simp [passes] at has
        | cons z front =>
          obtain ⟨rfl,rfl⟩ := List.cons.inj split
          refine ⟨front,back,rfl,(List.forall_mem_cons.mp none).2,has,?_⟩
          rw [List.length_cons]
          omega

namespace BlockText

/-- The number of the first line below the header that begins like the key of a job. -/
def FirstKey (w : BlockText) (name : String) (n : Nat) : Prop :=
  ∃ front line back, w.below = front ++ line :: back ∧
    (∀ other ∈ front, hasKey name (trim other) = false) ∧ hasKey name (trim line) = true ∧
      n = w.above.length + 2 + front.length

variable {w : BlockText} {indent : Nat} {before later : List JobBlock} {j : JobBlock}

theorem FirstKey.unique {name : String} {m n : Nat} (first : w.FirstKey name m)
    (again : w.FirstKey name n) : m = n := by
  obtain ⟨front,line,back,found⟩ := first
  obtain ⟨front',line',back',found'⟩ := again
  have left := find?_zipIdx_eq_some.mpr ⟨front,back,found⟩
  have right := find?_zipIdx_eq_some.mpr ⟨front',back',found'⟩
  exact (Prod.mk.inj (Option.some.inj (left.symm.trans right))).2

theorem below_eq (place : w.jobs = before ++ j :: later) : w.below =
    w.front before ++ j.key :: (j.nested ++ (later.flatMap JobBlock.lines ++ w.behind)) := by
  simp [below,front,place,JobBlock.lines]

theorem getElem?_keyLine (place : w.jobs = before ++ j :: later) :
    w.lines[w.keyLine before - 1]? = some j.key := by
  have whole : w.lines = (w.above ++ w.header :: w.front before) ++
      j.key :: (j.nested ++ (later.flatMap JobBlock.lines ++ w.behind)) := by
    rw [BlockText.lines,below_eq place,List.append_assoc,List.cons_append]
  have number : w.keyLine before - 1 = (w.above ++ w.header :: w.front before).length := by
    rw [keyLine,List.length_append,List.length_cons]
    omega
  rw [whole,number,List.getElem?_append_right (Nat.le_refl _),Nat.sub_self]
  rfl

theorem FirstKey.eq_keyLine_iff (place : w.jobs = before ++ j :: later) {n : Nat}
    (first : w.FirstKey j.name n) (has : hasKey j.name (trim j.key) = true) :
    n = w.keyLine before ↔ ∀ line ∈ w.front before, hasKey j.name (trim line) = false := by
  constructor
  · intro same
    obtain ⟨front,line,back,split,none,-,number⟩ := first
    have size : front.length = (w.front before).length := by
      rw [keyLine] at same
      omega
    rwa [List.append_inj_left (split.symm.trans (below_eq place)) size] at none
  · intro none
    exact first.unique ⟨_,_,_,below_eq place,none,has,rfl⟩

namespace IsBlock

variable (block : w.IsBlock indent)

include block

theorem firstKey {content : List Char} (laid : Text.lines content = w.lines) {name : String}
    {line : List Char} (among : line ∈ w.below) (has : hasKey name (trim line) = true) :
    w.FirstKey name (jobLine (Workflow.linesBelowJobs content) name) := by
  have some : ((w.below.zipIdx (w.above.length + 2)).find?
      fun p => hasKey name (trim p.1)).isSome = true := by
    obtain ⟨i,bound,rfl⟩ := List.getElem_of_mem among
    rw [List.find?_isSome]
    refine ⟨(w.below[i],w.above.length + 2 + i),?_,has⟩
    rw [List.mk_mem_zipIdx_iff_le_and_getElem?_sub,Nat.add_sub_cancel_left]
    exact ⟨Nat.le_add_right _ i,List.getElem?_eq_getElem bound⟩
  obtain ⟨⟨l,n⟩,found⟩ := Option.isSome_iff_exists.mp some
  have line : jobLine (Workflow.linesBelowJobs content) name = n := by
    have below : (Workflow.linesBelowJobs content).find? (fun (line,_) => hasKey name line) =
        .some (trim l,n) := by
      rw [block.linesBelowJobs laid,List.find?_map]
      exact congrArg (Option.map _) found
    rw [jobLine,below]
  obtain ⟨front,back,split,none,here,number⟩ :=
    (find?_zipIdx_eq_some (p := fun line => hasKey name (trim line))).mp found
  exact ⟨front,l,back,split,none,here,line.trans number⟩

/-- Among jobs with usual names, only what is nested in those before can begin like the key of a job. -/
theorem hasKey_front_iff (names : ∀ i ∈ w.jobs, IsJobName i.name) (place : w.jobs = before ++ j :: later) :
    (∀ line ∈ w.front before, hasKey j.name (trim line) = false) ↔
      ∀ i ∈ before, ∀ line ∈ i.nested, hasKey j.name (trim line) = false := by
  have own : j ∈ w.jobs := by simp [place]
  constructor
  · intro none i earlier line nested
    exact none line (List.mem_append_right _
      (List.mem_flatMap.mpr ⟨i,earlier,List.mem_cons_of_mem _ nested⟩))
  · intro unlike line inside
    rcases List.mem_append.mp inside with remark | inside
    · exact hasKey_remark (names j own) (block.remarks line remark)
    · obtain ⟨i,earlier,member⟩ := List.mem_flatMap.mp inside
      have among : i ∈ w.jobs := by simp [place,earlier]
      rcases List.mem_cons.mp member with rfl | nested
      · have apart : i.name ≠ j.name := by
          have distinct := block.distinct
          rw [place,List.map_append,List.nodup_append] at distinct
          exact distinct.2.2 i.name (List.mem_map_of_mem earlier) j.name (by simp)
        exact hasKey_other (names j own) (names i among) apart (block.keys i among)
      · exact unlike i earlier line nested

end IsBlock

end BlockText

/-- A job is located at the first line below the jobs that begins like its key. This is the line of its
own key exactly if no line in front of this begins so, and with usual names exactly if no line nested in a
job before it does. -/
theorem location?_of_block {w : BlockText} {indent : Nat} (block : w.IsBlock indent)
    {content : List Char} (laid : Text.lines content = w.lines) {before later : List JobBlock}
    {j : JobBlock} (place : w.jobs = before ++ j :: later) {v : Yaml.Value} {file : String}
    (job : IsJobOf v file j.name) (g : PipelineGraph) :
    (Text.lines content)[w.keyLine before - 1]? = some j.key ∧
    ∃ n, (extract v content file g).location? (nodeId file j.name) = some ⟨file,n⟩ ∧
      w.FirstKey j.name n ∧
      (n = w.keyLine before ↔ ∀ line ∈ w.front before, hasKey j.name (trim line) = false) ∧
      ((∀ i ∈ w.jobs, IsJobName i.name) → (n = w.keyLine before ↔
        ∀ i ∈ before, ∀ line ∈ i.nested, hasKey j.name (trim line) = false)) := by
  have own : j ∈ w.jobs := by simp [place]
  have has := hasKey_keyLine (block.keys j own)
  have among : j.key ∈ w.below := by simp [BlockText.below_eq place]
  have first := block.firstKey laid among has
  have line := first.eq_keyLine_iff place has
  refine ⟨by rw [laid,BlockText.getElem?_keyLine place],_,job.location? content g,first,line,?_⟩
  intro names
  exact line.trans (block.hasKey_front_iff names place)

def JobBlock.plain (indent : Nat) (name : String) (nested : List String) : JobBlock where
  name := name
  key := indentation indent ++ (name ++ ":").toList
  nested := nested.map String.toList

theorem isKeyLine_plain {name : String} {c : Char} {t : List Char} (starts : name.toList = c :: t)
    (visible : isBlank c = false) (indent : Nat) (nested : List String) :
    IsKeyLine indent (JobBlock.plain indent name nested).name
      (JobBlock.plain indent name nested).key := by
  refine ⟨name ++ ":",List.mem_cons_self,[],?_,by simp,by simp [JobBlock.plain]⟩
  intro d first
  rw [String.toList_append,starts] at first
  obtain rfl := Option.some.inj first
  exact visible

instance (line : List Char) : Decidable (IsRemark line) :=
  decidable_of_iff ((trim line).head?.all (· == '#') = true) (by
    unfold IsRemark
    cases (trim line).head? <;> simp)

instance (indent : Nat) (line : List Char) : Decidable (IsNested indent line) :=
  inferInstanceAs (Decidable (_ ∨ _))

instance (name : String) : Decidable (IsJobName name) := inferInstanceAs (Decidable (_ ∧ _))

def twoBlocks (name : String) : BlockText where
  above := ["on: push".toList]
  header := "jobs:".toList
  remarks := []
  jobs := [.plain 2 "lint" ["    env:","      " ++ name ++ ": debug"],
    .plain 2 "build" ["    runs-on: ubuntu-latest"]]
  behind := []

def textOf (w : BlockText) : List Char := w.lines.flatMap fun line => line ++ ['\n']

theorem isBlock_twoBlocks (name : String) : (twoBlocks name).IsBlock 2 where
  indented := by decide
  above := by
    simp only [twoBlocks]
    decide
  header := List.prefix_rfl
  remarks := List.forall_mem_nil _
  distinct := by
    simp only [twoBlocks,JobBlock.plain,List.map_cons,List.map_nil]
    decide
  keys := by
    intro j among
    rcases List.mem_pair.mp among with rfl | rfl
    · exact isKeyLine_plain rfl (by decide) 2 _
    · exact isKeyLine_plain rfl (by decide) 2 _
  nested := by
    have environment : IsNested 2 "    env:".toList := by decide
    have assigned : IsNested 2 ("      " ++ name ++ ": debug").toList := by
      refine .inl ⟨"   ".toList ++ (name ++ ": debug").toList,?_⟩
      simp [indentation,List.replicate]
    have runner : IsNested 2 "    runs-on: ubuntu-latest".toList := by decide
    intro j among
    rcases List.mem_pair.mp among with rfl | rfl
    · exact List.forall_mem_cons.mpr ⟨environment,List.forall_mem_singleton.mpr assigned⟩
    · exact List.forall_mem_singleton.mpr runner

theorem location?_of_block_build : ∃ v, Yaml.Value.read? (textOf (twoBlocks "mode")) = some v ∧
    (twoBlocks "mode").IsBlock 2 ∧
    Text.lines (textOf (twoBlocks "mode")) = (twoBlocks "mode").lines ∧
    (twoBlocks "mode").jobs = [.plain 2 "lint" ["    env:","      mode: debug"]] ++
      .plain 2 "build" ["    runs-on: ubuntu-latest"] :: [] ∧
    (∀ i ∈ (twoBlocks "mode").jobs, IsJobName i.name) ∧ IsJobOf v "ci.yml" "build" ∧
    (extract v (textOf (twoBlocks "mode")) "ci.yml" .empty).location? (nodeId "ci.yml" "build") =
      some ⟨"ci.yml",6⟩ := by
  have names : (Yaml.Value.read? (textOf (twoBlocks "mode"))).map (fun v => (jobs v).map (·.1)) =
      some ["lint","build"] := by decide +kernel
  obtain ⟨v,read,named⟩ := Option.map_eq_some_iff.mp names
  have laid : Text.lines (textOf (twoBlocks "mode")) = (twoBlocks "mode").lines := by decide +kernel
  have job : IsJobOf v "ci.yml" "build" := by
    refine ⟨?_,?_⟩ <;> rw [named] <;> decide +kernel
  have place : (twoBlocks "mode").jobs = [.plain 2 "lint" ["    env:","      mode: debug"]] ++
      .plain 2 "build" ["    runs-on: ubuntu-latest"] :: [] := rfl
  have usual : ∀ i ∈ (twoBlocks "mode").jobs, IsJobName i.name := by decide
  have six : (twoBlocks "mode").keyLine [.plain 2 "lint" ["    env:","      mode: debug"]] = 6 := by
    decide +kernel
  obtain ⟨-,n,located,-,-,own⟩ := location?_of_block (isBlock_twoBlocks "mode") laid place job .empty
  rw [(own usual).mpr (by decide +kernel),six] at located
  exact ⟨v,read,isBlock_twoBlocks _,laid,place,usual,job,located⟩

/-- A variable with the name of a job behind it takes its place. -/
theorem location?_of_variable_build : ¬ ∀ (w : BlockText) (indent : Nat) (content : List Char)
    (before later : List JobBlock) (j : JobBlock) (v : Yaml.Value) (file : String) (g : PipelineGraph),
    w.IsBlock indent → Text.lines content = w.lines → w.jobs = before ++ j :: later →
    Yaml.Value.read? content = some v → IsJobOf v file j.name →
    (extract v content file g).location? (nodeId file j.name) = some ⟨file,w.keyLine before⟩ := by
  intro own
  have names : (Yaml.Value.read? (textOf (twoBlocks "build"))).map (fun v => ((jobs v).map (·.1),
      (extract v (textOf (twoBlocks "build")) "ci.yml" .empty).location? (nodeId "ci.yml" "build"))) =
      some (["lint","build"],some ⟨"ci.yml",5⟩) := by decide +kernel
  obtain ⟨v,read,found⟩ := Option.map_eq_some_iff.mp names
  obtain ⟨named,located⟩ := Prod.mk.inj found
  have job : IsJobOf v "ci.yml" "build" := by
    refine ⟨?_,?_⟩ <;> rw [named] <;> decide +kernel
  have six := own (twoBlocks "build") 2 (textOf (twoBlocks "build"))
    [.plain 2 "lint" ["    env:","      build: debug"]] []
    (.plain 2 "build" ["    runs-on: ubuntu-latest"]) v "ci.yml" .empty (isBlock_twoBlocks "build")
    (by decide +kernel) rfl read job
  have same := located.symm.trans six
  revert same
  decide +kernel

end PipelineAtlas.Workflow
