import Mathlib.Data.List.TakeWhile
import PipelineAtlas.Proofs.Text.Word
import PipelineAtlas.Proofs.Workspace.Recorded

/-! Models that refer to each other. The files of models may be read in any order: a model has the same
node and the same edges wherever its file comes, and its own file is its place, also if others refer to
it before this file is read. -/
namespace PipelineAtlas.Dbt

open Text PipelineGraph

/-- The text of a reference to a model, such as `ref('orders')`. The quotation marks need not be of one
kind, and blanks may stand around them. -/
inductive IsReference (x : String) : List Char → Prop
  | mk {blank blank' : List Char} {q q' : Char} (nonempty : x.toList ≠ [])
      (name : ∀ c ∈ x.toList, isModelChar c = true) (opens : Source.isQuoteMark q = true)
      (closes : Source.isQuoteMark q' = true) (before : ∀ c ∈ blank, isBlank c = true)
      (behind : ∀ c ∈ blank', isBlank c = true) :
      IsReference x ("ref(".toList ++ (blank ++ q :: (x.toList ++ q' :: (blank' ++ [')']))))

def HasReference (line : List Char) (x : String) : Prop :=
  ∃ before text after, IsReference x text ∧ line = before ++ (text ++ after)

theorem isBlank_of_isQuoteMark {c : Char} (mark : Source.isQuoteMark c = true) :
    isBlank c = false := by
  rw [Source.isQuoteMark,Bool.or_eq_true,beq_iff_eq,beq_iff_eq] at mark
  rcases mark with rfl | rfl <;> decide

theorem isModelChar_of_isQuoteMark {c : Char} (mark : Source.isQuoteMark c = true) :
    isModelChar c = false := by
  rw [Source.isQuoteMark,Bool.or_eq_true,beq_iff_eq,beq_iff_eq] at mark
  rcases mark with rfl | rfl <;> decide

theorem trimLeft_blanks {blank s : List Char} {c : Char} (blanks : ∀ c ∈ blank, isBlank c = true)
    (visible : isBlank c = false) : trimLeft (blank ++ c :: s) = c :: s := by
  rw [trimLeft,List.dropWhile_append_of_pos blanks,List.dropWhile_cons_of_neg (by simp [visible])]

theorem trimLeft_split (s : List Char) :
    ∃ blank, (∀ c ∈ blank, isBlank c = true) ∧ s = blank ++ trimLeft s :=
  ⟨s.takeWhile isBlank,fun _ inside => List.mem_takeWhile_imp inside,
    (List.takeWhile_append_dropWhile).symm⟩

theorem quoted?_eq_some {s inner : List Char} : quoted? s = some inner ↔
    ∃ blank q, (∀ c ∈ blank, isBlank c = true) ∧ Source.isQuoteMark q = true ∧
      s = blank ++ q :: inner := by
  constructor
  · intro found
    obtain ⟨blank,blanks,split⟩ := trimLeft_split s
    rw [quoted?] at found
    split at found
    next c rest trimmed =>
      rw [trimmed] at split
      split at found
      next mark =>
        cases found
        exact ⟨blank,c,blanks,mark,split⟩
      next => cases found
    next => cases found
  · rintro ⟨blank,q,blanks,mark,rfl⟩
    rw [quoted?,trimLeft_blanks blanks (isBlank_of_isQuoteMark mark)]
    exact if_pos mark

theorem closes_iff {s : List Char} : closes s = true ↔
    ∃ q blank after, Source.isQuoteMark q = true ∧ (∀ c ∈ blank, isBlank c = true) ∧
      s = q :: (blank ++ ')' :: after) := by
  constructor
  · intro closed
    cases s with
    | nil => cases closed
    | cons q rest =>
      rw [closes,Bool.and_eq_true,beq_iff_eq] at closed
      obtain ⟨mark,first⟩ := closed
      obtain ⟨blank,blanks,split⟩ := trimLeft_split rest
      obtain ⟨after,trimmed⟩ := List.head?_eq_some_iff.mp first
      rw [trimmed] at split
      exact ⟨q,blank,after,mark,blanks,by rw [split]⟩
  · rintro ⟨q,blank,after,mark,blanks,rfl⟩
    rw [closes,mark,trimLeft_blanks blanks (by decide)]
    rfl

theorem behind?_eq_some {start s rest : List Char} :
    Source.behind? start s = some rest ↔ s = start ++ rest := by
  unfold Source.behind?
  constructor
  · intro found
    split at found
    next here =>
      obtain ⟨rest',rfl⟩ := List.isPrefixOf_iff_prefix.mp here
      rw [List.drop_left] at found
      rw [Option.some.inj found]
    next => cases found
  · rintro rfl
    rw [if_pos (List.isPrefixOf_iff_prefix.mpr (List.prefix_append start rest)),List.drop_left]

theorem referenceHere?_eq_some {s : List Char} {x : String} :
    referenceHere? s = some x ↔ ∃ text after, IsReference x text ∧ s = text ++ after := by
  simp only [referenceHere?,Option.bind_eq_bind,Option.bind_eq_some_iff]
  constructor
  · rintro ⟨rest,opened,inner,quoted,named⟩
    obtain rfl := behind?_eq_some.mp opened
    obtain ⟨blank,q,blanks,mark,rfl⟩ := quoted?_eq_some.mp quoted
    split at named
    next read =>
      obtain rfl := Option.some.inj named
      rw [Bool.and_eq_true,Bool.not_eq_true',List.isEmpty_eq_false_iff] at read
      obtain ⟨nonempty,closed⟩ := read
      obtain ⟨q',blank',after,mark',blanks',split⟩ := closes_iff.mp closed
      have parts : inner = inner.takeWhile isModelChar ++ q' :: (blank' ++ ')' :: after) := by
        rw [← split]
        exact (List.prefix_iff_eq_append.mp (List.takeWhile_prefix _)).symm
      refine ⟨_,after,.mk (x := String.ofList (inner.takeWhile isModelChar)) ?_ ?_ mark mark' blanks
        blanks',?_⟩
      · rwa [String.toList_ofList]
      · rw [String.toList_ofList]
        exact fun c inside => List.mem_takeWhile_imp inside
      · rw [String.toList_ofList]
        nth_rewrite 1 [parts]
        simp
    next => cases named
  · rintro ⟨text,after,reference,rfl⟩
    obtain @⟨blank,blank',q,q',nonempty,name,mark,mark',blanks,blanks'⟩ := reference
    have word : (x.toList ++ q' :: (blank' ++ ')' :: after)).takeWhile isModelChar = x.toList := by
      rw [List.takeWhile_append_of_pos name,
        List.takeWhile_cons_of_neg (by simp [isModelChar_of_isQuoteMark mark']),List.append_nil]
    refine ⟨blank ++ q :: (x.toList ++ q' :: (blank' ++ ')' :: after)),?_,
      x.toList ++ q' :: (blank' ++ ')' :: after),?_,?_⟩
    · exact behind?_eq_some.mpr (by simp)
    · exact quoted?_eq_some.mpr ⟨blank,q,blanks,mark,rfl⟩
    · rw [word,List.drop_left,closes_iff.mpr ⟨q',blank',after,mark',blanks',rfl⟩,if_pos,
        String.ofList_toList]
      rw [Bool.and_true,Bool.not_eq_true',List.isEmpty_eq_false_iff]
      exact nonempty

theorem HasReference.cons {line : List Char} {x : String} (c : Char) (has : HasReference line x) :
    HasReference (c :: line) x := by
  obtain ⟨before,text,after,reference,rfl⟩ := has
  exact ⟨c :: before,text,after,reference,rfl⟩

theorem mem_references {line : List Char} {x : String} :
    x ∈ references line ↔ HasReference line x := by
  induction line with
  | nil =>
    refine ⟨fun inside => (List.not_mem_nil inside).elim,?_⟩
    rintro ⟨before,text,after,⟨-⟩,split⟩
    simp at split
  | cons c cs ih =>
    rw [references,List.mem_append,Option.mem_toList,referenceHere?_eq_some,ih]
    constructor
    · rintro (⟨text,after,reference,split⟩ | later)
      · exact ⟨[],text,after,reference,split⟩
      · exact later.cons c
    · rintro ⟨before,text,after,reference,split⟩
      cases before with
      | nil => exact .inl ⟨text,after,reference,split⟩
      | cons d before =>
        obtain ⟨rfl,rest⟩ := List.cons.inj split
        exact .inr ⟨before,text,after,reference,rest⟩

/-- An SQL file: the model that it is named like, its path and its text. -/
structure ModelFile where
  name : String
  path : String
  content : List Char

namespace ModelFile

def RefersTo (f : ModelFile) (x : String) : Prop := ∃ line ∈ lines f.content, HasReference line x

def references (f : ModelFile) : List String := (lines f.content).flatMap Dbt.references

def findings (f : ModelFile) : List Finding := modelFindings f.content f.name f.path

theorem mem_references {f : ModelFile} {x : String} : x ∈ f.references ↔ f.RefersTo x := by
  rw [references,List.mem_flatMap]
  simp only [Dbt.mem_references,RefersTo]

instance (f : ModelFile) (x : String) : Decidable (f.RefersTo x) :=
  decidable_of_iff (x ∈ f.references) mem_references

/-- What is read off the findings in a file is what is read off its definition and then what is read
off each of its references. -/
theorem filterMap_findings {read : Finding → Option β} {value : String → List β} (f : ModelFile)
    (reads : ∀ n x, (referenceFindings (model f.name) f.path n x).filterMap read = value x) :
    f.findings.filterMap read =
      (read (.defined (model f.name) ⟨f.path,1⟩)).toList ++ f.references.flatMap value := by
  have line (p : List Char × Nat) :
      ((Dbt.references p.1).flatMap (referenceFindings (model f.name) f.path p.2)).filterMap read =
        (Dbt.references p.1).flatMap value := by
    rw [List.filterMap_flatMap]
    exact congrArg (List.flatMap · _) (funext (reads p.2))
  have below : (((lines f.content).zipIdx 1).flatMap fun p =>
      (Dbt.references p.1).flatMap (referenceFindings (model f.name) f.path p.2)).filterMap read =
        f.references.flatMap value := by
    rw [List.filterMap_flatMap,references,List.flatMap_assoc]
    calc ((lines f.content).zipIdx 1).flatMap _
      _ = ((lines f.content).zipIdx 1).flatMap fun p => (Dbt.references p.1).flatMap value :=
        congrArg (List.flatMap · _) (funext line)
      _ = (((lines f.content).zipIdx 1).map Prod.fst).flatMap fun l =>
          (Dbt.references l).flatMap value := by rw [List.flatMap_map]
      _ = _ := by rw [List.zipIdx_map_fst]
  have parts : f.findings = .defined (model f.name) ⟨f.path,1⟩ ::
      ((lines f.content).zipIdx 1).flatMap fun p =>
        (Dbt.references p.1).flatMap (referenceFindings (model f.name) f.path p.2) := rfl
  rw [parts,List.filterMap_cons,below]
  cases read (.defined (model f.name) ⟨f.path,1⟩) <;> rfl

theorem entities_findings (f : ModelFile) :
    Finding.entities f.findings = model f.name :: f.references.map model := by
  rw [Finding.entities,f.filterMap_findings fun _ _ => rfl,List.map_eq_flatMap]
  rfl

theorem links_findings (f : ModelFile) :
    Finding.links f.findings = f.references.map fun x => (model x,model f.name) := by
  rw [Finding.links,f.filterMap_findings fun _ _ => rfl,List.map_eq_flatMap]
  rfl

theorem definitions_findings (f : ModelFile) :
    Finding.definitions f.findings = [(model f.name,⟨f.path,1⟩)] := by
  rw [Finding.definitions,f.filterMap_findings fun _ _ => rfl,
    List.flatMap_eq_nil_iff.mpr fun _ _ => rfl]
  rfl

end ModelFile

def readAll (fs : List ModelFile) : PipelineGraph :=
  fs.foldl (fun g f => extractModel f.content f.name f.path g) .empty

/-- A model that has a file or is referred to. -/
def Involved (fs : List ModelFile) (x : String) : Prop := ∃ f ∈ fs, x = f.name ∨ f.RefersTo x

variable {fs gs : List ModelFile}

theorem readAll_eq (fs : List ModelFile) :
    readAll fs = empty.record (fs.flatMap ModelFile.findings) :=
  foldl_eq_record (fun g f => extractModel_eq f.content f.name f.path g) fs empty

theorem mem_entities {y : Entity} : y ∈ Finding.entities (fs.flatMap ModelFile.findings) ↔
    ∃ x, Involved fs x ∧ model x = y := by
  simp only [Finding.entities_flatMap,List.mem_flatMap,Function.comp_apply,
    ModelFile.entities_findings,List.mem_cons,List.mem_map,ModelFile.mem_references]
  constructor
  · rintro ⟨f,among,rfl | ⟨x,refers,rfl⟩⟩
    · exact ⟨f.name,⟨f,among,.inl rfl⟩,rfl⟩
    · exact ⟨x,⟨f,among,.inr refers⟩,rfl⟩
  · rintro ⟨x,⟨f,among,rfl | refers⟩,rfl⟩
    · exact ⟨f,among,.inl rfl⟩
    · exact ⟨f,among,.inr ⟨x,refers,rfl⟩⟩

theorem mem_links {link : Entity × Entity} :
    link ∈ Finding.links (fs.flatMap ModelFile.findings) ↔
      ∃ f ∈ fs, ∃ x, f.RefersTo x ∧ (model x,model f.name) = link := by
  simp only [Finding.links_flatMap,List.mem_flatMap,Function.comp_apply,ModelFile.links_findings,
    List.mem_map,ModelFile.mem_references]

theorem mem_definitions {d : Entity × Location} :
    d ∈ Finding.definitions (fs.flatMap ModelFile.findings) ↔
      ∃ f ∈ fs, d = (model f.name,⟨f.path,1⟩) := by
  simp only [Finding.definitions_flatMap,List.mem_flatMap,Function.comp_apply,
    ModelFile.definitions_findings,List.mem_singleton]

/-- Different models have different nodes. -/
def Apart (fs : List ModelFile) : Prop :=
  ∀ x y, Involved fs x → Involved fs y → modelId x = modelId y → x = y

def involved (fs : List ModelFile) : List String := fs.flatMap fun f => f.name :: f.references

theorem mem_involved {x : String} : x ∈ involved fs ↔ Involved fs x := by
  simp only [involved,Involved,List.mem_flatMap,List.mem_cons,ModelFile.mem_references]

theorem apart_iff : Apart fs ↔
    ∀ x ∈ involved fs, ∀ y ∈ involved fs, modelId x = modelId y → x = y := by
  simp only [Apart,mem_involved]
  exact ⟨fun apart x first y second => apart x y first second,
    fun apart x y first second => apart x first y second⟩

instance (fs : List ModelFile) : Decidable (Apart fs) := decidable_of_iff _ apart_iff.symm

theorem Apart.entities (apart : Apart fs) :
    Entity.Apart (Finding.entities (fs.flatMap ModelFile.findings)) := by
  intro y first z second same
  obtain ⟨x,involved,rfl⟩ := mem_entities.mp first
  obtain ⟨x',involved',rfl⟩ := mem_entities.mp second
  exact congrArg model (apart x x' involved involved' same)

theorem mem_nodes (apart : Apart fs) {n : GraphNode} :
    n ∈ (readAll fs).nodes ↔ ∃ x, Involved fs x ∧ n = ⟨modelId x,x⟩ := by
  rw [readAll_eq,mem_nodes_record apart.entities]
  constructor
  · rintro ⟨y,found,rfl⟩
    obtain ⟨x,involved,rfl⟩ := mem_entities.mp found
    exact ⟨x,involved,rfl⟩
  · rintro ⟨x,involved,rfl⟩
    exact ⟨model x,mem_entities.mpr ⟨x,involved,rfl⟩,rfl⟩

theorem mem_edges {e : GraphEdge} : e ∈ (readAll fs).edges ↔
    ∃ f ∈ fs, ∃ x, f.RefersTo x ∧ e = ⟨modelId x,modelId f.name⟩ := by
  rw [readAll_eq,mem_edges_record]
  constructor
  · rintro ⟨link,found,rfl⟩
    obtain ⟨f,among,x,refers,rfl⟩ := mem_links.mp found
    exact ⟨f,among,x,refers,rfl⟩
  · rintro ⟨f,among,x,refers,rfl⟩
    exact ⟨_,mem_links.mpr ⟨f,among,x,refers,rfl⟩,rfl⟩

theorem edge_iff (names : (fs.map (·.name)).Nodup) (apart : Apart fs) {f : ModelFile}
    (among : f ∈ fs) {x : String} (involved : Involved fs x) :
    ⟨modelId x,modelId f.name⟩ ∈ (readAll fs).edges ↔ f.RefersTo x := by
  rw [mem_edges]
  constructor
  · rintro ⟨f',among',x',refers,same⟩
    obtain ⟨source,target⟩ := GraphEdge.mk.inj same
    obtain rfl := apart x x' involved ⟨f',among',.inr refers⟩ source
    have name := apart f.name f'.name ⟨f,among,.inl rfl⟩ ⟨f',among',.inl rfl⟩ target
    rwa [List.inj_on_of_nodup_map names among among' name]
  · intro refers
    exact ⟨f,among,x,refers,rfl⟩

theorem location?_readAll (names : (fs.map (·.name)).Nodup) (apart : Apart fs) {f : ModelFile}
    (among : f ∈ fs) : (readAll fs).location? (modelId f.name) = some ⟨f.path,1⟩ := by
  rw [readAll_eq]
  apply location?_record (x := model f.name)
  · exact mem_definitions.mpr ⟨f,among,rfl⟩
  · intro d found same
    obtain ⟨f',among',rfl⟩ := mem_definitions.mp found
    have name := apart f'.name f.name ⟨f',among',.inl rfl⟩ ⟨f,among,.inl rfl⟩ same
    rw [List.inj_on_of_nodup_map names among' among name]

theorem Involved.perm (order : fs.Perm gs) {x : String} : Involved fs x ↔ Involved gs x := by
  simp only [Involved,order.mem_iff]

/-- Files with different names may be read in any order if different models have different nodes: the
nodes and the edges are the same. There is an edge for each reference that stands on a line of a file,
and each file is the place of its model. -/
theorem readAll_perm (order : fs.Perm gs) (names : (fs.map (·.name)).Nodup) (apart : Apart fs) :
    (readAll fs).nodes.Perm (readAll gs).nodes ∧ (readAll fs).edges.Perm (readAll gs).edges ∧
    (∀ n, n ∈ (readAll fs).nodes ↔ ∃ x, Involved fs x ∧ n = ⟨modelId x,x⟩) ∧
    (∀ e, e ∈ (readAll fs).edges ↔
      ∃ f ∈ fs, ∃ x, f.RefersTo x ∧ e = ⟨modelId x,modelId f.name⟩) ∧
    (∀ f ∈ fs, ∀ x, Involved fs x →
      (⟨modelId x,modelId f.name⟩ ∈ (readAll fs).edges ↔ f.RefersTo x)) ∧
    (∀ f ∈ fs, (readAll fs).location? (modelId f.name) = some ⟨f.path,1⟩ ∧
      (readAll gs).location? (modelId f.name) = some ⟨f.path,1⟩) := by
  have apart' : Apart gs := fun x y first second =>
    apart x y ((Involved.perm order).mpr first) ((Involved.perm order).mpr second)
  have names' : (gs.map (·.name)).Nodup := (order.map _).nodup_iff.mp names
  refine ⟨?_,?_,fun _ => mem_nodes apart,fun _ => mem_edges,
    fun f among x involved => edge_iff names apart among involved,fun f among => ⟨?_,?_⟩⟩
  · have distinct (hs : List ModelFile) : (readAll hs).nodes.Nodup := by
      rw [readAll_eq]
      exact nodup_nodes_record _
    rw [List.perm_ext_iff_of_nodup (distinct fs) (distinct gs)]
    intro n
    simp only [mem_nodes apart,mem_nodes apart',Involved.perm order]
  · have distinct (hs : List ModelFile) : (readAll hs).edges.Nodup := by
      rw [readAll_eq]
      exact nodup_edges_record _
    rw [List.perm_ext_iff_of_nodup (distinct fs) (distinct gs)]
    intro e
    simp only [mem_edges,order.mem_iff]
  · exact location?_readAll names apart among
  · exact location?_readAll names' apart' (order.mem_iff.mp among)

def stagedModels : List ModelFile :=
  [⟨"orders","models/orders.sql","select *\nfrom ref( 'stg_orders' )".toList⟩,
    ⟨"stg_orders","models/staging/stg_orders.sql","select * from ref(\"raw\")".toList⟩]

/-- A model that is referred to before its file is read is still placed in this file. -/
theorem readAll_perm_staged :
    (readAll stagedModels).nodes.Perm (readAll stagedModels.reverse).nodes ∧
    (readAll stagedModels).nodes ≠ (readAll stagedModels.reverse).nodes ∧
    ⟨modelId "stg_orders",modelId "orders"⟩ ∈ (readAll stagedModels).edges ∧
    ⟨modelId "raw",modelId "orders"⟩ ∉ (readAll stagedModels).edges ∧
    (readAll stagedModels).location? (modelId "stg_orders") =
      some ⟨"models/staging/stg_orders.sql",1⟩ := by
  obtain ⟨nodes,-,-,edges,edge,place⟩ := readAll_perm (List.reverse_perm stagedModels).symm
    (by decide) (by decide +kernel)
  have involved : Involved stagedModels "raw" := mem_involved.mp (by decide +kernel)
  refine ⟨nodes,by decide +kernel,(edges _).mpr ?_,?_,(place _ (List.mem_of_getElem? (i := 1) rfl)).1⟩
  · exact ⟨_,List.mem_cons_self,"stg_orders",by decide +kernel,rfl⟩
  · rw [edge _ List.mem_cons_self "raw" involved]
    decide +kernel

end PipelineAtlas.Dbt
