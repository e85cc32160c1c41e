import PipelineAtlas.Proofs.Airflow.Operand
import PipelineAtlas.Proofs.Script.LooseText

/-! Dependencies are read alike from statements that differ in the lengths of gaps only. -/
namespace PipelineAtlas.Airflow

open Script

section Statements

variable {s t : List Char} (loose : Loose ' ' s t)

include loose

theorem startsName_loose : startsName s = startsName t := by
  simp only [startsName,loose.head?_eq]

theorem expression_loose : Loose ' ' (expression s) (expression t) := by
  have behind : Loose ' ' (Text.trimLeft (s.dropWhile fun c => Text.isWord c || c == '.'))
      (Text.trimLeft (t.dropWhile fun c => Text.isWord c || c == '.')) :=
    Loose.dropWhile _ (Loose.dropWhile _ loose)
  simp only [expression]
  generalize Text.trimLeft (s.dropWhile fun c => Text.isWord c || c == '.') = left at behind
  generalize Text.trimLeft (t.dropWhile fun c => Text.isWord c || c == '.') = right at behind
  have heads := behind.head?_eq
  match left,right with
  | [],[] => exact loose
  | [],d :: right => simp at heads
  | c :: left,[] => simp at heads
  | c :: left,d :: right =>
    obtain rfl : c = d := Option.some.inj heads
    by_cases equals : c = '='
    · subst equals
      obtain ⟨rest,same,inner⟩ := behind.cons_inv (by decide)
      obtain rfl := (List.cons.inj same).2
      simp only [startsName_loose loose,inner.head?_eq]
      split
      · exact inner
      · exact loose
    · split
      next same => exact absurd (List.cons.inj same).1 equals
      next =>
        split
        next same => exact absurd (List.cons.inj same).1 equals
        next => exact loose

omit loose in
theorem mem_expression {c : Char} (inside : c ∈ expression s) : c ∈ s := by
  simp only [expression] at inside
  split at inside
  next rest same =>
    split at inside
    · have behind : c ∈ Text.trimLeft (s.dropWhile fun c => Text.isWord c || c == '.') := by
        rw [same]
        exact List.mem_cons_of_mem _ inside
      exact (List.dropWhile_sublist _).mem ((List.dropWhile_sublist _).mem behind)
    · exact inside
  next => exact inside

theorem scan_loose (noQuote : ∀ c ∈ s, isQuote c = false) : LooseCells (scan s) (scan t) := by
  have plain : s.all (isPlain false) = true := by
    rw [List.all_eq_true]
    intro c inside
    simp [isPlain,noQuote c inside]
  rw [scan_plain plain,scan_plain ((loose.all_eq _).symm.trans plain)]
  exact LooseCells.codeCells loose

end Statements

section Operands

variable {a b : List Cell} (loose : LooseCells a b)

include loose

theorem isIdentifier_loose : Text.isIdentifier (text a) = Text.isIdentifier (text b) :=
  (LooseCells.text loose).test_eq fun _ => notMem_of_isIdentifier

theorem text_eq_of_isIdentifier (identifier : Text.isIdentifier (text a) = true) :
    text a = text b :=
  (LooseCells.text loose).of_test (fun _ => notMem_of_isIdentifier) identifier

end Operands

theorem names_loose {parts parts' : List (List Cell)}
    (loose : List.Forall₂ LooseCells parts parts') :
    (let names := parts.map fun part => text (trimCells part)
     if names.all Text.isIdentifier then some names else none) =
      let names := parts'.map fun part => text (trimCells part)
      if names.all Text.isIdentifier then some names else none := by
  have equal : (parts.map fun part => text (trimCells part)).all Text.isIdentifier =
        (parts'.map fun part => text (trimCells part)).all Text.isIdentifier ∧
      ((parts.map fun part => text (trimCells part)).all Text.isIdentifier = true →
        (parts.map fun part => text (trimCells part)) =
          parts'.map fun part => text (trimCells part)) := by
    induction loose with
    | nil => exact ⟨rfl,fun _ => rfl⟩
    | @cons p p' parts parts' here _ ih =>
      have trimmed := LooseCells.trimCells here
      simp only [List.map_cons,List.all_cons,isIdentifier_loose trimmed,ih.1,Bool.and_eq_true,
        true_and]
      rintro ⟨identifier,others⟩
      rw [← isIdentifier_loose trimmed] at identifier
      rw [text_eq_of_isIdentifier trimmed identifier,ih.2 (ih.1.trans others)]
  simp only [← equal.1]
  split
  next identifiers => rw [equal.2 identifiers]
  next => rfl

theorem operandNames?_loose {a b : List Cell} (loose : LooseCells a b) :
    operandNames? a = operandNames? b := by
  have trimmed := LooseCells.trimCells loose
  simp only [operandNames?,← isIdentifier_loose trimmed]
  split
  next identifier => rw [text_eq_of_isIdentifier trimmed identifier]
  next =>
    rcases LooseCells.listBody? trimmed with ⟨noneA,noneB⟩ | ⟨i,i',bodyA,bodyB,inner⟩
    · rw [noneA,noneB]
    · rw [bodyA,bodyB]
      exact names_loose (LooseCells.splitTopLevel (by decide) inner)

private theorem opening_loose {opening : List Char} (noBlank : ' ' ∉ opening) {a b : List Cell}
    (loose : LooseCells a b) (opens : opening.isPrefixOf (text a) = true) :
    opening.isPrefixOf (text b) = true ∧
      LooseCells (a.drop opening.length) (b.drop opening.length) := by
  obtain ⟨rest,same⟩ := List.isPrefixOf_iff_prefix.mp opens
  have front : text (a.take opening.length) = opening := by
    rw [text,List.map_take,← text,← same,List.take_left]
  have noSpace : space ∉ a.take opening.length := by
    intro inside
    refine noBlank ?_
    rw [← front]
    exact List.mem_map_of_mem inside
  have size : (a.take opening.length).length = opening.length := by
    rw [← length_text,front]
  have split := loose
  rw [← List.take_append_drop opening.length a] at split
  obtain ⟨t,rfl,inner⟩ := split.append_inv noSpace
  refine ⟨?_,?_⟩
  · rw [text_append,front,List.isPrefixOf_iff_prefix]
    exact List.prefix_append _ _
  · rw [List.drop_left' size]
    exact inner

theorem bodyOf?_loose (opening : String) (noBlank : ' ' ∉ opening.toList) {a b : List Cell}
    (loose : LooseCells a b) : bodyOf? opening a = none ∧ bodyOf? opening b = none ∨
      ∃ i i', bodyOf? opening a = some i ∧ bodyOf? opening b = some i' ∧ LooseCells i i' := by
  simp only [bodyOf?]
  by_cases opens : opening.toList.isPrefixOf (text a) = true
  · obtain ⟨opensB,inner⟩ := opening_loose noBlank loose opens
    rw [if_pos opens,if_pos opensB,← inner.getLast?_eq]
    split
    next ends =>
      obtain ⟨y,last,char⟩ := Option.map_eq_some_iff.mp (by simpa using ends)
      obtain ⟨s,front⟩ := List.getLast?_eq_some_iff.mp last
      rw [front] at inner ⊢
      obtain ⟨s',frontB,more⟩ := inner.concat_inv (LooseCells.ne_space char (by decide))
      rw [frontB]
      exact .inr ⟨s,s',by simp,by simp,more⟩
    next => exact .inl ⟨rfl,rfl⟩
  · have opensB : opening.toList.isPrefixOf (text b) ≠ true := by
      intro opensB
      exact opens (opening_loose noBlank loose.symm opensB).1
    rw [if_neg opens,if_neg opensB]
    exact .inl ⟨rfl,rfl⟩

theorem setCall?_loose {a b : List Cell} (loose : LooseCells a b) :
    setCall? a = none ∧ setCall? b = none ∨ ∃ task shift i i', setCall? a = some (task,shift,i) ∧
      setCall? b = some (task,shift,i') ∧ LooseCells i i' := by
  have stops : Text.isWord space.char = false := by decide
  have task := Loose.takeWhile_eq (fun x : Cell => Text.isWord x.char) loose stops
  have rest := Loose.dropWhile (fun x : Cell => Text.isWord x.char) loose
  simp only [setCall?,← task]
  split
  next =>
    rcases bodyOf?_loose ".set_downstream(" (by decide) rest with
      ⟨noneA,noneB⟩ | ⟨i,i',bodyA,bodyB,inner⟩
    · rw [noneA,noneB]
      rcases bodyOf?_loose ".set_upstream(" (by decide) rest with
        ⟨noneA,noneB⟩ | ⟨i,i',bodyA,bodyB,inner⟩
      · rw [noneA,noneB]
        exact .inl ⟨rfl,rfl⟩
      · rw [bodyA,bodyB]
        exact .inr ⟨_,_,i,i',rfl,rfl,inner⟩
    · rw [bodyA,bodyB]
      exact .inr ⟨_,_,i,i',rfl,rfl,inner⟩
  next => exact .inl ⟨rfl,rfl⟩

theorem chainCall?_loose {a b : List Cell} (loose : LooseCells a b) :
    chainCall? a = none ∧ chainCall? b = none ∨
      ∃ i i', chainCall? a = some i ∧ chainCall? b = some i' ∧ LooseCells i i' := by
  have stops : (Text.isWord space.char || space.char == '.') = false := by decide
  have path := Loose.takeWhile_eq (fun x : Cell => Text.isWord x.char || x.char == '.') loose stops
  have rest := Loose.dropWhile (fun x : Cell => Text.isWord x.char || x.char == '.') loose
  simp only [chainCall?,← path]
  split
  next => exact bodyOf?_loose "(" (by decide) rest
  next => exact .inl ⟨rfl,rfl⟩

theorem readGroups_loose {first first' : List Cell} {rest rest' : List (Shift × List Cell)}
    (operand : LooseCells first first')
    (operands : List.Forall₂ (fun x y => x.1 = y.1 ∧ LooseCells x.2 y.2) rest rest') :
    readGroups first rest = readGroups first' rest' := by
  have others : rest.mapM groupOf? = rest'.mapM groupOf? := by
    induction operands with
    | nil => rfl
    | @cons x y rest rest' here _ ih =>
      have same : groupOf? x = groupOf? y := by
        rw [groupOf?,groupOf?,here.1,operandNames?_loose here.2]
      rw [List.mapM_cons,List.mapM_cons,ih,same]
  rw [readGroups_eq,readGroups_eq,operandNames?_loose operand,others]

theorem readDependency_loose {s t : List Char} (loose : Loose ' ' s t)
    (noQuote : ∀ c ∈ s, isQuote c = false) : readDependency s = readDependency t := by
  have cells : LooseCells (unwrap (scan (expression s))) (unwrap (scan (expression t))) :=
    LooseCells.unwrap (scan_loose (expression_loose loose)
      fun c inside => noQuote c (mem_expression inside))
  simp only [readDependency]
  generalize unwrap (scan (expression s)) = a at cells
  generalize unwrap (scan (expression t)) = b at cells
  rcases setCall?_loose cells with ⟨noneA,noneB⟩ | ⟨task,shift,i,i',callA,callB,inner⟩
  · rw [noneA,noneB]
    rcases chainCall?_loose cells with ⟨noneA,noneB⟩ | ⟨i,i',callA,callB,inner⟩
    · rw [noneA,noneB]
      have chain : LooseCells.Chain (shiftChain a) (shiftChain b) :=
        LooseCells.shiftChainFrom cells 0
      have size := chain.rest.length_eq
      have empty : (shiftChain a).rest.isEmpty = (shiftChain b).rest.isEmpty := by
        rw [Bool.eq_iff_iff,List.isEmpty_iff_length_eq_zero,List.isEmpty_iff_length_eq_zero,size]
      simp only [empty,readGroups_loose chain.first chain.rest]
    · rw [callA,callB]
      have parts : List.Forall₂ LooseCells (splitTopLevel ',' i) (splitTopLevel ',' i') :=
        LooseCells.splitTopLevel (by decide) inner
      simp only
      generalize splitTopLevel ',' i = left at parts
      generalize splitTopLevel ',' i' = right at parts
      cases parts with
      | nil => rfl
      | @cons x y rest rest' here more =>
        have operands : List.Forall₂ (fun x y => x.1 = y.1 ∧ LooseCells x.2 y.2)
            (rest.map fun part => (Shift.forward,part))
            (rest'.map fun part => (Shift.forward,part)) := by
          rw [List.forall₂_map_left_iff,List.forall₂_map_right_iff]
          exact more.imp fun x y related => ⟨rfl,related⟩
        simp only [readGroups_loose here operands]
  · rw [callA,callB]
    simp only [operandNames?_loose inner]

end PipelineAtlas.Airflow
