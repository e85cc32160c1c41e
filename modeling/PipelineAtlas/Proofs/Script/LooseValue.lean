import PipelineAtlas.Proofs.Script.LooseText
import PipelineAtlas.Proofs.Script.WholeLiteral

/-! Values are read alike from cells that differ in the lengths of gaps only. Gaps show up in no value
but in one that is kept as its text. -/
namespace PipelineAtlas.Script

/-- Equal but for texts that have no other meaning. -/
inductive Value.Alike : Value → Value → Prop
  | refl (v : Value) : Alike v v
  | other (s t : String) : Alike (.other s) (.other t)
  | list {vs ws : List Value} (items : List.Forall₂ Alike vs ws) : Alike (.list vs) (.list ws)
  | call (function : String) {as bs : List (Argument Value)}
      (keys : as.map (·.key) = bs.map (·.key))
      (values : List.Forall₂ Alike (as.map (·.value)) (bs.map (·.value))) :
      Alike (.call function as) (.call function bs)

def Arguments.Alike (as bs : Arguments) : Prop :=
  List.Forall₂ (fun a b => a.key = b.key ∧ Value.Alike a.value b.value) as bs

theorem Arguments.alike_iff {as bs : Arguments} : Arguments.Alike as bs ↔
    as.map (·.key) = bs.map (·.key) ∧
      List.Forall₂ Value.Alike (as.map (·.value)) (bs.map (·.value)) := by
  induction as generalizing bs with
  | nil => cases bs <;> simp [Alike]
  | cons a as ih =>
    cases bs with
    | nil => simp [Alike]
    | cons b bs =>
      have more : Alike as bs ↔ _ := ih
      simp only [Alike,List.map_cons,List.forall₂_cons,List.cons.injEq] at more ⊢
      rw [more]
      constructor
      · rintro ⟨⟨key,value⟩,keys,values⟩
        exact ⟨⟨key,keys⟩,value,values⟩
      · rintro ⟨⟨key,keys⟩,value,values⟩
        exact ⟨⟨key,value⟩,keys,values⟩

theorem Loose.trim {s t : List Char} (loose : Loose ' ' s t) :
    Loose ' ' (Text.trim s) (Text.trim t) :=
  ((loose.dropWhile Text.isBlank).reverse.dropWhile Text.isBlank).reverse

theorem length_of_splitFrom {separator : Char} {depth : Nat} {begun cells part : List Cell}
    (member : part ∈ splitFrom separator depth begun cells) :
    part.length ≤ begun.length + cells.length := by
  induction cells generalizing depth begun with
  | nil =>
    obtain rfl := List.mem_singleton.mp member
    simp
  | cons x cells ih =>
    simp only [splitFrom] at member
    split at member
    · rcases List.mem_cons.mp member with rfl | later
      · simp
      · have less := ih later
        simp only [List.length_cons,List.length_nil] at less ⊢
        omega
    · have less := ih member
      simp only [List.length_cons] at less ⊢
      omega

theorem length_of_splitTopLevel {separator : Char} {cells part : List Cell}
    (member : part ∈ splitTopLevel separator cells) : part.length ≤ cells.length := by
  simpa using length_of_splitFrom (List.mem_filter.mp member).1

theorem length_of_listBody? {cells inside : List Cell} (body : listBody? cells = some inside) :
    inside.length < cells.length := by
  cases cells with
  | nil => simp [listBody?] at body
  | cons x rest =>
    simp only [listBody?] at body
    split at body
    · obtain rfl := Option.some.inj body
      simp only [List.length_dropLast,List.length_cons]
      omega
    · simp at body

theorem length_of_callParts? {cells inside : List Cell} {function : List Char}
    (parts : callParts? cells = some (function,inside)) : inside.length < cells.length := by
  simp only [callParts?] at parts
  split at parts
  next enclosed =>
    split at parts
    · obtain ⟨-,rfl⟩ := Prod.mk.inj (Option.some.inj parts)
      obtain ⟨x,y,-,-,whole⟩ := enclosed?_split enclosed
      have size := congrArg List.length whole
      have less := (List.dropWhile_sublist (l := cells) fun x => x.char != '(').length_le
      simp only [List.length_cons,List.length_append] at size
      omega
    · simp at parts
  next => simp at parts

theorem length_splitArgument_le (cells : List Cell) : (splitArgument cells).2.length ≤ cells.length := by
  simp only [splitArgument]
  split
  next parts =>
    simp only [keyParts?] at parts
    split at parts
    next x rest behind =>
      split at parts
      · simp at parts
      · obtain ⟨-,rfl⟩ := Prod.mk.inj (Option.some.inj parts)
        have size := congrArg List.length behind
        have less := (List.dropWhile_sublist (l := trimCells cells) fun x => x.char != '=').length_le
        have trimmed := length_trimCells_le cells
        rw [List.length_cons] at size
        change rest.length ≤ cells.length
        omega
    next => simp at parts
  next => exact Nat.le_refl _

namespace LooseCells

variable {a b : List Cell} (loose : LooseCells a b)

include loose

theorem callParts? : callParts? a = none ∧ callParts? b = none ∨ ∃ function i i',
    callParts? a = some (function,i) ∧ callParts? b = some (function,i') ∧ LooseCells i i' := by
  have front : Loose ' ' (Text.trim (Script.text (a.takeWhile fun x => x.char != '(')))
      (Text.trim (Script.text (b.takeWhile fun x => x.char != '('))) :=
    (text (Loose.takeWhile (fun x : Cell => x.char != '(') loose)).trim
  have back := Loose.dropWhile (fun x : Cell => x.char != '(') loose
  simp only [Script.callParts?]
  rcases enclosed? back with ⟨openA,openB⟩ | ⟨i,r,i',r',closedA,closedB,inner,outer⟩
  · rw [openA,openB]
    exact .inl ⟨rfl,rfl⟩
  · rw [closedA,closedB]
    have ends := Loose.nil_iff outer
    cases r with
    | cons x r =>
      cases r' with
      | cons y r' => exact .inl ⟨rfl,rfl⟩
      | nil => simp at ends
    | nil =>
      obtain rfl := ends.mp rfl
      have dotted := front.test_eq (p := isDottedName) fun _ => notMem_of_isDottedName
      simp only [← dotted]
      split
      next sound =>
        rw [front.of_test (fun _ => notMem_of_isDottedName) sound]
        exact .inr ⟨_,i,i',rfl,rfl,inner⟩
      next => exact .inl ⟨rfl,rfl⟩

theorem keyParts? : keyParts? a = none ∧ keyParts? b = none ∨ ∃ key v v',
    keyParts? a = some (key,v) ∧ keyParts? b = some (key,v') ∧ LooseCells v v' := by
  have front : Loose ' ' (Text.trim (Script.text (a.takeWhile fun x => x.char != '=')))
      (Text.trim (Script.text (b.takeWhile fun x => x.char != '='))) :=
    (text (Loose.takeWhile (fun x : Cell => x.char != '=') loose)).trim
  have back := Loose.dropWhile (fun x : Cell => x.char != '=') loose
  have first := List.head?_dropWhile_not (fun x : Cell => x.char != '=') a
  simp only [Script.keyParts?]
  generalize a.dropWhile (fun x => x.char != '=') = left at back first
  generalize b.dropWhile (fun x => x.char != '=') = right at back
  cases left with
  | nil =>
    obtain rfl := (Loose.nil_iff back).mp rfl
    exact .inl ⟨rfl,rfl⟩
  | cons x v =>
    have equals : x.char = '=' := by simpa using first
    obtain ⟨v',rfl,inner⟩ := Loose.cons_inv back (ne_space equals (by decide))
    have identifier := front.test_eq (p := Text.isIdentifier) fun _ => notMem_of_isIdentifier
    simp only [← identifier,← Loose.head?_eq inner]
    split
    · exact .inl ⟨rfl,rfl⟩
    next sound =>
      simp only [Bool.or_eq_true,not_or,Bool.not_eq_true',Bool.not_eq_false] at sound
      rw [front.of_test (fun _ => notMem_of_isIdentifier) sound.2]
      exact .inr ⟨_,v,v',rfl,rfl,inner⟩

theorem splitArgument : (splitArgument a).1 = (splitArgument b).1 ∧
    LooseCells (splitArgument a).2 (splitArgument b).2 := by
  simp only [Script.splitArgument]
  rcases keyParts? (trimCells loose) with ⟨noneA,noneB⟩ | ⟨key,v,v',partsA,partsB,inner⟩
  · rw [noneA,noneB]
    exact ⟨rfl,loose⟩
  · rw [partsA,partsB]
    exact ⟨rfl,inner⟩

end LooseCells

theorem readParts_alike {read read' : List Cell → Value} {i i' : List Cell}
    (loose : LooseCells i i') (settled : Settled false i) (settled' : Settled false i')
    (alike : ∀ {a b : List Cell}, LooseCells a b → Settled false a → Settled false b →
      a.length ≤ i.length → b.length ≤ i'.length → (read a).Alike (read' b)) :
    Arguments.Alike ((splitTopLevel ',' i).map fun part =>
        let (key,value) := splitArgument part
        ⟨key,read value⟩)
      ((splitTopLevel ',' i').map fun part =>
        let (key,value) := splitArgument part
        ⟨key,read' value⟩) := by
  rw [Arguments.Alike,List.forall₂_map_left_iff,List.forall₂_map_right_iff]
  refine forall₂_imp_of_mem (LooseCells.splitTopLevel (by decide) loose) ?_
  intro part member part' member' related
  obtain ⟨key,value⟩ := LooseCells.splitArgument related
  have small := Nat.le_trans (length_splitArgument_le part) (length_of_splitTopLevel member)
  have small' := Nat.le_trans (length_splitArgument_le part') (length_of_splitTopLevel member')
  exact ⟨key,alike value (settled.splitTopLevel member).splitArgument
    (settled'.splitTopLevel member').splitArgument small small'⟩

theorem literal?_loose {a b : List Cell} (loose : LooseCells a b) (settled : Settled false a)
    (settled' : Settled false b) : literal? (text a) = literal? (text b) := by
  cases read : literal? (text a) with
  | some v => rw [← read,Loose.eq_of_notMem loose (settled.notMem_of_literal? read)]
  | none =>
    cases other : literal? (text b) with
    | none => rfl
    | some v =>
      rw [Loose.eq_of_notMem loose.symm (settled'.notMem_of_literal? other),read] at other
      exact other

/-- Gaps do not matter to the reading of a value, nor does the depth that is allowed for, if it is
large enough. -/
theorem readValueFrom_alike {a b : List Cell} (loose : LooseCells a b) (settled : Settled false a)
    (settled' : Settled false b) {n m : Nat} (enough : a.length < n) (enough' : b.length < m) :
    (readValueFrom n a).Alike (readValueFrom m b) := by
  induction n generalizing a b m with
  | zero => omega
  | succ n ih =>
  cases m with
  | zero => omega
  | succ m =>
  have sizeA := length_trimCells_le a
  have sizeB := length_trimCells_le b
  replace loose := LooseCells.trimCells loose
  replace settled := settled.trimCells
  replace settled' := settled'.trimCells
  simp only [readValueFrom]
  generalize trimCells a = a at loose settled sizeA
  generalize trimCells b = b at loose settled' sizeB
  have chars := LooseCells.text loose
  rw [← chars.read_eq (f := keyword?) fun _ _ => notMem_of_keyword?]
  cases keyword? (text a) with
  | some v => exact .refl v
  | none =>
  rw [← literal?_loose loose settled settled',← chars.read_eq (f := integer?) fun _ _ => notMem_of_integer?]
  cases literal? (text a) with
  | some s => exact .refl _
  | none =>
  cases integer? (text a) with
  | some i => exact .refl _
  | none =>
  rcases LooseCells.listBody? loose with ⟨noneA,noneB⟩ | ⟨i,i',bodyA,bodyB,inner⟩
  · rw [noneA,noneB]
    rcases LooseCells.callParts? loose with ⟨noneA,noneB⟩ | ⟨function,i,i',partsA,partsB,inner⟩
    · rw [noneA,noneB]
      simp only [← chars.test_eq (p := isDottedName) fun _ => notMem_of_isDottedName]
      split
      next dotted =>
        rw [chars.of_test (fun _ => notMem_of_isDottedName) dotted]
        exact .refl _
      next => exact .other _ _
    · rw [partsA,partsB]
      have lessA := length_of_callParts? partsA
      have lessB := length_of_callParts? partsB
      have arguments := readParts_alike inner (settled.callParts? partsA)
        (settled'.callParts? partsB) fun related left right small small' =>
          ih related left right (m := m) (by omega) (by omega)
      obtain ⟨keys,values⟩ := Arguments.alike_iff.mp arguments
      exact .call _ keys values
  · rw [bodyA,bodyB]
    have lessA := length_of_listBody? bodyA
    have lessB := length_of_listBody? bodyB
    refine .list ?_
    rw [List.forall₂_map_left_iff,List.forall₂_map_right_iff]
    refine forall₂_imp_of_mem (LooseCells.splitTopLevel (by decide) inner) ?_
    intro part member part' member' related
    have small := length_of_splitTopLevel member
    have small' := length_of_splitTopLevel member'
    exact ih related ((settled.listBody? bodyA).splitTopLevel member)
      ((settled'.listBody? bodyB).splitTopLevel member') (by omega) (by omega)

theorem readArguments_alike {s t : List Char} (loose : LooseCells (scan s) (scan t)) :
    (readArguments s).Alike (readArguments t) :=
  readParts_alike loose (settled_scan s) (settled_scan t)
    fun related left right _ _ => readValueFrom_alike related left right (by omega) (by omega)

end PipelineAtlas.Script
