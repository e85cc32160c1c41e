import PipelineAtlas.Proofs.Script.Lexeme
import PipelineAtlas.Script.Bracket

/-! Brackets and separators around cells that hold none, and white space around cells. -/
namespace PipelineAtlas.Script

/-- Cells that open and close no bracket. -/
def Flat (cells : List Cell) : Prop := ∀ x ∈ cells, x.opens = false ∧ x.closes = false

theorem Flat.append {a b : List Cell} (flatA : Flat a) (flatB : Flat b) : Flat (a ++ b) := by
  intro x inside
  exact (List.mem_append.mp inside).elim (flatA x) (flatB x)

theorem flat_literalCells (s : List Char) : Flat (literalCells s) := by
  intro x inside
  obtain ⟨c,-,rfl⟩ := List.mem_map.mp inside
  exact ⟨rfl,rfl⟩

theorem closeFrom_flat {a : List Cell} (flat : Flat a) {depth : Nat} (rest : List Cell) :
    closeFrom depth (a ++ rest) =
      (closeFrom depth rest).map fun (inside,behind) => (a ++ inside,behind) := by
  induction a with
  | nil => simp
  | cons x a ih =>
    have here := flat x (by simp)
    have more := ih fun y inside => flat y (List.mem_cons_of_mem x inside)
    simp [closeFrom,Cell.depthAfter,here.1,here.2,more,Function.comp_def]

theorem enclosed?_flat {a : List Cell} (flat : Flat a) {x y : Cell} (opens : x.opens = true)
    (opensNot : y.opens = false) (closes : y.closes = true) (rest : List Cell) :
    enclosed? (x :: (a ++ y :: rest)) = some (a,rest) := by
  simp [enclosed?,opens,closeFrom_flat flat,closeFrom,Cell.depthAfter,opensNot,closes]

theorem closeFrom_split {cells inside behind : List Cell} {depth : Nat}
    (closed : closeFrom depth cells = some (inside,behind)) :
    ∃ x : Cell, x.closes = true ∧ cells = inside ++ x :: behind := by
  induction cells generalizing depth inside with
  | nil => simp [closeFrom] at closed
  | cons x cells ih =>
    simp only [closeFrom] at closed
    split at closed
    next last =>
      simp only [Bool.and_eq_true] at last
      obtain ⟨rfl,rfl⟩ := Prod.mk.inj (Option.some.inj closed)
      exact ⟨x,last.1,rfl⟩
    next =>
      obtain ⟨⟨i,r⟩,more,same⟩ := Option.map_eq_some_iff.mp closed
      obtain ⟨rfl,rfl⟩ := Prod.mk.inj same
      obtain ⟨y,closes,rfl⟩ := ih more
      exact ⟨y,closes,rfl⟩

theorem enclosed?_split {cells inside behind : List Cell}
    (closed : enclosed? cells = some (inside,behind)) :
    ∃ x y : Cell, x.opens = true ∧ y.closes = true ∧ cells = x :: (inside ++ y :: behind) := by
  cases cells with
  | nil => simp [enclosed?] at closed
  | cons x cells =>
    simp only [enclosed?] at closed
    split at closed
    next opens =>
      obtain ⟨y,closes,rfl⟩ := closeFrom_split closed
      exact ⟨x,y,opens,closes,rfl⟩
    next => simp at closed

theorem splitFrom_flat {separator : Char} {a : List Cell} (flat : Flat a)
    (apart : ∀ x ∈ a, x.isCode separator = false) (depth : Nat) (begun rest : List Cell) :
    splitFrom separator depth begun (a ++ rest) =
      splitFrom separator depth (a.reverse ++ begun) rest := by
  induction a generalizing begun with
  | nil => rfl
  | cons x a ih =>
    have here := flat x (by simp)
    have more := ih (fun y inside => flat y (List.mem_cons_of_mem x inside))
      (fun y inside => apart y (List.mem_cons_of_mem x inside)) (x :: begun)
    simp [splitFrom,apart x (by simp),Cell.depthAfter,here.1,here.2,more]

/-- Cells that neither begin nor end with white space. -/
def Trimmed (cells : List Cell) : Prop :=
  (∀ x ∈ cells.head?, Text.isBlank x.char = false) ∧
    ∀ x ∈ cells.getLast?, Text.isBlank x.char = false

theorem dropWhile_of_head {p : α → Bool} {items : List α} (first : ∀ x ∈ items.head?, p x = false) :
    items.dropWhile p = items := by
  cases items with
  | nil => rfl
  | cons x items => simp [first x rfl]

theorem mem_getLast?_append {s : List α} {x : α} (front : List α) (last : x ∈ s.getLast?) :
    x ∈ (front ++ s).getLast? := by
  rw [Option.mem_def] at last ⊢
  rw [List.getLast?_append,last]
  rfl

theorem mem_head?_append {s : List α} {x : α} (back : List α) (first : x ∈ s.head?) :
    x ∈ (s ++ back).head? := by
  rw [Option.mem_def] at first ⊢
  rw [List.head?_append,first]
  rfl

theorem trimCells_of_trimmed {cells : List Cell} (trimmed : Trimmed cells) :
    trimCells cells = cells := by
  unfold trimCells
  rw [dropWhile_of_head trimmed.1,dropWhile_of_head,List.reverse_reverse]
  rw [List.head?_reverse]
  exact trimmed.2

theorem trimCells_around {front cells back : List Cell} (nonempty : cells ≠ [])
    (trimmed : Trimmed cells) (before : ∀ x ∈ front, Text.isBlank x.char = true)
    (behind : ∀ x ∈ back, Text.isBlank x.char = true) :
    trimCells (front ++ (cells ++ back)) = cells := by
  have left : (cells ++ back).dropWhile (fun x => Text.isBlank x.char) = cells ++ back := by
    refine dropWhile_of_head fun x first => trimmed.1 x ?_
    cases cells with
    | nil => exact absurd rfl nonempty
    | cons y cells => exact first
  have right : cells.reverse.dropWhile (fun x => Text.isBlank x.char) = cells.reverse := by
    refine dropWhile_of_head fun x last => trimmed.2 x ?_
    rwa [List.head?_reverse] at last
  unfold trimCells
  rw [List.dropWhile_append_of_pos before,left,List.reverse_append,
    List.dropWhile_append_of_pos (by simpa using behind),right,List.reverse_reverse]

theorem length_trimCells_le (cells : List Cell) : (trimCells cells).length ≤ cells.length := by
  have left := (List.dropWhile_sublist (l := cells) fun x => Text.isBlank x.char).length_le
  have right := (List.dropWhile_sublist (l := (cells.dropWhile fun x =>
    Text.isBlank x.char).reverse) fun x => Text.isBlank x.char).length_le
  rw [List.length_reverse] at right
  rw [trimCells,List.length_reverse]
  exact Nat.le_trans right left

theorem trimCells_blank {x : Cell} (blank : Text.isBlank x.char = true) (cells : List Cell) :
    trimCells (x :: cells) = trimCells cells := by
  simp [trimCells,blank]

theorem shiftAt?_none {x : Cell} (noMark : x.char ≠ '<' ∧ x.char ≠ '>') (y : Cell) :
    shiftAt? x y = none := by
  simp [shiftAt?,Shift.ofChar?,noMark.1,noMark.2]

theorem shiftChainFrom_push {x : Cell} (noMark : ∀ y, shiftAt? x y = none) (depth : Nat)
    (rest : List Cell) :
    shiftChainFrom depth (x :: rest) = (shiftChainFrom (x.depthAfter depth) rest).push x := by
  cases rest with
  | nil => rfl
  | cons y rest => simp [shiftChainFrom,noMark y]

theorem shiftChainFrom_noMark {cells : List Cell}
    (noMark : ∀ x ∈ cells, x.char ≠ '<' ∧ x.char ≠ '>') (depth : Nat) :
    shiftChainFrom depth cells = ⟨cells,[]⟩ := by
  induction cells generalizing depth with
  | nil => rfl
  | cons x cells ih =>
    cases cells with
    | nil => rfl
    | cons y rest =>
      have more := ih (fun z inside => noMark z (List.mem_cons_of_mem x inside))
        (x.depthAfter depth)
      simp [shiftChainFrom,shiftAt?_none (noMark x (by simp)),more,ShiftChain.push]

end PipelineAtlas.Script
