import PipelineAtlas.Proofs.Script.Bracket

/-! Cells that close all brackets they open. To what stands around them they are like cells without
brackets: a bracket is not closed in them, and inside brackets nothing splits them. -/
namespace PipelineAtlas.Script

theorem Cell.closes_of_opens {x : Cell} (opens : x.opens = true) : x.closes = false := by
  simp only [Cell.opens,Cell.isCode,Bool.or_eq_true,Bool.and_eq_true,beq_iff_eq] at opens
  rcases opens with (⟨-,char⟩ | ⟨-,char⟩) | ⟨-,char⟩ <;> simp [Cell.closes,Cell.isCode,char]

theorem Cell.opens_of_closes {x : Cell} (closes : x.closes = true) : x.opens = false := by
  simp only [Cell.closes,Cell.isCode,Bool.or_eq_true,Bool.and_eq_true,beq_iff_eq] at closes
  rcases closes with (⟨-,char⟩ | ⟨-,char⟩) | ⟨-,char⟩ <;> simp [Cell.opens,Cell.isCode,char]

theorem Cell.isCode_of_opens {x : Cell} (opens : x.opens = true) {c : Char}
    (apart : c ∉ ['(','[','{']) : x.isCode c = false := by
  simp only [List.mem_cons,List.not_mem_nil,or_false,not_or] at apart
  simp only [Cell.opens,Cell.isCode,Bool.or_eq_true,Bool.and_eq_true,beq_iff_eq] at opens
  rcases opens with (⟨-,char⟩ | ⟨-,char⟩) | ⟨-,char⟩ <;>
    simp [Cell.isCode,char,Ne.symm apart.1,Ne.symm apart.2.1,Ne.symm apart.2.2]

inductive Level : List Cell → Prop
  | flat {cells : List Cell} (flat : Flat cells) : Level cells
  | nest {x y : Cell} {cells : List Cell} (opens : x.opens = true) (inside : Level cells)
      (closes : y.closes = true) : Level (x :: (cells ++ [y]))
  | append {a b : List Cell} (left : Level a) (right : Level b) : Level (a ++ b)

theorem splitFrom_inside {separator : Char} {a : List Cell} (flat : Flat a) (depth : Nat)
    (begun rest : List Cell) : splitFrom separator (depth + 1) begun (a ++ rest) =
      splitFrom separator (depth + 1) (a.reverse ++ begun) rest := by
  induction a generalizing begun with
  | nil => rfl
  | cons x a ih =>
    obtain ⟨opens,closes⟩ := flat x List.mem_cons_self
    have more := ih (fun y inside => flat y (List.mem_cons_of_mem x inside)) (x :: begun)
    simp [splitFrom,Cell.depthAfter,opens,closes,more]

namespace Level

variable {cells : List Cell} (level : Level cells)
include level

theorem closeFrom (depth : Nat) (rest : List Cell) :
    Script.closeFrom (depth + 1) (cells ++ rest) =
      (Script.closeFrom (depth + 1) rest).map fun (inside,behind) => (cells ++ inside,behind) := by
  induction level generalizing depth rest with
  | flat flat => exact closeFrom_flat flat rest
  | @nest x y cells opens _ closes ih =>
    have whole : x :: (cells ++ [y]) ++ rest = x :: (cells ++ y :: rest) := by simp
    rw [whole,Script.closeFrom]
    simp only [Cell.depthAfter,opens,Cell.closes_of_opens opens,if_true,Bool.false_and,
      Bool.false_eq_true,if_false,ih (depth + 1)]
    rw [Script.closeFrom]
    simp [Cell.depthAfter,Cell.opens_of_closes closes,closes,Function.comp_def]
  | append _ _ ih ih' =>
    rw [List.append_assoc,ih,ih',Option.map_map]
    simp [Function.comp_def]

theorem enclosed? {x y : Cell} (opens : x.opens = true) (closes : y.closes = true) :
    Script.enclosed? (x :: (cells ++ [y])) = some (cells,[]) := by
  have closed : Script.closeFrom 1 [y] = some ([],[]) := by
    simp [Script.closeFrom,Cell.depthAfter,Cell.opens_of_closes closes,closes]
  rw [Script.enclosed?,if_pos opens,level.closeFrom 0,closed]
  simp

theorem splitFrom (separator : Char) (depth : Nat) (begun rest : List Cell) :
    Script.splitFrom separator (depth + 1) begun (cells ++ rest) =
      Script.splitFrom separator (depth + 1) (cells.reverse ++ begun) rest := by
  induction level generalizing depth begun rest with
  | flat flat => exact splitFrom_inside flat depth begun rest
  | @nest x y cells opens _ closes ih =>
    have whole : x :: (cells ++ [y]) ++ rest = x :: (cells ++ y :: rest) := by simp
    rw [whole,Script.splitFrom]
    simp only [Cell.depthAfter,opens,if_true,ih (depth + 1),Nat.add_one_ne_zero,decide_false,
      Bool.false_and,Bool.false_eq_true,if_false]
    rw [Script.splitFrom]
    simp [Cell.depthAfter,Cell.opens_of_closes closes,closes]
  | append _ _ ih ih' =>
    rw [List.append_assoc,ih,ih']
    simp

end Level

/-- Cells that commas do not split. -/
def Undivided (cells : List Cell) : Prop := ∀ begun rest, splitFrom ',' 0 begun (cells ++ rest) =
  splitFrom ',' 0 (cells.reverse ++ begun) rest

theorem Undivided.append {a b : List Cell} (left : Undivided a) (right : Undivided b) :
    Undivided (a ++ b) := by
  intro begun rest
  rw [List.append_assoc,left,right]
  simp

theorem Level.undivided {cells : List Cell} (level : Level cells) {x y : Cell} (opens : x.opens = true)
    (closes : y.closes = true) : Undivided (x :: (cells ++ [y])) := by
  intro begun rest
  have whole : x :: (cells ++ [y]) ++ rest = x :: (cells ++ y :: rest) := by simp
  rw [whole,Script.splitFrom]
  simp only [Cell.isCode_of_opens opens (c := ',') (by decide),Cell.depthAfter,opens,if_true,
    decide_true,Bool.and_false,Bool.false_eq_true,if_false]
  rw [level.splitFrom,Script.splitFrom]
  simp [Cell.depthAfter,Cell.opens_of_closes closes,closes]

theorem splitTopLevel_undivided {cells : List Cell} (undivided : Undivided cells) :
    splitTopLevel ',' cells = if isBlankPart cells then [] else [cells] := by
  have whole := undivided [] []
  rw [List.append_nil,List.append_nil] at whole
  rw [splitTopLevel,whole,splitFrom,List.reverse_reverse]
  cases blank : isBlankPart cells <;> simp [blank]

theorem splitTopLevel_comma {cells : List Cell} (undivided : Undivided cells) (rest : List Cell) :
    splitTopLevel ',' (cells ++ ⟨',',.code⟩ :: rest) =
      (if isBlankPart cells then [] else [cells]) ++ splitTopLevel ',' rest := by
  have comma : (⟨',',.code⟩ : Cell).isCode ',' = true := by decide
  rw [splitTopLevel,undivided,splitFrom]
  simp only [decide_true,comma,Bool.and_self,if_true,List.append_nil,List.reverse_reverse,
    List.filter_cons,splitTopLevel]
  cases isBlankPart cells <;> simp

end PipelineAtlas.Script
