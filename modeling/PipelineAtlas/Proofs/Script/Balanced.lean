import PipelineAtlas.Proofs.Script.Level
import PipelineAtlas.Proofs.Script.Mark
import PipelineAtlas.Proofs.Script.Spacing

/-! Texts that close all brackets they open. To what stands around them they are like texts without
brackets: a bracket is not closed in them, and inside brackets nothing splits them. -/
namespace PipelineAtlas.Script

inductive Balanced : List Char → Prop
  | flat {s : List Char} (flat : ∀ c ∈ s, c ∉ brackets) : Balanced s
  | nest {s : List Char} {o c : Char} (opens : o ∈ ['(','[','{']) (inside : Balanced s)
      (closes : c ∈ [')',']','}']) : Balanced (o :: (s ++ [c]))
  | append {s t : List Char} (left : Balanced s) (right : Balanced t) : Balanced (s ++ t)

theorem flat_codeCells {s : List Char} (flat : ∀ c ∈ s, c ∉ brackets) : Flat (codeCells s) := by
  intro x inside
  obtain ⟨c,member,rfl⟩ := List.mem_map.mp inside
  have apart := flat c member
  simp only [brackets,List.mem_cons,List.not_mem_nil,or_false,not_or] at apart
  simp [Cell.opens,Cell.closes,Cell.isCode,apart]

theorem opens_codeCell {o : Char} (opens : o ∈ ['(','[','{']) : (⟨o,.code⟩ : Cell).opens = true := by
  have all : ∀ o ∈ ['(','[','{'], (⟨o,.code⟩ : Cell).opens = true := by decide
  exact all o opens

theorem closes_codeCell {c : Char} (closes : c ∈ [')',']','}']) :
    (⟨c,.code⟩ : Cell).closes = true := by
  have all : ∀ c ∈ [')',']','}'], (⟨c,.code⟩ : Cell).closes = true := by decide
  exact all c closes

theorem codeCells_enclosed (o : Char) (s : List Char) (c : Char) :
    codeCells (o :: (s ++ [c])) = ⟨o,.code⟩ :: (codeCells s ++ [⟨c,.code⟩]) := by
  simp [codeCells]

theorem shiftChainFrom_unmarked {a : List Cell} (noMark : ∀ x ∈ a, isMark x.char = false)
    (depth : Nat) (rest : List Cell) : shiftChainFrom depth (a ++ rest) =
      ⟨a ++ (shiftChainFrom (depthBehind depth a) rest).first,
        (shiftChainFrom (depthBehind depth a) rest).rest⟩ := by
  induction a generalizing depth with
  | nil => rfl
  | cons x a ih =>
    obtain ⟨here,later⟩ := List.forall_mem_cons.mp noMark
    simp only [isMark,Bool.or_eq_false_iff,beq_eq_false_iff_ne] at here
    rw [List.cons_append,shiftChainFrom_push (shiftAt?_none here),ih later]
    rfl

namespace Balanced

variable {s : List Char} (balanced : Balanced s)
include balanced

theorem depthOver (depth : Nat) : Script.depthOver depth s = depth := by
  induction balanced generalizing depth with
  | flat flat => exact depthOver_level flat depth
  | @nest s o c opens _ closes ih =>
    simp only [List.mem_cons,List.not_mem_nil,or_false] at opens closes
    have up : Script.depthOver depth [o] = depth + 1 := by
      rcases opens with rfl | rfl | rfl <;> rfl
    have down : Script.depthOver (depth + 1) [c] = depth := by
      rcases closes with rfl | rfl | rfl <;> rfl
    rw [← List.singleton_append,depthOver_append,depthOver_append,up,ih,down]
  | append _ _ ih ih' => rw [depthOver_append,ih,ih']

theorem level : Level (codeCells s) := by
  induction balanced with
  | flat flat => exact .flat (flat_codeCells flat)
  | nest opens _ closes ih =>
    rw [codeCells_enclosed]
    exact .nest (opens_codeCell opens) ih (closes_codeCell closes)
  | append _ _ ih ih' =>
    rw [codeCells_append]
    exact ih.append ih'

theorem enclosed? : Script.enclosed? (codeCells ('(' :: (s ++ [')']))) = some (codeCells s,[]) := by
  rw [codeCells_enclosed]
  exact balanced.level.enclosed? rfl rfl

end Balanced

structure Plain (c : Char) : Prop where
  bracket : c ∉ brackets
  quote : isQuote c = false
  mark : isMark c = false
  comma : c ≠ ','

theorem plain_of_apart {c : Char} (apart : ∀ d ∈ brackets ++ ['\'','"','<','>',','], c ≠ d) :
    Plain c where
  bracket bracket := apart c (List.mem_append_left _ bracket) rfl
  quote := by simp [isQuote,apart '\'' (by simp),apart '"' (by simp)]
  mark := by simp [isMark,apart '<' (by simp),apart '>' (by simp)]
  comma := apart ',' (by simp)

theorem plain_of_isBlank {c : Char} (blank : Text.isBlank c = true) : Plain c := by
  have visible : ∀ d ∈ brackets ++ ['\'','"','<','>',','], Text.isBlank d = false := by decide
  refine plain_of_apart fun d member same => ?_
  simp [same,visible d member] at blank

theorem plain_of_isAsciiWord {c : Char} (word : Text.isAsciiWord c = true) : Plain c := by
  have foreign : ∀ d ∈ brackets ++ ['\'','"','<','>',','], Text.isAsciiWord d = false := by decide
  exact plain_of_apart fun d member => Text.ne_of_isAsciiWord word (foreign d member)

theorem Blanks.plain {s : List Char} (blanks : Blanks s) : ∀ c ∈ s, Plain c :=
  fun c inside => plain_of_isBlank (blanks c inside)

theorem balanced_of_plain {s : List Char} (plain : ∀ c ∈ s, Plain c) : Balanced s :=
  .flat fun c inside => (plain c inside).bracket

theorem Blanks.balanced {s : List Char} (blanks : Blanks s) : Balanced s :=
  balanced_of_plain blanks.plain

theorem trimCells_between {a b : List Char} (before : Blanks a) {cells : List Cell}
    (tight : Tight (text cells)) (behind : Blanks b) :
    trimCells (codeCells a ++ (cells ++ codeCells b)) = cells := by
  have blank {t : List Char} (blanks : Blanks t) : ∀ x ∈ codeCells t, Text.isBlank x.char = true := by
    intro x inside
    obtain ⟨c,member,rfl⟩ := List.mem_map.mp inside
    exact blanks c member
  have trimmed : Trimmed cells := by
    simpa [Trimmed,text,List.head?_map,List.getLast?_map] using
      And.intro tight.first fun c stop => (tight.last c stop).2
  exact trimCells_around (by simpa [text] using tight.some) trimmed (blank before) (blank behind)

theorem trimCells_tight {a s b : List Char} (before : Blanks a) (tight : Tight s)
    (behind : Blanks b) : trimCells (codeCells (a ++ (s ++ b))) = codeCells s := by
  rw [codeCells_append,codeCells_append]
  exact trimCells_between before (by simpa using tight) behind

/-- A text that commas do not split. -/
def Solo (s : List Char) : Prop := ∀ begun rest, splitFrom ',' 0 begun (codeCells s ++ rest) =
  splitFrom ',' 0 ((codeCells s).reverse ++ begun) rest

theorem Solo.undivided {s : List Char} (solo : Solo s) : Undivided (codeCells s) := solo

theorem solo_of_plain {s : List Char} (plain : ∀ c ∈ s, Plain c) : Solo s := by
  refine splitFrom_flat (flat_codeCells fun c inside => (plain c inside).bracket) (fun x inside => ?_) 0
  obtain ⟨c,member,rfl⟩ := List.mem_map.mp inside
  simp [Cell.isCode,(plain c member).comma]

theorem Balanced.solo {s : List Char} (balanced : Balanced s) {o c : Char} (opens : o ∈ ['(','[','{'])
    (closes : c ∈ [')',']','}']) : Solo (o :: (s ++ [c])) := by
  have undivided := balanced.level.undivided (opens_codeCell opens) (closes_codeCell closes)
  rwa [← codeCells_enclosed] at undivided

theorem isBlankPart_blanks {s : List Char} (blanks : Blanks s) : isBlankPart (codeCells s) = true := by
  rw [isBlankPart,List.all_eq_true]
  intro x inside
  obtain ⟨c,member,rfl⟩ := List.mem_map.mp inside
  exact blanks c member

theorem isBlankPart_between {a : List Char} {cells : List Cell} (tight : Tight (text cells))
    (b : List Char) : isBlankPart (codeCells a ++ (cells ++ codeCells b)) = false := by
  cases cells with
  | nil => exact absurd rfl tight.some
  | cons x cells =>
    have visible := tight.first x.char rfl
    simp [isBlankPart,visible]

end PipelineAtlas.Script
