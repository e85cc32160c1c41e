import Mathlib.Data.List.TakeWhile
import PipelineAtlas.Proofs.Script.Bracket

/-! Marks between operands. Splitting leaves nothing out: the parts between separators hold every cell
that can be seen, and the operands and marks of a chain are its text. -/
namespace PipelineAtlas.Script

theorem mem_splitFrom {separator : Char} (depth : Nat) (begun : List Cell) {cells : List Cell}
    {x : Cell} (inside : x ∈ begun ∨ x ∈ cells) (other : x.isCode separator = false) :
    ∃ part ∈ splitFrom separator depth begun cells, x ∈ part := by
  induction cells generalizing depth begun with
  | nil =>
    refine ⟨begun.reverse,by simp [splitFrom],?_⟩
    simpa using inside
  | cons y cells ih =>
    unfold splitFrom
    split
    next ends =>
      simp only [Bool.and_eq_true] at ends
      have apart : x ≠ y := by
        rintro rfl
        simp [other] at ends
      rcases inside with before | later
      · exact ⟨begun.reverse,by simp,by simpa using before⟩
      · have further := (List.mem_cons.mp later).resolve_left apart
        obtain ⟨part,member,held⟩ := ih 0 [] (.inr further)
        exact ⟨part,List.mem_cons_of_mem _ member,held⟩
    next =>
      refine ih _ _ ?_
      rw [List.mem_cons] at inside ⊢
      rcases inside with before | rfl | later
      · exact .inl (.inr before)
      · exact .inl (.inl rfl)
      · exact .inr later

theorem mem_splitTopLevel {separator : Char} {cells : List Cell} {x : Cell} (inside : x ∈ cells)
    (other : x.isCode separator = false) (visible : Text.isBlank x.char = false) :
    ∃ part ∈ splitTopLevel separator cells, x ∈ part := by
  obtain ⟨part,member,held⟩ := mem_splitFrom 0 [] (.inr inside) other
  refine ⟨part,List.mem_filter.mpr ⟨member,?_⟩,held⟩
  simp only [isBlankPart,Bool.not_eq_true',List.all_eq_false]
  exact ⟨x,held,by simp [visible]⟩

theorem trimCells_split (cells : List Cell) : ∃ front back,
    cells = front ++ (trimCells cells ++ back) ∧
      (∀ x ∈ front, Text.isBlank x.char = true) ∧ ∀ x ∈ back, Text.isBlank x.char = true := by
  let isBlank : Cell → Bool := fun x => Text.isBlank x.char
  let rest := cells.dropWhile isBlank
  refine ⟨cells.takeWhile isBlank,(rest.reverse.takeWhile isBlank).reverse,?_,?_,?_⟩
  · have turned : trimCells cells ++ (rest.reverse.takeWhile isBlank).reverse = rest := by
      rw [trimCells,← List.reverse_append,List.takeWhile_append_dropWhile,List.reverse_reverse]
    rw [turned,List.takeWhile_append_dropWhile]
  · exact fun x inside => List.mem_takeWhile_imp (p := isBlank) inside
  · exact fun x inside => List.mem_takeWhile_imp (p := isBlank) (List.mem_reverse.mp inside)

theorem mem_trimCells {cells : List Cell} {x : Cell} (inside : x ∈ cells)
    (visible : Text.isBlank x.char = false) : x ∈ trimCells cells := by
  obtain ⟨front,back,whole,before,behind⟩ := trimCells_split cells
  rw [whole,List.mem_append,List.mem_append] at inside
  rcases inside with blank | kept | blank
  · simp [before x blank] at visible
  · exact kept
  · simp [behind x blank] at visible

theorem trimmed_trimCells (cells : List Cell) : Trimmed (trimCells cells) := by
  let isBlank : Cell → Bool := fun x => Text.isBlank x.char
  have first (items : List Cell) : ∀ x ∈ (items.dropWhile isBlank).head?, isBlank x = false := by
    intro x head
    have passes := List.head?_dropWhile_not isBlank items
    rw [Option.mem_def.mp head] at passes
    simpa using passes
  refine ⟨fun x head => first cells x ?_,fun x last => first (cells.dropWhile isBlank).reverse x ?_⟩
  · -- what is left is the beginning of what was not dropped in front
    have kept : trimCells cells <+: cells.dropWhile isBlank := by
      rw [trimCells,← List.reverse_suffix,List.reverse_reverse]
      exact List.dropWhile_suffix _
    obtain ⟨behind,whole⟩ := kept
    rw [← whole]
    exact mem_head?_append behind head
  · rwa [trimCells,List.getLast?_reverse] at last

theorem trimmed_unwrap (cells : List Cell) : Trimmed (unwrap cells) := by
  have steps (n : Nat) {cells : List Cell} (trimmed : Trimmed cells) :
      Trimmed (unwrapFrom n cells) := by
    induction n generalizing cells with
    | zero => exact trimmed
    | succ n ih =>
      unfold unwrapFrom
      split
      next => exact trimmed
      next =>
        split
        next =>
          split
          next inside _ => exact ih (trimmed_trimCells inside)
          next => exact trimmed
        next => exact trimmed
  exact steps cells.length (trimmed_trimCells cells)

namespace Shift

def char : Shift → Char
  | .forward => '>'
  | .backward => '<'

def mark (s : Shift) : List Char := [s.char,s.char]

end Shift

def isMark (c : Char) : Bool := c == '<' || c == '>'

theorem Shift.isMark_char (s : Shift) : isMark s.char = true := by
  cases s <;> rfl

theorem Shift.char_injective : Function.Injective Shift.char := by
  intro s t
  cases s <;> cases t <;> decide

theorem shiftAt?_eq_some {x y : Cell} {s : Shift} :
    shiftAt? x y = some s ↔ x.role = .code ∧ x.char = s.char ∧ y.char = s.char := by
  unfold shiftAt? Shift.ofChar?
  cases s <;> grind [Shift.char]

def ShiftChain.text (chain : ShiftChain) : List Char :=
  Script.text chain.first ++ chain.rest.flatMap fun (s,operand) => s.mark ++ Script.text operand

theorem text_shiftChainFrom (depth : Nat) (cells : List Cell) :
    (shiftChainFrom depth cells).text = text cells := by
  fun_induction shiftChainFrom depth cells with
  | case1 => rfl
  | case2 => rfl
  | case3 depth x y rest s mark ih =>
    have outside : shiftAt? x y = some s := by
      split at mark
      · exact mark
      · cases mark
    obtain ⟨-,left,right⟩ := shiftAt?_eq_some.mp outside
    simp only [ShiftChain.text,ShiftChain.shift] at ih ⊢
    simp only [List.flatMap_cons,text_cons,left,right,← ih]
    simp [text,Shift.mark]
  | case4 depth x y rest _ ih =>
    rw [text_cons,← ih]
    simp [ShiftChain.text,ShiftChain.push]

def depthBehind (depth : Nat) (cells : List Cell) : Nat :=
  cells.foldl (fun depth x => x.depthAfter depth) depth

/-- No mark stands outside all brackets. -/
def Nested (cells : List Cell) : Prop :=
  ∀ front x y back, cells = front ++ x :: y :: back → ∀ s, shiftAt? x y = some s →
    depthBehind 0 front ≠ 0

theorem first_prefix (depth : Nat) (cells : List Cell) : (shiftChainFrom depth cells).first <+: cells := by
  fun_induction shiftChainFrom depth cells with
  | case1 => exact List.prefix_rfl
  | case2 => exact List.prefix_rfl
  | case3 => exact List.nil_prefix
  | case4 depth x y rest _ ih => exact (List.prefix_cons_inj x).mpr ih

theorem nested_shiftChainFrom (depth : Nat) (cells : List Cell) :
    (∀ front x y back, (shiftChainFrom depth cells).first = front ++ x :: y :: back →
        ∀ s, shiftAt? x y = some s → depthBehind depth front ≠ 0) ∧
      ∀ step ∈ (shiftChainFrom depth cells).rest, Nested step.2 := by
  fun_induction shiftChainFrom depth cells with
  | case1 => simp
  | case2 depth x =>
    refine ⟨fun front y z back split => ?_,by simp⟩
    have size := congrArg List.length split
    simp only [List.length_append,List.length_cons,List.length_nil] at size
    omega
  | case3 depth x y rest s _ ih =>
    obtain ⟨first,others⟩ := ih
    refine ⟨fun front y z back split => ?_,List.forall_mem_cons.mpr ⟨first,others⟩⟩
    simp [ShiftChain.shift] at split
  | case4 depth x y rest noMark ih =>
    obtain ⟨first,others⟩ := ih
    refine ⟨fun front v w back split s mark => ?_,others⟩
    cases front with
    | nil =>
      obtain ⟨rfl,more⟩ := List.cons.inj split
      -- what is pushed in front of the operand is followed by the cell behind it
      obtain ⟨behind,whole⟩ := first_prefix (x.depthAfter depth) (y :: rest)
      rw [more] at whole
      obtain ⟨rfl,-⟩ := List.cons.inj whole
      intro level
      simp [mark,show depth = 0 from level] at noMark
    | cons u front =>
      obtain ⟨rfl,more⟩ := List.cons.inj split
      exact first front v w back more s mark

theorem first_of_single {depth : Nat} {cells : List Cell}
    (single : (shiftChainFrom depth cells).rest = []) : (shiftChainFrom depth cells).first = cells := by
  fun_induction shiftChainFrom depth cells with
  | case1 => rfl
  | case2 => rfl
  | case3 => simp [ShiftChain.shift] at single
  | case4 depth x y rest _ ih => exact congrArg (x :: ·) (ih single)

theorem nested_of_shiftChain {cells : List Cell} (single : (shiftChain cells).rest = []) :
    Nested cells := by
  have first := (nested_shiftChainFrom 0 cells).1
  rwa [first_of_single single] at first

theorem split_before_word {front word before ahead : List Char} {c : Char} (absent : c ∉ word)
    (same : front ++ word = before ++ c :: ahead) :
    ∃ between, front = before ++ c :: between ∧ ahead = between ++ word := by
  rcases List.append_eq_append_iff.mp same with ⟨surplus,-,ends⟩ | ⟨surplus,begins,ends⟩
  · exact absurd (by simp [ends]) absent
  · cases surplus with
    | nil =>
      rw [List.nil_append] at ends
      exact absurd (by simp [← ends]) absent
    | cons d surplus =>
      obtain ⟨rfl,rfl⟩ := List.cons.inj ends
      exact ⟨surplus,begins,rfl⟩

/-- A mark behind a word, in a text that begins with an operand: the first mark or a later one. -/
theorem split_at_mark {first front word more rest : List Char} {s s' : Shift}
    (plain : ∀ c ∈ first, isMark c = false) (plainWord : ∀ c ∈ word, isMark c = false)
    (nonempty : word ≠ [])
    (same : first ++ (s.mark ++ more) = front ++ (word ++ (s'.mark ++ rest))) :
    (first = front ++ word ∧ s = s' ∧ more = rest) ∨
      ∃ between, front = first ++ (s.mark ++ between) ∧
        more = between ++ (word ++ (s'.mark ++ rest)) := by
  have absent : s.char ∉ word := fun inside => by simpa [s.isMark_char] using plainWord _ inside
  rw [← List.append_assoc front] at same
  rcases List.append_eq_append_iff.mp same with ⟨ahead,longer,further⟩ | ⟨ahead,longer,further⟩
  · cases ahead with
    | nil =>
      obtain ⟨equal,rest⟩ := List.cons.inj further
      exact .inl ⟨by simpa using longer.symm,Shift.char_injective equal,(List.cons.inj rest).2⟩
    | cons c ahead =>
      obtain ⟨rfl,behind⟩ := List.cons.inj further
      obtain ⟨between,begins,rfl⟩ := split_before_word absent longer
      cases between with
      | nil =>
        obtain ⟨c,word,rfl⟩ := List.exists_cons_of_ne_nil nonempty
        obtain ⟨rfl,-⟩ := List.cons.inj behind
        exact absurd List.mem_cons_self absent
      | cons c between =>
        obtain ⟨rfl,behind⟩ := List.cons.inj behind
        exact .inr ⟨between,begins,by simpa using behind⟩
  · cases ahead with
    | nil =>
      obtain ⟨equal,rest⟩ := List.cons.inj further
      exact .inl ⟨by simpa using longer,(Shift.char_injective equal).symm,(List.cons.inj rest).2.symm⟩
    | cons c ahead =>
      obtain ⟨rfl,-⟩ := List.cons.inj further
      simpa [s'.isMark_char] using plain s'.char (by simp [longer])

theorem split_at_prefix {first tail word back : List Char} (plain : ∀ c ∈ word, isMark c = false)
    (marked : ∀ c ∈ tail.head?, isMark c = true) (same : first ++ tail = word ++ back) :
    ∃ more, first = word ++ more ∧ back = more ++ tail := by
  rcases List.append_eq_append_iff.mp same with ⟨surplus,longer,further⟩ | ⟨surplus,longer,further⟩
  · cases surplus with
    | nil => exact ⟨[],by simpa using longer.symm,by simpa using further.symm⟩
    | cons c surplus =>
      have mark := marked c (by simp [further])
      have word := plain c (by simp [longer])
      simp [mark] at word
  · exact ⟨surplus,longer,further⟩

theorem isMark_of_head (rest : List (Shift × List Cell)) :
    ∀ c ∈ (rest.flatMap fun (s,operand) => s.mark ++ text operand).head?, isMark c = true := by
  intro c first
  cases rest with
  | nil => simp at first
  | cons step rest =>
    obtain rfl : step.1.char = c := by simpa [Shift.mark] using first
    exact step.1.isMark_char

end PipelineAtlas.Script
