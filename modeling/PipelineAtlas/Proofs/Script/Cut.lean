import PipelineAtlas.Proofs.Script.Nesting
import PipelineAtlas.Proofs.Script.Passage

/-! Cells that are cut at marks and at separators, and cells without the parentheses around them. The cuts
are made in code outside all brackets, wherever a mark or a separator stands there. -/
namespace PipelineAtlas.Script

namespace ShiftChain

def operands (chain : ShiftChain) : List (List Cell) := chain.first :: chain.rest.map (·.2)

def shifts (chain : ShiftChain) : List Shift := chain.rest.map (·.1)

end ShiftChain

theorem nested_operands (cells : List Cell) : ∀ operand ∈ (shiftChain cells).operands, Nested operand := by
  obtain ⟨first,others⟩ := nested_shiftChainFrom 0 cells
  exact List.forall_mem_cons.mpr ⟨first,List.forall_mem_map.mpr others⟩

theorem closed_shiftChainFrom (depth : Nat) (cells : List Cell) :
    ((shiftChainFrom depth cells).rest ≠ [] → depthBehind depth (shiftChainFrom depth cells).first = 0) ∧
      ∀ step ∈ (shiftChainFrom depth cells).rest.dropLast, depthBehind 0 step.2 = 0 := by
  fun_induction shiftChainFrom depth cells with
  | case1 => simp
  | case2 => simp
  | case3 depth x y rest s mark ih =>
    obtain ⟨level,-⟩ := Option.ite_none_right_eq_some.mp mark
    refine ⟨fun _ => level,?_⟩
    rw [ShiftChain.shift]
    cases others : (shiftChainFrom 0 rest).rest with
    | nil => simp
    | cons step steps =>
      rw [others] at ih
      exact List.forall_mem_cons.mpr ⟨ih.1 (List.cons_ne_nil step steps),ih.2⟩
  | case4 _ _ _ _ _ ih => exact ih

theorem closed_operands (cells : List Cell) :
    ∀ operand ∈ (shiftChain cells).operands.dropLast, depthBehind 0 operand = 0 := by
  obtain ⟨first,others⟩ := closed_shiftChainFrom 0 cells
  rw [ShiftChain.operands,shiftChain]
  by_cases single : (shiftChainFrom 0 cells).rest = []
  · simp [single]
  · rw [List.dropLast_cons_of_ne_nil (by simpa using single),← List.map_dropLast]
    exact List.forall_mem_cons.mpr ⟨first single,List.forall_mem_map.mpr others⟩

def rejoined {α : Type} (mark : Shift → List α) : List (List α) → List Shift → List α
  | operand :: operands,shift :: shifts => operand ++ (mark shift ++ rejoined mark operands shifts)
  | operands,_ => operands.flatten

def markCells (shift : Shift) : List Cell := codeCells shift.mark

theorem text_rejoined (operands : List (List Cell)) (shifts : List Shift) :
    text (rejoined markCells operands shifts) = rejoined Shift.mark (operands.map text) shifts := by
  induction operands generalizing shifts with
  | nil => cases shifts <;> rfl
  | cons operand operands ih =>
    cases shifts with
    | nil => exact List.map_flatten
    | cons shift shifts =>
      rw [rejoined,text_append,text_append,markCells,text_codeCells,ih]
      rfl

theorem rejoined_push (x : Cell) (chain : ShiftChain) :
    rejoined markCells (chain.push x).operands (chain.push x).shifts =
      x :: rejoined markCells chain.operands chain.shifts := by
  cases others : chain.rest <;>
    simp [ShiftChain.operands,ShiftChain.shifts,ShiftChain.push,rejoined,others]

theorem rejoined_shift (s : Shift) (chain : ShiftChain) :
    rejoined markCells (chain.shift s).operands (chain.shift s).shifts =
      markCells s ++ rejoined markCells chain.operands chain.shifts := rfl

/-- The operands of a settled text are settled, and with the marks between them they are its cells. -/
theorem settled_shiftChainFrom {begun cells : List Cell} (settled : Settled false (begun ++ cells))
    (depth : Nat) : Settled false (begun ++ (shiftChainFrom depth cells).first) ∧
      (∀ step ∈ (shiftChainFrom depth cells).rest, Settled false step.2) ∧
      rejoined markCells (shiftChainFrom depth cells).operands (shiftChainFrom depth cells).shifts =
        cells := by
  fun_induction shiftChainFrom depth cells generalizing begun with
  | case1 => exact ⟨settled,by simp,rfl⟩
  | case2 => exact ⟨settled,by simp,rfl⟩
  | case3 depth x y rest s mark ih =>
    obtain ⟨-,mark⟩ := Option.ite_none_right_eq_some.mp mark
    obtain ⟨code,left,right⟩ := shiftAt?_eq_some.mp mark
    have plain : isQuote y.char = false := by
      rw [right]
      cases s <;> rfl
    -- the second character of the mark is code as well, because no literal begins with it
    have second : Settled false (y :: rest) := settled.behind code
    have codeToo : y.role = .code := second.role_head plain
    have behind : Settled false ([] ++ rest) := Settled.behind (a := []) second codeToo
    obtain ⟨first,others,joined⟩ := ih behind
    have marks : markCells s = [x,y] := by
      obtain ⟨c,role⟩ := x
      obtain ⟨d,role'⟩ := y
      obtain ⟨rfl,rfl,rfl,rfl⟩ : c = s.char ∧ d = s.char ∧ role = .code ∧ role' = .code :=
        ⟨left,right,code,codeToo⟩
      rfl
    refine ⟨?_,List.forall_mem_cons.mpr ⟨first,others⟩,?_⟩
    · simpa [ShiftChain.shift] using settled.before code
    · rw [rejoined_shift,joined,marks]
      rfl
  | case4 depth x y rest _ ih =>
    rw [List.append_cons] at settled
    obtain ⟨first,others,joined⟩ := ih settled
    refine ⟨by simpa [ShiftChain.push] using first,others,?_⟩
    rw [rejoined_push,joined]

theorem settled_operands {cells : List Cell} (settled : Settled false cells) :
    (∀ operand ∈ (shiftChain cells).operands, Settled false operand) ∧
      rejoined markCells (shiftChain cells).operands (shiftChain cells).shifts = cells := by
  have begins : Settled false ([] ++ cells) := settled
  obtain ⟨first,others,joined⟩ := settled_shiftChainFrom begins 0
  exact ⟨List.forall_mem_cons.mpr ⟨first,List.forall_mem_map.mpr others⟩,joined⟩

/-- No separator stands outside all brackets. -/
def Unparted (separator : Char) (cells : List Cell) : Prop :=
  ∀ front x back, cells = front ++ x :: back → x.isCode separator = true → depthBehind 0 front ≠ 0

theorem Unparted.concat {separator : Char} {begun : List Cell} (unparted : Unparted separator begun)
    {x : Cell} (stays : x.isCode separator = true → depthBehind 0 begun ≠ 0) :
    Unparted separator (begun ++ [x]) := by
  intro front y back split separates
  rcases List.eq_nil_or_concat back with rfl | ⟨back,z,rfl⟩
  · obtain ⟨rfl,last⟩ := List.append_inj' split rfl
    obtain rfl := (List.cons.inj last).1
    exact stays separates
  · rw [List.concat_eq_append,← List.cons_append,← List.append_assoc] at split
    exact unparted front y back (List.append_inj' split rfl).1 separates

/-- No part has a separator outside its brackets, and one in front of another ends outside all. -/
theorem unparted_splitFrom {separator : Char} {begun : List Cell}
    (unparted : Unparted separator begun.reverse) (cells : List Cell) :
    (∀ part ∈ splitFrom separator (depthBehind 0 begun.reverse) begun cells, Unparted separator part) ∧
      ∀ part ∈ (splitFrom separator (depthBehind 0 begun.reverse) begun cells).dropLast,
        depthBehind 0 part = 0 := by
  induction cells generalizing begun with
  | nil => exact ⟨List.forall_mem_singleton.mpr unparted,by simp [splitFrom]⟩
  | cons x cells ih =>
    rw [splitFrom]
    split
    next cut =>
      have level : depthBehind 0 begun.reverse = 0 := by
        simp only [Bool.and_eq_true,decide_eq_true_eq] at cut
        exact cut.1
      have fresh : Unparted separator ([] : List Cell).reverse := by simp [Unparted]
      obtain ⟨parts,closed⟩ := ih fresh
      rw [List.dropLast_cons_of_ne_nil (splitFrom_ne_nil separator 0 [] cells)]
      exact ⟨List.forall_mem_cons.mpr ⟨unparted,parts⟩,List.forall_mem_cons.mpr ⟨level,closed⟩⟩
    next stays =>
      have longer : Unparted separator (x :: begun).reverse := by
        rw [List.reverse_cons]
        refine unparted.concat fun separates level => stays ?_
        simp [separates,level]
      have depth : depthBehind 0 (x :: begun).reverse = x.depthAfter (depthBehind 0 begun.reverse) := by
        simp [depthBehind]
      rw [← depth]
      exact ih longer

theorem unwrapFrom_cases (cells : List Cell) : (∀ n, unwrapFrom n cells = cells) ∨
    ∃ x rest inside, cells = x :: rest ∧ x.isCode '(' = true ∧ enclosed? cells = some (inside,[]) ∧
      ∀ n, unwrapFrom (n + 1) cells = unwrapFrom n (trimCells inside) := by
  cases cells with
  | nil =>
    refine .inl fun n => ?_
    cases n <;> rfl
  | cons x rest =>
    by_cases isOpen : x.isCode '(' = true
    · cases closed : enclosed? (x :: rest) with
      | none =>
        refine .inl fun n => ?_
        cases n with
        | zero => rfl
        | succ n => simp [unwrapFrom,closed]
      | some parts =>
        obtain ⟨inside,behind⟩ := parts
        cases behind with
        | nil => exact .inr ⟨x,rest,inside,rfl,isOpen,rfl,fun n => by simp [unwrapFrom,isOpen,closed]⟩
        | cons y behind =>
          refine .inl fun n => ?_
          cases n with
          | zero => rfl
          | succ n => simp [unwrapFrom,closed]
    · refine .inl fun n => ?_
      cases n with
      | zero => rfl
      | succ n => simp [unwrapFrom,isOpen]

theorem length_enclosed? {cells inside behind : List Cell}
    (closed : enclosed? cells = some (inside,behind)) : inside.length + 2 ≤ cells.length := by
  obtain ⟨x,y,-,-,rfl⟩ := enclosed?_split closed
  simp only [List.length_cons,List.length_append]
  omega

theorem settled_unwrap {cells : List Cell} (settled : Settled false cells) :
    Settled false (unwrap cells) := by
  have steps (n : Nat) {cells : List Cell} (settled : Settled false cells) :
      Settled false (unwrapFrom n cells) := by
    induction n generalizing cells with
    | zero => exact settled
    | succ n ih =>
      rcases unwrapFrom_cases cells with stays | ⟨x,rest,inside,rfl,-,closed,next⟩
      · rwa [stays]
      · rw [next]
        exact ih (Settled.enclosed? (a := []) settled closed).trimCells
  exact steps cells.length settled.trimCells

theorem unwrapFrom_unwrapFrom {n : Nat} {cells : List Cell} (enough : cells.length ≤ n) (m : Nat) :
    unwrapFrom m (unwrapFrom n cells) = unwrapFrom n cells := by
  induction n generalizing cells with
  | zero =>
    obtain rfl := List.length_eq_zero_iff.mp (Nat.le_zero.mp enough)
    cases m <;> rfl
  | succ n ih =>
    rcases unwrapFrom_cases cells with stays | ⟨x,rest,inside,rfl,-,closed,next⟩
    · rw [stays,stays]
    · have size := length_enclosed? closed
      have less := length_trimCells_le inside
      rw [next]
      exact ih (by omega)

theorem unwrap_unwrap (cells : List Cell) : unwrap (unwrap cells) = unwrap cells := by
  rw [unwrap,trimCells_of_trimmed (trimmed_unwrap cells),unwrap]
  exact unwrapFrom_unwrapFrom (length_trimCells_le cells) _

/-- What is left of cells has no parentheses that enclose all of it. -/
theorem enclosed?_unwrap {cells rest : List Cell} {x : Cell} (left : unwrap cells = x :: rest)
    (isOpen : x.isCode '(' = true) (inside : List Cell) :
    enclosed? (x :: rest) ≠ some (inside,[]) := by
  intro closed
  have stays : unwrapFrom 1 (x :: rest) = x :: rest := by
    rw [← left]
    exact unwrapFrom_unwrapFrom (length_trimCells_le cells) 1
  have next : unwrapFrom 1 (x :: rest) = trimCells inside := by simp [unwrapFrom,isOpen,closed]
  have size := length_enclosed? closed
  have less := length_trimCells_le inside
  rw [← next,stays] at less
  omega

end PipelineAtlas.Script
