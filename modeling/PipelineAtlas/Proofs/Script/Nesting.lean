import PipelineAtlas.Proofs.Script.Level
import PipelineAtlas.Proofs.Script.Mark
import PipelineAtlas.Proofs.Script.Settled

/-! Brackets and their kinds. A scan counts open brackets without regard to their kinds; where every
bracket that closes is of the kind of the innermost open one, it finds the partner of a bracket all the
same. -/
namespace PipelineAtlas.Script

/-- A bracket that opens and one of its kind that closes. -/
def Paired (o c : Char) : Prop := (o,c) ∈ [('(',')'),('[',']'),('{','}')]

instance (o c : Char) : Decidable (Paired o c) :=
  inferInstanceAs (Decidable ((o,c) ∈ [('(',')'),('[',']'),('{','}')]))

theorem closes_of_paired {o c : Char} (paired : Paired o c) : (⟨c,.code⟩ : Cell).closes = true := by
  simp only [Paired,List.mem_cons,Prod.mk.injEq,List.not_mem_nil,or_false] at paired
  rcases paired with ⟨-,rfl⟩ | ⟨-,rfl⟩ | ⟨-,rfl⟩ <;> rfl

/-- The brackets open behind a cell, innermost first, if it closes none of another kind. -/
def past? (opened : List Char) (x : Cell) : Option (List Char) :=
  if x.opens then some (x.char :: opened)
  else if x.closes then
    match opened with
    | [] => none
    | o :: outer => if Paired o x.char then some outer else none
  else some opened

def unclosed? (opened : List Char) (cells : List Cell) : Option (List Char) := cells.foldlM past? opened

/-- Every bracket is closed, by one of its kind. -/
def WellNested (cells : List Cell) : Prop := unclosed? [] cells = some []

instance (cells : List Cell) : Decidable (WellNested cells) :=
  inferInstanceAs (Decidable (unclosed? [] cells = some []))

/-- Up to the bracket that closes `o`, every bracket that closes is of the kind of the innermost open one.
Within `o` some brackets are open in front of the cells. -/
def KindsAgree (o : Char) (opened : List Char) (cells : List Cell) : Prop :=
  ∀ inside x behind, cells = inside ++ x :: behind → x.closes = true →
    ∀ later, unclosed? opened inside = some later →
      ∃ innermost ∈ (later ++ [o]).head?, Paired innermost x.char

section Cell

variable {opened later : List Char} {x : Cell}

theorem past?_level (opens : x.opens = false) (closes : x.closes = false) :
    past? opened x = some opened := by
  simp [past?,opens,closes]

theorem past?_cases (past : past? opened x = some later) :
    (x.opens = true ∧ later = x.char :: opened) ∨
      (x.closes = true ∧ ∃ o, Paired o x.char ∧ opened = o :: later) ∨
        x.opens = false ∧ x.closes = false ∧ later = opened := by
  unfold past? at past
  split at past
  next opens => exact .inl ⟨opens,(Option.some.inj past).symm⟩
  next opensNot =>
    split at past
    next closes =>
      cases opened with
      | nil => cases past
      | cons o outer =>
        obtain ⟨paired,same⟩ := Option.ite_none_right_eq_some.mp past
        obtain rfl := Option.some.inj same
        exact .inr (.inl ⟨closes,o,paired,rfl⟩)
    next closesNot =>
      refine .inr (.inr ⟨?_,?_,(Option.some.inj past).symm⟩)
      · simpa using opensNot
      · simpa using closesNot

theorem past?_eq_none (stops : past? opened x = none) :
    x.closes = true ∧ ∀ o ∈ opened.head?, ¬ Paired o x.char := by
  unfold past? at stops
  split at stops
  next => cases stops
  next =>
    split at stops
    next closes =>
      refine ⟨closes,?_⟩
      cases opened with
      | nil => simp
      | cons o outer => simpa using stops
    next => cases stops

theorem past?_below (past : past? opened x = some later) (below : List Char) :
    past? (opened ++ below) x = some (later ++ below) := by
  rcases past?_cases past with ⟨opens,rfl⟩ | ⟨closes,o,paired,rfl⟩ | ⟨opens,closes,rfl⟩
  · simp [past?,opens]
  · simp [past?,Cell.opens_of_closes closes,closes,paired]
  · exact past?_level opens closes

theorem depthAfter_of_past? (past : past? opened x = some later) :
    x.depthAfter (opened.length + 1) = later.length + 1 := by
  rcases past?_cases past with ⟨opens,rfl⟩ | ⟨closes,o,-,rfl⟩ | ⟨opens,closes,rfl⟩
  · simp [Cell.depthAfter,opens]
  · simp [Cell.depthAfter,Cell.opens_of_closes closes,closes]
  · simp [Cell.depthAfter,opens,closes]

end Cell

theorem unclosed?_cons {opened later : List Char} {x : Cell} {cells : List Cell} :
    unclosed? opened (x :: cells) = some later ↔
      ∃ next, past? opened x = some next ∧ unclosed? next cells = some later :=
  Option.bind_eq_some_iff

theorem unclosed?_append {opened later : List Char} {a b : List Cell} :
    unclosed? opened (a ++ b) = some later ↔
      ∃ next, unclosed? opened a = some next ∧ unclosed? next b = some later := by
  rw [unclosed?,List.foldlM_append]
  exact Option.bind_eq_some_iff

theorem unclosed?_flat {cells : List Cell} (flat : Flat cells) (opened : List Char) :
    unclosed? opened cells = some opened := by
  induction cells with
  | nil => rfl
  | cons x cells ih =>
    obtain ⟨⟨opens,closes⟩,later⟩ := List.forall_mem_cons.mp flat
    exact unclosed?_cons.mpr ⟨opened,past?_level opens closes,ih later⟩

theorem unclosed?_below {opened later : List Char} {cells : List Cell}
    (run : unclosed? opened cells = some later) (below : List Char) :
    unclosed? (opened ++ below) cells = some (later ++ below) := by
  induction cells generalizing opened with
  | nil =>
    obtain rfl := Option.some.inj run
    rfl
  | cons x cells ih =>
    obtain ⟨next,past,run⟩ := unclosed?_cons.mp run
    exact unclosed?_cons.mpr ⟨next ++ below,past?_below past below,ih run⟩

theorem KindsAgree.behind {o : Char} {opened later : List Char} {a b : List Cell}
    (agree : KindsAgree o opened (a ++ b)) (run : unclosed? opened a = some later) :
    KindsAgree o later b := by
  intro inside x rest split closes further more
  refine agree (a ++ inside) x rest ?_ closes further (unclosed?_append.mpr ⟨later,run,more⟩)
  rw [split,List.append_assoc]

theorem kindsAgree_of_unclosed? {o : Char} {opened later : List Char} {cells : List Cell}
    (run : unclosed? (opened ++ [o]) cells = some later) : KindsAgree o opened cells := by
  rintro inside x behind rfl closes further begins
  obtain ⟨next,front,rest⟩ := unclosed?_append.mp run
  obtain rfl := Option.some.inj (front.symm.trans (unclosed?_below begins [o]))
  obtain ⟨_,past,-⟩ := unclosed?_cons.mp rest
  rcases past?_cases past with ⟨opens,-⟩ | ⟨-,q,paired,split⟩ | ⟨-,closesNot,-⟩
  · simp [Cell.closes_of_opens opens] at closes
  · exact ⟨q,by rw [split]; rfl,paired⟩
  · simp [closes] at closesNot

theorem flat_of_blank {cells : List Cell} (blank : ∀ x ∈ cells, Text.isBlank x.char = true) :
    Flat cells := by
  have visible {c : Char} (bracket : c ∈ ['(','[','{',')',']','}']) : Text.isBlank c = false := by
    revert c
    decide
  intro x inside
  have here := blank x inside
  have apart (c : Char) (bracket : c ∈ ['(','[','{',')',']','}']) : x.isCode c = false := by
    rw [Cell.isCode,Bool.and_eq_false_iff,beq_eq_false_iff_ne (a := x.char)]
    refine .inr ?_
    rintro rfl
    simp [visible bracket] at here
  simp [Cell.opens,Cell.closes,apart]

theorem WellNested.trimCells {cells : List Cell} (nested : WellNested cells) :
    WellNested (trimCells cells) := by
  obtain ⟨front,back,split,before,behind⟩ := trimCells_split cells
  rw [WellNested,split] at nested
  obtain ⟨opened,first,rest⟩ := unclosed?_append.mp nested
  obtain ⟨later,kept,last⟩ := unclosed?_append.mp rest
  obtain rfl := Option.some.inj ((unclosed?_flat (flat_of_blank before) []).symm.trans first)
  obtain rfl := Option.some.inj ((unclosed?_flat (flat_of_blank behind) later).symm.trans last)
  exact kept

theorem closeFrom_cons {opened later : List Char} {x : Cell} (past : past? opened x = some later)
    (cells : List Cell) : closeFrom (opened.length + 1) (x :: cells) =
      (closeFrom (later.length + 1) cells).map fun (inside,behind) => (x :: inside,behind) := by
  rw [closeFrom,depthAfter_of_past? past]
  simp

theorem closeFrom_of_unclosed? {opened : List Char} {inside : List Cell}
    (nested : unclosed? opened inside = some []) {y : Cell} (closes : y.closes = true)
    (behind : List Cell) :
    closeFrom (opened.length + 1) (inside ++ y :: behind) = some (inside,behind) := by
  induction inside generalizing opened with
  | nil =>
    obtain rfl := Option.some.inj nested
    simp [closeFrom,Cell.depthAfter,Cell.opens_of_closes closes,closes]
  | cons x inside ih =>
    obtain ⟨later,past,run⟩ := unclosed?_cons.mp nested
    rw [List.cons_append,closeFrom_cons past,ih run]
    rfl

theorem unclosed?_of_closeFrom {o : Char} {opened : List Char} {cells inside behind : List Cell}
    (agree : KindsAgree o opened cells)
    (closed : closeFrom (opened.length + 1) cells = some (inside,behind)) :
    unclosed? opened inside = some [] := by
  induction cells generalizing opened inside with
  | nil => cases closed
  | cons x cells ih =>
    cases past : past? opened x with
    | some later =>
      rw [closeFrom_cons past] at closed
      obtain ⟨⟨inner,rest⟩,further,same⟩ := Option.map_eq_some_iff.mp closed
      obtain ⟨rfl,rfl⟩ := Prod.mk.inj same
      have next : KindsAgree o later cells :=
        KindsAgree.behind (a := [x]) agree (unclosed?_cons.mpr ⟨later,past,rfl⟩)
      exact unclosed?_cons.mpr ⟨later,past,ih next further⟩
    | none =>
      -- only the bracket around all others can be closed here
      obtain ⟨closes,unpaired⟩ := past?_eq_none past
      obtain ⟨innermost,first,paired⟩ := agree [] x cells rfl closes opened rfl
      cases opened with
      | nil =>
        have last : x.depthAfter 1 = 0 := by simp [Cell.depthAfter,Cell.opens_of_closes closes,closes]
        rw [List.length_nil,closeFrom,closes,last] at closed
        obtain ⟨rfl,-⟩ := Prod.mk.inj (Option.some.inj closed)
        rfl
      | cons p outer => exact absurd paired (unpaired innermost first)

/-- Where the kinds agree, what a bracket encloses is well nested, and its partner is of its kind. -/
theorem enclosed?_iff {x : Cell} (opens : x.opens = true) {cells : List Cell}
    (agree : KindsAgree x.char [] cells) {inside behind : List Cell} :
    enclosed? (x :: cells) = some (inside,behind) ↔
      ∃ c, Paired x.char c ∧ cells = inside ++ ⟨c,.code⟩ :: behind ∧ WellNested inside := by
  rw [enclosed?,if_pos opens]
  constructor
  · intro closed
    obtain ⟨y,closes,split⟩ := closeFrom_split closed
    have nested : WellNested inside := unclosed?_of_closeFrom agree closed
    obtain ⟨o,first,paired⟩ := agree inside y behind split closes [] nested
    obtain rfl : x.char = o := by simpa using first
    refine ⟨y.char,paired,?_,nested⟩
    rw [split,← role_of_closes closes]
  · rintro ⟨c,paired,rfl,nested⟩
    exact closeFrom_of_unclosed? nested (closes_of_paired paired) behind

end PipelineAtlas.Script
