import PipelineAtlas.Proofs.Script.LooseBracket
import PipelineAtlas.Proofs.Script.Settled

/-! Hiding comments and scanning again: the comments become blanks in code, and all other cells stay
as they are. -/
namespace PipelineAtlas.Script

/-- A cell with what hides it, if it is part of a comment. -/
def Cell.uncommented (x : Cell) : List Cell :=
  if x.role = .comment then codeCells (blanked x.char) else [x]

def Mode.uncommented : Mode → Mode
  | .comment => .code
  | mode => mode

theorem isPlain_of_blanked {c d : Char} (inside : d ∈ blanked c) : isPlain false d = true := by
  unfold blanked at inside
  split at inside
  · rw [List.mem_singleton.mp inside]
    decide
  · rw [List.eq_of_mem_replicate inside]
    decide

theorem cleanText_cons {mode : Mode} (noComment : mode ≠ .comment) (c : Char) (s : List Char) :
    c = '#' ∧ (∃ hidden, cleanText (scanFrom true mode (c :: s)) = ' ' :: hidden) ∨
      (mode.next true c s).2 ≠ .comment ∧ cleanText (scanFrom true mode (c :: s)) =
        c :: cleanText (scanFrom true (mode.next true c s).1 s) := by
  by_cases role : (mode.next true c s).2 = .comment
  · have sign : c = '#' := by
      cases mode <;> grind [Mode.next]
    subst sign
    refine .inl ⟨rfl,cleanText (scanFrom true (mode.next true '#' s).1 s),?_⟩
    rw [scanFrom_cons,role]
    rfl
  · refine .inr ⟨role,?_⟩
    simp [scanFrom_cons,cleanText,Cell.clean,role]

theorem Mode.next_ne_comment {mode : Mode} (noComment : mode ≠ .comment) {comments : Bool} {c : Char}
    {s : List Char} (role : (mode.next comments c s).2 ≠ .comment) :
    (mode.next comments c s).1 ≠ .comment := by
  cases mode <;> grind [Mode.next]

theorem twoMore_cleanText {quote : Char} (isOne : isQuote quote = true) {mode : Mode}
    (noComment : mode ≠ .comment) (s : List Char) :
    twoMore quote (cleanText (scanFrom true mode s)) = twoMore quote s := by
  have apart : (quote == ' ') = false ∧ (quote == '#') = false := by
    rw [beq_eq_false_iff_ne,beq_eq_false_iff_ne]
    constructor <;> rintro rfl <;> simp [isQuote] at isOne
  have first {mode : Mode} (noComment : mode ≠ .comment) (s : List Char) :
      [quote].isPrefixOf (cleanText (scanFrom true mode s)) = [quote].isPrefixOf s := by
    cases s with
    | nil => rfl
    | cons c s =>
      rcases cleanText_cons noComment c s with ⟨rfl,hidden,clean⟩ | ⟨-,clean⟩
      · rw [clean]
        simp [List.isPrefixOf,apart]
      · rw [clean]
        simp [List.isPrefixOf]
  cases s with
  | nil => rfl
  | cons c s =>
    rcases cleanText_cons noComment c s with ⟨rfl,hidden,clean⟩ | ⟨role,clean⟩
    · rw [clean]
      simp [twoMore,List.isPrefixOf,apart]
    · have more := first (Mode.next_ne_comment noComment role) s
      rw [clean]
      simp only [twoMore,List.isPrefixOf] at more ⊢
      rw [more]

theorem Mode.next_uncommented {mode : Mode} (quoting : mode.Quoting) {c : Char} {s : List Char}
    (role : (mode.next true c s).2 ≠ .comment) :
    mode.uncommented.next false c (cleanText (scanFrom true (mode.next true c s).1 s)) =
      ((mode.next true c s).1.uncommented,(mode.next true c s).2) := by
  by_cases inComment : mode = .comment
  · subst inComment
    by_cases feed : c = '\n'
    · subst feed
      rfl
    · simp [next,feed] at role
  have stays : ∀ {quote : Char}, isQuote quote = true →
      twoMore quote (cleanText (scanFrom true (mode.next true c s).1 s)) = twoMore quote s :=
    fun isOne => twoMore_cleanText isOne (next_ne_comment inComment role) s
  generalize cleanText (scanFrom true (mode.next true c s).1 s) = clean at stays
  cases mode <;> grind [Mode.next,Mode.uncommented,Mode.Quoting]

theorem scan_cleanText {mode : Mode} (quoting : mode.Quoting) (s : List Char) :
    scanFrom false mode.uncommented (cleanText (scanFrom true mode s)) =
      (scanFrom true mode s).flatMap Cell.uncommented := by
  induction s generalizing mode with
  | nil => rfl
  | cons c s ih =>
    have more := ih (Mode.next_quoting quoting : (mode.next true c s).1.Quoting)
    rw [scanFrom_cons,List.flatMap_cons,← more,cleanText,List.flatMap_cons,← cleanText]
    by_cases role : (mode.next true c s).2 = .comment
    · have inside : mode.uncommented = .code ∧ (mode.next true c s).1 = .comment := by
        cases mode <;> grind [Mode.next,Mode.uncommented]
      have plain : (blanked c).all (isPlain false) = true :=
        List.all_eq_true.mpr fun d member => isPlain_of_blanked member
      rw [role,inside.1,inside.2]
      exact scanFrom_plain plain _
    · simp only [Cell.clean,Cell.uncommented,role,if_false,List.singleton_append,scanFrom_cons,
        Mode.next_uncommented quoting role]

theorem Settled.scan_cleanText {cells : List Cell} (settled : Settled true cells) :
    scan (cleanText cells) = cells.flatMap Cell.uncommented := by
  have start : Mode.code.Quoting := trivial
  have scanned := Script.scan_cleanText start (text cells)
  rwa [settled] at scanned

theorem uncommented_comment {body : List Char} (oneLine : '\n' ∉ body) :
    ∃ n, (commentCells body).flatMap Cell.uncommented = List.replicate (body.length + n) space := by
  induction body with
  | nil => exact ⟨0,rfl⟩
  | cons c body ih =>
    simp only [List.mem_cons,not_or] at oneLine
    obtain ⟨n,hidden⟩ := ih oneLine.2
    have size := c.utf8Size_pos
    have first : Cell.uncommented ⟨c,.comment⟩ = List.replicate c.utf8Size space := by
      simp [Cell.uncommented,blanked,Ne.symm oneLine.1,codeCells,space]
    refine ⟨c.utf8Size - 1 + n,?_⟩
    rw [commentCells,List.map_cons,List.flatMap_cons,first,← commentCells,hidden,
      List.replicate_append_replicate,List.length_cons]
    congr 1
    omega

/-- Once comments are hidden their texts do not matter. -/
theorem loose_cleanText {p q : List Cell} {c : Char} {body body' : List Char}
    (oneLine : '\n' ∉ c :: body) (oneLine' : '\n' ∉ c :: body')
    (settled : Settled true (p ++ (commentCells (c :: body) ++ q)))
    (settled' : Settled true (p ++ (commentCells (c :: body') ++ q))) :
    LooseCells (scan (cleanText (p ++ (commentCells (c :: body) ++ q))))
      (scan (cleanText (p ++ (commentCells (c :: body') ++ q)))) := by
  obtain ⟨m,hidden⟩ := uncommented_comment oneLine
  obtain ⟨n,hidden'⟩ := uncommented_comment oneLine'
  rw [settled.scan_cleanText,settled'.scan_cleanText]
  simp only [List.flatMap_append,hidden,hidden',List.length_cons,Nat.add_right_comm _ 1]
  exact (Loose.refl _ _).append (.gap _ _ (.refl _ _))

end PipelineAtlas.Script
