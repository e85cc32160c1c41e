import PipelineAtlas.Airflow.DagFile
import PipelineAtlas.Proofs.Airflow.LooseDeclaration
import PipelineAtlas.Proofs.Airflow.LooseDependency
import PipelineAtlas.Proofs.Airflow.SightCall
import PipelineAtlas.Proofs.Script.Uncommented

/-! Comments and literals that no call takes as arguments are inert: another text in their place does
not change what is read. -/
namespace PipelineAtlas.Airflow

open Script

theorem stringArgument_alike {as bs : Arguments} (alike : as.Alike bs) (name : String) (line : Nat) :
    Agree (stringArgument as name line) (stringArgument bs name line) := by
  have given := byKey_alike alike name
  simp only [stringArgument]
  generalize as.byKey name = left at given
  generalize bs.byKey name = right at given
  cases given with
  | none => rfl
  | some value => cases value <;> rfl

structure LikeOperator (c c' : OperatorCall) : Prop extends SameOperator c c' where
  arguments : Option.Rel Arguments.Alike (callArguments? c.call) (callArguments? c'.call)

theorem readTask_alike {c c' : OperatorCall} (alike : LikeOperator c c') :
    Agree (readTask c) (readTask c') := by
  have arguments := alike.arguments
  simp only [readTask,alike.target,alike.operator,alike.line]
  split
  · rfl
  · generalize callArguments? c.call = left at arguments
    generalize callArguments? c'.call = right at arguments
    cases arguments with
    | none => rfl
    | some given =>
      refine (stringArgument_alike given "task_id" c'.line).bind fun id => ?_
      refine (stringArgument_alike given "bash_command" c'.line).bind fun command => ?_
      rfl

theorem registerTask_alike {c c' : OperatorCall} (alike : LikeOperator c c')
    (state : Dag × Variables) : Agree (registerTask state c) (registerTask state c') := by
  refine (readTask_alike alike).bind fun t => ?_
  rw [alike.target]
  rfl

theorem applyStatement_alike {x y : Statement} (alike : x.Alike y)
    (noQuote : ∀ c ∈ x.text, isQuote c = false) (vars : Variables) (d : Dag) :
    Agree (applyStatement vars d x) (applyStatement vars d y) := by
  obtain ⟨line,text⟩ := alike
  simp only [applyStatement,← readDependency_loose text noQuote,line]
  cases readDependency x.text with
  | other => rfl
  | unreadable => rfl
  | unreadableCall task => exact Agree.bind rfl fun _ => rfl
  | dependency dep => rfl

theorem isQuote_of_statement {s : List Char} {x : Statement}
    (member : x ∈ statements (codeText (source s))) : ∀ c ∈ x.text, isQuote c = false := by
  intro c inside
  rcases mem_statementsFrom member inside with rfl | begun | kept
  · decide
  · simp [StatementScan.atLine] at begun
  · obtain ⟨y,met,inside⟩ := List.mem_flatMap.mp kept
    unfold Cell.code at inside
    split at inside
    next code =>
      obtain rfl := List.mem_singleton.mp inside
      exact isQuote_of_code met code
    next =>
      have plain := isPlain_of_blanked inside
      simp only [isPlain,Bool.and_eq_true,Bool.not_eq_true'] at plain
      exact plain.1

/-- The calls whose arguments are read. -/
def argumentCalls (s : List Char) : List (List Cell) :=
  ((declaration? (source s)).map (·.2)).toList ++ (operatorCalls (source s)).map (·.call)

/-- Two sources that differ in one literal or comment are read alike if the arguments of the calls
are. -/
theorem readDag_agree {s s' : List Char} {before u u' rest : List Cell}
    (left : source s = before ++ (u ++ rest)) (right : source s' = before ++ (u' ++ rest))
    (noCode : NoCode u) (noCode' : NoCode u') (sight : SameSight (source s) (source s'))
    (gapped : Gapped (codeText (source s)) (codeText (source s')))
    (arguments : ∀ call ∈ argumentCalls s, ∀ call', call <:+ source s → call' <:+ source s' →
      Placed u u' rest call call' →
      Option.Rel Arguments.Alike (callArguments? call) (callArguments? call')) :
    Agree (readDag s) (readDag s') := by
  have given : ∀ call ∈ argumentCalls s, ∀ call', call <:+ source s → call' <:+ source s' →
      InCode call → InCode call' → SameSight call call' →
      Option.Rel Arguments.Alike (callArguments? call) (callArguments? call') := by
    intro call member call' place place' inCode inCode' same
    refine arguments call member call' place place' ?_
    rw [left] at place
    rw [right] at place'
    exact placed noCode noCode' place place' inCode inCode' same
  have operators : List.Forall₂ LikeOperator (operatorCalls (source s)) (operatorCalls (source s')) := by
    refine forall₂_imp_of_mem (operatorCalls_sight sight) fun c member c' member' same => ⟨same,?_⟩
    obtain ⟨place,inCode⟩ := operatorCalls_place member
    obtain ⟨place',inCode'⟩ := operatorCalls_place member'
    refine given c.call ?_ c'.call place place' inCode inCode' same.call
    exact List.mem_append_right _ (List.mem_map_of_mem member)
  have linked : List.Forall₂ (fun x y => Statement.Alike x y ∧ ∀ c ∈ x.text, isQuote c = false)
      (statements (codeText (source s))) (statements (codeText (source s'))) := by
    refine forall₂_imp_of_mem (statementsFrom_gapped gapped (.atLine 1)) ?_
    exact fun x member y _ alike => ⟨alike,isQuote_of_statement member⟩
  have declared := declaration?_sight sight
  simp only [readDag]
  cases found : declaration? (source s) with
  | none =>
    rw [found] at declared
    generalize declaration? (source s') = other at declared
    cases declared
    rfl
  | some first =>
  cases found' : declaration? (source s') with
  | none =>
    rw [found,found'] at declared
    cases declared
  | some first' =>
    obtain ⟨line,call⟩ := first
    obtain ⟨line',call'⟩ := first'
    rw [found,found'] at declared
    obtain ⟨rfl,same⟩ : line = line' ∧ SameSight call call' := by
      cases declared with
      | some same => exact same
    obtain ⟨place,inCode⟩ := declarationFrom_place found
    obtain ⟨place',inCode'⟩ := declarationFrom_place found'
    have alike := given call (by simp [argumentCalls,found]) call' place place' inCode inCode' same
    simp only
    generalize callArguments? call = args at alike
    generalize callArguments? call' = args' at alike
    cases alike with
    | none => rfl
    | some alike =>
      refine (readDeclaration_alike alike line).bind fun d => ?_
      refine (Agree.foldlM operators (fun state c c' like => registerTask_alike like state)
        (d,[])).bind fun registered => ?_
      refine (Agree.foldlM linked (fun d x y like => applyStatement_alike like.1 like.2 _ d)
        registered.1).bind fun d => ?_
      rfl

/-- No call takes any of the characters as arguments that `size` characters hold, in front of the last
`after` ones. -/
def OutsideArguments (s : List Char) (size after : Nat) : Prop :=
  ∀ call ∈ argumentCalls s, ∀ parts ∈ enclosed? call,
    call.length ≤ after ∨ size + after ≤ parts.2.length

instance (s : List Char) (size after : Nat) : Decidable (OutsideArguments s size after) :=
  inferInstanceAs (Decidable (∀ call ∈ argumentCalls s, ∀ parts ∈ enclosed? call,
    call.length ≤ after ∨ size + after ≤ parts.2.length))

/-- One source from another by a new text in one comment, or in one literal of as many lines that is
outside the arguments of the calls. -/
inductive Reworded : List Char → List Char → Prop
  | comment {before body body' after : List Char} (lexed : Lexed before ('#' :: body ++ after))
      (oneLine : '\n' ∉ body) (oneLine' : '\n' ∉ body') (ends : AtLineEnd after) :
      Reworded (before ++ ('#' :: body ++ after)) (before ++ ('#' :: body' ++ after))
  | literal {before content content' after : List Char} {quote : Char} {triple : Bool}
      (lexed : Lexed before (literalText quote triple content ++ after))
      (isLiteral : IsLiteral quote triple content after)
      (isLiteral' : IsLiteral quote triple content' after)
      (feeds : content.count '\n' = content'.count '\n')
      (outside : OutsideArguments (before ++ (literalText quote triple content ++ after))
        (literalText quote triple content).length after.length) :
      Reworded (before ++ (literalText quote triple content ++ after))
        (before ++ (literalText quote triple content' ++ after))

theorem callArguments?_same (call : List Cell) :
    Option.Rel Arguments.Alike (callArguments? call) (callArguments? call) := by
  cases callArguments? call with
  | none => exact .none
  | some args => exact .some (List.forall₂_same.mpr fun a _ => ⟨rfl,.refl a.value⟩)

/-- Only the arguments around a run without code can differ. -/
theorem callArguments?_placed {u u' rest call call' : List Cell} (noCode : NoCode u)
    (noCode' : NoCode u') (placed : Placed u u' rest call call')
    (across : ∀ before inside behind, enclosed? call = some (before ++ (u ++ inside),behind) →
      enclosed? call' = some (before ++ (u' ++ inside),behind) → behind.length < rest.length →
      u.length + rest.length ≤ call.length →
      (readArguments (cleanText (before ++ (u ++ inside)))).Alike
        (readArguments (cleanText (before ++ (u' ++ inside))))) :
    Option.Rel Arguments.Alike (callArguments? call) (callArguments? call') := by
  cases placed with
  | behind _ => exact callArguments?_same call
  | @around front some =>
    rcases enclosed?_around some rest with
      opens | ⟨inside,behind,closes⟩ | ⟨before,inside,behind,less,closes⟩
    · rw [callArguments?,callArguments?,opens u noCode,opens u' noCode']
      exact .none
    · have same : callArguments? (front ++ (u ++ rest)) = callArguments? (front ++ (u' ++ rest)) := by
        rw [callArguments?,callArguments?,closes u noCode,closes u' noCode']
        rfl
      rw [← same]
      exact callArguments?_same _
    · have alike := across before inside behind (closes u noCode) (closes u' noCode') less
        (by simp only [List.length_append]; omega)
      rw [callArguments?,callArguments?,closes u noCode,closes u' noCode']
      exact .some alike

theorem settled_arguments {s : List Char} {call inside behind : List Cell} (place : call <:+ source s)
    (closed : enclosed? call = some (inside,behind)) : Settled true inside := by
  obtain ⟨front,whole⟩ := place
  have settled := settled_scanFrom true s
  rw [← source,← whole] at settled
  exact settled.enclosed? closed

theorem literalText_eq (quote : Char) (triple : Bool) (content : List Char) :
    ∃ tail, literalText quote triple content = quote :: tail := by
  cases triple <;> exact ⟨_,rfl⟩

private theorem count_literalText (quote : Char) (triple : Bool) {content content' : List Char}
    (feeds : content.count '\n' = content'.count '\n') :
    (literalText quote triple content).count '\n' =
      (literalText quote triple content').count '\n' := by
  simp only [literalText,List.count_append,feeds]

/-- Sources that differ in one run of some role other than code, of as many lines. -/
theorem readDag_hidden {s s' : List Char} {before rest : List Cell} {role : Role} {c : Char}
    {w w' : List Char} (left : source s = before ++ (roleCells role (c :: w) ++ rest))
    (right : source s' = before ++ (roleCells role (c :: w') ++ rest)) (notCode : role ≠ .code)
    (first : c ≠ '\n') (feeds : w.count '\n' = w'.count '\n')
    (across : ∀ call ∈ argumentCalls s, ∀ call', call <:+ source s → call' <:+ source s' →
      ∀ before inside behind,
      enclosed? call = some (before ++ (roleCells role (c :: w) ++ inside),behind) →
      enclosed? call' = some (before ++ (roleCells role (c :: w') ++ inside),behind) →
      behind.length < rest.length → (c :: w).length + rest.length ≤ call.length →
      (readArguments (cleanText (before ++ (roleCells role (c :: w) ++ inside)))).Alike
        (readArguments (cleanText (before ++ (roleCells role (c :: w') ++ inside))))) :
    Agree (readDag s) (readDag s') := by
  have noCode := noCode_roleCells notCode (c :: w)
  have noCode' := noCode_roleCells notCode (c :: w')
  refine readDag_agree left right noCode noCode' ?_ ?_ ?_
  · rw [left,right]
    exact (SameSight.hidden notCode first first feeds (.refl _)).prepend before
  · rw [left,right,codeText_append,codeText_append,codeText_append,codeText_append]
    exact (Gapped.refl _).append (.hidden notCode first first feeds (.refl _))
  · intro call member call' place place' placed
    refine callArguments?_placed noCode noCode' placed fun p i behind closes closes' less size => ?_
    rw [roleCells,List.length_map] at size
    exact across call member call' place place' p i behind closes closes' less size

/-- Comments and the literals that no call takes as arguments are inert: with other texts in their
place the same DAG is read, or the same error up to the text that it shows. -/
theorem readDag_reworded {s s' : List Char} (reworded : Reworded s s') :
    Agree (readDag s) (readDag s') := by
  cases reworded with
  | @comment before body body' after lexed oneLine oneLine' ends =>
    obtain ⟨cells,-,follows⟩ := lexed.source
    have left := (follows ('#' :: body ++ after) rfl).2
    have right := (follows ('#' :: body' ++ after) rfl).2
    rw [source_comment oneLine ends] at left
    rw [source_comment oneLine' ends] at right
    have signs : '\n' ∉ '#' :: body ∧ '\n' ∉ '#' :: body' := by
      simp [oneLine,oneLine']
    have feeds : body.count '\n' = body'.count '\n' := by
      rw [List.count_eq_zero.mpr oneLine,List.count_eq_zero.mpr oneLine']
    refine readDag_hidden left right (by decide) (by decide) feeds ?_
    intro call _ call' place place' p i behind closes closes' _ _
    exact readArguments_alike (loose_cleanText signs.1 signs.2 (settled_arguments place closes)
      (settled_arguments place' closes'))
  | @literal before content content' after quote triple lexed isLiteral isLiteral' feeds outside =>
    obtain ⟨cells,-,follows⟩ := lexed.source
    obtain ⟨w,begins⟩ := literalText_eq quote triple content
    obtain ⟨w',begins'⟩ := literalText_eq quote triple content'
    have left := (follows _ rfl).2
    have right := (follows (literalText quote triple content' ++ after)
      (by rw [begins,begins']; rfl)).2
    have scanned : source (literalText quote triple content ++ after) = _ :=
      scanFrom_literal isLiteral true
    have scanned' : source (literalText quote triple content' ++ after) = _ :=
      scanFrom_literal isLiteral' true
    have lines := count_literalText quote triple feeds
    have visible : quote ≠ '\n' := by
      rintro rfl
      exact absurd isLiteral.isOne (by decide)
    rw [scanned,begins] at left
    rw [scanned',begins'] at right
    rw [begins,begins',List.count_cons_of_ne visible,List.count_cons_of_ne visible] at lines
    rw [begins] at outside ⊢
    rw [begins']
    refine readDag_hidden left right (by decide) visible lines ?_
    -- a call around the literal would close behind it, and the literal be among the arguments
    intro call member call' _ _ p i behind closes _ less size
    rw [length_scanFrom] at less size
    have apart := outside call member _ closes
    simp only [List.length_cons] at size apart
    omega

theorem enclosed_of_plain {quote : Char} {triple : Bool} {content : List Char}
    (plain : ∀ c ∈ content, c ≠ '\\' ∧ c ≠ quote) : Enclosed (delimiter quote triple) content := by
  induction content with
  | nil => exact .nil
  | cons c content ih =>
    obtain ⟨noSlash,other⟩ := plain c (by simp)
    refine .char c noSlash ?_ (ih fun d inside => plain d (List.mem_cons_of_mem c inside))
    intro opens
    cases triple <;> simp [delimiter,List.cons_prefix_cons,Ne.symm other] at opens

def documented (doc : String) : List Char :=
  literalText '"' true doc.toList ++
    "\nwith DAG('x', start_date='2024-01-01') as d:\n  a = BashOperator(task_id='a')".toList

def noted (note : String) : List Char :=
  "with DAG('#', start_date='2024-01-01') as d:  ".toList ++
    ('#' :: note.toList ++ "\n  a = BashOperator(task_id='a')".toList)

theorem readDag_reworded_documented :
    Reworded (documented "DAG(1)\n") (documented "\n# it's") ∧
      Agree (readDag (documented "DAG(1)\n")) (readDag (documented "\n# it's")) ∧
      Reworded (noted " a >> b") (noted " it's") ∧
      Agree (readDag (noted " a >> b")) (readDag (noted " it's")) := by
  have plain : ∀ doc ∈ ["DAG(1)\n","\n# it's"], ∀ c ∈ doc.toList, c ≠ '\\' ∧ c ≠ '"' := by decide
  have whole : ∀ doc ∈ ["DAG(1)\n","\n# it's"], ∀ rest, IsLiteral '"' true doc.toList rest :=
    fun doc member rest => ⟨rfl,enclosed_of_plain (plain doc member),by simp⟩
  have documents : Reworded (documented "DAG(1)\n") (documented "\n# it's") :=
    .literal (.nil _) (whole _ (by simp) _) (whole _ (by simp) _) (by decide) (by decide)
  have notes : Reworded (noted " a >> b") (noted " it's") :=
    .comment (lexed_of_code (by decide)) (by decide) (by decide) (.inr rfl)
  exact ⟨documents,readDag_reworded documents,notes,readDag_reworded notes⟩

end PipelineAtlas.Airflow
