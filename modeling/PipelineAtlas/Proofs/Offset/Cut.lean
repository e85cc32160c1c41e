import PipelineAtlas.Proofs.Offset.Bracket
import PipelineAtlas.Proofs.Script.Cut

/-! Cuts of a text at brackets, separators and marks. They lose nothing of the text, and are made exactly
where a separator or a mark stands outside all brackets and literals. -/
namespace PipelineAtlas.Offset

open Script
open String (utf8Len)

theorem scan_text_of_settled {parts : List (List Cell)} (settled : ∀ part ∈ parts, Settled false part) :
    (parts.map text).map scan = parts := by
  rw [List.map_map]
  exact (List.map_congr_left settled).trans (List.map_id parts)

/-- A text is operands with marks between them. Each of these marks is code outside all brackets, and
there is no further one. -/
structure CutAtMarks (s : List Char) (operands : List (List Char)) (shifts : List Shift) : Prop where
  count : operands.length = shifts.length + 1
  text_eq : rejoined Shift.mark operands shifts = s
  cells_eq : rejoined markCells (operands.map scan) shifts = scan s
  closed : ∀ operand ∈ operands.dropLast, depthBehind 0 (scan operand) = 0
  nested : ∀ operand ∈ operands, Nested (scan operand)

theorem cutAtMarks (s : List Char) : CutAtMarks s ((shiftChain (scan s)).operands.map text)
    (shiftChain (scan s)).shifts := by
  obtain ⟨settled,joined⟩ := settled_operands (settled_scan s)
  have scanned : ∀ operand ∈ (shiftChain (scan s)).operands, scan (text operand) = operand := settled
  exact {
    count := by simp [ShiftChain.operands,ShiftChain.shifts]
    text_eq := by
      rw [← text_rejoined,joined,text_scan]
    cells_eq := by rw [scan_text_of_settled settled,joined]
    closed := by
      rw [← List.map_dropLast]
      refine List.forall_mem_map.mpr fun operand member => ?_
      rw [scanned operand (List.dropLast_subset _ member)]
      exact closed_operands (scan s) operand member
    nested := by
      refine List.forall_mem_map.mpr fun operand member => ?_
      rw [scanned operand member]
      exact nested_operands (scan s) operand member }

/-- A text is parts with separators between them. Each of these separators is code outside all brackets,
and there is no further one. -/
structure CutAt (separator : Char) (s : List Char) (parts : List (List Char)) : Prop where
  text_eq : [separator].intercalate parts = s
  cells_eq : [codeCell separator].intercalate (parts.map scan) = scan s
  closed : ∀ part ∈ parts.dropLast, depthBehind 0 (scan part) = 0
  unparted : ∀ part ∈ parts, Unparted separator (scan part)

theorem cutAt (separator : Char) (s : List Char) :
    CutAt separator s ((splitFrom separator 0 [] (scan s)).map text) := by
  have begins : Settled false (([] : List Cell).reverse ++ scan s) := settled_scan s
  have settled : ∀ part ∈ splitFrom separator 0 [] (scan s), Settled false part :=
    fun part member => begins.splitFrom member
  have scanned : ∀ part ∈ splitFrom separator 0 [] (scan s), scan (text part) = part := settled
  have joined := intercalate_splitFrom separator 0 [] (scan s)
  have fresh : Unparted separator ([] : List Cell).reverse := by simp [Unparted]
  obtain ⟨unparted,closed⟩ := unparted_splitFrom fresh (scan s)
  exact {
    text_eq := by
      refine (text_intercalate (codeCell separator) _).symm.trans ?_
      rw [joined]
      exact text_scan s
    cells_eq := by
      rw [scan_text_of_settled settled,joined]
      rfl
    closed := by
      rw [← List.map_dropLast]
      refine List.forall_mem_map.mpr fun part member => ?_
      rw [scanned part (List.dropLast_subset _ member)]
      exact closed part member
    unparted := by
      refine List.forall_mem_map.mpr fun part member => ?_
      rw [scanned part member]
      exact unparted part member }

theorem map_splitTopLevel (separator : Char) (cells : List Cell) :
    (splitTopLevel separator cells).map text = inked ((splitFrom separator 0 [] cells).map text) := by
  rw [splitTopLevel,inked,List.filter_map]
  congr 1
  exact List.filter_congr fun part _ => by rw [Function.comp_apply,isBlankPart_eq]

theorem partner_of_paren {c : Char} (paired : Paired '(' c) : c = ')' := by
  simpa [Paired] using paired

/-- Behind a parenthesis in code a scan of the text from there on goes on like that of all the text. -/
theorem callBody?_of_scan {s : List Char} {a b : List Cell} (split : scan s = a ++ ⟨'(',.code⟩ :: b) :
    callBody? s (utf8Len (text a)) = some ((enclosed? (⟨'(',.code⟩ :: b)).elim
      (.error ((text a).count '\n' + 1))
      fun parts => .ok (text parts.1,utf8Len (text a ++ '(' :: text parts.1) + 1)) := by
  have settled : Settled false (a ++ ⟨'(',.code⟩ :: b) := split ▸ settled_scan s
  have behind : scan (text b) = b := settled.behind rfl
  have whole : s = text a ++ '(' :: text b := by
    rw [← text_scan s,split,text_append,text_cons]
  have cells : scan ('(' :: text b) = ⟨'(',.code⟩ :: b := by rw [scan_plainChar rfl,behind]
  rw [whole,callBody?_eq (text a) rfl,cells]
  cases enclosed? (⟨'(',.code⟩ :: b) <;> rfl

/-- All of a text is a well nested text in parentheses. -/
def InParens (s : List Char) (inside : List Cell) : Prop :=
  scan s = ⟨'(',.code⟩ :: (inside ++ [⟨')',.code⟩]) ∧ WellNested inside

/-- Takes parentheses off a text that is in them, and the white space around what is left. -/
inductive Stripped : List Char → List Char → Prop
  | done (s : List Char) : Stripped s s
  | strip {s r : List Char} {inside : List Cell} (parens : InParens s inside)
      (later : Stripped (Text.trim (text inside)) r) : Stripped s r

theorem stripped_unwrapFrom (n : Nat) {cells : List Cell} (settled : Settled false cells)
    (nested : WellNested cells) : Stripped (text cells) (text (unwrapFrom n cells)) := by
  induction n generalizing cells with
  | zero => exact .done _
  | succ n ih =>
    rcases unwrapFrom_cases cells with stays | ⟨x,rest,inside,rfl,isOpen,closed,next⟩
    · rw [stays]
      exact .done _
    have opens : x.opens = true := by simp [Cell.opens,isOpen]
    obtain ⟨code,paren⟩ : x.role = .code ∧ x.char = '(' := by simpa [Cell.isCode] using isOpen
    -- the kinds agree to the end of nested cells, so what the pair encloses is nested as well
    obtain ⟨opened,past,run⟩ := unclosed?_cons.mp nested
    obtain rfl : [x.char] = opened := by simpa [past?,opens] using past
    have agree : KindsAgree x.char [] rest := kindsAgree_of_unclosed? run
    obtain ⟨c,paired,rfl,between⟩ := (enclosed?_iff opens agree).mp closed
    rw [paren] at paired
    obtain rfl := partner_of_paren paired
    have inner : Settled false inside := Settled.enclosed? (a := []) settled closed
    have later := ih inner.trimCells between.trimCells
    rw [text_trimCells] at later
    rw [next]
    refine .strip ⟨settled.trans ?_,between⟩ later
    rw [← code,← paren]

theorem stripped_unwrap {s : List Char} (nested : WellNested (scan s)) :
    Stripped (Text.trim s) (text (unwrap (scan s))) := by
  have steps := stripped_unwrapFrom (scan s).length (settled_scan s).trimCells nested.trimCells
  rwa [text_trimCells,text_scan] at steps

theorem scan_text_unwrap (s : List Char) : scan (text (unwrap (scan s))) = unwrap (scan s) :=
  settled_unwrap (settled_scan s)

theorem unwrap?_unwrap (s : List Char) :
    unwrap? (text (unwrap (scan s))) = some (text (unwrap (scan s))) := by
  rw [unwrap?_eq,scan_text_unwrap,unwrap_unwrap]

theorem not_inParens_unwrap (s : List Char) (inside : List Cell) :
    ¬ InParens (text (unwrap (scan s))) inside := by
  rintro ⟨cells,nested⟩
  rw [scan_text_unwrap] at cells
  refine enclosed?_unwrap cells rfl inside ?_
  exact closeFrom_of_unclosed? nested rfl []

/-- Each cut of a text succeeds, by offsets as by cells. Operands and parts are cut exactly, a parenthesis
has its partner where the kinds of brackets agree, and the parentheses taken off a well nested text are
those that enclose all of it. -/
theorem cuts_lossless (s : List Char) :
    (∃ operands shifts, shiftChain? s = some (operands,shifts) ∧
      chainParts [] (shiftChain (scan s)) = (operands,shifts) ∧ CutAtMarks s operands shifts) ∧
    (∀ separator, (opensBracket separator || closesBracket separator) = false →
      ∃ parts, splitTopLevel? s separator = some (inked parts) ∧
        (splitTopLevel separator (scan s)).map text = inked parts ∧ CutAt separator s parts) ∧
    (∀ a b, scan s = a ++ ⟨'(',.code⟩ :: b → KindsAgree '(' [] b →
      (∀ inside behind, b = inside ++ ⟨')',.code⟩ :: behind → WellNested inside →
        enclosed? (⟨'(',.code⟩ :: b) = some (inside,behind) ∧
        callBody? s (utf8Len (text a)) =
          some (.ok (text inside,utf8Len (text a ++ '(' :: text inside) + 1))) ∧
      ((∀ inside behind, b = inside ++ ⟨')',.code⟩ :: behind → ¬ WellNested inside) →
        enclosed? (⟨'(',.code⟩ :: b) = none ∧
        callBody? s (utf8Len (text a)) = some (.error ((text a).count '\n' + 1)))) ∧
    ∃ r, unwrap? s = some r ∧ text (unwrap (scan s)) = r ∧ unwrap? r = some r ∧
      (WellNested (scan s) → Stripped (Text.trim s) r) ∧ ∀ inside, ¬ InParens r inside := by
  refine ⟨⟨_,_,shiftChain?_eq s,rfl,?_⟩,fun separator flat => ?_,fun a b split agree => ?_,
    ⟨_,unwrap?_eq s,rfl,unwrap?_unwrap s,stripped_unwrap,not_inParens_unwrap s⟩⟩
  · have cut := cutAtMarks s
    rw [ShiftChain.operands,List.map_cons,List.map_map] at cut
    exact cut
  · have cut := map_splitTopLevel separator (scan s)
    refine ⟨_,?_,cut,cutAt separator s⟩
    rw [splitTopLevel?_eq flat,cut]
  · have partner (inside behind : List Cell) : enclosed? (⟨'(',.code⟩ :: b) = some (inside,behind) ↔ _ :=
      enclosed?_iff rfl agree
    rw [callBody?_of_scan split]
    constructor
    · intro inside behind here nested
      rw [(partner inside behind).mpr ⟨')',by decide,here,nested⟩]
      exact ⟨rfl,rfl⟩
    · intro none
      cases closed : enclosed? (⟨'(',.code⟩ :: b) with
      | none => exact ⟨rfl,rfl⟩
      | some parts =>
        obtain ⟨c,paired,here,nested⟩ := (partner _ _).mp closed
        obtain rfl := partner_of_paren paired
        exact absurd nested (none _ _ here)

/-- A bracket in a literal is none, and the offsets count bytes. -/
theorem cuts_lossless_call :
    let s := "é = (f([x], ')'))".toList
    callBody? s 5 = some (.ok ("f([x], ')')".toList,18)) ∧
      ∃ r, unwrap? "(f([x], ')'))".toList = some r ∧ Stripped "(f([x], ')'))".toList r := by
  let call := codeCells "f([x], ".toList ++ (literalCells "')'".toList ++ [⟨')',.code⟩])
  have split : scan "é = (f([x], ')'))".toList =
    codeCells "é = ".toList ++ ⟨'(',.code⟩ :: (call ++ [⟨')',.code⟩]) := by decide
  have agree : KindsAgree '(' [] (call ++ [⟨')',.code⟩]) := by
    have run : unclosed? ([] ++ ['(']) (call ++ [⟨')',.code⟩]) = some [] := by decide
    exact kindsAgree_of_unclosed? run
  obtain ⟨-,-,bodies,-⟩ := cuts_lossless "é = (f([x], ')'))".toList
  obtain ⟨-,body⟩ := (bodies _ _ split agree).1 call [] rfl (by decide)
  obtain ⟨-,-,-,r,unwrapped,-,-,stripped,-⟩ := cuts_lossless "(f([x], ')'))".toList
  exact ⟨body,r,unwrapped,stripped (by decide)⟩

end PipelineAtlas.Offset
