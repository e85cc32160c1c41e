import PipelineAtlas.Airflow.Call
import PipelineAtlas.Proofs.Script.Placed
import PipelineAtlas.Proofs.Text.Word

/-! The calls of a source are found by what code shows: the same calls, on the same lines, whatever
stands in literals and comments. -/
namespace PipelineAtlas.Airflow

open Script

theorem skipSpaces_sight {a b : List Cell} (same : SameSight a b) :
    SameSight (skipSpaces a) (skipSpaces b) :=
  same.dropWhile (fun c => c == ' ' || c == '\t') (by decide)

theorem skipSpaces_unseen {u : List Cell} (unseen : Unseen u) (rest : List Cell) :
    skipSpaces (u ++ rest) = skipSpaces rest :=
  List.dropWhile_append_of_pos fun x inside => by simp [isSpace,unseen.shown inside]

/-- What two readings of the same sight find: both nothing, or both something that fits. -/
theorem rel_of_forall {R : α → β → Prop} {x : Option α} {y : Option β}
    (left : ∀ a, x = some a → ∃ b, y = some b ∧ R a b)
    (right : ∀ b, y = some b → ∃ a, x = some a) : Option.Rel R x y := by
  cases x with
  | some a =>
    obtain ⟨b,rfl,related⟩ := left a rfl
    exact .some related
  | none =>
    cases y with
    | none => exact .none
    | some b =>
      obtain ⟨a,found⟩ := right b rfl
      simp at found

theorem openingAt?_sight {a b call : List Cell} (same : SameSight (skipSpaces a) (skipSpaces b))
    (opened : openingAt? a = some call) :
    ∃ call', openingAt? b = some call' ∧ SameSight call call' := by
  simp only [openingAt?] at opened ⊢
  generalize skipSpaces a = left at same opened
  generalize skipSpaces b = right at same
  cases left with
  | nil => simp at opened
  | cons x rest =>
    simp only at opened
    split at opened
    next opens =>
      obtain rfl := Option.some.inj opened
      obtain ⟨rest',rfl,more⟩ := same.cons_inv (by simp [opens]) (by simp [opens])
      exact ⟨x :: rest',by simp [opens],.cons x more⟩
    next => simp at opened

theorem openingAt?_place {cells call : List Cell} (opened : openingAt? cells = some call) :
    call <:+ cells ∧ InCode call := by
  simp only [openingAt?] at opened
  split at opened
  next x rest same =>
    split at opened
    next opens =>
      obtain rfl := Option.some.inj opened
      refine ⟨?_,x,rfl,Cell.role_of_shown (by simp [opens]) (by simp [opens])⟩
      rw [← same]
      exact List.dropWhile_suffix _
    next => simp at opened
  next => simp at opened

theorem name_sight {name : List Char} (visible : ∀ c ∈ name, c ≠ ' ' ∧ c ≠ '\n') {a b : List Cell}
    (same : SameSight a b) (named : shownText (a.take name.length) = name) :
    shownText (b.take name.length) = name ∧
      SameSight (a.drop name.length) (b.drop name.length) := by
  induction name generalizing a b with
  | nil => exact ⟨rfl,same⟩
  | cons c name ih =>
    cases a with
    | nil => simp [shownText] at named
    | cons x a =>
      simp only [shownText,List.length_cons,List.take_succ_cons,List.map_cons,List.cons.injEq] at named
      obtain ⟨shown,named⟩ := named
      have first := visible c (by simp)
      rw [← shown] at first
      obtain ⟨b,rfl,more⟩ := same.cons_inv first.1 first.2
      obtain ⟨named',behind⟩ := ih (fun d inside => visible d (List.mem_cons_of_mem c inside)) more named
      refine ⟨?_,behind⟩
      simp only [shownText] at named'
      simp [shownText,shown,named']

def declarationHere? (inWord : Bool) (cells : List Cell) : Option (List Cell) :=
  if !inWord && shownText (cells.take declarationName.length) == declarationName then
    openingAt? (cells.drop declarationName.length)
  else none

theorem declarationFrom_cons (inWord : Bool) (line : Nat) (x : Cell) (rest : List Cell) :
    declarationFrom inWord line (x :: rest) =
      match declarationHere? inWord (x :: rest) with
      | some call => some (line,call)
      | none => declarationFrom (Text.isWord x.shown) (if x.char = '\n' then line + 1 else line) rest :=
  rfl

theorem declarationHere?_sight {inWord : Bool} {a b call : List Cell} (same : SameSight a b)
    (found : declarationHere? inWord a = some call) :
    ∃ call', declarationHere? inWord b = some call' ∧ SameSight call call' := by
  simp only [declarationHere?,Bool.and_eq_true,beq_iff_eq] at found ⊢
  split at found
  next named =>
    obtain ⟨named',behind⟩ := name_sight (by decide) same named.2
    rw [if_pos ⟨named.1,named'⟩]
    exact openingAt?_sight (skipSpaces_sight behind) found
  next => simp at found

theorem declarationHere?_hidden {x : Cell} (hidden : x.shown = ' ' ∨ x.shown = '\n') (inWord : Bool)
    (rest : List Cell) : declarationHere? inWord (x :: rest) = none := by
  have other : x.shown ≠ 'D' := by
    rcases hidden with shown | shown <;> simp [shown]
  simp [declarationHere?,declarationName,shownText,other]

theorem declarationFrom_unseen {u : List Cell} (unseen : Unseen u) {inWord : Bool}
    (either : u ≠ [] ∨ inWord = false) (line : Nat) (rest : List Cell) :
    declarationFrom inWord line (u ++ rest) = declarationFrom false line rest := by
  induction u generalizing inWord with
  | nil =>
    obtain rfl := either.resolve_left (by simp)
    rfl
  | cons x u ih =>
    have shown : x.shown = ' ' := unseen.shown (by simp)
    have stays := (unseen x (by simp)).2
    have word : Text.isWord ' ' = false := by decide
    rw [List.cons_append,declarationFrom_cons,declarationHere?_hidden (.inl shown),shown,word,
      if_neg stays]
    exact ih unseen.tail (.inr rfl)

/-- A call on some line, the same on both sides. -/
def SameCall (x y : Nat × List Cell) : Prop := x.1 = y.1 ∧ SameSight x.2 y.2

theorem declarationFrom_sight {a b : List Cell} (same : SameSight a b) (inWord : Bool) (line : Nat) :
    Option.Rel SameCall (declarationFrom inWord line a) (declarationFrom inWord line b) := by
  induction same generalizing inWord line with
  | nil => exact .none
  | @cons x a b rest ih =>
    have whole := SameSight.cons x rest
    have here : Option.Rel SameSight (declarationHere? inWord (x :: a))
        (declarationHere? inWord (x :: b)) := by
      refine rel_of_forall (fun call => declarationHere?_sight whole) fun call found => ?_
      obtain ⟨call',found',-⟩ := declarationHere?_sight whole.symm found
      exact ⟨call',found'⟩
    rw [declarationFrom_cons,declarationFrom_cons]
    generalize declarationHere? inWord (x :: a) = left at here
    generalize declarationHere? inWord (x :: b) = right at here
    cases here with
    | none => exact ih _ _
    | some alike => exact .some ⟨rfl,alike⟩
  | gap unseen unseen' some some' rest ih =>
    rw [declarationFrom_unseen unseen (.inl some),declarationFrom_unseen unseen' (.inl some')]
    exact ih false line
  | feed hidden breaks unseen unseen' rest ih =>
    have shown := Cell.shown_feed breaks
    have word : Text.isWord '\n' = false := by decide
    rw [declarationFrom_cons,declarationFrom_cons,declarationHere?_hidden (.inr shown),
      declarationHere?_hidden (.inr shown),shown,word,if_pos breaks]
    simp only
    rw [declarationFrom_unseen unseen (.inr rfl),declarationFrom_unseen unseen' (.inr rfl)]
    exact ih false (line + 1)

theorem declaration?_sight {a b : List Cell} (same : SameSight a b) :
    Option.Rel SameCall (declaration? a) (declaration? b) := declarationFrom_sight same false 1

theorem declarationFrom_place {cells : List Cell} {inWord : Bool} {line : Nat}
    {found : Nat × List Cell} (declared : declarationFrom inWord line cells = some found) :
    found.2 <:+ cells ∧ InCode found.2 := by
  induction cells generalizing inWord line with
  | nil => simp [declarationFrom] at declared
  | cons x rest ih =>
    rw [declarationFrom_cons] at declared
    split at declared
    next call here =>
      obtain rfl := Option.some.inj declared
      simp only [declarationHere?] at here
      split at here
      · obtain ⟨place,inCode⟩ := openingAt?_place here
        exact ⟨place.trans (List.drop_suffix _ _),inCode⟩
      · simp at here
    next =>
      obtain ⟨place,inCode⟩ := ih declared
      exact ⟨place.trans (List.suffix_cons x rest),inCode⟩

theorem lineStartsFrom_unseen {u : List Cell} (unseen : Unseen u) (line : Nat) (rest : List Cell) :
    lineStartsFrom line (u ++ rest) = lineStartsFrom line rest := by
  induction u with
  | nil => rfl
  | cons x u ih =>
    have stays := (unseen x (by simp)).2
    rw [List.cons_append,lineStartsFrom,if_neg stays]
    exact ih unseen.tail

def SameLine (x y : Nat × List Cell) : Prop :=
  x.1 = y.1 ∧ SameSight (skipSpaces x.2) (skipSpaces y.2)

theorem lineStartsFrom_sight {a b : List Cell} (same : SameSight a b) (line : Nat) :
    List.Forall₂ SameLine (lineStartsFrom line a) (lineStartsFrom line b) := by
  induction same generalizing line with
  | nil => exact .nil
  | cons x rest ih =>
    simp only [lineStartsFrom]
    split
    · exact .cons ⟨rfl,skipSpaces_sight rest⟩ (ih _)
    · exact ih line
  | gap unseen unseen' _ _ rest ih =>
    rw [lineStartsFrom_unseen unseen,lineStartsFrom_unseen unseen']
    exact ih line
  | feed hidden breaks unseen unseen' rest ih =>
    rw [lineStartsFrom,lineStartsFrom,if_pos breaks,if_pos breaks,lineStartsFrom_unseen unseen,
      lineStartsFrom_unseen unseen']
    refine .cons ⟨rfl,?_⟩ (ih _)
    rw [skipSpaces_unseen unseen,skipSpaces_unseen unseen']
    exact skipSpaces_sight rest

theorem lineStarts_sight {a b : List Cell} (same : SameSight a b) :
    List.Forall₂ SameLine (lineStarts a) (lineStarts b) :=
  .cons ⟨rfl,skipSpaces_sight same⟩ (lineStartsFrom_sight same 1)

theorem lineStarts_place {cells : List Cell} {start : Nat × List Cell}
    (member : start ∈ lineStarts cells) : start.2 <:+ cells := by
  have later : ∀ {line : Nat}, start ∈ lineStartsFrom line cells → start.2 <:+ cells := by
    clear member
    intro line member
    induction cells generalizing line with
    | nil => simp [lineStartsFrom] at member
    | cons x rest ih =>
      simp only [lineStartsFrom] at member
      split at member
      · rcases List.mem_cons.mp member with rfl | member
        · exact List.suffix_cons x rest
        · exact (ih member).trans (List.suffix_cons x rest)
      · exact (ih member).trans (List.suffix_cons x rest)
  rcases List.mem_cons.mp member with rfl | member
  · exact List.suffix_refl cells
  · exact later member

/-- An operator call, the same on both sides but for what its text holds. -/
structure SameOperator (c c' : OperatorCall) : Prop where
  target : c.target = c'.target
  operator : c.operator = c'.operator
  line : c.line = c'.line
  call : SameSight c.call c'.call

theorem operatorCall?_sight {a b : List Cell} (same : SameSight (skipSpaces a) (skipSpaces b))
    {line : Nat} {c : OperatorCall} (found : operatorCall? line a = some c) :
    ∃ c', operatorCall? line b = some c' ∧ SameOperator c c' := by
  have target := same.takeWhile_eq Text.isWord (by decide) (by decide)
  have behind := skipSpaces_sight (same.dropWhile Text.isWord (by decide))
  simp only [operatorCall?,target] at found ⊢
  generalize skipSpaces ((skipSpaces a).dropWhile fun x => Text.isWord x.shown) = left
    at behind found
  generalize skipSpaces ((skipSpaces b).dropWhile fun x => Text.isWord x.shown) = right at behind
  cases left with
  | nil => simp at found
  | cons equals rest =>
    simp only at found
    split at found
    next call opened =>
      split at found
      next sound =>
        obtain rfl := Option.some.inj found
        have sign : equals.shown = '=' := by
          simp only [Bool.and_eq_true,beq_iff_eq] at sound
          exact sound.1.1
        obtain ⟨rest',rfl,more⟩ := behind.cons_inv (by simp [sign]) (by simp [sign])
        have inner := skipSpaces_sight more
        have path := inner.takeWhile_eq (fun c => Text.isWord c || c == '.') (by decide) (by decide)
        have last := inner.dropWhile (fun c => Text.isWord c || c == '.') (by decide)
        obtain ⟨call',opened',alike⟩ := openingAt?_sight (skipSpaces_sight last) opened
        simp only [← path,opened',if_pos sound]
        exact ⟨_,rfl,rfl,rfl,rfl,alike⟩
      next => simp at found
    next => simp at found

theorem operatorCall?_place {cells : List Cell} {line : Nat} {c : OperatorCall}
    (found : operatorCall? line cells = some c) : c.call <:+ cells ∧ InCode c.call := by
  simp only [operatorCall?] at found
  split at found
  next equals rest same =>
    split at found
    next call opened =>
      split at found
      · obtain rfl := Option.some.inj found
        obtain ⟨place,inCode⟩ := openingAt?_place opened
        refine ⟨?_,inCode⟩
        have inner : rest <:+ cells := by
          have whole : equals :: rest <:+ cells := by
            rw [← same]
            exact (List.dropWhile_suffix _).trans
              ((List.dropWhile_suffix _).trans (List.dropWhile_suffix _))
          exact (List.suffix_cons equals rest).trans whole
        exact place.trans ((List.dropWhile_suffix _).trans ((List.dropWhile_suffix _).trans inner))
      · simp at found
    next => simp at found
  next => simp at found

private theorem forall₂_filterMap {R : α → β → Prop} {S : γ → δ → Prop} {f : α → Option γ}
    {g : β → Option δ} {s : List α} {t : List β} (related : List.Forall₂ R s t)
    (step : ∀ x y, R x y → Option.Rel S (f x) (g y)) :
    List.Forall₂ S (s.filterMap f) (t.filterMap g) := by
  induction related with
  | nil => exact .nil
  | @cons x y s t here _ ih =>
    have found := step x y here
    rw [List.filterMap_cons,List.filterMap_cons]
    generalize f x = left at found
    generalize g y = right at found
    cases found with
    | none => exact ih
    | some alike => exact .cons alike ih

theorem operatorCalls_sight {a b : List Cell} (same : SameSight a b) :
    List.Forall₂ SameOperator (operatorCalls a) (operatorCalls b) := by
  refine forall₂_filterMap (lineStarts_sight same) ?_
  rintro ⟨line,rest⟩ ⟨line',rest'⟩ ⟨rfl,indented⟩
  refine rel_of_forall (fun c => operatorCall?_sight indented) fun c found => ?_
  obtain ⟨c',found',-⟩ := operatorCall?_sight indented.symm found
  exact ⟨c',found'⟩

theorem operatorCalls_place {cells : List Cell} {c : OperatorCall} (member : c ∈ operatorCalls cells) :
    c.call <:+ cells ∧ InCode c.call := by
  obtain ⟨⟨line,rest⟩,started,found⟩ := List.mem_filterMap.mp member
  obtain ⟨place,inCode⟩ := operatorCall?_place found
  exact ⟨place.trans (lineStarts_place started),inCode⟩

end PipelineAtlas.Airflow
