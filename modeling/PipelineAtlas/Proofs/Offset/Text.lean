import Mathlib.Data.String.Basic
import PipelineAtlas.Proofs.Script.Lexeme
import PipelineAtlas.Proofs.Script.Settled

/-! Offsets in a text. An offset counts the bytes of UTF-8 in front of it, and a text can be cut only
where a character begins or where the text ends. Cutting it elsewhere gives nothing. A scanner that
knows only the offset where it stands meets the characters that a scan of the text makes code. -/
namespace PipelineAtlas.Offset

open String (utf8Len)

/-- What stands in front of an offset and what stands behind it. -/
def cut? : Nat → List Char → Option (List Char × List Char)
  | 0,s => some ([],s)
  | _ + 1,[] => none
  | n + 1,c :: s =>
    if c.utf8Size ≤ n + 1 then (cut? (n + 1 - c.utf8Size) s).map fun (front,back) => (c :: front,back)
    else none

def upTo? (i : Nat) (s : List Char) : Option (List Char) := (cut? i s).map (·.1)

def from? (i : Nat) (s : List Char) : Option (List Char) := (cut? i s).map (·.2)

/-- What stands between two offsets, the first of which must not be the greater one. -/
def between? (i j : Nat) (s : List Char) : Option (List Char) :=
  if i ≤ j then (upTo? j s).bind (from? i) else none

/-- Between two characters of a text, in front of it or behind it. -/
def Boundary (s : List Char) (i : Nat) : Prop := ∃ front back, s = front ++ back ∧ i = utf8Len front

def charAt? (s : List Char) (i : Nat) : Option Char := (from? i s).bind List.head?

def lineAt? (s : List Char) (i : Nat) : Option Nat := (upTo? i s).map fun front => front.count '\n' + 1

theorem utf8Len_concat (s : List Char) (c : Char) :
    utf8Len (s ++ [c]) = utf8Len s + c.utf8Size := by
  rw [String.utf8Len_append,String.utf8Len_cons,String.utf8Len_nil,Nat.zero_add]

theorem utf8Len_blanks (n : Nat) : utf8Len (List.replicate n ' ') = n := by
  induction n with
  | zero => rfl
  | succ n ih => rw [List.replicate_succ,String.utf8Len_cons,ih,show (' ' : Char).utf8Size = 1 from rfl]

theorem cut?_eq_some {i : Nat} {s front back : List Char} :
    cut? i s = some (front,back) ↔ s = front ++ back ∧ i = utf8Len front := by
  induction s generalizing i front with
  | nil =>
    cases i with
    | zero =>
      rw [cut?,Option.some.injEq,Prod.mk.injEq]
      constructor
      · rintro ⟨rfl,rfl⟩
        exact ⟨rfl,rfl⟩
      · rintro ⟨empty,-⟩
        obtain ⟨rfl,rfl⟩ := List.append_eq_nil_iff.mp empty.symm
        exact ⟨rfl,rfl⟩
    | succ n =>
      rw [cut?]
      refine ⟨fun cut => (by cases cut),fun ⟨empty,length⟩ => ?_⟩
      obtain ⟨rfl,rfl⟩ := List.append_eq_nil_iff.mp empty.symm
      cases length
  | cons c s ih =>
    have size := c.utf8Size_pos
    cases i with
    | zero =>
      rw [cut?,Option.some.injEq,Prod.mk.injEq]
      constructor
      · rintro ⟨rfl,rfl⟩
        exact ⟨rfl,rfl⟩
      · rintro ⟨whole,length⟩
        cases front with
        | nil => exact ⟨rfl,whole⟩
        | cons d front =>
          have size := d.utf8Size_pos
          rw [String.utf8Len_cons] at length
          omega
    | succ n =>
      rw [cut?,Option.ite_none_right_eq_some,Option.map_eq_some_iff]
      constructor
      · rintro ⟨fits,⟨front',back'⟩,cut,same⟩
        obtain ⟨rfl,rfl⟩ := Prod.mk.inj same
        obtain ⟨rfl,length⟩ := ih.mp cut
        refine ⟨rfl,?_⟩
        rw [String.utf8Len_cons]
        omega
      · rintro ⟨whole,length⟩
        cases front with
        | nil => cases length
        | cons d front =>
          obtain ⟨rfl,rfl⟩ := List.cons.inj whole
          rw [String.utf8Len_cons] at length
          exact ⟨by omega,(front,back),ih.mpr ⟨rfl,by omega⟩,rfl⟩

theorem boundary_iff {s : List Char} {i : Nat} : Boundary s i ↔ (cut? i s).isSome = true := by
  rw [Option.isSome_iff_exists]
  constructor
  · rintro ⟨front,back,cut⟩
    exact ⟨(front,back),cut?_eq_some.mpr cut⟩
  · rintro ⟨⟨front,back⟩,cut⟩
    exact ⟨front,back,cut?_eq_some.mp cut⟩

instance (s : List Char) (i : Nat) : Decidable (Boundary s i) := decidable_of_iff _ boundary_iff.symm

theorem from?_eq_some {i : Nat} {s back : List Char} :
    from? i s = some back ↔ ∃ front, s = front ++ back ∧ i = utf8Len front := by
  rw [from?,Option.map_eq_some_iff]
  constructor
  · rintro ⟨⟨front,back'⟩,cut,rfl⟩
    exact ⟨front,cut?_eq_some.mp cut⟩
  · rintro ⟨front,cut⟩
    exact ⟨(front,back),cut?_eq_some.mpr cut,rfl⟩

theorem upTo?_eq_some {i : Nat} {s front : List Char} :
    upTo? i s = some front ↔ ∃ back, s = front ++ back ∧ i = utf8Len front := by
  rw [upTo?,Option.map_eq_some_iff]
  constructor
  · rintro ⟨⟨front',back⟩,cut,rfl⟩
    exact ⟨back,cut?_eq_some.mp cut⟩
  · rintro ⟨back,cut⟩
    exact ⟨(front,back),cut?_eq_some.mpr cut,rfl⟩

@[simp] theorem from?_append (a b : List Char) : from? (utf8Len a) (a ++ b) = some b :=
  from?_eq_some.mpr ⟨a,rfl,rfl⟩

@[simp] theorem upTo?_append (a b : List Char) : upTo? (utf8Len a) (a ++ b) = some a :=
  upTo?_eq_some.mpr ⟨b,rfl,rfl⟩

theorem from?_cons (a : List Char) {c : Char} (single : c.utf8Size = 1) (b : List Char) :
    from? (utf8Len a + 1) (a ++ c :: b) = some b := by
  have cut := from?_append (a ++ [c]) b
  rwa [utf8Len_concat,single,List.append_assoc,List.singleton_append] at cut

@[simp] theorem between?_append (a b c : List Char) :
    between? (utf8Len a) (utf8Len (a ++ b)) (a ++ (b ++ c)) = some b := by
  have le : utf8Len a ≤ utf8Len (a ++ b) := by
    rw [String.utf8Len_append]
    exact Nat.le_add_right _ _
  rw [between?,if_pos le,← List.append_assoc,upTo?_append,Option.bind_some,from?_append]

@[simp] theorem lineAt?_append (a b : List Char) :
    lineAt? (a ++ b) (utf8Len a) = some (a.count '\n' + 1) := by
  rw [lineAt?,upTo?_append,Option.map_some]

@[simp] theorem charAt?_append (a : List Char) (c : Char) (b : List Char) :
    charAt? (a ++ c :: b) (utf8Len a) = some c := by
  rw [charAt?,from?_append,Option.bind_some,List.head?_cons]

theorem charAt?_eq_some {s : List Char} {i : Nat} {c : Char} :
    charAt? s i = some c ↔ ∃ front back, s = front ++ c :: back ∧ i = utf8Len front := by
  rw [charAt?,Option.bind_eq_some_iff]
  constructor
  · rintro ⟨rest,here,first⟩
    obtain ⟨front,rfl,length⟩ := from?_eq_some.mp here
    obtain ⟨back,rfl⟩ := List.head?_eq_some_iff.mp first
    exact ⟨front,back,rfl,length⟩
  · rintro ⟨front,back,rfl,rfl⟩
    exact ⟨_,from?_append front _,rfl⟩

theorem boundary_of_charAt? {s : List Char} {i : Nat} {c : Char} (found : charAt? s i = some c) :
    Boundary s i := by
  obtain ⟨front,back,whole,length⟩ := charAt?_eq_some.mp found
  exact ⟨front,c :: back,whole,length⟩

open Script

/-- The bytes from the text of a literal up to the end of its closing delimiter, or to the end of
all. -/
def literalLengthFrom (body ends : List Char) (escaped : Bool) (i : Nat) : List Char → Option Nat
  | [] => some (utf8Len body)
  | c :: rest =>
    if escaped then literalLengthFrom body ends false (i + c.utf8Size) rest
    else if c = '\\' then literalLengthFrom body ends true (i + c.utf8Size) rest
    else (from? i body).bind fun here =>
      if ends.isPrefixOf here then some (i + utf8Len ends)
      else literalLengthFrom body ends false (i + c.utf8Size) rest

/-- The bytes of the literal at the start of a text, given its delimiter. -/
def sizeBetween? (text ends : List Char) : Option Nat :=
  (from? (utf8Len ends) text).bind fun body =>
    (literalLengthFrom body ends false 0 body).map (utf8Len ends + ·)

def literalSize? (quote : Char) (text : List Char) : Option Nat :=
  if [quote,quote,quote].isPrefixOf text then sizeBetween? text [quote,quote,quote]
  else (upTo? 1 text).bind (sizeBetween? text)

/-- All of a text is literal to a scan, and behind the text there is code. -/
def Literal (mode : Mode) (inside behind : List Char) : Prop :=
  ∀ comments, scanFrom comments mode (inside ++ behind) =
    literalCells inside ++ scanFrom comments .code behind

theorem Literal.cons {mode next : Mode} {c : Char} {inside behind : List Char}
    (step : ∀ comments, mode.next comments c (inside ++ behind) = (next,.literal))
    (literal : Literal next inside behind) : Literal mode (c :: inside) behind := by
  intro comments
  rw [List.cons_append,scanFrom_cons,step,literal]
  rfl

def inLiteral (quote : Char) (triple escaped : Bool) : Mode :=
  if escaped then .escaped quote triple else .body quote triple

section

variable {quote : Char} (isOne : isQuote quote = true)

include isOne

theorem literalLengthFrom_eq (triple escaped : Bool) (before rest : List Char) :
    ∃ inside behind, rest = inside ++ behind ∧
      Literal (inLiteral quote triple escaped) inside behind ∧
      literalLengthFrom (before ++ rest) (delimiter quote triple) escaped (utf8Len before) rest =
        some (utf8Len before + utf8Len inside) := by
  induction rest generalizing before escaped with
  | nil =>
    refine ⟨[],[],rfl,fun _ => by cases escaped <;> rfl,?_⟩
    rw [literalLengthFrom,List.append_nil,String.utf8Len_nil,Nat.add_zero]
  | cons c rest ih =>
    -- the scan goes on where neither a backslash nor a delimiter stands, or behind a backslash
    have goesOn (next : Bool)
        (step : ∀ comments, (inLiteral quote triple escaped).next comments c rest =
          (inLiteral quote triple next,.literal))
        (length : literalLengthFrom (before ++ c :: rest) (delimiter quote triple) escaped
            (utf8Len before) (c :: rest) =
          literalLengthFrom (before ++ c :: rest) (delimiter quote triple) next
            (utf8Len before + c.utf8Size) rest) :
        ∃ inside behind, c :: rest = inside ++ behind ∧
          Literal (inLiteral quote triple escaped) inside behind ∧
          literalLengthFrom (before ++ c :: rest) (delimiter quote triple) escaped (utf8Len before)
            (c :: rest) = some (utf8Len before + utf8Len inside) := by
      obtain ⟨inside,behind,rfl,literal,measured⟩ := ih next (before ++ [c])
      rw [List.append_assoc,List.singleton_append,utf8Len_concat] at measured
      refine ⟨c :: inside,behind,rfl,literal.cons step,?_⟩
      rw [length,measured,String.utf8Len_cons,Nat.add_assoc,Nat.add_comm c.utf8Size]
    cases escaped with
    | true => exact goesOn false (fun _ => rfl) (by rw [literalLengthFrom,if_pos rfl])
    | false =>
      by_cases slash : c = '\\'
      · subst slash
        exact goesOn true (fun _ => rfl) (by rw [literalLengthFrom,if_neg (by decide),if_pos rfl])
      have here : literalLengthFrom (before ++ c :: rest) (delimiter quote triple) false
          (utf8Len before) (c :: rest) =
            if (delimiter quote triple).isPrefixOf (c :: rest) then
              some (utf8Len before + utf8Len (delimiter quote triple))
            else literalLengthFrom (before ++ c :: rest) (delimiter quote triple) false
              (utf8Len before + c.utf8Size) rest := by
        rw [literalLengthFrom,if_neg (by decide),if_neg slash,from?_append,Option.bind_some]
      by_cases closes : delimiter quote triple <+: c :: rest
      · rw [here,if_pos (List.isPrefixOf_iff_prefix.mpr closes)]
        obtain ⟨behind,same⟩ := closes
        exact ⟨delimiter quote triple,behind,same.symm,
          fun comments => scanFrom_closing isOne comments triple behind,rfl⟩
      · refine goesOn false (fun _ => Mode.next_body slash closes) ?_
        rw [here,if_neg fun opens => closes (List.isPrefixOf_iff_prefix.mp opens)]

theorem sizeBetween?_eq (triple : Bool) {body : List Char}
    (single : triple = false → twoMore quote body = false) :
    ∃ literal behind, delimiter quote triple ++ body = literal ++ behind ∧ literal ≠ [] ∧
      Literal .code literal behind ∧
      sizeBetween? (delimiter quote triple ++ body) (delimiter quote triple) =
        some (utf8Len literal) := by
  obtain ⟨inside,behind,rfl,literal,measured⟩ := literalLengthFrom_eq isOne triple false [] body
  rw [List.nil_append,String.utf8Len_nil,Nat.zero_add] at measured
  refine ⟨delimiter quote triple ++ inside,behind,by rw [List.append_assoc],?_,?_,?_⟩
  · cases triple <;> simp [delimiter]
  · intro comments
    have inner : scanFrom comments (.body quote triple) (inside ++ behind) =
        literalCells inside ++ scanFrom comments .code behind := literal comments
    rw [List.append_assoc,scanFrom_opening isOne single,inner,literalCells,literalCells,literalCells,
      List.map_append,List.append_assoc]
  · rw [sizeBetween?,from?_append,Option.bind_some,measured,Option.map_some,
      String.utf8Len_append]

theorem ascii_of_isQuote : utf8Len [quote] = 1 := by
  have either : quote = '\'' ∨ quote = '"' := by simpa [isQuote] using isOne
  rcases either with rfl | rfl <;> rfl

theorem literalSize?_eq (rest : List Char) :
    ∃ literal behind, quote :: rest = literal ++ behind ∧ literal ≠ [] ∧
      Literal .code literal behind ∧ literalSize? quote (quote :: rest) = some (utf8Len literal) := by
  by_cases triple : [quote,quote,quote] <+: quote :: rest
  · rw [literalSize?,if_pos (List.isPrefixOf_iff_prefix.mpr triple)]
    obtain ⟨body,same⟩ := triple
    rw [← same]
    exact sizeBetween?_eq isOne true (by simp)
  · have fewer : [quote,quote,quote].isPrefixOf (quote :: rest) = false := by
      rw [← Bool.not_eq_true,List.isPrefixOf_iff_prefix]
      exact triple
    have single : twoMore quote rest = false := by simpa [twoMore,List.isPrefixOf] using fewer
    have first : upTo? 1 ([quote] ++ rest) = some [quote] := by
      rw [← ascii_of_isQuote isOne,upTo?_append]
    rw [literalSize?,fewer,if_neg (by decide),← List.singleton_append,first,Option.bind_some]
    exact sizeBetween?_eq isOne false fun _ => single

end

/-- The first character of code from an offset on, with its own offset. There is none where only
literals are left. -/
def next? (text : List Char) (pos : Nat) : Option (Option (Nat × Char)) :=
  match _here : from? pos text with
  | none => none
  | some [] => some none
  | some (c :: rest) =>
    if _quote : isQuote c = true then
      match _size : literalSize? c (c :: rest) with
      | none => none
      | some n => next? text (pos + n)
    else some (some (pos,c))
termination_by utf8Len text - pos
decreasing_by
  obtain ⟨front,rfl,rfl⟩ := from?_eq_some.mp _here
  obtain ⟨literal,behind,-,some,-,measured⟩ := literalSize?_eq _quote rest
  rw [_size] at measured
  have positive : 0 < utf8Len literal := Nat.pos_of_ne_zero (String.utf8Len_eq_zero.not.mpr some)
  have more := c.utf8Size_pos
  rw [String.utf8Len_append,String.utf8Len_cons,Option.some.inj measured]
  omega

theorem next?_nil (a : List Char) : next? a (utf8Len a) = some none := by
  have rest : from? (utf8Len a) a = some [] := by simpa using from?_append a []
  rw [next?,rest]

theorem next?_plain (a : List Char) {c : Char} (plain : isQuote c = false) (rest : List Char) :
    next? (a ++ c :: rest) (utf8Len a) = some (some (utf8Len a,c)) := by
  rw [next?,from?_append]
  simp only [plain]
  rfl

theorem next?_quote (a : List Char) {quote : Char} (isOne : isQuote quote = true)
    {rest literal behind : List Char} (whole : quote :: rest = literal ++ behind)
    (measured : literalSize? quote (quote :: rest) = some (utf8Len literal)) :
    next? (a ++ quote :: rest) (utf8Len a) =
      next? (a ++ literal ++ behind) (utf8Len (a ++ literal)) := by
  rw [next?,from?_append]
  simp only [isOne,dif_pos]
  split
  next none =>
    rw [measured] at none
    cases none
  next n some =>
    rw [measured] at some
    rw [whole,List.append_assoc,String.utf8Len_append,Option.some.inj some]

/-- What the scanner meets from a place on: either literals to the end of the text, or a character of
code behind literals. -/
inductive Ahead (text : List Char) (pos : Nat) (rest : List Char) : Prop
  | none (found : next? text pos = some none) (literal : Literal .code rest [])
  | some (skipped : List Char) (c : Char) (behind : List Char) (split : rest = skipped ++ c :: behind)
      (plain : isQuote c = false) (found : next? text pos = some (some (pos + utf8Len skipped,c)))
      (literal : Literal .code skipped (c :: behind))

theorem Literal.append {literal inside behind : List Char}
    (first : Literal .code literal (inside ++ behind)) (second : Literal .code inside behind) :
    Literal .code (literal ++ inside) behind := by
  intro comments
  rw [List.append_assoc,first,second,literalCells,literalCells,literalCells,List.map_append,
    List.append_assoc]

theorem ahead (a rest : List Char) : Ahead (a ++ rest) (utf8Len a) rest := by
  -- a literal is passed over as a whole, so the induction is on the length
  induction bound : rest.length using Nat.strongRecOn generalizing a rest with
  | _ size ih =>
  cases rest with
  | nil =>
    rw [List.append_nil]
    exact .none (next?_nil a) fun _ => rfl
  | cons c rest =>
    cases quote : isQuote c with
    | false => exact .some [] c rest rfl quote (next?_plain a quote rest) fun _ => rfl
    | true =>
      obtain ⟨literal,behind,whole,some,scanned,measured⟩ := literalSize?_eq quote rest
      have goesOn := next?_quote a quote whole measured
      have shorter : behind.length < size := by
        have lengths := congrArg List.length whole
        have positive := List.length_pos_iff_ne_nil.mpr some
        rw [List.length_append] at lengths
        omega
      rw [whole]
      rw [whole] at goesOn
      rcases ih behind.length shorter (a ++ literal) behind rfl with
        ⟨found,inner⟩ | ⟨skipped,d,later,rfl,plain,found,inner⟩
      · refine .none (goesOn.trans found) ?_
        exact Literal.append (by rwa [List.append_nil]) inner
      · refine .some (literal ++ skipped) d later (by rw [List.append_assoc]) plain ?_
          (scanned.append inner)
        rw [goesOn,found,String.utf8Len_append,String.utf8Len_append,Nat.add_assoc]

/-- What a scan of the text makes of what the scanner meets. -/
theorem ahead_scan (a rest : List Char) :
    next? (a ++ rest) (utf8Len a) = some none ∧ scan rest = literalCells rest ∨
      ∃ skipped c behind, rest = skipped ++ c :: behind ∧
        next? (a ++ rest) (utf8Len a) = some (some (utf8Len (a ++ skipped),c)) ∧
        scan rest = literalCells skipped ++ ⟨c,.code⟩ :: scan behind := by
  rcases ahead a rest with ⟨found,literal⟩ | ⟨skipped,c,behind,rfl,plain,found,literal⟩
  · exact .inl ⟨found,by simpa [scan,scanFrom] using literal false⟩
  · refine .inr ⟨skipped,c,behind,rfl,by rw [found,String.utf8Len_append],?_⟩
    rw [← scan_plainChar plain]
    exact literal false

/-- What a loop does at a character: it goes on, or goes on from an offset at least, or it stops. -/
inductive Step (σ ρ : Type) where
  | goOn (state : σ)
  | skipTo (state : σ) (pos : Nat)
  | stop (result : ρ)

variable {σ ρ : Type}

theorem next?_bounds {text : List Char} {pos i : Nat} {c : Char}
    (found : next? text pos = some (some (i,c))) : pos ≤ i ∧ i < utf8Len text := by
  cases here : from? pos text with
  | none =>
    rw [next?,here] at found
    cases found
  | some rest =>
    obtain ⟨front,rfl,rfl⟩ := from?_eq_some.mp here
    rcases ahead front rest with ⟨other,-⟩ | ⟨skipped,d,behind,rfl,-,other,-⟩
    · rw [other] at found
      cases found
    · rw [other] at found
      obtain ⟨rfl,rfl⟩ := Prod.mk.inj (Option.some.inj (Option.some.inj found))
      have size := d.utf8Size_pos
      rw [String.utf8Len_append,String.utf8Len_append,String.utf8Len_cons]
      omega

/-- Runs over the characters of code from an offset on. A step that gives nothing has failed. -/
def loop (text : List Char) (step : σ → Nat → Char → Option (Step σ ρ)) (finish : σ → Option ρ)
    (state : σ) (pos : Nat) : Option ρ :=
  match _found : next? text pos with
  | none => none
  | some none => finish state
  | some (some (i,c)) =>
    match step state i c with
    | none => none
    | some (.goOn state) => loop text step finish state (i + c.utf8Size)
    | some (.skipTo state next) => loop text step finish state (max (i + c.utf8Size) next)
    | some (.stop result) => some result
termination_by utf8Len text - pos
decreasing_by
  all_goals
    have bounds := next?_bounds _found
    have size := c.utf8Size_pos
    omega

section

variable {step : σ → Nat → Char → Option (Step σ ρ)} {finish : σ → Option ρ} {text : List Char}
  {pos : Nat}

theorem loop_of_none (found : next? text pos = some none) (state : σ) :
    loop text step finish state pos = finish state := by
  rw [loop]
  split
  next none => rw [found] at none; cases none
  next => rfl
  next i c other => rw [found] at other; cases other

theorem loop_of_some {i : Nat} {c : Char} (found : next? text pos = some (some (i,c))) (state : σ) :
    loop text step finish state pos =
      match step state i c with
      | none => none
      | some (.goOn state) => loop text step finish state (i + c.utf8Size)
      | some (.skipTo state next) => loop text step finish state (max (i + c.utf8Size) next)
      | some (.stop result) => some result := by
  rw [loop]
  split
  next none => rw [found] at none; cases none
  next none => rw [found] at none; cases none
  next j d other =>
    rw [found] at other
    obtain ⟨rfl,rfl⟩ := Prod.mk.inj (Option.some.inj (Option.some.inj other))
    rfl

end

def each (text : List Char) (step : σ → Nat → Char → Option (σ ⊕ ρ)) (finish : σ → Option ρ)
    (state : σ) : Option ρ :=
  loop text (fun state i c => (step state i c).map (Sum.elim .goOn .stop)) finish state 0

def overCells (step : σ → Nat → Char → Option (σ ⊕ ρ)) (finish : σ → Option ρ) (state : σ) (i : Nat) :
    List Cell → Option ρ
  | [] => finish state
  | x :: rest =>
    if x.role = .code then
      (step state i x.char).bind
        (Sum.elim (fun next => overCells step finish next (i + x.char.utf8Size) rest) some)
    else overCells step finish state (i + x.char.utf8Size) rest

section

variable {step : σ → Nat → Char → Option (σ ⊕ ρ)} {finish : σ → Option ρ}

theorem overCells_literal (state : σ) (i : Nat) (s : List Char) (cells : List Cell) :
    overCells step finish state i (literalCells s ++ cells) =
      overCells step finish state (i + utf8Len s) cells := by
  induction s generalizing i with
  | nil => rfl
  | cons c s ih =>
    have passed : overCells step finish state i (literalCells (c :: s) ++ cells) =
        overCells step finish state (i + c.utf8Size) (literalCells s ++ cells) := rfl
    rw [passed,ih,String.utf8Len_cons,Nat.add_assoc,Nat.add_comm c.utf8Size]

theorem loop_eq_overCells (a rest : List Char) (state : σ) :
    loop (a ++ rest) (fun state i c => (step state i c).map (Sum.elim .goOn .stop)) finish state
        (utf8Len a) =
      overCells step finish state (utf8Len a) (scan rest) := by
  induction bound : rest.length using Nat.strongRecOn generalizing a rest state with
  | _ size ih =>
  rcases ahead_scan a rest with ⟨found,cells⟩ | ⟨skipped,c,behind,rfl,found,cells⟩
  · rw [loop_of_none found,cells,← List.append_nil (literalCells rest),overCells_literal]
    rfl
  · have shorter : behind.length < size := by
      rw [List.length_append,List.length_cons] at bound
      omega
    have whole : a ++ (skipped ++ c :: behind) = a ++ skipped ++ [c] ++ behind := by simp
    rw [loop_of_some found,cells,overCells_literal,← String.utf8Len_append,overCells,if_pos rfl]
    cases step state (utf8Len (a ++ skipped)) c with
    | none => rfl
    | some next =>
      cases next with
      | inr result => rfl
      | inl next =>
        have more := ih behind.length shorter (a ++ skipped ++ [c]) behind next rfl
        rw [← whole,utf8Len_concat] at more
        exact more

theorem each_eq (text : List Char) (state : σ) :
    each text step finish state = overCells step finish state 0 (scan text) :=
  loop_eq_overCells [] text state

end

end PipelineAtlas.Offset
