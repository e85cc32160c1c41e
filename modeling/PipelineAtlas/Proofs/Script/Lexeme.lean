import PipelineAtlas.Proofs.Script.Scan

/-! Lexemes of a script, said without the scan: string literals with their delimiters, and comments.
The scan gives each lexeme its role as a whole and goes on in code behind it, and where it comes to code
there are whole lexemes only in front of it. -/
namespace PipelineAtlas.Script

def delimiter (quote : Char) (triple : Bool) : List Char :=
  if triple then [quote,quote,quote] else [quote]

/-- What may stand between delimiters. A backslash takes the next character along, and the closing
delimiter is the first one that begins elsewhere. -/
inductive Enclosed (ends : List Char) : List Char → Prop
  | nil : Enclosed ends []
  | escape (c : Char) {content : List Char} (rest : Enclosed ends content) :
      Enclosed ends ('\\' :: c :: content)
  | char (c : Char) {content : List Char} (plain : c ≠ '\\')
      (opens : ¬ ends <+: c :: (content ++ ends)) (rest : Enclosed ends content) :
      Enclosed ends (c :: content)

/-- A complete literal, in front of some text. Two quotes are an empty literal only where no third
one follows. -/
structure IsLiteral (quote : Char) (triple : Bool) (content rest : List Char) : Prop where
  isOne : isQuote quote = true
  enclosed : Enclosed (delimiter quote triple) content
  apart : triple = false → content = [] → rest.head? ≠ some quote

def literalText (quote : Char) (triple : Bool) (content : List Char) : List Char :=
  delimiter quote triple ++ content ++ delimiter quote triple

def AtLineEnd (rest : List Char) : Prop := rest = [] ∨ rest.head? = some '\n'

/-- A text made of whole lexemes and other characters, in front of some text. -/
inductive Lexed : List Char → List Char → Prop
  | nil (rest : List Char) : Lexed [] rest
  | char (c : Char) {before rest : List Char} (plain : isPlain true c = true)
      (more : Lexed before rest) : Lexed (c :: before) rest
  | comment (body : List Char) {before rest : List Char} (oneLine : '\n' ∉ body)
      (ends : AtLineEnd (before ++ rest)) (more : Lexed before rest) :
      Lexed ('#' :: body ++ before) rest
  | literal {quote : Char} {triple : Bool} {content before rest : List Char}
      (isLiteral : IsLiteral quote triple content (before ++ rest)) (more : Lexed before rest) :
      Lexed (literalText quote triple content ++ before) rest

def literalCells (s : List Char) : List Cell := s.map fun c => ⟨c,.literal⟩

def commentCells (s : List Char) : List Cell := s.map fun c => ⟨c,.comment⟩

@[simp] theorem text_literalCells (s : List Char) : text (literalCells s) = s := by
  simp [text,literalCells,Function.comp_def]

@[simp] theorem text_commentCells (s : List Char) : text (commentCells s) = s := by
  simp [text,commentCells,Function.comp_def]

theorem ne_backslash_of_isQuote {quote : Char} (isOne : isQuote quote = true) : quote ≠ '\\' := by
  rintro rfl
  simp [isQuote] at isOne

theorem scanFrom_closing {quote : Char} (isOne : isQuote quote = true) (comments triple : Bool)
    (rest : List Char) :
    scanFrom comments (.body quote triple) (delimiter quote triple ++ rest) =
      literalCells (delimiter quote triple) ++ scanFrom comments .code rest := by
  have plain := ne_backslash_of_isQuote isOne
  cases triple with
  | false => simp [delimiter,scanFrom,Mode.next,plain,literalCells]
  | true => simp [delimiter,scanFrom,Mode.next,plain,literalCells,twoMore,List.isPrefixOf]

/-- The text of a literal goes on where no backslash stands and no delimiter begins. -/
theorem Mode.next_body {quote : Char} {triple comments : Bool} {c : Char} {s : List Char}
    (plain : c ≠ '\\') (opens : ¬ delimiter quote triple <+: c :: s) :
    (Mode.body quote triple).next comments c s = (.body quote triple,.literal) := by
  by_cases same : c = quote
  · subst same
    cases triple with
    | false => simp [delimiter] at opens
    | true =>
      simp only [delimiter,if_true,List.cons_prefix_cons,true_and] at opens
      have fewer : twoMore c s = false := by
        rw [← Bool.not_eq_true,twoMore,List.isPrefixOf_iff_prefix]
        exact opens
      simp [next,plain,fewer]
  · simp [next,plain,same]

theorem scanFrom_enclosed {quote : Char} {triple : Bool} {content : List Char}
    (isOne : isQuote quote = true) (enclosed : Enclosed (delimiter quote triple) content)
    (comments : Bool) (rest : List Char) :
    scanFrom comments (.body quote triple) (content ++ delimiter quote triple ++ rest) =
      literalCells (content ++ delimiter quote triple) ++ scanFrom comments .code rest := by
  induction enclosed with
  | nil => exact scanFrom_closing isOne comments triple rest
  | escape c _ ih =>
    simp only [List.cons_append,scanFrom,Mode.next,if_true,ih]
    rfl
  | @char c content plain opens _ ih =>
    have longer : ¬ delimiter quote triple <+: c :: (content ++ delimiter quote triple ++ rest) := by
      intro begins
      have whole : c :: (content ++ delimiter quote triple) <+:
          c :: (content ++ delimiter quote triple ++ rest) := List.prefix_append _ rest
      exact opens (List.prefix_of_prefix_length_le begins whole (by simp; omega))
    simp only [List.cons_append,scanFrom,Mode.next_body plain longer,ih]
    rfl

theorem twoMore_enclosed {quote : Char} {content rest : List Char}
    (isLiteral : IsLiteral quote false content rest) :
    twoMore quote (content ++ quote :: rest) = false := by
  have plain := ne_backslash_of_isQuote isLiteral.isOne
  cases isLiteral.enclosed with
  | nil =>
    have other := isLiteral.apart rfl rfl
    cases rest with
    | nil => simp [twoMore,List.isPrefixOf]
    | cons c rest =>
      simp only [List.head?_cons,ne_eq,Option.some.injEq] at other
      simp [twoMore,List.isPrefixOf,Ne.symm other]
  | escape c _ => simp [twoMore,List.isPrefixOf,plain]
  | char c _ opens _ =>
    have other : quote ≠ c := by
      rintro rfl
      simp [delimiter] at opens
    simp [twoMore,List.isPrefixOf,other]

theorem scanFrom_opening {quote : Char} (isOne : isQuote quote = true) {triple : Bool}
    {rest : List Char} (single : triple = false → twoMore quote rest = false) (comments : Bool) :
    scanFrom comments .code (delimiter quote triple ++ rest) =
      literalCells (delimiter quote triple) ++ scanFrom comments (.body quote triple) rest := by
  cases triple with
  | false => simp [delimiter,scanFrom,Mode.next,isOne,single rfl,literalCells]
  | true => simp [delimiter,scanFrom,Mode.next,isOne,twoMore,List.isPrefixOf,literalCells]

theorem scanFrom_literal {quote : Char} {triple : Bool} {content rest : List Char}
    (isLiteral : IsLiteral quote triple content rest) (comments : Bool) :
    scanFrom comments .code (literalText quote triple content ++ rest) =
      literalCells (literalText quote triple content) ++ scanFrom comments .code rest := by
  have body := scanFrom_enclosed isLiteral.isOne isLiteral.enclosed comments rest
  have single : triple = false →
      twoMore quote (content ++ delimiter quote triple ++ rest) = false := by
    rintro rfl
    simpa [delimiter] using twoMore_enclosed isLiteral
  have opening := scanFrom_opening isLiteral.isOne single comments
  rw [body] at opening
  simpa [literalText,literalCells] using opening

theorem scanFrom_comment {rest : List Char} (ends : AtLineEnd rest) :
    scanFrom true .comment rest = scanFrom true .code rest := by
  rcases ends with rfl | first
  · rfl
  · obtain ⟨rest,rfl⟩ := List.head?_eq_some_iff.mp first
    simp [scanFrom,Mode.next,isQuote]

theorem source_comment {body rest : List Char} (oneLine : '\n' ∉ body) (ends : AtLineEnd rest) :
    source ('#' :: body ++ rest) = commentCells ('#' :: body) ++ source rest := by
  have inside : scanFrom true .comment (body ++ rest) =
      commentCells body ++ scanFrom true .code rest := by
    induction body with
    | nil => exact scanFrom_comment ends
    | cons c body ih =>
      simp only [List.mem_cons,not_or] at oneLine
      have next : Mode.comment.next true c (body ++ rest) = (.comment,.comment) := by
        simp [Mode.next,Ne.symm oneLine.1]
      simp only [List.cons_append,scanFrom,next,ih oneLine.2]
      rfl
  have opens : Mode.code.next true '#' (body ++ rest) = (.comment,.comment) := by
    simp [Mode.next,isQuote]
  simp only [source,List.cons_append,scanFrom,opens,inside]
  rfl

theorem source_plain {c : Char} (plain : isPlain true c = true) (rest : List Char) :
    source (c :: rest) = ⟨c,.code⟩ :: source rest := by
  simp only [source,scanFrom,Mode.next_plain plain]

/-- Whole lexemes are scanned alike in front of any text with the same first character. -/
theorem Lexed.source {before rest : List Char} (lexed : Lexed before rest) :
    ∃ cells, text cells = before ∧ ∀ rest', rest'.head? = rest.head? →
      Lexed before rest' ∧ Script.source (before ++ rest') = cells ++ Script.source rest' := by
  have sameHead : ∀ (before : List Char) {rest rest' : List Char}, rest'.head? = rest.head? →
      (before ++ rest').head? = (before ++ rest).head? := by
    intro before rest rest' same
    simp [List.head?_append,same]
  induction lexed with
  | nil rest => exact ⟨[],rfl,fun rest' _ => ⟨.nil _,rfl⟩⟩
  | char c plain more ih =>
    obtain ⟨cells,chars,follows⟩ := ih
    refine ⟨⟨c,.code⟩ :: cells,by simp [chars],fun rest' same => ?_⟩
    obtain ⟨lexed,scanned⟩ := follows rest' same
    refine ⟨.char c plain lexed,?_⟩
    rw [List.cons_append,source_plain plain,scanned]
    rfl
  | @comment body before rest oneLine ends more ih =>
    obtain ⟨cells,chars,follows⟩ := ih
    refine ⟨commentCells ('#' :: body) ++ cells,by simp [chars],fun rest' same => ?_⟩
    obtain ⟨lexed,scanned⟩ := follows rest' same
    have ends' : AtLineEnd (before ++ rest') := by
      have heads := sameHead before same
      rcases ends with none | some
      · left
        rw [none] at heads
        simpa using heads
      · exact .inr (heads.trans some)
    refine ⟨.comment body oneLine ends' lexed,?_⟩
    rw [List.append_assoc,source_comment oneLine ends',scanned,List.append_assoc]
  | @literal quote triple content before rest isLiteral more ih =>
    obtain ⟨cells,chars,follows⟩ := ih
    refine ⟨literalCells (literalText quote triple content) ++ cells,by simp [chars],
      fun rest' same => ?_⟩
    obtain ⟨lexed,scanned⟩ := follows rest' same
    have isLiteral' : IsLiteral quote triple content (before ++ rest') :=
      ⟨isLiteral.isOne,isLiteral.enclosed,fun single none => by
        rw [sameHead before same]
        exact isLiteral.apart single none⟩
    refine ⟨.literal isLiteral' lexed,?_⟩
    have first := scanFrom_literal isLiteral' true
    unfold Script.source at scanned ⊢
    rw [List.append_assoc,first,scanned,List.append_assoc]

private theorem twoMore_split {quote : Char} {s : List Char} (more : twoMore quote s = true) :
    ∃ t, s = quote :: quote :: t := by
  obtain ⟨t,rfl⟩ := List.isPrefixOf_iff_prefix.mp more
  exact ⟨t,rfl⟩

private theorem quotes_of_code {quote : Char} {before rest : List Char} {m : Nat → Mode} {after : Mode}
    (more : twoMore quote (before ++ rest) = true)
    (steps : ∀ c s, ((m 2).next true c s).1 = m 1 ∧ ((m 1).next true c s).1 = after)
    (apart : m 2 ≠ .code ∧ m 1 ≠ .code)
    (inCode : modeBefore true (m 2) before rest = .code) :
    ∃ later, before = quote :: quote :: later ∧ modeBefore true after later rest = .code := by
  match before with
  | [] => exact absurd inCode apart.1
  | [c] =>
    rw [modeBefore,(steps _ _).1] at inCode
    exact absurd inCode apart.2
  | c :: d :: later =>
    obtain ⟨t,same⟩ := twoMore_split more
    obtain ⟨rfl,same⟩ := List.cons.inj same
    obtain ⟨rfl,-⟩ := List.cons.inj same
    rw [modeBefore,(steps _ _).1,modeBefore,(steps _ _).2] at inCode
    exact ⟨later,rfl,inCode⟩

theorem enclosed_of_code {quote : Char} {triple : Bool} {before rest : List Char}
    (inCode : modeBefore true (.body quote triple) before rest = .code) :
    ∃ content later, before = content ++ (delimiter quote triple ++ later) ∧
      Enclosed (delimiter quote triple) content ∧ modeBefore true .code later rest = .code := by
  -- a backslash takes the next character along, so the induction is on the length
  induction bound : before.length using Nat.strongRecOn generalizing before with
  | _ size ih =>
  cases before with
  | nil => simp [modeBefore] at inCode
  | cons c before =>
    simp only [List.length_cons] at bound
    rw [modeBefore] at inCode
    by_cases slash : c = '\\'
    · subst slash
      simp only [Mode.next,if_true] at inCode
      cases before with
      | nil => simp [modeBefore] at inCode
      | cons d before =>
        simp only [List.length_cons] at bound
        obtain ⟨content,later,rfl,enclosed,behind⟩ := ih before.length (by omega) inCode rfl
        exact ⟨'\\' :: d :: content,later,rfl,.escape d enclosed,behind⟩
    by_cases opens : delimiter quote triple <+: c :: (before ++ rest)
    · cases triple with
      | false =>
        obtain rfl : quote = c := by simpa [delimiter] using opens
        simp only [Mode.next,slash,if_true,Bool.false_eq_true,if_false] at inCode
        exact ⟨[],before,rfl,.nil,inCode⟩
      | true =>
        obtain ⟨rfl,more⟩ := List.cons_prefix_cons.mp opens
        have closes : twoMore quote (before ++ rest) = true := List.isPrefixOf_iff_prefix.mpr more
        simp only [Mode.next,slash,if_true,if_false,closes] at inCode
        obtain ⟨later,rfl,behind⟩ := quotes_of_code (m := .closing) closes (fun _ _ => ⟨rfl,rfl⟩)
          (by simp) inCode
        exact ⟨[],later,rfl,.nil,behind⟩
    · rw [Mode.next_body slash opens] at inCode
      obtain ⟨content,later,rfl,enclosed,behind⟩ := ih before.length (by omega) inCode rfl
      refine ⟨c :: content,later,rfl,.char c slash (fun inner => opens ?_) enclosed,behind⟩
      exact inner.trans ⟨later ++ rest,by simp⟩

theorem line_of_code {before rest : List Char} (inCode : modeBefore true .comment before rest = .code) :
    ∃ body later, before = body ++ '\n' :: later ∧ '\n' ∉ body ∧
      modeBefore true .code ('\n' :: later) rest = .code := by
  induction before with
  | nil => simp [modeBefore] at inCode
  | cons c before ih =>
    by_cases feed : c = '\n'
    · subst feed
      exact ⟨[],before,rfl,by simp,inCode⟩
    · simp only [modeBefore,Mode.next,feed,if_false] at inCode
      obtain ⟨body,later,rfl,clear,behind⟩ := ih inCode
      exact ⟨c :: body,later,rfl,by simp [clear,Ne.symm feed],behind⟩

theorem literal_of_code {c : Char} {before rest : List Char} (quote : isQuote c = true)
    (inCode : modeBefore true .code (c :: before) rest = .code) :
    ∃ triple content later, c :: before = literalText c triple content ++ later ∧
      IsLiteral c triple content (later ++ rest) ∧ modeBefore true .code later rest = .code := by
  rw [modeBefore] at inCode
  cases more : twoMore c (before ++ rest) with
  | true =>
    simp only [Mode.next,quote,more,if_true] at inCode
    obtain ⟨later,rfl,inBody⟩ := quotes_of_code (m := .opening c) more
      (fun _ _ => ⟨rfl,rfl⟩) (by simp) inCode
    obtain ⟨content,later,rfl,enclosed,behind⟩ := enclosed_of_code inBody
    exact ⟨true,content,later,by simp [literalText,delimiter],⟨quote,enclosed,by simp⟩,behind⟩
  | false =>
    simp only [Mode.next,quote,more,if_true,Bool.false_eq_true,if_false] at inCode
    obtain ⟨content,later,rfl,enclosed,behind⟩ := enclosed_of_code inCode
    refine ⟨false,content,later,by simp [literalText,delimiter],⟨quote,enclosed,?_⟩,behind⟩
    rintro - rfl first
    obtain ⟨t,same⟩ := List.head?_eq_some_iff.mp first
    simp [delimiter,same,twoMore,List.isPrefixOf] at more

/-- In front of a place in code there are whole lexemes only. -/
theorem lexed_of_code {before rest : List Char} (inCode : modeBefore true .code before rest = .code) :
    Lexed before rest := by
  induction bound : before.length using Nat.strongRecOn generalizing before with
  | _ size ih =>
  cases before with
  | nil => exact .nil rest
  | cons c before =>
    rw [List.length_cons] at bound
    cases quote : isQuote c with
    | true =>
      obtain ⟨triple,content,later,split,isLiteral,behind⟩ := literal_of_code quote inCode
      have less := congrArg List.length split
      have shorter : later.length < size := by
        cases triple <;> simp [literalText,delimiter] at less <;> omega
      rw [split]
      exact .literal isLiteral (ih later.length shorter behind rfl)
    | false =>
      rw [modeBefore] at inCode
      by_cases sign : c = '#'
      · subst sign
        simp only [Mode.next,quote,Bool.true_and,beq_self_eq_true,if_true,Bool.false_eq_true,
          if_false] at inCode
        obtain ⟨body,later,rfl,clear,behind⟩ := line_of_code inCode
        have more : Lexed ('\n' :: later) rest :=
          ih _ (by simp at bound ⊢; omega) behind rfl
        exact .comment body clear (.inr rfl) more
      · have plain : isPlain true c = true := by simp [isPlain,quote,sign]
        rw [Mode.next_plain plain] at inCode
        exact .char c plain (ih before.length (by omega) inCode rfl)

end PipelineAtlas.Script
