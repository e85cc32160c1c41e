import PipelineAtlas.Proofs.Script.Lexeme
import PipelineAtlas.Script.Literal

/-! Writing a string as a literal between single quotes, and scripts piece by piece. The literal stays on
one line and is read back as the string. -/
namespace PipelineAtlas.Script

def escapeChar (c : Char) : List Char :=
  if c = '\\' then ['\\','\\']
  else if c = '\'' then ['\\','\'']
  else if c = '\n' then ['\\','n']
  else [c]

def escapeText (s : List Char) : List Char := s.flatMap escapeChar

def singleQuoted (s : List Char) : List Char := literalText '\'' false (escapeText s)

/-- A way to write characters between single quotes. Each is a pair that means the character, or the
character itself. -/
def Escapes (escape : Char → List Char) : Prop := ∀ c,
  (∃ d, escape c = ['\\',d] ∧ d ≠ '\n' ∧ escapeMeaning d = [c]) ∨
    escape c = [c] ∧ c ≠ '\\' ∧ c ≠ '\'' ∧ c ≠ '\n'

theorem escapeChar_cases : Escapes escapeChar := by
  intro c
  unfold escapeChar
  by_cases slash : c = '\\'
  · exact .inl ⟨'\\',by simp [slash],by decide,by simp [slash,escapeMeaning]⟩
  by_cases quote : c = '\''
  · exact .inl ⟨'\'',by simp [quote],by decide,by simp [quote,escapeMeaning]⟩
  by_cases feed : c = '\n'
  · exact .inl ⟨'n',by simp [feed],by decide,by simp [feed,escapeMeaning]⟩
  · exact .inr ⟨by simp [slash,quote,feed],slash,quote,feed⟩

private theorem literalValue_char {raw : Bool} {ends s : List Char} {c : Char} (plain : c ≠ '\\')
    (opens : ¬ ends <+: c :: s) :
    literalValue raw ends (c :: s) = (literalValue raw ends s).map (c :: ·) := by
  have apart : ends.isPrefixOf (c :: s) = false := by
    rw [← Bool.not_eq_true,List.isPrefixOf_iff_prefix]
    exact opens
  cases s <;> simp [literalValue,apart,plain]

section

variable {escape : Char → List Char} (escapes : Escapes escape)

include escapes

theorem enclosed_of_escapes (s : List Char) : Enclosed ['\''] (s.flatMap escape) := by
  induction s with
  | nil => exact .nil
  | cons c s ih =>
    rw [List.flatMap_cons]
    rcases escapes c with ⟨d,pair,-,-⟩ | ⟨alone,slash,quote,-⟩
    · rw [pair]
      exact .escape d ih
    · rw [alone]
      refine .char c slash ?_ ih
      simpa using Ne.symm quote

theorem literalValue_of_escapes (s : List Char) :
    literalValue false ['\''] (s.flatMap escape) = some s := by
  induction s with
  | nil => rfl
  | cons c s ih =>
    rw [List.flatMap_cons]
    rcases escapes c with ⟨d,pair,-,means⟩ | ⟨alone,slash,quote,-⟩
    · rw [pair]
      simp [literalValue,ih,means,List.isPrefixOf]
    · rw [alone,List.singleton_append,literalValue_char slash (by simpa using Ne.symm quote),ih]
      rfl

private theorem delimiterOf_escapes (s : List Char) :
    delimiterOf '\'' (literalText '\'' false (s.flatMap escape)) = ['\''] := by
  have fewer : (decide (6 ≤ (literalText '\'' false (s.flatMap escape)).length) &&
      ['\'','\'','\''].isPrefixOf (literalText '\'' false (s.flatMap escape))) = false := by
    cases s with
    | nil => rfl
    | cons c s =>
      rw [Bool.and_eq_false_iff]
      right
      rcases escapes c with ⟨d,pair,-,-⟩ | ⟨alone,-,quote,-⟩
      · simp [literalText,delimiter,pair,List.isPrefixOf]
      · simp [literalText,delimiter,alone,List.isPrefixOf,Ne.symm quote]
  unfold delimiterOf
  rw [fewer]
  rfl

theorem literal?_of_escapes (s : List Char) :
    literal? (literalText '\'' false (s.flatMap escape)) = some s := by
  have inner : between ['\''] (literalText '\'' false (s.flatMap escape)) = some (s.flatMap escape) := by
    simp [between,literalText,delimiter,List.isPrefixOf]
  have single := delimiterOf_escapes escapes s
  have value := literalValue_of_escapes escapes s
  have opened : literalText '\'' false (s.flatMap escape) = '\'' :: (s.flatMap escape ++ ['\'']) := rfl
  rw [opened] at inner single ⊢
  simp [literal?,quotedValue,isQuote,single,inner,value]

theorem scanFrom_of_escapes (comments : Bool) (s : List Char) {rest : List Char}
    (apart : NoQuoteFirst rest) :
    scanFrom comments .code (literalText '\'' false (s.flatMap escape) ++ rest) =
      literalCells (literalText '\'' false (s.flatMap escape)) ++ scanFrom comments .code rest := by
  have isLiteral : IsLiteral '\'' false (s.flatMap escape) rest := by
    refine ⟨by decide,enclosed_of_escapes escapes s,?_⟩
    intro _ _ first
    have plain := apart _ first
    simp [isQuote] at plain
  exact scanFrom_literal isLiteral comments

end

theorem lineFeed_notMem_escapeText (s : List Char) : '\n' ∉ escapeText s := by
  intro inside
  obtain ⟨c,-,inside⟩ := List.mem_flatMap.mp inside
  rcases escapeChar_cases c with ⟨d,pair,other,-⟩ | ⟨alone,-,-,feed⟩
  · rw [pair] at inside
    simp [Ne.symm other] at inside
  · rw [alone] at inside
    simp [Ne.symm feed] at inside

theorem notMem_escapeText {c : Char} {s : List Char} (noSlash : c ≠ '\\') (noLetter : c ≠ 'n')
    (absent : c ∉ s) : c ∉ escapeText s := by
  intro inside
  obtain ⟨d,given,inside⟩ := List.mem_flatMap.mp inside
  have other : c ≠ d := by
    rintro rfl
    exact absent given
  unfold escapeChar at inside
  split at inside
  next => simp [noSlash] at inside
  next =>
    split at inside
    next quote =>
      subst quote
      simp [noSlash,other] at inside
    next =>
      split at inside
      next => simp [noSlash,noLetter] at inside
      next => simp [other] at inside

theorem lineFeed_notMem_singleQuoted (s : List Char) : '\n' ∉ singleQuoted s := by
  simp [singleQuoted,literalText,delimiter,lineFeed_notMem_escapeText]

theorem literal?_singleQuoted (s : List Char) : literal? (singleQuoted s) = some s :=
  literal?_of_escapes escapeChar_cases s

theorem scanFrom_singleQuoted (comments : Bool) (s : List Char) {rest : List Char}
    (apart : NoQuoteFirst rest) :
    scanFrom comments .code (singleQuoted s ++ rest) =
      literalCells (singleQuoted s) ++ scanFrom comments .code rest :=
  scanFrom_of_escapes escapeChar_cases comments s apart

/-- What a script is written from: code as it stands, and strings as literals. -/
inductive Piece where
  | code (s : List Char)
  | quoted (s : List Char)

namespace Piece

def chars : Piece → List Char
  | code s => s
  | quoted s => singleQuoted s

def cells : Piece → List Cell
  | code s => codeCells s
  | quoted s => literalCells (singleQuoted s)

end Piece

def written (pieces : List Piece) : List Char := pieces.flatMap Piece.chars

def pieceCells (pieces : List Piece) : List Cell := pieces.flatMap Piece.cells

/-- Code holds no quote and no number sign, and no literal touches another. -/
def Spaced : List Piece → Prop
  | [] => True
  | .code s :: more => s.all (isPlain true) = true ∧ Spaced more
  | .quoted _ :: more => NoQuoteFirst (written more) ∧ Spaced more

@[simp] theorem text_pieceCells (pieces : List Piece) : text (pieceCells pieces) = written pieces := by
  induction pieces with
  | nil => rfl
  | cons p more ih =>
    have here : text p.cells = p.chars := by cases p <;> simp [Piece.cells,Piece.chars]
    have split : pieceCells (p :: more) = p.cells ++ pieceCells more := rfl
    rw [split,text_append,here,ih]
    rfl

theorem plain_of_plain {s : List Char} (plain : s.all (isPlain true) = true) (comments : Bool) :
    s.all (isPlain comments) = true := by
  cases comments with
  | true => exact plain
  | false =>
    rw [List.all_eq_true] at plain ⊢
    intro c inside
    have := plain c inside
    simp only [isPlain,Bool.true_and,Bool.and_eq_true] at this
    simpa [isPlain] using this.1

theorem NoQuoteFirst.append {s rest : List Char} (first : NoQuoteFirst s)
    (next : NoQuoteFirst rest) : NoQuoteFirst (s ++ rest) := by
  cases s with
  | nil => exact next
  | cons c s => exact first

theorem Spaced.append {a b : List Piece} (left : Spaced a) (right : Spaced b)
    (apart : NoQuoteFirst (written b)) : Spaced (a ++ b) := by
  induction a with
  | nil => exact right
  | cons p a ih =>
    cases p with
    | code s => exact ⟨left.1,ih left.2⟩
    | quoted s =>
      refine ⟨?_,ih left.2⟩
      have joined : written (a ++ b) = written a ++ written b := List.flatMap_append
      show NoQuoteFirst (written (a ++ b))
      rw [joined]
      exact left.1.append apart

theorem scanFrom_written {pieces : List Piece} (spaced : Spaced pieces) (comments : Bool)
    {rest : List Char} (apart : NoQuoteFirst rest) :
    scanFrom comments .code (written pieces ++ rest) =
      pieceCells pieces ++ scanFrom comments .code rest := by
  induction pieces with
  | nil => rfl
  | cons p more ih =>
    have split : written (p :: more) ++ rest = p.chars ++ (written more ++ rest) :=
      List.append_assoc ..
    have cells : pieceCells (p :: more) = p.cells ++ pieceCells more := rfl
    rw [split,cells,List.append_assoc]
    cases p with
    | code s =>
      rw [← ih spaced.2]
      exact scanFrom_plain (plain_of_plain spaced.1 comments) _
    | quoted s =>
      rw [← ih spaced.2]
      exact scanFrom_singleQuoted comments s (spaced.1.append apart)

theorem scan_written {pieces : List Piece} (spaced : Spaced pieces) :
    scan (written pieces) = pieceCells pieces := by
  have apart : NoQuoteFirst [] := by simp [NoQuoteFirst]
  have scanned := scanFrom_written spaced false apart
  simpa [scan,scanFrom] using scanned

theorem cleanText_pieceCells (pieces : List Piece) : cleanText (pieceCells pieces) = written pieces := by
  have shown : ∀ x ∈ pieceCells pieces, x.clean = [x.char] := by
    intro x inside
    obtain ⟨p,-,inside⟩ := List.mem_flatMap.mp inside
    cases p <;> obtain ⟨c,-,rfl⟩ := List.mem_map.mp inside <;> rfl
  rw [← text_pieceCells,cleanText,text,List.map_eq_flatMap,List.flatMap_def,List.flatMap_def,
    List.map_congr_left shown]

end PipelineAtlas.Script
