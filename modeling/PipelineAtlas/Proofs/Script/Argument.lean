import PipelineAtlas.Proofs.Script.Bracket
import PipelineAtlas.Proofs.Script.Quote
import PipelineAtlas.Proofs.Text.Word
import PipelineAtlas.Script.Value

/-! Arguments of a call, written by key with constants as values, and what reading makes of them. -/
namespace PipelineAtlas.Script

/-- A value that can be written down and read back. -/
inductive Constant where
  | string (s : String)
  | bool (b : Bool)
  | none

namespace Constant

def value : Constant → Value
  | string s => .string s
  | bool b => .bool b
  | none => .none

def piece : Constant → Piece
  | string s => .quoted s.toList
  | bool true => .code "True".toList
  | bool false => .code "False".toList
  | none => .code "None".toList

end Constant

/-- Cells without brackets and commas, with nothing but words and literals at both ends. -/
structure Compact (cells : List Cell) : Prop where
  flat : Flat cells
  whole : ∀ x ∈ cells, x.isCode ',' = false
  nonempty : cells ≠ []
  trimmed : Trimmed cells
  noEquals : ∀ x ∈ cells.head?, x.char ≠ '='

theorem Cell.isCode_of_word {x : Cell} {c : Char} (word : Text.isAsciiWord x.char = true)
    (other : Text.isAsciiWord c = false) : x.isCode c = false := by
  simp [isCode,Text.ne_of_isAsciiWord word other]

theorem isPlain_of_isAsciiWord {comments : Bool} {c : Char} (word : Text.isAsciiWord c = true) :
    isPlain comments c = true := by
  have single := Text.ne_of_isAsciiWord (d := '\'') word (by decide)
  have double := Text.ne_of_isAsciiWord (d := '"') word (by decide)
  have sign := Text.ne_of_isAsciiWord (d := '#') word (by decide)
  simp [isPlain,isQuote,single,double,sign]

theorem flat_of_word {cells : List Cell}
    (word : ∀ x ∈ cells, Text.isAsciiWord x.char = true) : Flat cells := by
  intro x inside
  have other (c : Char) := x.isCode_of_word (c := c) (word x inside)
  constructor
  · simp [Cell.opens,other '(' (by decide),other '[' (by decide),other '{' (by decide)]
  · simp [Cell.closes,other ')' (by decide),other ']' (by decide),other '}' (by decide)]

theorem compact_word {s : List Char} (word : ∀ c ∈ s, Text.isAsciiWord c = true)
    (nonempty : s ≠ []) : Compact (codeCells s) := by
  have each : ∀ x ∈ codeCells s, Text.isAsciiWord x.char = true := by
    intro x inside
    obtain ⟨c,member,rfl⟩ := List.mem_map.mp inside
    exact word c member
  refine ⟨flat_of_word each,?_,by simpa [codeCells] using nonempty,⟨?_,?_⟩,?_⟩
  · intro x inside
    exact Cell.isCode_of_word (each x inside) (by decide)
  · intro x first
    exact Text.isBlank_of_isAsciiWord (each x (List.mem_of_mem_head? first))
  · intro x last
    exact Text.isBlank_of_isAsciiWord (each x (List.mem_of_mem_getLast? last))
  · intro x first
    exact Text.ne_of_isAsciiWord (each x (List.mem_of_mem_head? first)) (by decide)

theorem compact_singleQuoted (s : List Char) : Compact (literalCells (singleQuoted s)) := by
  have ends : literalCells (singleQuoted s) =
      ⟨'\'',.literal⟩ :: (literalCells (escapeText s) ++ [⟨'\'',.literal⟩]) := by
    simp [literalCells,singleQuoted,literalText,delimiter]
  refine ⟨flat_literalCells _,?_,by simp [ends],⟨?_,?_⟩,?_⟩
  · intro x inside
    obtain ⟨c,-,rfl⟩ := List.mem_map.mp inside
    rfl
  · simp [ends,Text.isBlank]
  · simp [ends,Text.isBlank,List.getLast?_cons]
  · simp [ends]

theorem Compact.join {a b : List Cell} {x : Cell} (left : Compact a) (right : Compact b)
    (flat : x.opens = false ∧ x.closes = false) (whole : x.isCode ',' = false) :
    Compact (a ++ x :: b) := by
  have first : (a ++ x :: b).head? = a.head? := by
    cases a with
    | nil => exact absurd rfl left.nonempty
    | cons y a => rfl
  have last : (a ++ x :: b).getLast? = b.getLast? := by
    cases b with
    | nil => exact absurd rfl right.nonempty
    | cons y b => simp [List.getLast?_append,List.getLast?_cons]
  refine ⟨?_,?_,by simp,⟨?_,?_⟩,?_⟩
  · intro y inside
    rcases List.mem_append.mp inside with before | inside
    · exact left.flat y before
    · rcases List.mem_cons.mp inside with rfl | behind
      · exact flat
      · exact right.flat y behind
  · intro y inside
    rcases List.mem_append.mp inside with before | inside
    · exact left.whole y before
    · rcases List.mem_cons.mp inside with rfl | behind
      · exact whole
      · exact right.whole y behind
  · rw [first]
    exact left.trimmed.1
  · rw [last]
    exact right.trimmed.2
  · rw [first]
    exact left.noEquals

namespace Constant

theorem compact (c : Constant) : Compact c.piece.cells := by
  cases c with
  | string s => exact compact_singleQuoted s.toList
  | bool b => cases b <;> exact compact_word (by decide) (by decide)
  | none => exact compact_word (by decide) (by decide)

theorem readCells_cells (c : Constant) : readCells c.piece.cells = c.value := by
  cases c with
  | string s =>
    have chars : text (literalCells (singleQuoted s.toList)) = singleQuoted s.toList := by simp
    have noWord : keyword? (singleQuoted s.toList) = .none := by
      simp [keyword?,singleQuoted,literalText,delimiter]
    have trimmed := trimCells_of_trimmed (compact_singleQuoted s.toList).trimmed
    simp [readCells,readValueFrom,piece,Piece.cells,value,trimmed,chars,noWord,
      literal?_singleQuoted]
  | bool b => cases b <;> rfl
  | none => rfl

end Constant

abbrev Keyed := String × Constant

namespace Keyed

def pieces (a : Keyed) : List Piece := [.code (a.1.toList ++ ['=']),a.2.piece]

def cells (a : Keyed) : List Cell := codeCells a.1.toList ++ ⟨'=',.code⟩ :: a.2.piece.cells

def argument (a : Keyed) : Argument Value := ⟨some a.1,a.2.value⟩

theorem pieceCells_pieces (a : Keyed) : pieceCells a.pieces = a.cells := by
  simp [pieceCells,pieces,cells,Piece.cells,codeCells]

variable {a : Keyed} (named : Text.isIdentifier a.1.toList = true)

include named

theorem compact : Compact a.cells := by
  obtain ⟨nonempty,word⟩ := Text.word_of_isIdentifier named
  exact (compact_word word nonempty).join a.2.compact ⟨rfl,rfl⟩ rfl

theorem keyParts?_cells : keyParts? a.cells = some (a.1.toList,a.2.piece.cells) := by
  obtain ⟨nonempty,word⟩ := Text.word_of_isIdentifier named
  have before : ∀ x ∈ codeCells a.1.toList, (x.char != '=') = true := by
    intro x inside
    obtain ⟨c,member,rfl⟩ := List.mem_map.mp inside
    simpa using Text.ne_of_isAsciiWord (word c member) (by decide)
  have key : a.cells.takeWhile (fun x => x.char != '=') = codeCells a.1.toList := by
    rw [cells,List.takeWhile_append_of_pos before]
    simp
  have value : a.cells.dropWhile (fun x => x.char != '=') = ⟨'=',.code⟩ :: a.2.piece.cells := by
    rw [cells,List.dropWhile_append_of_pos before]
    simp
  have single : (a.2.piece.cells.head?.map (·.char)) ≠ some '=' := by
    intro equals
    obtain ⟨x,first,char⟩ := Option.map_eq_some_iff.mp equals
    exact a.2.compact.noEquals x first char
  simp [keyParts?,key,value,Text.trim_of_word word,named,single]

theorem splitArgument_of_trim {cells : List Cell} (same : trimCells cells = a.cells) :
    splitArgument cells = (some a.1,a.2.piece.cells) := by
  simp [splitArgument,same,keyParts?_cells named]

end Keyed

def argumentPieces : List Keyed → List Piece
  | [] => []
  | a :: more => a.pieces ++ more.flatMap fun b => .code ", ".toList :: b.pieces

theorem mem_argumentPieces {args : List Keyed} {p : Piece} (member : p ∈ argumentPieces args) :
    p = .code ", ".toList ∨ ∃ a ∈ args, p ∈ a.pieces := by
  cases args with
  | nil => simp [argumentPieces] at member
  | cons a more =>
    rcases List.mem_append.mp member with first | later
    · exact .inr ⟨a,by simp,first⟩
    · obtain ⟨b,given,member⟩ := List.mem_flatMap.mp later
      rcases List.mem_cons.mp member with rfl | member
      · exact .inl rfl
      · exact .inr ⟨b,List.mem_cons_of_mem a given,member⟩

private def moreCells (args : List Keyed) : List Cell :=
  args.flatMap fun b => ⟨',',.code⟩ :: ⟨' ',.code⟩ :: b.cells

private theorem pieceCells_argumentPieces (a : Keyed) (more : List Keyed) :
    pieceCells (argumentPieces (a :: more)) = a.cells ++ moreCells more := by
  have rest : pieceCells (more.flatMap fun b => .code ", ".toList :: b.pieces) = moreCells more := by
    induction more with
    | nil => rfl
    | cons b more ih =>
      simp only [pieceCells,moreCells,List.flatMap_cons,List.flatMap_append] at ih ⊢
      rw [ih,← b.pieceCells_pieces]
      rfl
  rw [← a.pieceCells_pieces,← rest]
  simp [pieceCells,argumentPieces]

private theorem splitFrom_moreCells {more : List Keyed}
    (named : ∀ a ∈ more, Text.isIdentifier a.1.toList = true) (begun : List Cell) :
    splitFrom ',' 0 begun (moreCells more) =
      begun.reverse :: more.map fun b => ⟨' ',.code⟩ :: b.cells := by
  induction more generalizing begun with
  | nil => rfl
  | cons b more ih =>
    have compact := Keyed.compact (named b (by simp))
    have flat : Flat (⟨' ',.code⟩ :: b.cells) := by
      intro x inside
      rcases List.mem_cons.mp inside with rfl | inside
      · exact ⟨rfl,rfl⟩
      · exact compact.flat x inside
    have whole : ∀ x ∈ ((⟨' ',.code⟩ : Cell) :: b.cells), x.isCode ',' = false := by
      intro x inside
      rcases List.mem_cons.mp inside with rfl | inside
      · rfl
      · exact compact.whole x inside
    have cells : moreCells (b :: more) =
        ⟨',',.code⟩ :: ((⟨' ',.code⟩ :: b.cells) ++ moreCells more) := by
      simp [moreCells]
    rw [cells,splitFrom,if_pos (by rfl),splitFrom_flat flat whole,
      ih fun a inside => named a (List.mem_cons_of_mem b inside)]
    simp

theorem flat_arguments {args : List Keyed}
    (named : ∀ a ∈ args, Text.isIdentifier a.1.toList = true) :
    Flat (pieceCells (argumentPieces args)) := by
  cases args with
  | nil => simp [Flat,argumentPieces,pieceCells]
  | cons a more =>
    rw [pieceCells_argumentPieces]
    refine (Keyed.compact (named a (by simp))).flat.append ?_
    intro x inside
    obtain ⟨b,member,inside⟩ := List.mem_flatMap.mp inside
    simp only [List.mem_cons] at inside
    rcases inside with rfl | rfl | inside
    · exact ⟨rfl,rfl⟩
    · exact ⟨rfl,rfl⟩
    · exact (Keyed.compact (named b (List.mem_cons_of_mem a member))).flat x inside

theorem splitTopLevel_arguments {a : Keyed} {more : List Keyed}
    (named : ∀ b ∈ a :: more, Text.isIdentifier b.1.toList = true) :
    splitTopLevel ',' (pieceCells (argumentPieces (a :: more))) =
      a.cells :: more.map fun b => ⟨' ',.code⟩ :: b.cells := by
  have compact := Keyed.compact (named a (by simp))
  have split : splitFrom ',' 0 [] (a.cells ++ moreCells more) =
      a.cells :: more.map fun b => ⟨' ',.code⟩ :: b.cells := by
    rw [splitFrom_flat compact.flat compact.whole,
      splitFrom_moreCells fun b inside => named b (List.mem_cons_of_mem a inside)]
    simp
  have notBlank : ∀ b : Keyed, isBlankPart b.cells = false := by
    intro b
    simp [isBlankPart,Keyed.cells,Text.isBlank]
  rw [splitTopLevel,pieceCells_argumentPieces,split,List.filter_eq_self]
  intro part inside
  rcases List.mem_cons.mp inside with rfl | inside
  · simp [notBlank]
  · obtain ⟨b,-,rfl⟩ := List.mem_map.mp inside
    have := notBlank b
    simp only [isBlankPart] at this
    simp [isBlankPart,this]

theorem Keyed.spaced {a : Keyed} (named : Text.isIdentifier a.1.toList = true) :
    Spaced a.pieces := by
  obtain ⟨-,word⟩ := Text.word_of_isIdentifier named
  have key : (a.1.toList ++ ['=']).all (isPlain true) = true := by
    rw [List.all_append,Bool.and_eq_true,List.all_eq_true]
    exact ⟨fun c inside => isPlain_of_isAsciiWord (word c inside),by decide⟩
  refine ⟨key,?_⟩
  match a.2 with
  | .string s => exact ⟨by simp [NoQuoteFirst,written],trivial⟩
  | .bool true | .bool false | .none => exact ⟨by decide,trivial⟩

theorem spaced_arguments {args : List Keyed}
    (named : ∀ a ∈ args, Text.isIdentifier a.1.toList = true) : Spaced (argumentPieces args) := by
  cases args with
  | nil => trivial
  | cons a more =>
    have rest : Spaced (more.flatMap fun b => .code ", ".toList :: b.pieces) ∧
        NoQuoteFirst (written (more.flatMap fun b => .code ", ".toList :: b.pieces)) := by
      induction more with
      | nil => exact ⟨trivial,by simp [NoQuoteFirst,written]⟩
      | cons b more ih =>
        obtain ⟨spaced,apart⟩ := ih fun c inside => named c (by
          rcases List.mem_cons.mp inside with rfl | inside <;> simp_all)
        have here := Keyed.spaced (named b (by simp))
        refine ⟨⟨by decide,Spaced.append here spaced apart⟩,?_⟩
        intro c first
        have : c = ',' := by simpa [written,Piece.chars] using first.symm
        subst this
        decide
    exact Spaced.append (Keyed.spaced (named a (by simp))) rest.1 rest.2

theorem readArguments_written {args : List Keyed} (nonempty : args ≠ [])
    (named : ∀ a ∈ args, Text.isIdentifier a.1.toList = true) :
    readArguments (written (argumentPieces args)) = args.map Keyed.argument := by
  cases args with
  | nil => exact absurd rfl nonempty
  | cons a more =>
    rw [readArguments,scan_written (spaced_arguments named),splitTopLevel_arguments named]
    have read : ∀ b ∈ a :: more, ∀ cells, trimCells cells = b.cells →
        (splitArgument cells).1 = some b.1 ∧ readCells (splitArgument cells).2 = b.2.value := by
      intro b inside cells same
      rw [Keyed.splitArgument_of_trim (named b inside) same]
      exact ⟨rfl,b.2.readCells_cells⟩
    have trimmed : ∀ b ∈ a :: more, trimCells b.cells = b.cells := fun b inside =>
      trimCells_of_trimmed (Keyed.compact (named b inside)).trimmed
    have here := read a (by simp) a.cells (trimmed a (by simp))
    simp only [List.map_cons,List.map_map,List.cons.injEq,Keyed.argument]
    refine ⟨by rw [here.1,here.2],List.map_congr_left fun b inside => ?_⟩
    have member : b ∈ a :: more := List.mem_cons_of_mem a inside
    have there := read b member (⟨' ',.code⟩ :: b.cells)
      ((trimCells_blank (by decide) b.cells).trans (trimmed b member))
    simp only [Function.comp_apply,there.1,there.2,Keyed.argument]

end PipelineAtlas.Script
