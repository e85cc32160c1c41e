import PipelineAtlas.Script.Cell

/-! Scanning a text piece by piece. A piece is scanned alike whatever follows it, unless a quote
does, which could make a quote at its end part of a triple one. -/
namespace PipelineAtlas.Script

/-- The mode in which the scan of a text comes to the rest behind it. -/
def modeBefore (comments : Bool) (mode : Mode) : List Char → List Char → Mode
  | [],_ => mode
  | c :: before,rest => modeBefore comments (mode.next comments c (before ++ rest)).1 before rest

def Mode.Quoting : Mode → Prop
  | .opening quote _ | .body quote _ | .escaped quote _ => isQuote quote = true
  | .code | .closing _ | .comment => True

def NoQuoteFirst (s : List Char) : Prop := ∀ c ∈ s.head?, isQuote c = false

theorem twoMore_append {quote : Char} {s rest : List Char} (isOne : isQuote quote = true)
    (apart : NoQuoteFirst rest) : twoMore quote (s ++ rest) = twoMore quote s := by
  have other : ∀ c ∈ rest.head?, (quote == c) = false := by
    intro c first
    have plain := apart c first
    rw [beq_eq_false_iff_ne]
    rintro rfl
    simp [isOne] at plain
  unfold twoMore
  match s,rest with
  | [],[] => rfl
  | [],c :: rest => simp [List.isPrefixOf,other c rfl]
  | [a],[] => simp [List.isPrefixOf]
  | [a],c :: rest => simp [List.isPrefixOf,other c rfl]
  | a :: b :: s,rest => simp [List.isPrefixOf]

theorem Mode.next_quoting {comments : Bool} {c : Char} {rest : List Char} {mode : Mode}
    (quoting : mode.Quoting) : (mode.next comments c rest).1.Quoting := by
  cases mode <;> grind [Mode.next,Mode.Quoting]

theorem Mode.next_append {comments : Bool} {c : Char} {s rest : List Char} {mode : Mode}
    (quoting : mode.Quoting) (apart : NoQuoteFirst rest) :
    mode.next comments c (s ++ rest) = mode.next comments c s := by
  cases mode with
  | code =>
    cases isOne : isQuote c with
    | true => simp only [next,isOne,twoMore_append isOne apart]
    | false => simp only [next,isOne,Bool.false_eq_true,if_false]
  | body quote triple => simp only [next,twoMore_append quoting apart]
  | opening | escaped | closing | comment => rfl

theorem scanFrom_append {comments : Bool} {mode : Mode} (quoting : mode.Quoting)
    (s : List Char) {rest : List Char} (apart : NoQuoteFirst rest) :
    scanFrom comments mode (s ++ rest) =
      scanFrom comments mode s ++ scanFrom comments (modeBefore comments mode s []) rest := by
  induction s generalizing mode with
  | nil => rfl
  | cons c s ih =>
    simp only [List.cons_append,scanFrom,modeBefore,List.append_nil,Mode.next_append quoting apart]
    rw [ih (Mode.next_quoting quoting)]

@[simp] theorem text_scanFrom (comments : Bool) (mode : Mode) (s : List Char) :
    text (scanFrom comments mode s) = s := by
  induction s generalizing mode with
  | nil => rfl
  | cons c s ih => simpa [scanFrom,text] using ih (mode.next comments c s).1

@[simp] theorem text_append (a b : List Cell) : text (a ++ b) = text a ++ text b :=
  List.map_append

@[simp] theorem text_cons (x : Cell) (a : List Cell) : text (x :: a) = x.char :: text a := rfl

@[simp] theorem length_text (a : List Cell) : (text a).length = a.length := List.length_map _

@[simp] theorem length_scanFrom (comments : Bool) (mode : Mode) (s : List Char) :
    (scanFrom comments mode s).length = s.length := by
  rw [← length_text,text_scanFrom]

def codeCells (s : List Char) : List Cell := s.map fun c => ⟨c,.code⟩

@[simp] theorem text_codeCells (s : List Char) : text (codeCells s) = s := by
  simp [text,codeCells,Function.comp_def]

@[simp] theorem codeCells_append (s t : List Char) :
    codeCells (s ++ t) = codeCells s ++ codeCells t := List.map_append

/-- A character that neither opens a literal nor, where there are comments, starts one. -/
def isPlain (comments : Bool) (c : Char) : Bool := !isQuote c && !(comments && c == '#')

theorem Mode.next_plain {comments : Bool} {c : Char} (plain : isPlain comments c = true)
    (rest : List Char) : Mode.code.next comments c rest = (.code,.code) := by
  simp only [isPlain,Bool.and_eq_true,Bool.not_eq_true'] at plain
  simp [next,plain]

theorem scanFrom_plain {comments : Bool} {s : List Char} (plain : s.all (isPlain comments) = true)
    (rest : List Char) :
    scanFrom comments .code (s ++ rest) = codeCells s ++ scanFrom comments .code rest := by
  induction s with
  | nil => rfl
  | cons c s ih =>
    simp only [List.all_cons,Bool.and_eq_true] at plain
    simp only [List.cons_append,scanFrom,Mode.next_plain plain.1,ih plain.2]
    rfl

theorem scan_plain {s : List Char} (plain : s.all (isPlain false) = true) :
    scan s = codeCells s := by
  simpa [scan,scanFrom] using scanFrom_plain plain []

end PipelineAtlas.Script
