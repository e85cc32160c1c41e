import Mathlib.Data.List.TakeWhile
import PipelineAtlas.Proofs.Script.Bracket
import PipelineAtlas.Proofs.Text.Word
import PipelineAtlas.Script.Value

/-! Cells that a scan of their own text gives again. The parts into which brackets, separators and
keys cut such cells are of this kind too, because the cuts are made in code. -/
namespace PipelineAtlas.Script

/-- Cells that a scan of their text gives. -/
def Settled (comments : Bool) (cells : List Cell) : Prop :=
  scanFrom comments .code (text cells) = cells

theorem settled_scanFrom (comments : Bool) (s : List Char) :
    Settled comments (scanFrom comments .code s) := by
  rw [Settled,text_scanFrom]

theorem settled_scan (s : List Char) : Settled false (scan s) := settled_scanFrom false s

theorem text_scan (s : List Char) : text (scan s) = s := text_scanFrom false .code s

theorem scanFrom_cons (comments : Bool) (mode : Mode) (c : Char) (rest : List Char) :
    scanFrom comments mode (c :: rest) = ⟨c,(mode.next comments c rest).2⟩ ::
      scanFrom comments (mode.next comments c rest).1 rest := rfl

theorem scan_plainChar {c : Char} (plain : isQuote c = false) (rest : List Char) :
    scan (c :: rest) = ⟨c,.code⟩ :: scan rest := by
  have next : Mode.code.next false c rest = (.code,.code) :=
    Mode.next_plain (by simpa [isPlain] using plain) rest
  rw [scan,scanFrom_cons,next]
  rfl

theorem Mode.next_code {comments : Bool} {c : Char} {rest : List Char} {mode : Mode}
    (code : (mode.next comments c rest).2 = .code) :
    (mode.next comments c rest).1 = .code ∧ isQuote c = false := by
  cases mode with
  | code => grind [Mode.next]
  | comment =>
    by_cases feed : c = '\n'
    · subst feed
      exact ⟨rfl,by decide⟩
    · simp [next,feed] at code
  | body => grind [Mode.next]
  | opening | escaped | closing => simp [next] at code

theorem isQuote_of_code {comments : Bool} {mode : Mode} {s : List Char} {x : Cell}
    (inside : x ∈ scanFrom comments mode s) (code : x.role = .code) : isQuote x.char = false := by
  induction s generalizing mode with
  | nil => simp [scanFrom] at inside
  | cons c s ih =>
    rcases List.mem_cons.mp inside with rfl | later
    · exact (Mode.next_code code).2
    · exact ih later

theorem isQuote_of_apart {p : Char → Bool} (apart : ∀ q ∈ ['\'','"'], p q = false) {c : Char}
    (passes : p c = true) : isQuote c = false := by
  cases quote : isQuote c with
  | false => rfl
  | true =>
    have one : c ∈ ['\'','"'] := by simpa [isQuote] using quote
    simp [apart c one] at passes

theorem isQuote_of_isBlank {c : Char} (blank : Text.isBlank c = true) : isQuote c = false :=
  isQuote_of_apart (by decide) blank

private theorem isQuote_of_blanks {cells : List Cell} {c : Char}
    (inside : c ∈ text (cells.takeWhile fun x => Text.isBlank x.char)) : isQuote c = false := by
  obtain ⟨y,member,rfl⟩ := List.mem_map.mp inside
  have blank := List.mem_takeWhile_imp (p := fun x : Cell => Text.isBlank x.char) member
  exact isQuote_of_isBlank blank

theorem role_of_opens {x : Cell} (opens : x.opens = true) : x.role = .code := by
  simp only [Cell.opens,Cell.isCode,Bool.or_eq_true,Bool.and_eq_true,beq_iff_eq] at opens
  rcases opens with (first | first) | first <;> exact first.1

theorem role_of_closes {x : Cell} (closes : x.closes = true) : x.role = .code := by
  simp only [Cell.closes,Cell.isCode,Bool.or_eq_true,Bool.and_eq_true,beq_iff_eq] at closes
  rcases closes with (first | first) | first <;> exact first.1

namespace Settled

variable {comments : Bool} {a b cells : List Cell} {x : Cell}

theorem isQuote_code (settled : Settled comments cells) (inside : x ∈ cells)
    (code : x.role = .code) : isQuote x.char = false := by
  rw [← settled] at inside
  exact isQuote_of_code inside code

theorem front (settled : Settled comments (a ++ b)) (apart : NoQuoteFirst (text b)) :
    Settled comments a := by
  have start : Mode.code.Quoting := trivial
  unfold Settled at settled
  rw [text_append,scanFrom_append start _ apart] at settled
  exact List.append_inj_left settled (by simp)

theorem before (settled : Settled comments (a ++ x :: b)) (code : x.role = .code) :
    Settled comments a := by
  refine settled.front fun c first => ?_
  obtain rfl : x.char = c := by simpa using first
  exact settled.isQuote_code (by simp) code

theorem behind (settled : Settled comments (a ++ x :: b)) (code : x.role = .code) :
    Settled comments b := by
  have start : Mode.code.Quoting := trivial
  have plain := settled.isQuote_code (by simp) code
  unfold Settled at settled
  have apart : NoQuoteFirst (text (x :: b)) := by
    intro c first
    obtain rfl : x.char = c := by simpa using first
    exact plain
  rw [text_append,scanFrom_append start _ apart] at settled
  have follows := List.append_inj_right settled (by simp)
  rw [text_cons,scanFrom_cons] at follows
  obtain ⟨here,more⟩ := List.cons.inj follows
  have role := congrArg Cell.role here
  rwa [(Mode.next_code (role.trans code)).1] at more

theorem role_head {rest : List Cell} (settled : Settled false (x :: rest))
    (plain : isQuote x.char = false) : x.role = .code := by
  have cells : scan (x.char :: text rest) = x :: rest := settled
  rw [scan_plainChar plain] at cells
  rw [← (List.cons.inj cells).1]

theorem afterPlain (settled : Settled false (a ++ b)) (plain : ∀ c ∈ text a, isQuote c = false) :
    Settled false b := by
  have all : (text a).all (isPlain false) = true := by
    rw [List.all_eq_true]
    intro c inside
    simp [isPlain,plain c inside]
  unfold Settled at settled
  rw [text_append,scanFrom_plain all] at settled
  exact List.append_inj_right settled (by rw [← length_text,text_codeCells,length_text])

theorem trimCells (settled : Settled false cells) : Settled false (trimCells cells) := by
  let blank : Cell → Bool := fun x => Text.isBlank x.char
  have left : Settled false (cells.dropWhile blank) := by
    rw [← List.takeWhile_append_dropWhile (p := blank) (l := cells)] at settled
    exact settled.afterPlain fun c inside => isQuote_of_blanks inside
  have ends : cells.dropWhile blank = Script.trimCells cells ++
      ((cells.dropWhile blank).reverse.takeWhile blank).reverse := by
    have whole := List.takeWhile_append_dropWhile (p := blank)
      (l := (cells.dropWhile blank).reverse)
    rw [Script.trimCells,← List.reverse_append,whole,List.reverse_reverse]
  rw [ends] at left
  refine left.front fun c first => ?_
  have inside := List.mem_of_mem_head? first
  rw [text,List.map_reverse,List.mem_reverse] at inside
  exact isQuote_of_blanks inside

theorem splitFrom {separator : Char} {depth : Nat} {begun part : List Cell}
    (settled : Settled comments (begun.reverse ++ cells))
    (member : part ∈ splitFrom separator depth begun cells) : Settled comments part := by
  induction cells generalizing depth begun with
  | nil =>
    obtain rfl := List.mem_singleton.mp member
    simpa using settled
  | cons x cells ih =>
    simp only [Script.splitFrom] at member
    split at member
    next cut =>
      have code : x.role = .code := by
        simp only [Cell.isCode,Bool.and_eq_true,beq_iff_eq] at cut
        exact cut.2.1
      rcases List.mem_cons.mp member with rfl | later
      · exact settled.before code
      · have begins : Settled comments (([] : List Cell).reverse ++ cells) := settled.behind code
        exact ih begins later
    next => exact ih (by simpa using settled) member

theorem splitTopLevel {separator : Char} (settled : Settled comments cells) {part : List Cell}
    (member : part ∈ splitTopLevel separator cells) : Settled comments part := by
  have begins : Settled comments (([] : List Cell).reverse ++ cells) := settled
  exact splitFrom begins (List.mem_filter.mp member).1

theorem enclosed? (settled : Settled comments (a ++ cells)) {inside rest : List Cell}
    (closed : enclosed? cells = some (inside,rest)) : Settled comments inside := by
  obtain ⟨x,y,opens,closes,rfl⟩ := enclosed?_split closed
  exact (settled.behind (role_of_opens opens)).before (role_of_closes closes)

theorem listBody? (settled : Settled false cells) {inside : List Cell}
    (body : listBody? cells = some inside) : Settled false inside := by
  cases cells with
  | nil => simp [Script.listBody?] at body
  | cons x rest =>
    simp only [Script.listBody?] at body
    split at body
    next ends =>
      obtain rfl := Option.some.inj body
      simp only [Bool.and_eq_true,beq_iff_eq,decide_eq_true_eq] at ends
      have opened : Settled false ([x] ++ rest) := settled
      have behind := opened.afterPlain fun c inside => by
        obtain rfl : c = x.char := by simpa [text] using inside
        rw [ends.1]
        decide
      obtain ⟨y,last,char⟩ := Option.map_eq_some_iff.mp ends.2
      obtain ⟨front,rfl⟩ := List.getLast?_eq_some_iff.mp last
      rw [List.dropLast_concat]
      refine behind.front fun c first => ?_
      obtain rfl : y.char = c := by simpa using first
      rw [char]
      decide
    next => simp at body

theorem callParts? (settled : Settled comments cells) {function : List Char} {inside : List Cell}
    (parts : callParts? cells = some (function,inside)) : Settled comments inside := by
  simp only [Script.callParts?] at parts
  split at parts
  next enclosed =>
    split at parts
    · obtain ⟨-,rfl⟩ := Prod.mk.inj (Option.some.inj parts)
      rw [← List.takeWhile_append_dropWhile (p := fun x : Cell => x.char != '(') (l := cells)]
        at settled
      exact settled.enclosed? enclosed
    · simp at parts
  next => simp at parts

end Settled

private theorem mem_dropWhile_or {p : α → Bool} {s : List α} {x : α} (inside : x ∈ s) :
    p x = true ∨ x ∈ s.dropWhile p := by
  rw [← List.takeWhile_append_dropWhile (p := p) (l := s),List.mem_append] at inside
  exact inside.imp_left List.mem_takeWhile_imp

theorem mem_trim_or {s : List Char} {c : Char} (inside : c ∈ s) :
    Text.isBlank c = true ∨ c ∈ Text.trim s := by
  rcases mem_dropWhile_or (p := Text.isBlank) inside with blank | left
  · exact .inl blank
  · rcases mem_dropWhile_or (p := Text.isBlank) (List.mem_reverse.mpr left) with blank | right
    · exact .inl blank
    · exact .inr (List.mem_reverse.mpr right)

theorem isQuote_of_isIdentifier {s : List Char} (identifier : Text.isIdentifier (Text.trim s) = true) :
    ∀ c ∈ s, isQuote c = false := by
  intro c inside
  rcases mem_trim_or inside with blank | kept
  · exact isQuote_of_isBlank blank
  · exact isQuote_of_apart (by decide) ((Text.word_of_isIdentifier identifier).2 c kept)

namespace Settled

theorem keyParts? {cells value : List Cell} {key : List Char} (settled : Settled false cells)
    (parts : keyParts? cells = some (key,value)) : Settled false value := by
  simp only [Script.keyParts?] at parts
  split at parts
  next x rest behind =>
    split at parts
    · simp at parts
    next sound =>
      obtain ⟨-,rfl⟩ := Prod.mk.inj (Option.some.inj parts)
      simp only [Bool.or_eq_true,not_or,Bool.not_eq_true',Bool.not_eq_false] at sound
      have equals : x.char = '=' := by
        have first := List.head?_dropWhile_not (fun x : Cell => x.char != '=') cells
        rw [behind] at first
        simpa using first
      have whole := List.takeWhile_append_dropWhile (p := fun x : Cell => x.char != '=') (l := cells)
      rw [behind,List.append_cons] at whole
      rw [← whole] at settled
      refine settled.afterPlain fun c inside => ?_
      rw [text_append] at inside
      rcases List.mem_append.mp inside with front | last
      · exact isQuote_of_isIdentifier sound.2 c front
      · obtain rfl : c = x.char := by simpa [text] using last
        rw [equals]
        decide
  next => simp at parts

theorem splitArgument {cells : List Cell} (settled : Settled false cells) :
    Settled false (splitArgument cells).2 := by
  simp only [Script.splitArgument]
  split
  next parts => exact settled.trimCells.keyParts? parts
  next => exact settled

end Settled

end PipelineAtlas.Script
