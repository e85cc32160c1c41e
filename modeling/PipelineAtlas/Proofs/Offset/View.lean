import PipelineAtlas.Proofs.Offset.Text
import PipelineAtlas.Proofs.Script.Uncommented

/-! The views of a source without comments and without literals. Making them never fails, and they share
with the source their length, the offsets of its line feeds, the boundaries of its characters, and
the lines of offsets. -/
namespace PipelineAtlas.Offset

open Script
open String (utf8Len)

def blankText (s : List Char) : List Char := s.flatMap blanked

def lineEnd (whole : List Char) (i : Nat) (rest : List Char) : Nat :=
  if '\n' ∈ rest then i + utf8Len (rest.takeWhile (· ≠ '\n')) else utf8Len whole

/-- What has been written, and the offset up to which the source has been read. -/
structure Copied where
  out : List Char
  copied : Nat

def commentStep (whole : List Char) (s : Copied) (i : Nat) (c : Char) :
    Option (Step Copied (List Char)) :=
  if c ≠ '#' then some (.goOn s)
  else do
    let rest ← from? i whole
    let kept ← between? s.copied i whole
    let comment ← between? i (lineEnd whole i rest) whole
    return .skipTo ⟨s.out ++ kept ++ blankText comment,lineEnd whole i rest⟩ (lineEnd whole i rest)

def hideComments? (whole : List Char) : Option (List Char) :=
  loop whole (commentStep whole) (fun s => (from? s.copied whole).map (s.out ++ ·)) ⟨[],0⟩ 0

def literalStep (whole : List Char) (s : Copied) (i : Nat) (c : Char) :
    Option (Copied ⊕ List Char) :=
  (between? s.copied i whole).map fun hidden =>
    .inl ⟨s.out ++ blankText hidden ++ [c],i + c.utf8Size⟩

def hideLiterals? (whole : List Char) : Option (List Char) :=
  each whole (literalStep whole)
    (fun s => (from? s.copied whole).map fun hidden => s.out ++ blankText hidden) ⟨[],0⟩

theorem lineEnd_eq (before : List Char) {body after : List Char} (oneLine : '\n' ∉ body)
    (ends : AtLineEnd after) :
    lineEnd (before ++ (body ++ after)) (utf8Len before) (body ++ after) =
      utf8Len (before ++ body) := by
  have clear : ∀ c ∈ body, decide (c ≠ '\n') = true := by
    intro c inside
    refine decide_eq_true ?_
    rintro rfl
    exact oneLine inside
  unfold lineEnd
  rcases ends with rfl | first
  · rw [List.append_nil,if_neg oneLine]
  · obtain ⟨rest,rfl⟩ := List.head?_eq_some_iff.mp first
    rw [if_pos (by simp),List.takeWhile_append_of_pos clear,String.utf8Len_append]
    simp

theorem exists_line (s : List Char) :
    ∃ body after, s = body ++ after ∧ '\n' ∉ body ∧ AtLineEnd after := by
  refine ⟨s.takeWhile (· ≠ '\n'),s.dropWhile (· ≠ '\n'),List.takeWhile_append_dropWhile.symm,?_,?_⟩
  · intro inside
    simpa using List.mem_takeWhile_imp inside
  · cases rest : s.dropWhile (· ≠ '\n') with
    | nil => exact .inl rfl
    | cons c rest =>
      have stops := List.head?_dropWhile_not (· ≠ '\n') s
      rw [rest] at stops
      exact .inr (by simpa using stops)

theorem cleanText_append (a b : List Cell) : cleanText (a ++ b) = cleanText a ++ cleanText b :=
  List.flatMap_append

theorem cleanText_literalCells (s : List Char) : cleanText (literalCells s) = s := by
  induction s with
  | nil => rfl
  | cons c s ih =>
    have first : cleanText (literalCells (c :: s)) = c :: cleanText (literalCells s) := rfl
    rw [first,ih]

theorem cleanText_commentCells (s : List Char) : cleanText (commentCells s) = blankText s := by
  rw [cleanText,commentCells,List.flatMap_map]
  rfl

theorem loop_commentStep (out front kept rest : List Char) {whole : List Char}
    (same : whole = front ++ (kept ++ rest)) :
    loop whole (commentStep whole) (fun s => (from? s.copied whole).map (s.out ++ ·))
        ⟨out,utf8Len front⟩ (utf8Len (front ++ kept)) =
      some (out ++ kept ++ cleanText (source rest)) := by
  induction bound : rest.length using Nat.strongRecOn generalizing out front kept rest with
  | _ size ih =>
  have look := ahead (front ++ kept) rest
  rw [List.append_assoc,← same] at look
  rcases look with ⟨found,literal⟩ | ⟨skipped,c,behind,rfl,plain,found,literal⟩
  · have cells : source rest = literalCells rest := by
      simpa [source,scanFrom] using literal true
    rw [loop_of_none found,cells,cleanText_literalCells]
    simp [same]
  · have cells : source (skipped ++ c :: behind) = literalCells skipped ++ source (c :: behind) :=
      literal true
    have place : utf8Len (front ++ kept) + utf8Len skipped =
        utf8Len (front ++ (kept ++ skipped)) := by
      rw [← String.utf8Len_append,List.append_assoc]
    rw [place] at found
    rw [loop_of_some found,cells,cleanText_append,cleanText_literalCells,commentStep]
    by_cases sign : c = '#'
    · subst sign
      obtain ⟨body,after,rfl,oneLine,ends⟩ := exists_line behind
      have shorter : after.length < size := by
        rw [List.length_append,List.length_cons,List.length_append] at bound
        omega
      have whole' : whole = front ++ (kept ++ skipped) ++ ('#' :: body ++ after) := by simp [same]
      have clear : '\n' ∉ '#' :: body := by simp [oneLine]
      have rest : from? (utf8Len (front ++ (kept ++ skipped))) whole =
          some ('#' :: body ++ after) := by
        rw [whole',from?_append]
      have stop := lineEnd_eq (front ++ (kept ++ skipped)) clear ends
      rw [← whole'] at stop
      have before : between? (utf8Len front) (utf8Len (front ++ (kept ++ skipped))) whole =
          some (kept ++ skipped) := by
        rw [whole',List.append_assoc,between?_append]
      have comment : between? (utf8Len (front ++ (kept ++ skipped)))
          (utf8Len (front ++ (kept ++ skipped) ++ '#' :: body)) whole = some ('#' :: body) := by
        rw [whole',between?_append]
      have later : max (utf8Len (front ++ (kept ++ skipped)) + ('#' : Char).utf8Size)
          (utf8Len (front ++ (kept ++ skipped) ++ '#' :: body)) =
            utf8Len (front ++ (kept ++ skipped) ++ '#' :: body) := by
        rw [String.utf8Len_append _ ('#' :: body),String.utf8Len_cons]
        omega
      have more := ih after.length shorter (out ++ (kept ++ skipped) ++ blankText ('#' :: body))
        (front ++ (kept ++ skipped) ++ '#' :: body) [] after (by simp [same]) rfl
      rw [List.append_nil,List.append_nil] at more
      rw [if_neg (by simp),rest]
      simp only [Option.bind_eq_bind,Option.bind_some,stop,before,comment,later,Option.pure_def]
      rw [more,← List.cons_append,source_comment oneLine ends,cleanText_append,
        cleanText_commentCells]
      simp only [List.append_assoc]
    · rw [if_pos sign]
      have shorter : behind.length < size := by
        rw [List.length_append,List.length_cons] at bound
        omega
      have more := ih behind.length shorter out front (kept ++ skipped ++ [c]) behind
        (by simp [same]) rfl
      rw [source_plain (by simp [isPlain,plain,sign])]
      simp only [← utf8Len_concat,List.append_assoc] at more ⊢
      exact more

theorem hideComments?_eq (s : List Char) : hideComments? s = some (hideComments s) :=
  loop_commentStep [] [] [] s rfl

theorem blankText_append (s t : List Char) : blankText (s ++ t) = blankText s ++ blankText t :=
  List.flatMap_append

theorem overCells_literalStep (out front hidden : List Char) (cells : List Cell) {whole : List Char}
    (same : whole = front ++ (hidden ++ text cells)) :
    overCells (literalStep whole)
        (fun s => (from? s.copied whole).map fun hidden => s.out ++ blankText hidden)
        ⟨out,utf8Len front⟩ (utf8Len (front ++ hidden)) cells =
      some (out ++ blankText hidden ++ codeText cells) := by
  induction cells generalizing out front hidden with
  | nil =>
    have rest : from? (utf8Len front) whole = some hidden := by simp [same,text]
    rw [overCells,rest]
    simp [codeText]
  | cons x cells ih =>
    by_cases code : x.role = .code
    · have before : between? (utf8Len front) (utf8Len (front ++ hidden)) whole = some hidden := by
        rw [same,between?_append]
      have more := ih (out ++ blankText hidden ++ [x.char]) (front ++ hidden ++ [x.char]) []
        (by simp [same])
      have shown : x.code = [x.char] := by simp [Cell.code,code]
      rw [List.append_nil,utf8Len_concat] at more
      rw [overCells,if_pos code,literalStep,before,Option.map_some,Option.bind_some,Sum.elim_inl,more,
        codeText,codeText,List.flatMap_cons,shown]
      simp [blankText]
    · have more := ih out front (hidden ++ [x.char]) (by simp [same])
      have shown : x.code = blanked x.char := by simp [Cell.code,code]
      rw [← List.append_assoc,utf8Len_concat,blankText_append] at more
      rw [overCells,if_neg code,more,codeText,codeText,List.flatMap_cons,shown]
      simp [blankText]

theorem hideLiterals?_eq (s : List Char) : hideLiterals? s = some (hideLiterals s) := by
  rw [hideLiterals?,each_eq]
  exact overCells_literalStep [] [] [] (scan s) (text_scan s).symm

/-- A way to show cells that keeps their bytes and their line feeds. -/
structure Keeps (show? : Cell → List Char) : Prop where
  size (x : Cell) : utf8Len (show? x) = x.char.utf8Size
  feed (x : Cell) : x.char = '\n' → show? x = ['\n']
  other (x : Cell) : x.char ≠ '\n' → '\n' ∉ show? x

theorem utf8Len_blanked (c : Char) : utf8Len (blanked c) = c.utf8Size := by
  unfold blanked
  split
  next feed => rw [feed]; rfl
  next => exact utf8Len_blanks _

theorem feed_notMem_blanked {c : Char} (other : c ≠ '\n') : '\n' ∉ blanked c := by
  rw [blanked,if_neg other]
  intro inside
  cases List.eq_of_mem_replicate inside

theorem keeps_code : Keeps Cell.code where
  size x := by
    unfold Cell.code
    split
    next => simp
    next => exact utf8Len_blanked x.char
  feed x feed := by
    unfold Cell.code
    split
    next => rw [feed]
    next => rw [blanked,if_pos feed]
  other x other := by
    unfold Cell.code
    split
    next => simpa using Ne.symm other
    next => exact feed_notMem_blanked other

theorem keeps_clean : Keeps Cell.clean where
  size x := by
    unfold Cell.clean
    split
    next => exact utf8Len_blanked x.char
    next => simp
  feed x feed := by
    unfold Cell.clean
    split
    next => rw [blanked,if_pos feed]
    next => rw [feed]
  other x other := by
    unfold Cell.clean
    split
    next => exact feed_notMem_blanked other
    next => simpa using Ne.symm other

theorem charAt?_single {c d : Char} {j : Nat} (found : charAt? [c] j = some d) : d = c ∧ j = 0 := by
  obtain ⟨a,b,here,rfl⟩ := charAt?_eq_some.mp found
  cases a with
  | nil => exact ⟨(List.cons.inj here).1.symm,rfl⟩
  | cons e a => simp at here

namespace Keeps

variable {show? : Cell → List Char} (keeps : Keeps show?)

include keeps

theorem utf8Len_flatMap (cells : List Cell) : utf8Len (cells.flatMap show?) = utf8Len (text cells) := by
  induction cells with
  | nil => rfl
  | cons x cells ih =>
    rw [List.flatMap_cons,String.utf8Len_append,keeps.size,ih,text_cons,String.utf8Len_cons,
      Nat.add_comm]

theorem count_flatMap (cells : List Cell) :
    (cells.flatMap show?).count '\n' = (text cells).count '\n' := by
  induction cells with
  | nil => rfl
  | cons x cells ih =>
    rw [List.flatMap_cons,List.count_append,ih,text_cons]
    by_cases feed : x.char = '\n'
    · rw [keeps.feed x feed,feed,List.count_cons_self,List.count_nil,List.count_cons_self]
      omega
    · rw [List.count_eq_zero.mpr (keeps.other x feed),List.count_cons_of_ne feed,Nat.zero_add]

/-- A cut of the text cuts what is shown at the same offset. -/
theorem split {cells : List Cell} {a b : List Char} (whole : text cells = a ++ b) :
    ∃ front back, cells.flatMap show? = front ++ back ∧ utf8Len front = utf8Len a ∧
      front.count '\n' = a.count '\n' := by
  obtain ⟨x,y,rfl,rfl,rfl⟩ := List.map_eq_append_iff.mp whole
  exact ⟨x.flatMap show?,y.flatMap show?,List.flatMap_append,keeps.utf8Len_flatMap x,
    keeps.count_flatMap x⟩

theorem boundary {cells : List Cell} {i : Nat} (between : Boundary (text cells) i) :
    Boundary (cells.flatMap show?) i := by
  obtain ⟨a,b,whole,rfl⟩ := between
  obtain ⟨front,back,same,size,-⟩ := keeps.split whole
  exact ⟨front,back,same,size.symm⟩

theorem lineAt? {cells : List Cell} {i line : Nat} (at? : lineAt? (text cells) i = some line) :
    Offset.lineAt? (cells.flatMap show?) i = some line := by
  obtain ⟨a,up,rfl⟩ := Option.map_eq_some_iff.mp at?
  obtain ⟨b,whole,rfl⟩ := upTo?_eq_some.mp up
  obtain ⟨front,back,same,size,count⟩ := keeps.split whole
  rw [same,← size,lineAt?_append,count]

theorem exists_cell {cells : List Cell} {i : Nat} {c : Char}
    (shown : charAt? (cells.flatMap show?) i = some c) :
    ∃ front x back j, cells = front ++ x :: back ∧ charAt? (show? x) j = some c ∧
      i = utf8Len (text front) + j := by
  obtain ⟨a,b,whole,rfl⟩ := charAt?_eq_some.mp shown
  clear shown
  induction cells generalizing a with
  | nil => simp at whole
  | cons x cells ih =>
    rw [List.flatMap_cons] at whole
    rcases List.append_eq_append_iff.mp whole with ⟨a',rfl,more⟩ | ⟨b',here,more⟩
    · obtain ⟨front,y,back,j,rfl,found,place⟩ := ih a' more
      refine ⟨x :: front,y,back,j,rfl,found,?_⟩
      rw [String.utf8Len_append,keeps.size,place,text_cons,String.utf8Len_cons]
      omega
    · cases b' with
      | nil =>
        obtain ⟨front,y,back,j,rfl,found,place⟩ := ih [] (by simpa using more.symm)
        refine ⟨x :: front,y,back,j,rfl,found,?_⟩
        rw [List.append_nil] at here
        rw [← here,keeps.size,text_cons,String.utf8Len_cons]
        simp only [String.utf8Len_nil] at place
        omega
      | cons d b' =>
        obtain ⟨rfl,rfl⟩ := List.cons.inj more
        exact ⟨[],x,cells,utf8Len a,rfl,by rw [here,charAt?_append],by simp [text]⟩

theorem charAt?_feed (cells : List Cell) (i : Nat) :
    charAt? (cells.flatMap show?) i = some '\n' ↔ charAt? (text cells) i = some '\n' := by
  constructor
  · intro shown
    obtain ⟨front,x,back,j,rfl,found,rfl⟩ := keeps.exists_cell shown
    have feed : x.char = '\n' := by
      by_contra other
      obtain ⟨a,b,here,-⟩ := charAt?_eq_some.mp found
      exact keeps.other x other (by simp [here])
    rw [keeps.feed x feed] at found
    obtain ⟨-,rfl⟩ := charAt?_single found
    rw [text_append,text_cons,feed,Nat.add_zero,charAt?_append]
  · intro feed
    obtain ⟨a,b,whole,rfl⟩ := charAt?_eq_some.mp feed
    obtain ⟨front,more,rfl,rfl,tail⟩ := List.map_eq_append_iff.mp whole
    obtain ⟨x,back,rfl,char,rfl⟩ := List.map_eq_cons_iff.mp tail
    rw [List.flatMap_append,List.flatMap_cons,keeps.feed x char,List.singleton_append,
      ← text,← keeps.utf8Len_flatMap front,charAt?_append]

end Keeps

/-- A byte of a character that has a role in a source. -/
def ByteOf (s : List Char) (role : Role) (i : Nat) : Prop :=
  ∃ front x back, source s = front ++ x :: back ∧ x.role = role ∧ utf8Len (text front) ≤ i ∧
    i < utf8Len (text front) + x.char.utf8Size

theorem charAt?_blanked {c d : Char} {j : Nat} (found : charAt? (blanked c) j = some d) :
    d = c ∧ j = 0 ∨ d = ' ' ∧ j < c.utf8Size := by
  obtain ⟨a,b,here,rfl⟩ := charAt?_eq_some.mp found
  unfold blanked at here
  split at here
  next feed =>
    cases a with
    | nil =>
      obtain ⟨rfl,-⟩ := List.cons.inj here
      exact .inl ⟨feed.symm,rfl⟩
    | cons e a => simp at here
  next =>
    have blank : d = ' ' := by
      have inside : d ∈ List.replicate c.utf8Size ' ' := by simp [here]
      exact List.eq_of_mem_replicate inside
    have size := congrArg utf8Len here
    have one := d.utf8Size_pos
    rw [utf8Len_blanks,String.utf8Len_append,String.utf8Len_cons] at size
    exact .inr ⟨blank,by omega⟩

theorem charAt?_codeText {s : List Char} {i : Nat} {c : Char}
    (shown : charAt? (codeText (source s)) i = some c) :
    charAt? s i = some c ∨ c = ' ' ∧ ∃ role ≠ .code, ByteOf s role i := by
  obtain ⟨front,x,back,j,cells,found,rfl⟩ := keeps_code.exists_cell shown
  have chars : s = text front ++ x.char :: text back := by
    rw [← text_cons,← text_append,← cells,source,text_scanFrom]
  by_cases code : x.role = .code
  · have same : x.code = [x.char] := by simp [Cell.code,code]
    rw [same] at found
    obtain ⟨rfl,rfl⟩ := charAt?_single found
    exact .inl (by rw [chars,Nat.add_zero,charAt?_append])
  · have hidden : x.code = blanked x.char := by simp [Cell.code,code]
    rw [hidden] at found
    rcases charAt?_blanked found with ⟨rfl,rfl⟩ | ⟨rfl,inside⟩
    · exact .inl (by rw [chars,Nat.add_zero,charAt?_append])
    · exact .inr ⟨rfl,x.role,code,front,x,back,cells,rfl,by omega,by omega⟩

theorem charAt?_behind {a b : List Char} {j : Nat} {c : Char} (found : charAt? b j = some c) :
    charAt? (a ++ b) (utf8Len a + j) = some c := by
  obtain ⟨front,back,rfl,rfl⟩ := charAt?_eq_some.mp found
  rw [← List.append_assoc,← String.utf8Len_append,charAt?_append]

theorem charAt?_front {a b : List Char} {j : Nat} {c : Char} (found : charAt? a j = some c) :
    charAt? (a ++ b) j = some c := by
  obtain ⟨front,back,rfl,rfl⟩ := charAt?_eq_some.mp found
  rw [List.append_assoc,List.cons_append,charAt?_append]

theorem charAt?_hideComments {s : List Char} {i : Nat} {c : Char}
    (shown : charAt? (codeText (source s)) i = some c) :
    charAt? (hideComments s) i = some c ∨ c = ' ' ∧ ByteOf s .literal i := by
  obtain ⟨front,x,back,j,cells,found,rfl⟩ := keeps_code.exists_cell shown
  have place : hideComments s = cleanText front ++ (x.clean ++ cleanText back) := by
    rw [hideComments,cells,cleanText_append]
    rfl
  rw [place,← keeps_clean.utf8Len_flatMap front]
  cases role : x.role with
  | literal =>
    have hidden : x.code = blanked x.char := by simp [Cell.code,role]
    have same : x.clean = [x.char] := by simp [Cell.clean,role]
    rw [hidden] at found
    rcases charAt?_blanked found with ⟨rfl,rfl⟩ | ⟨rfl,inside⟩
    · refine .inl (charAt?_behind (charAt?_front ?_))
      rw [same]
      rfl
    · rw [keeps_clean.utf8Len_flatMap front]
      exact .inr ⟨rfl,front,x,back,cells,role,by omega,by omega⟩
  | code =>
    have same : x.code = x.clean := by simp [Cell.code,Cell.clean,role]
    exact .inl (charAt?_behind (charAt?_front (same ▸ found)))
  | comment =>
    have same : x.code = x.clean := by simp [Cell.code,Cell.clean,role]
    exact .inl (charAt?_behind (charAt?_front (same ▸ found)))

theorem codeText_uncommented (cells : List Cell) :
    codeText (cells.flatMap Cell.uncommented) = codeText cells := by
  rw [codeText,codeText,List.flatMap_assoc]
  congr 1
  funext x
  unfold Cell.uncommented
  split
  next comment =>
    have hidden : x.code = blanked x.char := by simp [Cell.code,comment]
    have kept (s : List Char) : (codeCells s).flatMap Cell.code = s := by
      induction s with
      | nil => rfl
      | cons c s ih =>
        have first : (codeCells (c :: s)).flatMap Cell.code = c :: (codeCells s).flatMap Cell.code :=
          rfl
        rw [first,ih]
    rw [hidden,kept]
  next => rw [List.flatMap_singleton]

/-- Hiding the comments first and the literals then hides both. -/
theorem hideLiterals_hideComments (s : List Char) :
    hideLiterals (hideComments s) = codeText (source s) := by
  have scanned := (settled_scanFrom true s).scan_cleanText
  rw [hideLiterals,hideComments,source,scanned,codeText_uncommented]

theorem isQuote_codeText {s : List Char} {c : Char} (inside : c ∈ codeText (source s)) :
    isQuote c = false := by
  obtain ⟨x,member,shown⟩ := List.mem_flatMap.mp inside
  by_cases code : x.role = .code
  · obtain rfl : c = x.char := by simpa [Cell.code,code] using shown
    exact isQuote_of_code member code
  · have hidden : x.code = blanked x.char := by simp [Cell.code,code]
    rw [hidden] at shown
    have plain := isPlain_of_blanked shown
    simpa [isPlain] using plain

/-- A text in whose code no number sign stands has no comments. -/
theorem scanFrom_of_noSign {mode : Mode} {s : List Char}
    (noSign : ∀ x ∈ scanFrom false mode s, x.role = .code → x.char ≠ '#') :
    scanFrom true mode s = scanFrom false mode s := by
  induction s generalizing mode with
  | nil => rfl
  | cons c s ih =>
    rw [scanFrom_cons] at noSign
    obtain ⟨here,later⟩ := List.forall_mem_cons.mp noSign
    have same : mode.next true c s = mode.next false c s := by
      cases mode with
      | code =>
        cases quote : isQuote c with
        | true => simp [Mode.next,quote]
        | false =>
          have other := here (by simp [Mode.next,quote])
          simp [Mode.next,quote,other]
      | opening | body | escaped | closing | comment => rfl
    rw [scanFrom_cons,scanFrom_cons,same,ih later]

theorem role_of_sign (mode : Mode) (s : List Char) : (mode.next true '#' s).2 ≠ .code := by
  cases mode <;> grind [Mode.next,isQuote]

theorem char_of_code {mode : Mode} {s : List Char} {x : Cell} (inside : x ∈ scanFrom true mode s)
    (code : x.role = .code) : x.char ≠ '#' := by
  induction s generalizing mode with
  | nil => cases inside
  | cons c s ih =>
    rcases List.mem_cons.mp inside with rfl | later
    · rintro rfl
      exact role_of_sign mode s code
    · exact ih later

theorem hideComments_hideComments (s : List Char) : hideComments (hideComments s) = hideComments s := by
  have scanned : scan (hideComments s) = (source s).flatMap Cell.uncommented :=
    (settled_scanFrom true s).scan_cleanText
  have noSign : ∀ x ∈ scan (hideComments s), x.role = .code → x.char ≠ '#' := by
    rw [scanned]
    intro x inside code
    obtain ⟨y,member,shown⟩ := List.mem_flatMap.mp inside
    unfold Cell.uncommented at shown
    split at shown
    next =>
      obtain ⟨c,blank,rfl⟩ := List.mem_map.mp shown
      rintro rfl
      unfold blanked at blank
      split at blank
      next => simp at blank
      next => cases List.eq_of_mem_replicate blank
    next =>
      obtain rfl := List.mem_singleton.mp shown
      exact char_of_code member code
  have kept : ∀ x ∈ scan (hideComments s), x.clean = [x.char] := by
    rw [scanned]
    intro x inside
    obtain ⟨y,member,shown⟩ := List.mem_flatMap.mp inside
    unfold Cell.uncommented at shown
    split at shown
    next =>
      obtain ⟨c,-,rfl⟩ := List.mem_map.mp shown
      rfl
    next other =>
      obtain rfl := List.mem_singleton.mp shown
      simp [Cell.clean,other]
  calc hideComments (hideComments s)
    _ = cleanText (scan (hideComments s)) := by
      rw [hideComments,source,scanFrom_of_noSign noSign,scan]
    _ = text (scan (hideComments s)) := by
      rw [cleanText,List.flatMap_congr kept,← List.map_eq_flatMap,text]
    _ = hideComments s := text_scan _

end PipelineAtlas.Offset
