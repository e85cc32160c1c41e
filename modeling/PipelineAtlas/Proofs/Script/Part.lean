import PipelineAtlas.Proofs.Script.Balanced
import PipelineAtlas.Proofs.Script.Quote

/-! Texts that can stand between commas. Such a text is scanned alike wherever it stands, closes all
brackets that it opens, and is not split. -/
namespace PipelineAtlas.Script

/-- A text behind which the scan begins anew. -/
def Detached (s : List Char) : Prop := ∀ rest, NoQuoteFirst rest → scan (s ++ rest) = scan s ++ scan rest

theorem scan_unquoted {s : List Char} (noQuote : ∀ c ∈ s, isQuote c = false) (rest : List Char) :
    scan (s ++ rest) = codeCells s ++ scan rest :=
  scanFrom_plain (List.all_eq_true.mpr fun c inside => by simp [isPlain,noQuote c inside]) rest

theorem scan_of_unquoted {s : List Char} (noQuote : ∀ c ∈ s, isQuote c = false) :
    scan s = codeCells s := by
  simpa [scan,scanFrom] using scan_unquoted noQuote []

theorem noQuoteFirst_of_unquoted {s : List Char} (noQuote : ∀ c ∈ s, isQuote c = false) :
    NoQuoteFirst s := fun c first => noQuote c (List.mem_of_mem_head? first)

theorem detached_of_unquoted {s : List Char} (noQuote : ∀ c ∈ s, isQuote c = false) :
    Detached s := by
  intro rest _
  rw [scan_unquoted noQuote,scan_of_unquoted noQuote]

theorem Detached.append {s t : List Char} (left : Detached s) (right : Detached t)
    (apart : NoQuoteFirst t) : Detached (s ++ t) := by
  intro rest next
  rw [List.append_assoc,left _ (apart.append next),right rest next,left t apart,List.append_assoc]

theorem Detached.behind_unquoted {a s : List Char} (noQuote : ∀ c ∈ a, isQuote c = false)
    (detached : Detached s) : Detached (a ++ s) := by
  intro rest next
  rw [List.append_assoc,scan_unquoted noQuote,scan_unquoted noQuote,detached rest next,
    List.append_assoc]

theorem Blanks.noQuote {s : List Char} (blanks : Blanks s) : ∀ c ∈ s, isQuote c = false :=
  fun c inside => (blanks.plain c inside).quote

theorem Detached.scan_between {a s b : List Char} (detached : Detached s) (before : Blanks a)
    (behind : Blanks b) : scan (a ++ (s ++ b)) = codeCells a ++ (scan s ++ codeCells b) := by
  rw [scan_unquoted before.noQuote,detached b (noQuoteFirst_of_unquoted behind.noQuote),
    scan_of_unquoted behind.noQuote]

theorem Detached.scan_comma {a s b : List Char} (detached : Detached s) (before : Blanks a)
    (behind : Blanks b) (t : List Char) : scan (a ++ (s ++ (b ++ ',' :: t))) =
      (codeCells a ++ (scan s ++ codeCells b)) ++ ⟨',',.code⟩ :: scan t := by
  have comma := scan_unquoted (s := [',']) (by decide) t
  have apart : NoQuoteFirst (b ++ ',' :: t) := (noQuoteFirst_of_unquoted behind.noQuote).append (by
    simp [NoQuoteFirst,isQuote])
  rw [List.singleton_append] at comma
  rw [scan_unquoted before.noQuote,detached _ apart,scan_unquoted behind.noQuote,comma]
  simp [codeCells]

theorem scan_lone_comma {a b : List Char} (before : Blanks a) (behind : Blanks b) :
    scan (a ++ ',' :: b) = codeCells a ++ ⟨',',.code⟩ :: codeCells b := by
  have noQuote : ∀ c ∈ a ++ ',' :: b, isQuote c = false := List.forall_mem_append.mpr
    ⟨before.noQuote,List.forall_mem_cons.mpr ⟨by decide,behind.noQuote⟩⟩
  rw [scan_of_unquoted noQuote]
  simp [codeCells]

theorem Detached.comma {a s b t : List Char} (detached : Detached s) (before : Blanks a)
    (behind : Blanks b) (next : Detached t) : Detached (a ++ (s ++ (b ++ ',' :: t))) := by
  have later := (next.behind_unquoted (a := [',']) (by decide)).behind_unquoted behind.noQuote
  have apart : NoQuoteFirst (b ++ ',' :: t) := (noQuoteFirst_of_unquoted behind.noQuote).append (by
    simp [NoQuoteFirst,isQuote])
  exact (detached.append later apart).behind_unquoted before.noQuote

theorem Detached.scan_enclosed {o c : Char} (opens : isQuote o = false) (closes : isQuote c = false)
    {s : List Char} (detached : Detached s) :
    scan (o :: (s ++ [c])) = ⟨o,.code⟩ :: (scan s ++ [⟨c,.code⟩]) := by
  have first := scan_unquoted (s := [o]) (by simpa using opens) (s ++ [c])
  have last := scan_of_unquoted (s := [c]) (by simpa using closes)
  rw [detached [c] (by simpa [NoQuoteFirst] using closes),last] at first
  exact first

/-- A text that can stand between commas as a part of a list. -/
structure Part (s : List Char) : Prop where
  tight : Tight s
  detached : Detached s
  level : Level (scan s)
  undivided : Undivided (scan s)

theorem part_of_unquoted {s : List Char} (tight : Tight s) (noQuote : ∀ c ∈ s, isQuote c = false)
    (balanced : Balanced s) (solo : Solo s) : Part s where
  tight := tight
  detached := detached_of_unquoted noQuote
  level := by
    rw [scan_of_unquoted noQuote]
    exact balanced.level
  undivided := by
    rw [scan_of_unquoted noQuote]
    exact solo.undivided

theorem part_of_plain {s : List Char} (tight : Tight s) (plain : ∀ c ∈ s, Plain c) : Part s :=
  part_of_unquoted tight (fun c inside => (plain c inside).quote) (balanced_of_plain plain)
    (solo_of_plain plain)

theorem scan_of_escapes {escape : Char → List Char} (escapes : Escapes escape) (s : List Char) :
    scan (literalText '\'' false (s.flatMap escape)) =
      literalCells (literalText '\'' false (s.flatMap escape)) := by
  have nothing : NoQuoteFirst [] := by simp [NoQuoteFirst]
  have scanned := scanFrom_of_escapes escapes false s nothing
  simpa [scan,scanFrom] using scanned

theorem part_of_escapes {escape : Char → List Char} (escapes : Escapes escape) (s : List Char) :
    Part (literalText '\'' false (s.flatMap escape)) := by
  have cells := scan_of_escapes escapes s
  have quote : Tight ['\''] := tight_of_solid ⟨by simp,by decide⟩
  refine ⟨quote.around (s.flatMap escape) quote,fun rest apart => ?_,?_,?_⟩
  · rw [cells]
    exact scanFrom_of_escapes escapes false s apart
  · rw [cells]
    exact .flat (flat_literalCells _)
  · rw [cells]
    refine splitFrom_flat (flat_literalCells _) (fun x inside => ?_) 0
    obtain ⟨c,-,rfl⟩ := List.mem_map.mp inside
    rfl

theorem part_of_enclosed {o c : Char} (opens : o ∈ ['(','[','{']) (closes : c ∈ [')',']','}'])
    {s : List Char} (detached : Detached s) (level : Level (scan s)) : Part (o :: (s ++ [c])) := by
  have all : ∀ d ∈ ['(','[','{'] ++ [')',']','}'], Tight [d] ∧ isQuote d = false := fun d inside =>
    ⟨tight_of_solid ⟨by simp,by revert d; decide⟩,by revert d; decide⟩
  obtain ⟨tight,quote⟩ := all o (List.mem_append_left _ opens)
  obtain ⟨tight',quote'⟩ := all c (List.mem_append_right _ closes)
  have scanned := detached.scan_enclosed quote quote'
  refine ⟨tight.around s tight',?_,?_,?_⟩
  · have ends := detached_of_unquoted (s := [c]) (by simpa using quote')
    have inside := detached.append ends (by simpa [NoQuoteFirst] using quote')
    exact Detached.behind_unquoted (a := [o]) (by simpa using quote) inside
  · rw [scanned]
    exact .nest (opens_codeCell opens) level (closes_codeCell closes)
  · rw [scanned]
    exact level.undivided (opens_codeCell opens) (closes_codeCell closes)

theorem Part.behind_plain {a s : List Char} (part : Part s) (plain : ∀ c ∈ a, Plain c)
    (first : ∀ c ∈ a.head?, Text.isBlank c = false) : Part (a ++ s) := by
  have noQuote : ∀ c ∈ a, isQuote c = false := fun c inside => (plain c inside).quote
  refine ⟨⟨by simp [part.tight.some],fun c start => ?_,fun c stop => ?_⟩,
    part.detached.behind_unquoted noQuote,?_,?_⟩
  · cases a with
    | nil => exact part.tight.first c start
    | cons d a => exact first c start
  · rw [List.getLast?_append_of_ne_nil _ part.tight.some] at stop
    exact part.tight.last c stop
  · rw [scan_unquoted noQuote]
    exact (balanced_of_plain plain).level.append part.level
  · rw [scan_unquoted noQuote]
    exact (solo_of_plain plain).undivided.append part.undivided

theorem Part.trimCells {a s b : List Char} (part : Part s) (before : Blanks a) (behind : Blanks b) :
    trimCells (codeCells a ++ (scan s ++ codeCells b)) = scan s :=
  trimCells_between before (by simpa [scan] using part.tight) behind

end PipelineAtlas.Script
