import PipelineAtlas.Proofs.Script.WholeLiteral

/-! Texts that are one literal to the scan, against texts that have a value. The value is found between
the ends of the text, which differs from the scan in two ways: one or two quotes may follow a literal in
triple quotes, and behind the letter r a backslash takes no quote along. -/
namespace PipelineAtlas.Script

/-- A scan comes to code behind the last character of a text, and nowhere before. -/
def closesLast (mode : Mode) : List Char → Bool
  | [] => false
  | c :: rest =>
    let next := (mode.next false c rest).1
    if next = .code then rest.isEmpty else closesLast next rest

/-- To the scan the text is one literal, which is closed by its last character. -/
def OneLiteral (s : List Char) : Prop :=
  (∃ quote ∈ s.head?, isQuote quote = true) ∧ closesLast .code s = true

instance (s : List Char) : Decidable (OneLiteral s) :=
  decidable_of_iff (s.head?.any isQuote = true ∧ closesLast .code s = true)
    (and_congr_left fun _ => Option.any_eq_true isQuote s.head?)

theorem closesLast_cons (mode : Mode) (c : Char) (rest : List Char) :
    closesLast mode (c :: rest) =
      if (mode.next false c rest).1 = .code then rest.isEmpty
      else closesLast (mode.next false c rest).1 rest := rfl

section

variable {quote : Char} (isOne : isQuote quote = true)

include isOne

theorem closesLast_closing (triple : Bool) (rest : List Char) :
    closesLast (.body quote triple) (delimiter quote triple ++ rest) = rest.isEmpty := by
  have plain := ne_backslash_of_isQuote isOne
  cases triple with
  | false => simp [delimiter,closesLast,Mode.next,plain]
  | true => simp [delimiter,closesLast,Mode.next,plain,twoMore,List.isPrefixOf]

theorem closesLast_enclosed {triple : Bool} {content : List Char}
    (enclosed : Enclosed (delimiter quote triple) content) (rest : List Char) :
    closesLast (.body quote triple) (content ++ delimiter quote triple ++ rest) = rest.isEmpty := by
  induction enclosed with
  | nil => exact closesLast_closing isOne triple rest
  | escape c _ ih =>
    simp only [List.cons_append,closesLast_cons,Mode.next,if_true,reduceCtorEq,if_false]
    exact ih
  | @char c content plain opens _ ih =>
    have longer : ¬ delimiter quote triple <+: c :: (content ++ delimiter quote triple ++ rest) := by
      intro begins
      have whole : c :: (content ++ delimiter quote triple) <+:
          c :: (content ++ delimiter quote triple ++ rest) := List.prefix_append _ rest
      exact opens (List.prefix_of_prefix_length_le begins whole (by simp; omega))
    rw [List.cons_append,List.cons_append,closesLast_cons,Mode.next_body plain longer]
    simpa using ih

theorem enclosed_of_closesLast {triple : Bool} {s : List Char}
    (closes : closesLast (.body quote triple) s = true) :
    ∃ content, s = content ++ delimiter quote triple ∧ Enclosed (delimiter quote triple) content := by
  -- a backslash takes the next character along, so the induction is on the length
  induction bound : s.length using Nat.strongRecOn generalizing s with
  | _ size ih =>
  cases s with
  | nil => cases closes
  | cons c rest =>
    rw [List.length_cons] at bound
    by_cases slash : c = '\\'
    · subst slash
      cases rest with
      | nil => cases closes
      | cons d rest =>
        have later : closesLast (.body quote triple) rest = true := closes
        obtain ⟨content,rfl,enclosed⟩ := ih rest.length (by simp at bound; omega) later rfl
        exact ⟨'\\' :: d :: content,rfl,.escape d enclosed⟩
    by_cases opens : delimiter quote triple <+: c :: rest
    · obtain ⟨behind,whole⟩ := opens
      rw [← whole,closesLast_closing isOne,List.isEmpty_iff] at closes
      exact ⟨[],by rw [← whole,closes,List.append_nil]; rfl,.nil⟩
    · rw [closesLast_cons,Mode.next_body slash opens] at closes
      obtain ⟨content,rfl,enclosed⟩ := ih rest.length (by omega) closes rfl
      exact ⟨c :: content,rfl,.char c slash opens enclosed⟩

theorem closesLast_opening {triple : Bool} {rest : List Char}
    (single : triple = false → twoMore quote rest = false) :
    closesLast .code (delimiter quote triple ++ rest) = closesLast (.body quote triple) rest := by
  cases triple with
  | false => simp [delimiter,closesLast,Mode.next,isOne,single rfl]
  | true => simp [delimiter,closesLast,Mode.next,isOne,twoMore,List.isPrefixOf]

end

theorem closesLast_literalText {quote : Char} {triple : Bool} {content rest : List Char}
    (isLiteral : IsLiteral quote triple content rest) :
    closesLast .code (literalText quote triple content ++ rest) = rest.isEmpty := by
  have single : triple = false →
      twoMore quote (content ++ delimiter quote triple ++ rest) = false := by
    rintro rfl
    simpa [delimiter] using twoMore_enclosed isLiteral
  have body := closesLast_enclosed isLiteral.isOne isLiteral.enclosed rest
  rw [← closesLast_opening isLiteral.isOne single] at body
  simpa [literalText] using body

theorem head?_literalText (quote : Char) (triple : Bool) (s : List Char) :
    (literalText quote triple s).head? = some quote := by
  cases triple <;> rfl

/-- One literal to the scan is a literal with its delimiters. -/
theorem oneLiteral_iff {s : List Char} : OneLiteral s ↔
    ∃ quote triple content, s = literalText quote triple content ∧ IsLiteral quote triple content [] := by
  constructor
  · rintro ⟨⟨quote,first,isOne⟩,closes⟩
    have found (triple : Bool) (rest : List Char) (whole : s = delimiter quote triple ++ rest)
        (single : triple = false → twoMore quote rest = false) :
        ∃ content, s = literalText quote triple content ∧ IsLiteral quote triple content [] := by
      rw [whole,closesLast_opening isOne single] at closes
      obtain ⟨content,rfl,enclosed⟩ := enclosed_of_closesLast isOne closes
      exact ⟨content,by rw [whole,literalText,List.append_assoc],isOne,enclosed,by simp⟩
    obtain ⟨rest,rfl⟩ := List.head?_eq_some_iff.mp first
    cases more : twoMore quote rest with
    | true =>
      obtain ⟨behind,rfl⟩ := List.isPrefixOf_iff_prefix.mp more
      obtain ⟨content,parts⟩ := found true behind rfl (by simp)
      exact ⟨quote,true,content,parts⟩
    | false =>
      obtain ⟨content,parts⟩ := found false rest rfl fun _ => more
      exact ⟨quote,false,content,parts⟩
  · rintro ⟨quote,triple,content,rfl,isLiteral⟩
    refine ⟨⟨quote,head?_literalText quote triple content,isLiteral.isOne⟩,?_⟩
    have closes := closesLast_literalText isLiteral
    rwa [List.append_nil] at closes

theorem isSome_literalValue_plain {raw : Bool} {ends cs : List Char} {c : Char}
    (plain : c ≠ '\\' ∨ raw = true) : (literalValue raw ends (c :: cs)).isSome = true ↔
      ¬ ends <+: c :: cs ∧ (literalValue raw ends cs).isSome = true := by
  rw [literalValue.eq_def]
  by_cases opens : ends <+: c :: cs
  · simp [List.isPrefixOf_iff_prefix.mpr opens,opens]
  · simp [opens,plain]

theorem isSome_literalValue_escape {ends cs : List Char} (apart : ¬ ends <+: '\\' :: cs) :
    (literalValue false ends ('\\' :: cs)).isSome = true ↔
      ∃ d ds, cs = d :: ds ∧ (literalValue false ends ds).isSome = true := by
  rw [literalValue.eq_def]
  cases cs with
  | nil => simp [apart]
  | cons d ds =>
    simp [apart,and_assoc]

/-- What may follow a literal without being seen: up to two quotes, if it is in triple quotes. -/
def Extra (quote : Char) (triple : Bool) (extra : List Char) : Prop :=
  extra = [] ∨ triple = true ∧ (extra = [quote] ∨ extra = [quote,quote])

theorem Extra.append_delimiter {quote : Char} {triple : Bool} {extra : List Char}
    (few : Extra quote triple extra) :
    extra ++ delimiter quote triple = delimiter quote triple ++ extra := by
  obtain rfl | ⟨rfl,rfl | rfl⟩ := few
  · simp
  · rfl
  · rfl

theorem extra_of_closing {quote : Char} {triple : Bool} {c : Char} {cs : List Char}
    (opens : ¬ delimiter quote triple <+: c :: cs)
    (closes : delimiter quote triple <+: c :: (cs ++ delimiter quote triple)) :
    Extra quote triple (c :: cs) := by
  cases triple with
  | false => exact absurd (by simpa [delimiter] using closes) opens
  | true =>
    obtain ⟨rfl,more⟩ := List.cons_prefix_cons.mp closes
    rcases cs with _ | ⟨d,_ | ⟨e,cs⟩⟩
    · exact .inr ⟨rfl,.inl rfl⟩
    · obtain rfl : quote = d := (List.cons_prefix_cons.mp more).1
      exact .inr ⟨rfl,.inr rfl⟩
    · have both : quote = d ∧ quote = e := by simpa using more
      obtain ⟨rfl,rfl⟩ := both
      exact absurd (by simp [delimiter]) opens

section

variable {quote : Char} (isOne : isQuote quote = true)

include isOne

theorem not_delimiter_prefix_backslash (triple : Bool) (s : List Char) :
    ¬ delimiter quote triple <+: '\\' :: s := by
  have plain := ne_backslash_of_isQuote isOne
  cases triple <;> simp [delimiter,plain]

theorem isSome_literalValue_extra {triple : Bool} {extra : List Char} (few : Extra quote triple extra) :
    (literalValue false (delimiter quote triple) extra).isSome = true := by
  have plain := ne_backslash_of_isQuote isOne
  obtain rfl | ⟨rfl,rfl | rfl⟩ := few
  · rfl
  · simp [delimiter,literalValue,plain]
  · simp [delimiter,literalValue,plain]

theorem isSome_literalValue_enclosed {triple : Bool} {content extra : List Char}
    (enclosed : Enclosed (delimiter quote triple) content) (few : Extra quote triple extra) :
    (literalValue false (delimiter quote triple) (content ++ extra)).isSome = true := by
  induction enclosed with
  | nil => exact isSome_literalValue_extra isOne few
  | @escape c content _ ih =>
    refine (isSome_literalValue_escape (not_delimiter_prefix_backslash isOne triple _)).mpr ?_
    exact ⟨c,content ++ extra,rfl,ih⟩
  | @char c content plain opens _ ih =>
    refine (isSome_literalValue_plain (.inl plain)).mpr ⟨fun begins => opens ?_,ih⟩
    -- what follows the content is the beginning of a delimiter
    have more : c :: (content ++ extra) <+: c :: (content ++ delimiter quote triple) ++ extra := by
      rw [List.cons_append,List.append_assoc,← few.append_delimiter,← List.append_assoc]
      exact List.prefix_append _ _
    have whole : c :: (content ++ delimiter quote triple) <+:
        c :: (content ++ delimiter quote triple) ++ extra := List.prefix_append _ _
    exact List.prefix_of_prefix_length_le (begins.trans more) whole (by simp; omega)

/-- A text between delimiters has a value if it is enclosed, but for quotes that follow unseen. -/
theorem isSome_literalValue_iff {triple : Bool} {s : List Char} :
    (literalValue false (delimiter quote triple) s).isSome = true ↔
      ∃ content extra, s = content ++ extra ∧ Enclosed (delimiter quote triple) content ∧
        Extra quote triple extra := by
  constructor
  · intro valued
    induction bound : s.length using Nat.strongRecOn generalizing s with
    | _ size ih =>
    cases s with
    | nil => exact ⟨[],[],rfl,.nil,.inl rfl⟩
    | cons c cs =>
      rw [List.length_cons] at bound
      by_cases slash : c = '\\'
      · subst slash
        obtain ⟨d,ds,rfl,later⟩ := (isSome_literalValue_escape
          (not_delimiter_prefix_backslash isOne triple cs)).mp valued
        obtain ⟨content,extra,rfl,enclosed,few⟩ := ih ds.length (by simp at bound; omega) later rfl
        exact ⟨'\\' :: d :: content,extra,rfl,.escape d enclosed,few⟩
      obtain ⟨opens,later⟩ := (isSome_literalValue_plain (.inl slash)).mp valued
      by_cases closes : delimiter quote triple <+: c :: (cs ++ delimiter quote triple)
      · exact ⟨[],c :: cs,rfl,.nil,extra_of_closing opens closes⟩
      · obtain ⟨content,extra,rfl,enclosed,few⟩ := ih cs.length (by omega) later rfl
        refine ⟨c :: content,extra,rfl,.char c slash (fun inner => closes ?_) enclosed,few⟩
        rw [List.append_assoc,few.append_delimiter,← List.append_assoc,← List.cons_append]
        exact inner.trans (List.prefix_append _ _)
  · rintro ⟨content,extra,rfl,enclosed,few⟩
    exact isSome_literalValue_enclosed isOne enclosed few

end

theorem between_ends (ends inner : List Char) : between ends (ends ++ (inner ++ ends)) = some inner := by
  have starts : ends.isPrefixOf (ends ++ (inner ++ ends)) = true :=
    List.isPrefixOf_iff_prefix.mpr (List.prefix_append _ _)
  have stops : ends.isSuffixOf (inner ++ ends) = true :=
    List.isSuffixOf_iff_suffix.mpr (List.suffix_append _ _)
  simp [between,starts,stops]

theorem delimiterOf_cases (quote : Char) (s : List Char) :
    ∃ triple, delimiterOf quote s = delimiter quote triple := by
  unfold delimiterOf
  split
  · exact ⟨true,rfl⟩
  · exact ⟨false,rfl⟩

theorem delimiterOf_ends {quote : Char} {triple : Bool} {inner : List Char}
    (single : triple = false → inner.head? ≠ some quote) :
    delimiterOf quote (delimiter quote triple ++ (inner ++ delimiter quote triple)) =
      delimiter quote triple := by
  cases triple with
  | true => simp [delimiterOf,delimiter]
  | false =>
    have other := single rfl
    cases inner with
    | nil => rfl
    | cons c inner =>
      have apart : quote ≠ c := by simpa [eq_comm] using other
      simp [delimiterOf,delimiter,List.isPrefixOf,apart]

/-- What has a value stands between delimiters. -/
theorem isSome_quotedValue_iff {raw : Bool} {s : List Char} : (quotedValue raw s).isSome = true ↔
    ∃ quote triple inner, isQuote quote = true ∧
      s = delimiter quote triple ++ (inner ++ delimiter quote triple) ∧
      (literalValue raw (delimiter quote triple) inner).isSome = true := by
  constructor
  · intro valued
    cases s with
    | nil => cases valued
    | cons quote rest =>
      rw [quotedValue] at valued
      split at valued
      next isOne =>
        obtain ⟨triple,ends⟩ := delimiterOf_cases quote (quote :: rest)
        rw [ends] at valued
        obtain ⟨value,valued⟩ := Option.isSome_iff_exists.mp valued
        obtain ⟨inner,parts,valued⟩ := Option.bind_eq_some_iff.mp valued
        exact ⟨quote,triple,inner,isOne,between_split parts,by rw [valued]; rfl⟩
      next => cases valued
  · rintro ⟨quote,triple,inner,isOne,rfl,value⟩
    have single : triple = false → inner.head? ≠ some quote := by
      rintro rfl first
      obtain ⟨rest,rfl⟩ := List.head?_eq_some_iff.mp first
      rw [literalValue.eq_def] at value
      simp [delimiter] at value
    have ends := delimiterOf_ends single
    have begins : ∃ rest, delimiter quote triple ++ (inner ++ delimiter quote triple) = quote :: rest := by
      cases triple
      · exact ⟨_,rfl⟩
      · exact ⟨_,rfl⟩
    obtain ⟨rest,whole⟩ := begins
    rw [whole] at ends ⊢
    simp only [quotedValue,isOne,if_true,ends]
    rw [← whole,between_ends,Option.bind_some]
    exact value

def EscapesQuote (s : List Char) : Prop := ∃ quote, isQuote quote = true ∧ ['\\',quote] <:+: s

theorem EscapesQuote.mono {s t : List Char} (escapes : EscapesQuote s) (inside : s <:+: t) :
    EscapesQuote t := by
  obtain ⟨quote,isOne,pair⟩ := escapes
  exact ⟨quote,isOne,pair.trans inside⟩

theorem isSome_literalValue_raw {ends s : List Char} (some : ends ≠ []) :
    (literalValue true ends s).isSome = true ↔ ¬ ends <:+: s := by
  induction s with
  | nil => simpa [literalValue] using some
  | cons c s ih => rw [isSome_literalValue_plain (.inr rfl),ih,List.infix_cons_iff,not_or]

theorem isSome_literalValue_straight {quote : Char} (isOne : isQuote quote = true) {triple : Bool}
    {s : List Char} (straight : ¬ EscapesQuote (s ++ [quote])) :
    (literalValue true (delimiter quote triple) s).isSome = true ↔
      (literalValue false (delimiter quote triple) s).isSome = true := by
  induction bound : s.length using Nat.strongRecOn generalizing s with
  | _ size ih =>
  cases s with
  | nil => simp [literalValue]
  | cons c cs =>
    rw [List.length_cons] at bound
    have later : ¬ EscapesQuote (cs ++ [quote]) :=
      fun escapes => straight (escapes.mono (List.suffix_cons _ _).isInfix)
    by_cases slash : c = '\\'
    · subst slash
      have apart := not_delimiter_prefix_backslash isOne triple cs
      rw [isSome_literalValue_plain (.inr rfl),isSome_literalValue_escape apart]
      cases cs with
      | nil => exact absurd ⟨quote,isOne,List.infix_refl _⟩ straight
      | cons d ds =>
        have other : d ≠ quote := by
          rintro rfl
          exact straight ⟨d,isOne,(List.prefix_append ['\\',d] (ds ++ [d])).isInfix⟩
        have opens : ¬ delimiter quote triple <+: d :: ds := by
          cases triple <;> simp [delimiter,Ne.symm other]
        have behind : ¬ EscapesQuote (ds ++ [quote]) :=
          fun escapes => later (escapes.mono (List.suffix_cons _ _).isInfix)
        rw [isSome_literalValue_plain (.inr rfl),ih ds.length (by simp at bound; omega) behind rfl]
        simp [apart,opens,and_assoc]
    · rw [isSome_literalValue_plain (.inr rfl),isSome_literalValue_plain (.inl slash),
        ih cs.length (by omega) later rfl]

theorem isSome_quotedValue_straight {s : List Char} (straight : ¬ EscapesQuote s) :
    (quotedValue true s).isSome = true ↔ (quotedValue false s).isSome = true := by
  rw [isSome_quotedValue_iff,isSome_quotedValue_iff]
  refine exists_congr fun quote => exists_congr fun triple => exists_congr fun inner =>
    and_congr_right fun isOne => and_congr_right fun whole => ?_
  refine isSome_literalValue_straight isOne fun escapes => straight (escapes.mono ?_)
  have first : [quote] <+: delimiter quote triple := by cases triple <;> simp [delimiter]
  obtain ⟨more,ends⟩ := first
  refine ⟨delimiter quote triple,more,?_⟩
  rw [List.append_assoc,List.append_assoc,ends,whole]

/-- A literal in triple quotes, and one or two more of its quotes. -/
def Overrun (s : List Char) : Prop := ∃ quote content, IsLiteral quote true content [] ∧
  (s = literalText quote true content ++ [quote] ∨ s = literalText quote true content ++ [quote,quote])

theorem isSome_quotedValue_false {s : List Char} :
    (quotedValue false s).isSome = true ↔ OneLiteral s ∨ Overrun s := by
  rw [isSome_quotedValue_iff,oneLiteral_iff]
  constructor
  · rintro ⟨quote,triple,inner,isOne,rfl,value⟩
    obtain ⟨content,extra,rfl,enclosed,few⟩ := (isSome_literalValue_iff isOne).mp value
    have whole : delimiter quote triple ++ (content ++ extra ++ delimiter quote triple) =
        literalText quote triple content ++ extra := by
      rw [List.append_assoc,few.append_delimiter,literalText]
      simp
    rw [whole]
    obtain rfl | ⟨rfl,rfl | rfl⟩ := few
    · exact .inl ⟨quote,triple,content,List.append_nil _,isOne,enclosed,by simp⟩
    · exact .inr ⟨quote,content,⟨isOne,enclosed,by simp⟩,.inl rfl⟩
    · exact .inr ⟨quote,content,⟨isOne,enclosed,by simp⟩,.inr rfl⟩
  · have value {quote : Char} {triple : Bool} {content : List Char}
        (isLiteral : IsLiteral quote triple content []) {extra : List Char}
        (few : Extra quote triple extra) (whole : s = literalText quote triple content ++ extra) :
        ∃ quote triple inner, isQuote quote = true ∧
          s = delimiter quote triple ++ (inner ++ delimiter quote triple) ∧
          (literalValue false (delimiter quote triple) inner).isSome = true := by
      refine ⟨quote,triple,content ++ extra,isLiteral.isOne,?_,
        isSome_literalValue_enclosed isLiteral.isOne isLiteral.enclosed few⟩
      rw [whole,literalText,List.append_assoc content,few.append_delimiter]
      simp
    rintro (⟨quote,triple,content,rfl,isLiteral⟩ | ⟨quote,content,isLiteral,rfl | rfl⟩)
    · exact value isLiteral (.inl rfl) (List.append_nil _).symm
    · exact value isLiteral (.inr ⟨rfl,.inl rfl⟩) rfl
    · exact value isLiteral (.inr ⟨rfl,.inr rfl⟩) rfl

theorem isSome_quotedValue_true {s : List Char} : (quotedValue true s).isSome = true ↔
    ∃ quote triple content, isQuote quote = true ∧ s = literalText quote triple content ∧
      ¬ delimiter quote triple <:+: content := by
  rw [isSome_quotedValue_iff]
  refine exists_congr fun quote => exists_congr fun triple => exists_congr fun inner =>
    and_congr_right fun _ => ?_
  have some : delimiter quote triple ≠ [] := by cases triple <;> simp [delimiter]
  rw [isSome_literalValue_raw some,literalText,List.append_assoc]

theorem not_overrun {s : List Char} (one : OneLiteral s) : ¬ Overrun s := by
  rintro ⟨quote,content,isLiteral,whole⟩
  have closed (extra : List Char) (same : s = literalText quote true content ++ extra) :
      extra.isEmpty = true := by
    have behind : IsLiteral quote true content extra := ⟨isLiteral.isOne,isLiteral.enclosed,by simp⟩
    rw [← closesLast_literalText behind,← same]
    exact one.2
  rcases whole with same | same
  · cases closed _ same
  · cases closed _ same

def IsRaw (t : List Char) : Prop := t.head? = some 'r' ∨ t.head? = some 'R'

def unmarked : List Char → List Char
  | [] => []
  | c :: rest => if c = 'r' ∨ c = 'R' then rest else c :: rest

/-- A text has a value if and only if it is one literal to the scan, where no backslash stands in front
of a quote of a raw literal and no quote follows triple quotes that close. Elsewhere the two differ. -/
theorem isSome_literal?_iff (t : List Char) :
    ((IsRaw t → ¬ EscapesQuote (unmarked t)) → ¬ Overrun (unmarked t) →
      ((literal? t).isSome = true ↔ OneLiteral (unmarked t))) ∧
    (¬ IsRaw t → ((literal? t).isSome = true ↔ OneLiteral (unmarked t) ∨ Overrun (unmarked t))) ∧
    (IsRaw t → ((literal? t).isSome = true ↔
      ∃ quote triple content, isQuote quote = true ∧ unmarked t = literalText quote triple content ∧
        ¬ delimiter quote triple <:+: content)) ∧
    ¬ (OneLiteral (unmarked t) ∧ Overrun (unmarked t)) := by
  have exclusive : ¬ (OneLiteral (unmarked t) ∧ Overrun (unmarked t)) :=
    fun both => not_overrun both.1 both.2
  cases t with
  | nil => simp [IsRaw,literal?,OneLiteral,unmarked,closesLast,Overrun,literalText,delimiter]
  | cons c rest =>
    have raw : IsRaw (c :: rest) ↔ c = 'r' ∨ c = 'R' := by simp [IsRaw]
    by_cases letter : c = 'r' ∨ c = 'R'
    · have read : literal? (c :: rest) = quotedValue true rest := by rw [literal?,if_pos letter]
      have behind : unmarked (c :: rest) = rest := if_pos letter
      rw [behind] at exclusive
      rw [read,raw,behind]
      refine ⟨fun straight tight => ?_,fun plain => absurd letter plain,
        fun _ => isSome_quotedValue_true,exclusive⟩
      rw [isSome_quotedValue_straight (straight letter),isSome_quotedValue_false]
      exact or_iff_left tight
    · have read : literal? (c :: rest) = quotedValue false (c :: rest) := by
        rw [literal?,if_neg letter]
      have behind : unmarked (c :: rest) = c :: rest := if_neg letter
      rw [behind] at exclusive
      rw [read,raw,behind]
      refine ⟨fun _ tight => ?_,fun _ => isSome_quotedValue_false,fun isRaw => absurd isRaw letter,
        exclusive⟩
      rw [isSome_quotedValue_false]
      exact or_iff_left tight

/-- Two literals next to each other have a value, and a raw literal with an escaped quote has none. -/
theorem isSome_literal?_apart :
    ((literal? "\"\"\"a\"\"\"\"\"".toList).isSome = true ∧ ¬ OneLiteral "\"\"\"a\"\"\"\"\"".toList) ∧
      (literal? "r'a\\'b'".toList).isSome = false ∧ OneLiteral "'a\\'b'".toList := by
  decide +kernel

end PipelineAtlas.Script
