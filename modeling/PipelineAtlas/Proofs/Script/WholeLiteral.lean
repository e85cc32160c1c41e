import PipelineAtlas.Proofs.Script.Settled

/-! A text that reads as one literal is scanned as literal from end to end. The value of a literal is
found without the scan, so this is where the two are compared. -/
namespace PipelineAtlas.Script

theorem role_of_quotes {s : List Char} (quotes : ∀ c ∈ s, isQuote c = true) {mode : Mode}
    (noComment : mode ≠ .comment) : ∀ x ∈ scanFrom false mode s, x.role = .literal := by
  induction s generalizing mode with
  | nil => simp [scanFrom]
  | cons c s ih =>
    have quote := quotes c (by simp)
    have next : (mode.next false c s).2 = .literal ∧ (mode.next false c s).1 ≠ .comment := by
      cases mode <;> grind [Mode.next]
    intro x inside
    rcases List.mem_cons.mp inside with rfl | later
    · exact next.1
    · exact ih (fun d member => quotes d (List.mem_cons_of_mem c member)) next.2 x later

theorem isQuote_of_delimiter {quote : Char} (isOne : isQuote quote = true) (triple : Bool) :
    ∀ c ∈ delimiter quote triple, isQuote c = true := by
  intro c inside
  cases triple <;> simp_all [delimiter]

theorem literalValue_cons {raw : Bool} {ends cs value : List Char} {c : Char}
    (valued : literalValue raw ends (c :: cs) = some value) :
    ¬ ends <+: c :: cs ∧
      ((c ≠ '\\' ∨ raw = true) ∧ (∃ v, literalValue raw ends cs = some v) ∨
        (c = '\\' ∧ raw = false) ∧ ∃ d ds v, cs = d :: ds ∧ literalValue raw ends ds = some v) := by
  unfold literalValue at valued
  split at valued
  · simp at valued
  next opens =>
    refine ⟨fun starts => opens (List.isPrefixOf_iff_prefix.mpr starts),?_⟩
    split at valued
    next plain =>
      obtain ⟨v,more,-⟩ := Option.map_eq_some_iff.mp valued
      exact .inl ⟨plain,v,more⟩
    next slash =>
      simp only [ne_eq,not_or,not_not,Bool.not_eq_true] at slash
      split at valued
      · simp at valued
      next d ds =>
        obtain ⟨v,more,-⟩ := Option.map_eq_some_iff.mp valued
        exact .inr ⟨slash,d,ds,v,rfl,more⟩

private theorem quotes_of_closing {quote c : Char} {triple : Bool} {cs : List Char}
    (isOne : isQuote quote = true) (opens : ¬ delimiter quote triple <+: c :: cs)
    (closes : delimiter quote triple <+: c :: (cs ++ delimiter quote triple)) :
    ∀ d ∈ c :: cs, isQuote d = true := by
  cases triple with
  | false => exact absurd (by simpa [delimiter] using closes) opens
  | true =>
    obtain ⟨rfl,more⟩ := List.cons_prefix_cons.mp closes
    rcases cs with _ | ⟨d,_ | ⟨e,cs⟩⟩
    · simpa using isOne
    · obtain rfl : quote = d := (List.cons_prefix_cons.mp more).1
      simpa using isOne
    · have both : quote = d ∧ quote = e := by simpa using more
      obtain ⟨rfl,rfl⟩ := both
      exact absurd (by simp [delimiter]) opens

theorem role_of_literalValue {quote : Char} (isOne : isQuote quote = true) {raw triple : Bool}
    {inner value : List Char} (valued : literalValue raw (delimiter quote triple) inner = some value) :
    ∀ x ∈ scanFrom false (.body quote triple) (inner ++ delimiter quote triple),
      x.role = .literal := by
  have ends := isQuote_of_delimiter isOne triple
  have plain := ne_backslash_of_isQuote isOne
  -- a backslash takes the next character along, so the induction is on the length
  induction bound : inner.length using Nat.strongRecOn generalizing inner value with
  | _ size ih =>
  cases inner with
  | nil => exact role_of_quotes ends (by simp)
  | cons c cs =>
    obtain ⟨opens,more⟩ := literalValue_cons valued
    rw [List.cons_append,scanFrom_cons]
    intro x inside
    -- behind an escaped character
    have taken {d : Char} {ds v : List Char}
        (rest : literalValue raw (delimiter quote triple) ds = some v)
        (later : x ∈ scanFrom false (.escaped quote triple) (d :: ds ++ delimiter quote triple))
        (less : ds.length < size) : x.role = .literal := by
      rcases List.mem_cons.mp later with rfl | later
      · rfl
      · exact ih _ less rest rfl x later
    by_cases slash : c = '\\'
    · subst slash
      have escapes : (Mode.body quote triple).next false '\\' (cs ++ delimiter quote triple) =
        (.escaped quote triple,.literal) := by simp [Mode.next]
      rw [escapes] at inside
      rcases List.mem_cons.mp inside with rfl | later
      · rfl
      rcases more with ⟨either,v,more⟩ | ⟨-,d,ds,v,rfl,more⟩
      · have isRaw : raw = true := either.resolve_left (absurd rfl)
        cases cs with
        | nil => exact role_of_quotes ends (by simp) x later
        | cons d ds =>
          obtain ⟨-,⟨-,w,rest⟩ | ⟨⟨-,notRaw⟩,-⟩⟩ := literalValue_cons more
          · exact taken rest later (by simp at bound; omega)
          · simp [isRaw] at notRaw
      · exact taken more later (by simp at bound; omega)
    · obtain ⟨-,v,more⟩ | ⟨⟨same,-⟩,-⟩ := more
      · by_cases closes : delimiter quote triple <+: c :: (cs ++ delimiter quote triple)
        · have quotes := quotes_of_closing isOne opens closes
          have all : ∀ d ∈ c :: (cs ++ delimiter quote triple), isQuote d = true := by
            intro d member
            rw [← List.cons_append] at member
            exact (List.mem_append.mp member).elim (quotes d) (ends d)
          rw [← scanFrom_cons] at inside
          exact role_of_quotes all (by simp) x inside
        · rw [Mode.next_body slash closes] at inside
          rcases List.mem_cons.mp inside with rfl | later
          · rfl
          · exact ih _ (by simp at bound; omega) more rfl x later
      · exact absurd same slash

theorem between_split {ends s inner : List Char} (parts : between ends s = some inner) :
    s = ends ++ (inner ++ ends) := by
  simp only [between] at parts
  split at parts
  next starts =>
    split at parts
    next stops =>
      obtain ⟨rest,rfl⟩ := List.isPrefixOf_iff_prefix.mp starts
      rw [List.drop_left] at stops parts
      obtain ⟨front,rfl⟩ := List.isSuffixOf_iff_suffix.mp stops
      obtain rfl := Option.some.inj parts
      simp
    next => simp at parts
  next => simp at parts

/-- A text that is the value of one literal is literal from end to end. -/
theorem role_of_quotedValue {raw : Bool} {s value : List Char}
    (valued : quotedValue raw s = some value) : ∀ x ∈ scan s, x.role = .literal := by
  cases s with
  | nil => simp [quotedValue] at valued
  | cons quote rest =>
    simp only [quotedValue] at valued
    split at valued
    next isOne =>
      obtain ⟨inner,parts,valued⟩ := Option.bind_eq_some_iff.mp valued
      have ends : ∃ triple, delimiterOf quote (quote :: rest) = delimiter quote triple := by
        unfold delimiterOf
        split
        · exact ⟨true,rfl⟩
        · exact ⟨false,rfl⟩
      obtain ⟨triple,ends⟩ := ends
      rw [ends] at parts valued
      have body := role_of_literalValue isOne valued
      have single : triple = false → twoMore quote (inner ++ delimiter quote triple) = false := by
        rintro rfl
        cases inner with
        | nil => simp [delimiter,twoMore,List.isPrefixOf]
        | cons c cs =>
          have other := (literalValue_cons valued).1
          have apart : quote ≠ c := by
            rintro rfl
            simp [delimiter] at other
          simp [twoMore,List.isPrefixOf,apart]
      intro x inside
      rw [between_split parts,scan,scanFrom_opening isOne single] at inside
      rcases List.mem_append.mp inside with first | later
      · obtain ⟨c,-,rfl⟩ := List.mem_map.mp first
        rfl
      · exact body x later
    next => simp at valued

theorem Settled.notMem_of_literal? {cells : List Cell} (settled : Settled false cells)
    {value : List Char} (valued : literal? (text cells) = some value) :
    (⟨' ',.code⟩ : Cell) ∉ cells := by
  rw [← settled]
  generalize text cells = s at valued
  have apart : ∀ {raw s}, quotedValue raw s = some value → (⟨' ',.code⟩ : Cell) ∉ scan s := by
    intro raw s valued inside
    simpa using role_of_quotedValue valued _ inside
  cases s with
  | nil => simp [literal?] at valued
  | cons c rest =>
    simp only [literal?] at valued
    split at valued
    next letter =>
      have plain : isPlain false c = true := by
        rcases letter with rfl | rfl <;> decide
      have opened : scan (c :: rest) = ⟨c,.code⟩ :: scan rest := by
        rw [scan,scanFrom_cons,Mode.next_plain plain]
        rfl
      have visible : ' ' ≠ c := by
        rcases letter with rfl | rfl <;> decide
      change _ ∉ scan (c :: rest)
      rw [opened]
      simpa [visible] using apart valued
    next => exact apart valued

end PipelineAtlas.Script
