import PipelineAtlas.Proofs.Script.Continued
import PipelineAtlas.Proofs.Script.Sight

/-! Passages of a source on one line. What is seen at a place of the line stands at a place of the
passage, so that a line that is made of parts is one of passages. -/
namespace PipelineAtlas.Script

def oneLine (cells : List Cell) : List Char := joinLines (codeText cells)

def codeCell (c : Char) : Cell := ⟨c,.code⟩

/-- Nothing of the passage is seen. It holds white space, literals and comments. -/
def Silent (cells : List Cell) : Prop := ∀ c ∈ oneLine cells, Text.isBlank c = true

theorem visible_ne {c : Char} (visible : Text.isBlank c = false) : c ≠ ' ' ∧ c ≠ '\n' ∧ c ≠ '\r' := by
  refine ⟨?_,?_,?_⟩ <;>
    · rintro rfl
      exact absurd visible (by decide)

/-- A visible character on the joined line stands on one of the lines. -/
theorem split_joinLines {s p q : List Char} {c : Char} (visible : Text.isBlank c = false)
    (cut : joinLines s = p ++ c :: q) :
    ∃ a b, s = a ++ c :: b ∧ joinLines a = p ∧ joinLines b = q := by
  obtain ⟨noSpace,noFeed,noReturn⟩ := visible_ne visible
  fun_induction joinLines s generalizing p with
  | case1 s ih =>
    cases p with
    | nil => exact absurd (List.cons.inj cut).1.symm noSpace
    | cons d p =>
      obtain ⟨rfl,behind⟩ := List.cons.inj cut
      obtain ⟨a,b,rfl,rfl,rfl⟩ := ih behind
      exact ⟨'\\' :: '\r' :: '\n' :: a,b,rfl,by rw [joinLines],rfl⟩
  | case2 s ih =>
    cases p with
    | nil => exact absurd (List.cons.inj cut).1.symm noSpace
    | cons d p =>
      obtain ⟨rfl,behind⟩ := List.cons.inj cut
      obtain ⟨a,b,rfl,rfl,rfl⟩ := ih behind
      exact ⟨'\\' :: '\n' :: a,b,rfl,by rw [joinLines],rfl⟩
  | case3 d s returns feeds ih =>
    cases p with
    | nil =>
      obtain ⟨same,rfl⟩ := List.cons.inj cut
      have here : d = c := by
        split at same
        next => exact absurd same.symm noSpace
        next => exact same
      exact ⟨[],s,by rw [here]; rfl,rfl,rfl⟩
    | cons e p =>
      obtain ⟨rfl,behind⟩ := List.cons.inj cut
      obtain ⟨a,b,rfl,rfl,rfl⟩ := ih behind
      refine ⟨d :: a,b,rfl,?_,rfl⟩
      by_cases joins : d = '\\'
      · subst joins
        rw [joinLines_backslash]
        · rfl
        · rintro ⟨r,rfl | rfl⟩
          · exact feeds _ rfl rfl
          · exact returns _ rfl rfl
      · exact joinLines_cons joins a
  | case4 => simp at cut

theorem split_flatMap {f : α → List β} {items : List α} {p q : List β} {c : β}
    (single : ∀ x ∈ items, c ∈ f x → f x = [c]) (cut : items.flatMap f = p ++ c :: q) :
    ∃ a x b, items = a ++ x :: b ∧ f x = [c] ∧ a.flatMap f = p ∧ b.flatMap f = q := by
  induction items generalizing p with
  | nil => simp at cut
  | cons x items ih =>
    rw [List.flatMap_cons] at cut
    have further (p' : List β) (begins : p = f x ++ p') (behind : items.flatMap f = p' ++ c :: q) :
        ∃ a y b, x :: items = a ++ y :: b ∧ f y = [c] ∧ a.flatMap f = p ∧ b.flatMap f = q := by
      obtain ⟨a,y,b,rfl,here,rfl,rfl⟩ :=
        ih (fun y inside => single y (List.mem_cons_of_mem x inside)) behind
      exact ⟨x :: a,y,b,rfl,here,begins.symm,rfl⟩
    rcases List.append_eq_append_iff.mp cut with ⟨p',begins,behind⟩ | ⟨more,longer,ends⟩
    · exact further p' begins behind
    · cases more with
      | nil => exact further [] (by simpa using longer.symm) (by simpa using ends.symm)
      | cons d more =>
        obtain ⟨rfl,rest⟩ := List.cons.inj ends
        have whole := single x List.mem_cons_self (by simp [longer])
        rw [whole] at longer
        cases p with
        | nil =>
          obtain rfl : more = [] := (List.cons.inj longer).2.symm
          exact ⟨[],x,items,rfl,whole,rfl,by simpa using rest.symm⟩
        | cons e p => simp at longer

theorem Cell.code_of_mem {x : Cell} {c : Char} (inside : c ∈ x.code)
    (visible : Text.isBlank c = false) : x = codeCell c := by
  obtain ⟨noSpace,noFeed,-⟩ := visible_ne visible
  obtain ⟨d,role⟩ := x
  unfold Cell.code blanked at inside
  split at inside
  next code =>
    obtain rfl := List.mem_singleton.mp inside
    exact congrArg _ code
  next =>
    split at inside
    next => exact absurd (List.mem_singleton.mp inside) noFeed
    next => exact absurd (List.eq_of_mem_replicate inside) noSpace

theorem split_visible {cells : List Cell} {p q : List Char} {c : Char}
    (visible : Text.isBlank c = false) (cut : codeText cells = p ++ c :: q) :
    ∃ a b, cells = a ++ codeCell c :: b ∧ codeText a = p ∧ codeText b = q := by
  obtain ⟨a,x,b,rfl,here,rfl,rfl⟩ := split_flatMap (f := Cell.code) (c := c) (fun x _ inside => by
    rw [Cell.code_of_mem inside visible]
    rfl) cut
  obtain rfl := Cell.code_of_mem (by rw [here]; exact List.mem_singleton_self c) visible
  exact ⟨a,b,rfl,rfl,rfl⟩

theorem split_oneLine {cells : List Cell} {p q : List Char} {c : Char}
    (visible : Text.isBlank c = false) (cut : oneLine cells = p ++ c :: q) :
    ∃ a b, cells = a ++ codeCell c :: b ∧ oneLine a = p ∧ oneLine b = q := by
  obtain ⟨s,t,split,rfl,rfl⟩ := split_joinLines visible cut
  obtain ⟨a,b,rfl,rfl,rfl⟩ := split_visible visible split
  exact ⟨a,b,rfl,rfl,rfl⟩

theorem oneLine_cons {c : Char} (slash : c ≠ '\\') (visible : Text.isBlank c = false)
    (cells : List Cell) : oneLine (codeCell c :: cells) = c :: oneLine cells := by
  obtain ⟨-,noFeed,noReturn⟩ := visible_ne visible
  have seen : codeText (codeCell c :: cells) = c :: codeText cells := rfl
  rw [oneLine,seen,joinLines_cons slash,if_neg (by simp [noFeed,noReturn])]
  rfl

def commaSeparated (entries : List (List Cell)) : List Cell := [codeCell ','].intercalate entries

theorem commaSeparated_cons (entry next : List Cell) (entries : List (List Cell)) :
    commaSeparated (entry :: next :: entries) =
      entry ++ codeCell ',' :: commaSeparated (next :: entries) := by
  rw [commaSeparated,List.intercalate_cons_cons,List.append_assoc]
  rfl

theorem split_commas {pieces : List (List Char)} (some : pieces ≠ []) {cells : List Cell}
    (seen : oneLine cells = [','].intercalate pieces) :
    ∃ entries, cells = commaSeparated entries ∧ entries.map oneLine = pieces := by
  induction pieces generalizing cells with
  | nil => exact absurd rfl some
  | cons piece pieces ih =>
    cases pieces with
    | nil => exact ⟨[cells],by simp [commaSeparated],by simpa using seen⟩
    | cons next pieces =>
      rw [List.intercalate_cons_cons,List.append_assoc,List.singleton_append] at seen
      obtain ⟨a,b,rfl,rfl,behind⟩ := split_oneLine (by decide) seen
      obtain ⟨entries,rfl,same⟩ := ih (by simp) behind
      obtain ⟨entry,more,rfl⟩ : ∃ entry more, entries = entry :: more := by
        refine List.exists_cons_of_ne_nil ?_
        rintro rfl
        simp at same
      exact ⟨a :: entry :: more,(commaSeparated_cons a entry more).symm,by simp [← same]⟩

theorem splitFrom_ne_nil (separator : Char) (depth : Nat) (begun cells : List Cell) :
    splitFrom separator depth begun cells ≠ [] := by
  fun_induction splitFrom separator depth begun cells with
  | case1 => simp
  | case2 => simp
  | case3 _ _ _ _ _ ih => exact ih

theorem intercalate_splitFrom (separator : Char) (depth : Nat) (begun cells : List Cell) :
    [codeCell separator].intercalate (splitFrom separator depth begun cells) = begun.reverse ++ cells := by
  fun_induction splitFrom separator depth begun cells with
  | case1 => simp
  | case2 depth begun x rest ends ih =>
    simp only [Cell.isCode,Bool.and_eq_true,beq_iff_eq] at ends
    obtain rfl : x = codeCell separator := by
      obtain ⟨c,role⟩ := x
      exact congr (congrArg Cell.mk ends.2.2) ends.2.1
    obtain ⟨part,parts,split⟩ := List.exists_cons_of_ne_nil (splitFrom_ne_nil separator 0 [] rest)
    rw [split] at ih ⊢
    rw [List.intercalate_cons_cons,ih,List.append_assoc]
    rfl
  | case3 depth begun x rest _ ih => simpa using ih

theorem text_intercalate (x : Cell) (parts : List (List Cell)) :
    text ([x].intercalate parts) = [x.char].intercalate (parts.map text) := by
  induction parts with
  | nil => rfl
  | cons part parts ih =>
    cases parts with
    | nil => simp
    | cons next parts =>
      rw [List.intercalate_cons_cons,text_append,text_append,ih]
      simp [List.intercalate_cons_cons,text]

theorem oneLine_eq_nil {cells : List Cell} (empty : oneLine cells = []) : cells = [] := by
  cases cells with
  | nil => rfl
  | cons x cells =>
    have none : x.code = [] := (List.append_eq_nil_iff.mp (joinLines_eq_nil empty)).1
    unfold Cell.code blanked at none
    split at none
    next => simp at none
    next =>
      split at none
      next => simp at none
      next =>
        have size := x.char.utf8Size_pos
        rw [List.replicate_eq_nil_iff] at none
        omega

theorem split_visibles {core : List Char} (some : core ≠ [])
    (visible : ∀ c ∈ core, Text.isBlank c = false) {cells : List Cell} {p q : List Char}
    (cut : oneLine cells = p ++ (core ++ q)) :
    ∃ a b, cells = a ++ (codeCells core ++ b) ∧ oneLine a = p ∧ oneLine b = q := by
  induction core generalizing cells p with
  | nil => exact absurd rfl some
  | cons c core ih =>
    obtain ⟨first,later⟩ := List.forall_mem_cons.mp visible
    obtain ⟨a,b,rfl,rfl,behind⟩ := split_oneLine first cut
    by_cases last : core = []
    · exact ⟨a,b,by simp [last,codeCells,codeCell],rfl,by simpa [last] using behind⟩
    · obtain ⟨none,b,rfl,empty,rfl⟩ := ih last later (p := []) behind
      obtain rfl := oneLine_eq_nil empty
      exact ⟨a,b,rfl,rfl,rfl⟩

theorem oneLine_concat {c : Char} (visible : Text.isBlank c = false) (cells : List Cell) :
    oneLine (cells ++ [codeCell c]) = oneLine cells ++ [c] := by
  obtain ⟨-,noFeed,noReturn⟩ := visible_ne visible
  have single : joinLines [c] = [c] := by
    rw [joinLines,if_neg (by simp [noFeed,noReturn])]
    · rfl
    · simp
    · simp
  have seen : codeText (cells ++ [codeCell c]) = codeText cells ++ [c] := codeText_append cells _
  rw [oneLine,seen,joinLines_append (.inr (by simpa using ⟨noFeed,noReturn⟩)),single]
  rfl

/-- Between visible ends a passage can be cut out. -/
theorem split_between {core : List Char} (first : ∃ c ∈ core.head?, Text.isBlank c = false ∧ c ≠ '\\')
    (last : ∃ c ∈ core.getLast?, Text.isBlank c = false) {cells : List Cell} {p q : List Char}
    (cut : oneLine cells = p ++ (core ++ q)) : ∃ a m b, cells = a ++ (m ++ b) ∧ oneLine a = p ∧
      oneLine m = core ∧ oneLine b = q := by
  obtain ⟨c,begins,visible,slash⟩ := first
  obtain ⟨e,ends,visible'⟩ := last
  cases core with
  | nil => simp at begins
  | cons d core =>
    obtain rfl : d = c := Option.some.inj begins
    obtain ⟨a,b,rfl,rfl,behind⟩ := split_oneLine visible cut
    rcases List.eq_nil_or_concat core with rfl | ⟨inner,f,rfl⟩
    · exact ⟨a,[codeCell d],b,rfl,rfl,oneLine_cons slash visible [],behind⟩
    · rw [List.concat_eq_append,← List.cons_append,Option.mem_def,List.getLast?_concat] at ends
      obtain rfl : f = e := Option.some.inj ends
      rw [List.concat_eq_append] at behind
      obtain ⟨m,b,rfl,rfl,rfl⟩ := split_oneLine visible' (behind.trans (List.append_assoc inner [f] q))
      refine ⟨a,codeCell d :: (m ++ [codeCell f]),b,by simp,rfl,?_,rfl⟩
      rw [oneLine_cons slash visible,oneLine_concat visible',List.concat_eq_append]

end PipelineAtlas.Script
