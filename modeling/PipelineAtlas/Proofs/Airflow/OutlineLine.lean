import Mathlib.Data.List.Chain
import PipelineAtlas.Proofs.Airflow.ChainLine

/-! What the outline finds in a line: nothing where each equals sign stands in front of a quote and no
`>>` mark stands anywhere, the name to which an operator call is assigned, and the names of a chain. -/
namespace PipelineAtlas.Airflow.Outline

open Text

theorem partsFrom_append {s : List Char} (noMark : '>' ∉ s) (begun rest : List Char) :
    partsFrom begun (s ++ rest) = partsFrom (s.reverse ++ begun) rest := by
  induction s generalizing begun with
  | nil => rfl
  | cons c s ih =>
    rw [List.mem_cons,not_or] at noMark
    obtain ⟨here,later⟩ := noMark
    rw [List.cons_append,partsFrom,ih later]
    · simp
    · intro _ mark
      exact absurd mark.symm here

theorem partsFrom_unmarked {s rest : List Char} (unmarked : ¬ ['>','>'] <:+: s)
    (next : rest.head? ≠ some '>') (begun : List Char) :
    partsFrom begun (s ++ rest) = partsFrom (s.reverse ++ begun) rest := by
  induction s generalizing begun with
  | nil => rfl
  | cons c s ih =>
    rw [List.infix_cons_iff,not_or] at unmarked
    obtain ⟨here,later⟩ := unmarked
    rw [List.cons_append,partsFrom,ih later]
    · simp
    · rintro more rfl second
      cases s with
      | nil =>
        rw [List.nil_append] at second
        rw [second] at next
        exact next rfl
      | cons d s =>
        obtain ⟨rfl,-⟩ := List.cons.inj second
        exact here ⟨s,rfl⟩

theorem linked_of_unmarked {front body back : List Char} (before : '>' ∉ front)
    (unmarked : ¬ ['>','>'] <:+: body) (behind : '>' ∉ back) :
    linked (front ++ (body ++ back)) = [] := by
  have next : back.head? ≠ some '>' := fun first => behind (List.mem_of_mem_head? first)
  have last := partsFrom_append behind (body.reverse ++ front.reverse) []
  rw [List.append_nil] at last
  have single : parts (front ++ (body ++ back)) = [front ++ (body ++ back)] := by
    rw [parts,partsFrom_append before,List.append_nil,partsFrom_unmarked unmarked next,last,partsFrom]
    simp
  rw [linked,single]
  rfl

theorem linked_of_names {line : List Char} {names : List (List Char)}
    (found : (parts line).map firstName? = names.map some) :
    linked line = (neighbours names).map fun p => (String.ofList p.1,String.ofList p.2) := by
  unfold linked
  generalize parts line = items at found
  induction names generalizing items with
  | nil =>
    obtain rfl := List.map_eq_nil_iff.mp found
    rfl
  | cons a names ih =>
    obtain ⟨first,items,rfl,here,found⟩ := List.map_eq_cons_iff.mp found
    cases names with
    | nil =>
      obtain rfl := List.map_eq_nil_iff.mp found
      rfl
    | cons b names =>
      obtain ⟨second,rest,rfl,next,-⟩ := List.map_eq_cons_iff.mp found
      rw [neighbours,List.filterMap_cons,ih (second :: rest) found,neighbours,List.map_cons]
      simp only [here,next]

/-- Each equals sign stands in front of a quote. -/
def Quoting (s : List Char) : Prop := s.IsChain fun a b => a = '=' → b = '\''

theorem Quoting.append {s t : List Char} (noSign : '=' ∉ s) (quoting : Quoting t) :
    Quoting (s ++ t) := by
  induction s with
  | nil => exact quoting
  | cons c s ih =>
    rw [List.mem_cons,not_or] at noSign
    obtain ⟨here,later⟩ := noSign
    rw [List.cons_append,Quoting,List.isChain_cons]
    exact ⟨fun _ _ sign => absurd sign.symm here,ih later⟩

theorem Quoting.value {s : List Char} (quoting : Quoting s) : Quoting ('=' :: '\'' :: s) :=
  List.isChain_cons_cons.mpr ⟨fun _ => rfl,quoting.append (s := ['\'']) (by decide)⟩

theorem assignsOperator_of_quoting {s : List Char} (quoting : Quoting s) :
    assignsOperator s = false := by
  unfold assignsOperator
  split
  next rest sign =>
    have behind : Quoting ('=' :: rest) := by
      rw [← sign]
      exact quoting.suffix (List.dropWhile_suffix _)
    cases rest with
    | nil => rfl
    | cons c rest =>
      obtain rfl := (List.isChain_cons_cons.mp behind).1 rfl
      rfl
  next => rfl

theorem assigned?_of_quoting {line : List Char} (quoting : Quoting line) : assigned? line = none := by
  have none (inWord : Bool) : assignedFrom inWord line = none := by
    induction line generalizing inWord with
    | nil => rfl
    | cons c line ih =>
      have later : Quoting line := quoting.suffix (List.suffix_cons c line)
      have noCall := assignsOperator_of_quoting
        (quoting.suffix (List.dropWhile_suffix (l := c :: line) isWord))
      rw [assignedFrom,noCall,Bool.and_false,ih later]
      rfl
  exact none false

theorem assigned?_operator {name : List Char} (identifier : isIdentifier name = true)
    (rest : List Char) :
    assigned? ("    ".toList ++ (name ++ (" = BashOperator(".toList ++ rest))) = some name := by
  obtain ⟨nonempty,word⟩ := word_of_isIdentifier identifier
  have isWord : ∀ c ∈ name, isWord c = true := fun c inside => isWord_of_isAsciiWord (word c inside)
  obtain ⟨c,more,rfl⟩ := List.exists_cons_of_ne_nil nonempty
  have behind : (c :: more ++ (" = BashOperator(".toList ++ rest)).dropWhile Text.isWord =
      " = BashOperator(".toList ++ rest := by
    rw [List.dropWhile_append_of_pos isWord]
    rfl
  have taken : (c :: more ++ (" = BashOperator(".toList ++ rest)).takeWhile Text.isWord =
      c :: more := by
    rw [List.takeWhile_append_of_pos isWord]
    exact List.append_nil _
  have call : assignsOperator (" = BashOperator(".toList ++ rest) = true := rfl
  have indented : assigned? ("    ".toList ++ (c :: more ++ (" = BashOperator(".toList ++ rest))) =
      assignedFrom false (c :: more ++ (" = BashOperator(".toList ++ rest)) := rfl
  rw [indented,List.cons_append,assignedFrom,← List.cons_append,behind,call,taken,
    isWord c List.mem_cons_self]
  rfl

theorem firstName?_name {front name back : List Char} (identifier : isIdentifier name = true)
    (before : ∀ c ∈ front, c = ' ') (behind : ∀ c ∈ back, c = ' ') :
    firstName? (front ++ (name ++ back)) = some name := by
  obtain ⟨nonempty,word⟩ := word_of_isIdentifier identifier
  have skipped : ∀ c ∈ front, (!isAsciiStart c) = true := by
    intro c inside
    rw [before c inside]
    decide
  obtain ⟨c,more,rfl⟩ := List.exists_cons_of_ne_nil nonempty
  have start : isAsciiStart c = true := (Bool.and_eq_true_iff.mp identifier).1
  have stop : back.takeWhile isAsciiWord = [] := by
    cases back with
    | nil => rfl
    | cons d back =>
      rw [behind d List.mem_cons_self]
      rfl
  have found : (front ++ (c :: more ++ back)).dropWhile (fun c => !isAsciiStart c) =
      c :: more ++ back := by
    rw [List.dropWhile_append_of_pos skipped,List.cons_append,List.dropWhile_cons_of_neg]
    simp [start]
  rw [firstName?,found,List.takeWhile_append_of_pos word,stop,List.append_nil]
  rfl

section Chain

variable {a : List Char} {rest : List (List Char)}
  (names : ∀ b ∈ a :: rest, isIdentifier b = true)

include names

theorem partsFrom_chainText {begun : List Char} (blank : ∀ c ∈ begun, c = ' ') :
    (partsFrom begun (chainText a rest)).map firstName? = (a :: rest).map some := by
  have noMark {b : List Char} (name : isIdentifier b = true) : '>' ∉ b := fun inside =>
    absurd ((word_of_isIdentifier name).2 '>' inside) (by decide)
  have before {begun : List Char} (blank : ∀ c ∈ begun, c = ' ') : ∀ c ∈ begun.reverse, c = ' ' :=
    fun c inside => blank c (List.mem_reverse.mp inside)
  induction rest generalizing a begun with
  | nil =>
    have name := names a List.mem_cons_self
    have whole := partsFrom_append (noMark name) begun []
    have nothing : ∀ c ∈ ([] : List Char), c = ' ' := by simp
    have found := firstName?_name name (before blank) nothing
    rw [List.append_nil] at whole found
    rw [chainText,whole,partsFrom,List.reverse_append,List.reverse_reverse,List.map_singleton,found]
    rfl
  | cons b rest ih =>
    obtain ⟨name,others⟩ := List.forall_mem_cons.mp names
    have text : chainText a (b :: rest) =
        (a ++ [' ']) ++ '>' :: '>' :: ([' '] ++ chainText b rest) := by
      simp [chainText]
    have first : '>' ∉ a ++ [' '] := by
      rw [List.mem_append,not_or]
      exact ⟨noMark name,by decide⟩
    have space : ∀ c ∈ [' '], c = ' ' := by simp
    have found := firstName?_name name (before blank) space
    have later : (partsFrom [] ([' '] ++ chainText b rest)).map firstName? =
        (b :: rest).map some := by
      rw [partsFrom_append (by decide)]
      exact ih others space
    rw [text,partsFrom_append first,partsFrom,List.reverse_append,List.reverse_reverse,List.map_cons,
      found,later]
    rfl

theorem linked_chainText : linked ("    ".toList ++ chainText a rest) =
    (neighbours (a :: rest)).map fun p => (String.ofList p.1,String.ofList p.2) := by
  apply linked_of_names
  rw [parts,partsFrom_append (by decide)]
  exact partsFrom_chainText names (by decide)

theorem assigned?_chainText : assigned? ("    ".toList ++ chainText a rest) = none := by
  have noSign : '=' ∉ "    ".toList ++ chainText a rest := by
    rw [List.mem_append,not_or]
    exact ⟨by decide,notMem_chainText names (by decide) (by decide) (by decide)⟩
  have quoting := Quoting.append noSign (t := []) .nil
  rw [List.append_nil] at quoting
  exact assigned?_of_quoting quoting

end Chain

end PipelineAtlas.Airflow.Outline
