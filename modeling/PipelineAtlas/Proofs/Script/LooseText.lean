import PipelineAtlas.Proofs.Script.LooseBracket
import PipelineAtlas.Proofs.Text.Word
import PipelineAtlas.Script.Value

/-! Texts that hold no blanks are the same where only gaps differ: names, paths and numbers. -/
namespace PipelineAtlas.Script

namespace Loose

variable {s t : List Char} (loose : Loose ' ' s t)

include loose

theorem test_eq {p : List Char → Bool} (noBlank : ∀ s, p s = true → ' ' ∉ s) : p s = p t := by
  rw [Bool.eq_iff_iff]
  constructor
  · intro passes
    rwa [← loose.eq_of_notMem (noBlank s passes)]
  · intro passes
    rwa [← loose.symm.eq_of_notMem (noBlank t passes)]

theorem of_test {p : List Char → Bool} (noBlank : ∀ s, p s = true → ' ' ∉ s)
    (passes : p s = true) : s = t := loose.eq_of_notMem (noBlank s passes)

theorem read_eq {f : List Char → Option β} (noBlank : ∀ s v, f s = some v → ' ' ∉ s) :
    f s = f t := by
  cases read : f s with
  | some v => rw [← read,loose.eq_of_notMem (noBlank s v read)]
  | none =>
    cases other : f t with
    | none => rfl
    | some v =>
      rw [loose.symm.eq_of_notMem (noBlank t v other),read] at other
      exact other

end Loose

theorem notMem_of_isIdentifier {s : List Char} (identifier : Text.isIdentifier s = true) :
    ' ' ∉ s := by
  intro inside
  have word := (Text.word_of_isIdentifier identifier).2 ' ' inside
  revert word
  decide

theorem mem_segments {s : List Char} {c : Char} (inside : c ∈ s) (other : c ≠ '.') :
    ∃ part ∈ segments s, c ∈ part := by
  have from' : ∀ begun : List Char, c ∈ begun ∨ c ∈ s → ∃ part ∈ segmentsFrom begun s, c ∈ part := by
    clear inside
    induction s with
    | nil =>
      intro begun either
      exact ⟨begun.reverse,by simp [segmentsFrom],by simpa using either⟩
    | cons d s ih =>
      intro begun either
      simp only [segmentsFrom]
      split
      next dot =>
        rcases either with before | inside
        · exact ⟨begun.reverse,by simp,by simpa using before⟩
        · rcases List.mem_cons.mp inside with rfl | inside
          · exact absurd dot other
          · obtain ⟨part,member,found⟩ := ih [] (.inr inside)
            exact ⟨part,List.mem_cons_of_mem _ member,found⟩
      next =>
        refine ih (d :: begun) ?_
        rcases either with before | inside
        · exact .inl (List.mem_cons_of_mem d before)
        · rcases List.mem_cons.mp inside with rfl | inside
          · exact .inl (by simp)
          · exact .inr inside
  exact from' [] (.inr inside)

theorem notMem_of_isDottedName {s : List Char} (dotted : isDottedName s = true) : ' ' ∉ s := by
  intro inside
  obtain ⟨part,member,found⟩ := mem_segments inside (by decide)
  exact notMem_of_isIdentifier (List.all_eq_true.mp dotted part member) found

theorem mem_of_integer? {s : List Char} {v : Int} (read : integer? s = some v) :
    ∀ c ∈ s, c ∈ ['_','-','+'] ∨ c.isDigit = true := by
  intro c inside
  by_cases line : c = '_'
  · exact .inl (by simp [line])
  · have kept : c ∈ s.filter (· != '_') := List.mem_filter.mpr ⟨inside,by simpa using line⟩
    exact (Text.mem_of_int64? read c kept).imp_left (List.mem_cons_of_mem '_')

theorem notMem_of_integer? {s : List Char} {v : Int} (read : integer? s = some v) : ' ' ∉ s := by
  intro inside
  rcases mem_of_integer? read ' ' inside with sign | digit
  · exact absurd sign (by decide)
  · exact absurd digit (by decide)

theorem notMem_of_keyword? {s : List Char} {v : Value} (read : keyword? s = some v) : ' ' ∉ s := by
  unfold keyword? at read
  split at read
  next same =>
    rw [same]
    decide
  next =>
    split at read
    next same =>
      rw [same]
      decide
    next =>
      split at read
      next same =>
        rw [same]
        decide
      next => simp at read

namespace LooseCells

variable {a b : List Cell}

theorem listBody? (loose : LooseCells a b) :
    listBody? a = none ∧ listBody? b = none ∨
      ∃ inside inside', listBody? a = some inside ∧ listBody? b = some inside' ∧
        LooseCells inside inside' := by
  cases loose with
  | nil => exact .inl ⟨rfl,rfl⟩
  | gap m n rest => exact .inl ⟨rfl,rfl⟩
  | @cons x s t rest =>
    simp only [Script.listBody?,← Loose.getLast?_eq rest]
    split
    next ends =>
      simp only [Bool.and_eq_true,beq_iff_eq] at ends
      obtain ⟨y,last,char⟩ := Option.map_eq_some_iff.mp ends.2
      obtain ⟨s',rfl⟩ := List.getLast?_eq_some_iff.mp last
      obtain ⟨t',rfl,inner⟩ := Loose.concat_inv rest (ne_space char (by decide))
      exact .inr ⟨s',t',by simp,by simp,inner⟩
    next => exact .inl ⟨rfl,rfl⟩

end LooseCells

end PipelineAtlas.Script
