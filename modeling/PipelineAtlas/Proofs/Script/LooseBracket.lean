import PipelineAtlas.Proofs.Script.Bracket
import PipelineAtlas.Proofs.Script.Loose

/-! Brackets, separators and marks do not depend on the lengths of gaps. -/
namespace PipelineAtlas.Script

def space : Cell := ⟨' ',.code⟩

abbrev LooseCells : List Cell → List Cell → Prop := Loose space

theorem flat_spaces (n : Nat) : Flat (List.replicate n space) := by
  intro x inside
  rw [List.eq_of_mem_replicate inside]
  exact ⟨rfl,rfl⟩

namespace LooseCells

variable {a b : List Cell}

theorem text (loose : LooseCells a b) : Loose ' ' (text a) (text b) := loose.map Cell.char

theorem codeCells {s t : List Char} (loose : Loose ' ' s t) :
    LooseCells (codeCells s) (codeCells t) := loose.map fun c => (⟨c,.code⟩ : Cell)

theorem trimCells (loose : LooseCells a b) : LooseCells (trimCells a) (trimCells b) := by
  have left := Loose.dropWhile (fun x : Cell => Text.isBlank x.char) loose
  have right := Loose.dropWhile (fun x : Cell => Text.isBlank x.char) left.reverse
  exact right.reverse

theorem isBlankPart (loose : LooseCells a b) : isBlankPart a = isBlankPart b :=
  Loose.all_eq loose fun x => Text.isBlank x.char

theorem closeFrom (loose : LooseCells a b) (depth : Nat) :
    closeFrom depth a = none ∧ closeFrom depth b = none ∨
      ∃ inside behind inside' behind', closeFrom depth a = some (inside,behind) ∧
        closeFrom depth b = some (inside',behind') ∧ LooseCells inside inside' ∧
        LooseCells behind behind' := by
  induction loose generalizing depth with
  | nil => exact .inl ⟨rfl,rfl⟩
  | @cons x s t rest ih =>
    simp only [Script.closeFrom]
    split
    · exact .inr ⟨[],s,[],t,rfl,rfl,.nil,rest⟩
    · rcases ih (x.depthAfter depth) with ⟨openA,openB⟩ | ⟨i,r,i',r',closedA,closedB,inner,outer⟩
      · exact .inl ⟨by rw [openA]; rfl,by rw [openB]; rfl⟩
      · exact .inr ⟨x :: i,r,x :: i',r',by rw [closedA]; rfl,by rw [closedB]; rfl,
          .cons x inner,outer⟩
  | @gap m n s t rest ih =>
    rw [closeFrom_flat (flat_spaces _),closeFrom_flat (flat_spaces _)]
    rcases ih depth with ⟨openA,openB⟩ | ⟨i,r,i',r',closedA,closedB,inner,outer⟩
    · exact .inl ⟨by rw [openA]; rfl,by rw [openB]; rfl⟩
    · exact .inr ⟨_,r,_,r',by rw [closedA]; rfl,by rw [closedB]; rfl,.gap m n inner,outer⟩

theorem enclosed? (loose : LooseCells a b) :
    enclosed? a = none ∧ enclosed? b = none ∨
      ∃ inside behind inside' behind', enclosed? a = some (inside,behind) ∧
        enclosed? b = some (inside',behind') ∧ LooseCells inside inside' ∧
        LooseCells behind behind' := by
  cases loose with
  | nil => exact .inl ⟨rfl,rfl⟩
  | cons x rest =>
    simp only [Script.enclosed?]
    split
    · exact closeFrom rest 1
    · exact .inl ⟨rfl,rfl⟩
  | gap m n rest => exact .inl ⟨rfl,rfl⟩

theorem splitFrom {separator : Char} (other : separator ≠ ' ') (loose : LooseCells a b)
    (depth : Nat) {begun begun' : List Cell} (same : LooseCells begun begun') :
    List.Forall₂ LooseCells (splitFrom separator depth begun a)
      (splitFrom separator depth begun' b) := by
  induction loose generalizing depth begun begun' with
  | nil => exact .cons same.reverse .nil
  | cons x rest ih =>
    simp only [Script.splitFrom]
    split
    · exact .cons same.reverse (ih 0 .nil)
    · exact ih _ (.cons x same)
  | gap m n rest ih =>
    have apart : ∀ k, ∀ x ∈ List.replicate k space, x.isCode separator = false := by
      intro k x inside
      rw [List.eq_of_mem_replicate inside]
      simp [Cell.isCode,space,Ne.symm other]
    rw [splitFrom_flat (flat_spaces _) (apart _),splitFrom_flat (flat_spaces _) (apart _)]
    rw [List.reverse_replicate,List.reverse_replicate]
    exact ih depth (.gap m n same)

private theorem forall₂_filter {R : α → α → Prop} {p : α → Bool} {s t : List α}
    (related : List.Forall₂ R s t) (same : ∀ x y, R x y → p x = p y) :
    List.Forall₂ R (s.filter p) (t.filter p) := by
  induction related with
  | nil => exact .nil
  | @cons x y s t here _ ih =>
    rw [List.filter_cons,List.filter_cons,same x y here]
    split
    · exact .cons here ih
    · exact ih

theorem splitTopLevel {separator : Char} (other : separator ≠ ' ') (loose : LooseCells a b) :
    List.Forall₂ LooseCells (splitTopLevel separator a) (splitTopLevel separator b) := by
  refine forall₂_filter (splitFrom other loose 0 .nil) fun x y related => ?_
  rw [isBlankPart related]

theorem ne_space {x : Cell} {c : Char} (char : x.char = c) (other : c ≠ ' ') : x ≠ space := by
  rintro rfl
  exact other char.symm

/-- Chains with the same marks between operands. -/
structure Chain (c c' : ShiftChain) : Prop where
  first : LooseCells c.first c'.first
  rest : List.Forall₂ (fun x y => x.1 = y.1 ∧ LooseCells x.2 y.2) c.rest c'.rest

theorem shiftChainFrom (loose : LooseCells a b) (depth : Nat) :
    Chain (shiftChainFrom depth a) (shiftChainFrom depth b) := by
  -- a mark takes two cells, so the induction is on the length
  induction size : a.length using Nat.strongRecOn generalizing a b depth with
  | _ size ih =>
  cases loose with
  | nil => exact ⟨.nil,.nil⟩
  | gap m n rest =>
    have run (k : Nat) (cells : List Cell) (depth : Nat) :
        Script.shiftChainFrom depth (List.replicate k space ++ cells) =
          { Script.shiftChainFrom depth cells with
            first := List.replicate k space ++ (Script.shiftChainFrom depth cells).first } := by
      induction k with
      | zero => rfl
      | succ k more =>
        rw [List.replicate_succ,List.cons_append,shiftChainFrom_push (shiftAt?_none (by decide))]
        have level : space.depthAfter depth = depth := rfl
        rw [level,more]
        rfl
    rw [run,run]
    obtain ⟨first,marks⟩ := ih _ (by simp at size; omega) rest depth rfl
    exact ⟨.gap m n first,marks⟩
  | @cons x s t rest =>
    have pushed : Chain ((Script.shiftChainFrom (x.depthAfter depth) s).push x)
        ((Script.shiftChainFrom (x.depthAfter depth) t).push x) := by
      obtain ⟨first,marks⟩ := ih _ (by simp at size; omega) rest (x.depthAfter depth) rfl
      exact ⟨.cons x first,marks⟩
    have heads := Loose.head?_eq rest
    match s,t with
    | [],[] => exact pushed
    | [],y :: t => simp at heads
    | y :: s,[] => simp at heads
    | y :: s,z :: t =>
      obtain rfl : y = z := Option.some.inj heads
      simp only [Script.shiftChainFrom]
      cases mark : (if depth = 0 then shiftAt? x y else none) with
      | none => exact pushed
      | some shift =>
        have visible : y ≠ space := by
          rintro rfl
          by_cases top : depth = 0
          · simp only [top,if_true,shiftAt?] at mark
            split at mark
            next same => simp [← same.2,space,Shift.ofChar?] at mark
            next => simp at mark
          · simp [top] at mark
        obtain ⟨t',same,behind⟩ := Loose.cons_inv rest visible
        obtain rfl := (List.cons.inj same).2
        obtain ⟨first,marks⟩ := ih _ (by simp at size; omega) behind 0 rfl
        exact ⟨.nil,.cons ⟨rfl,first⟩ marks⟩

theorem unwrapFrom {n m : Nat} (loose : LooseCells a b) (enough : a.length ≤ n)
    (enough' : b.length ≤ m) : LooseCells (unwrapFrom n a) (unwrapFrom m b) := by
  induction n generalizing a b m with
  | zero =>
    obtain rfl : a = [] := List.eq_nil_of_length_eq_zero (by omega)
    obtain rfl : b = [] := (Loose.nil_iff loose).mp rfl
    cases m <;> exact .nil
  | succ n ih =>
    have heads := Loose.head?_eq loose
    match a,b,m with
    | [],[],m => cases m <;> exact .nil
    | [],y :: b,m => simp at heads
    | x :: a,[],m => simp at heads
    | x :: a,y :: b,0 => simp at enough'
    | x :: a,y :: b,m + 1 =>
      obtain rfl : x = y := Option.some.inj heads
      simp only [Script.unwrapFrom]
      split
      next =>
        rcases enclosed? loose with ⟨openA,openB⟩ | ⟨i,r,i',r',closedA,closedB,inner,outer⟩
        · rw [openA,openB]
          exact loose
        · rw [closedA,closedB]
          cases r with
          | cons z r =>
            cases r' with
            | nil => exact absurd ((Loose.nil_iff outer).mpr rfl) (by simp)
            | cons z' r' => exact loose
          | nil =>
            obtain rfl := (Loose.nil_iff outer).mp rfl
            obtain ⟨_,_,-,-,splitA⟩ := enclosed?_split closedA
            obtain ⟨_,_,-,-,splitB⟩ := enclosed?_split closedB
            have sizeA := congrArg List.length splitA
            have sizeB := congrArg List.length splitB
            have lessA := length_trimCells_le i
            have lessB := length_trimCells_le i'
            simp only [List.length_cons,List.length_append,List.length_nil] at sizeA sizeB enough enough'
            exact ih (trimCells inner) (by omega) (by omega)
      next => exact loose

theorem unwrap (loose : LooseCells a b) : LooseCells (unwrap a) (unwrap b) :=
  unwrapFrom (trimCells loose) (length_trimCells_le a) (length_trimCells_le b)

end LooseCells

end PipelineAtlas.Script
