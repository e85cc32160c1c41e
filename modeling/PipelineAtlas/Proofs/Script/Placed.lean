import PipelineAtlas.Proofs.Script.Bracket
import PipelineAtlas.Proofs.Script.Sight

/-! Places in two lists of cells that differ in one run of literal or comment. A place in code is the
same on both sides if as many cells of code follow it. -/
namespace PipelineAtlas.Script

def codeCount (cells : List Cell) : Nat := cells.countP fun x => x.role == .code

theorem codeCount_append (a b : List Cell) : codeCount (a ++ b) = codeCount a + codeCount b :=
  List.countP_append

theorem codeCount_cons (x : Cell) (a : List Cell) : codeCount (x :: a) = codeCount [x] + codeCount a :=
  codeCount_append [x] a

def NoCode (cells : List Cell) : Prop := ∀ x ∈ cells, x.role ≠ .code

theorem NoCode.codeCount_eq {cells : List Cell} (noCode : NoCode cells) : codeCount cells = 0 := by
  rw [codeCount,List.countP_eq_zero]
  intro x inside
  simpa using noCode x inside

theorem NoCode.flat {cells : List Cell} (noCode : NoCode cells) : Flat cells := by
  intro x inside
  have hidden := noCode x inside
  simp [Cell.opens,Cell.closes,Cell.isCode,hidden]

theorem Unseen.noCode {cells : List Cell} (unseen : Unseen cells) : NoCode cells :=
  fun x inside => (unseen x inside).1

theorem noCode_roleCells {role : Role} (notCode : role ≠ .code) (s : List Char) :
    NoCode (roleCells role s) := by
  intro x inside
  obtain ⟨c,-,rfl⟩ := List.mem_map.mp inside
  exact notCode

theorem SameSight.codeCount_eq {a b : List Cell} (same : SameSight a b) : codeCount a = codeCount b := by
  induction same with
  | nil => rfl
  | @cons x a b _ ih => rw [codeCount_cons x a,codeCount_cons x b,ih]
  | gap unseen unseen' _ _ _ ih =>
    rw [codeCount_append,codeCount_append,unseen.noCode.codeCount_eq,unseen'.noCode.codeCount_eq,ih]
  | @feed x u u' a b hidden breaks unseen unseen' _ ih =>
    rw [codeCount_cons x (u ++ a),codeCount_cons x (u' ++ b),codeCount_append,codeCount_append,
      unseen.noCode.codeCount_eq,unseen'.noCode.codeCount_eq,ih]

def InCode (cells : List Cell) : Prop := ∃ x ∈ cells.head?, x.role = .code

theorem InCode.codeCount_pos {cells : List Cell} (inCode : InCode cells) : 0 < codeCount cells := by
  obtain ⟨x,first,code⟩ := inCode
  exact List.countP_pos_iff.mpr ⟨x,List.mem_of_mem_head? first,by simpa using code⟩

theorem suffix_eq_of_codeCount {a b whole : List Cell} (left : a <:+ whole) (right : b <:+ whole)
    (inCode : InCode a) (inCode' : InCode b) (same : codeCount a = codeCount b) : a = b := by
  have longer : ∀ {a b : List Cell}, a <:+ b → InCode b → codeCount a = codeCount b → a = b := by
    rintro a b ⟨front,rfl⟩ ⟨x,first,code⟩ same
    cases front with
    | nil => rfl
    | cons y front =>
      obtain rfl : y = x := by simpa using first
      have counted : InCode (y :: front) := ⟨y,rfl,code⟩
      have more := counted.codeCount_pos
      rw [codeCount_append] at same
      omega
  rcases List.suffix_or_suffix_of_suffix left right with inner | inner
  · exact longer inner inCode' same
  · exact (longer inner inCode same.symm).symm

/-- Two places with the same cells behind them but for a run `u` on one side and `u'` on the
other. -/
inductive Placed (u u' rest : List Cell) : List Cell → List Cell → Prop
  | behind {call : List Cell} (within : call <:+ rest) : Placed u u' rest call call
  | around {front : List Cell} (some : front ≠ []) :
      Placed u u' rest (front ++ (u ++ rest)) (front ++ (u' ++ rest))

private theorem suffix_append_cases {a b call : List α} (place : call <:+ a ++ b) :
    call <:+ b ∨ ∃ front, front ≠ [] ∧ call = front ++ b ∧ front <:+ a := by
  obtain ⟨before,whole⟩ := place
  rcases List.append_eq_append_iff.mp whole with ⟨front,rfl,rfl⟩ | ⟨behind,rfl,rfl⟩
  · by_cases none : front = []
    · exact .inl (by simp [none])
    · exact .inr ⟨front,none,rfl,List.suffix_append _ _⟩
  · exact .inl (List.suffix_append _ _)

theorem place_cases {before u rest call : List Cell} (noCode : NoCode u) (inCode : InCode call)
    (place : call <:+ before ++ (u ++ rest)) :
    call <:+ rest ∨ ∃ front, front ≠ [] ∧ call = front ++ (u ++ rest) ∧ front <:+ before ∧
      InCode front := by
  obtain ⟨x,first,code⟩ := inCode
  rcases suffix_append_cases place with inner | ⟨front,some,rfl,within⟩
  · rcases suffix_append_cases inner with inner | ⟨front,some,rfl,within⟩
    · exact .inl inner
    · rw [List.head?_append_of_ne_nil _ some] at first
      exact absurd code (noCode x (within.mem (List.mem_of_mem_head? first)))
  · rw [List.head?_append_of_ne_nil _ some] at first
    exact .inr ⟨front,some,rfl,within,x,first,code⟩

section Run

variable {u u' : List Cell} (noCode : NoCode u) (noCode' : NoCode u')

include noCode noCode'

theorem placed {before rest a b : List Cell} (left : a <:+ before ++ (u ++ rest))
    (right : b <:+ before ++ (u' ++ rest)) (inCode : InCode a) (inCode' : InCode b)
    (same : SameSight a b) : Placed u u' rest a b := by
  have count := same.codeCount_eq
  rcases place_cases noCode inCode left with inner | ⟨front,some,rfl,within,begins⟩
  · rcases place_cases noCode' inCode' right with inner' | ⟨front,some,rfl,within,begins⟩
    · obtain rfl := suffix_eq_of_codeCount inner inner' inCode inCode' count
      exact .behind inner
    · have more := begins.codeCount_pos
      have fewer : codeCount a ≤ codeCount rest := inner.sublist.countP_le
      rw [codeCount_append,codeCount_append] at count
      omega
  · rcases place_cases noCode' inCode' right with inner' | ⟨front',some',rfl,within',begins'⟩
    · have more := begins.codeCount_pos
      have fewer : codeCount b ≤ codeCount rest := inner'.sublist.countP_le
      rw [codeCount_append,codeCount_append] at count
      omega
    · rw [codeCount_append,codeCount_append,codeCount_append,codeCount_append,noCode.codeCount_eq,
        noCode'.codeCount_eq] at count
      obtain rfl := suffix_eq_of_codeCount within within' begins begins' (by omega)
      exact .around some

end Run

/-- Brackets either close within some cells, whatever follows, or leave some open behind them. -/
theorem closeFrom_append (depth : Nat) (a : List Cell) :
    (∃ inside behind, ∀ rest, closeFrom depth (a ++ rest) = some (inside,behind ++ rest)) ∨
      ∃ depth', ∀ rest, closeFrom depth (a ++ rest) =
        (closeFrom depth' rest).map fun (i,r) => (a ++ i,r) := by
  induction a generalizing depth with
  | nil => exact .inr ⟨depth,fun rest => by simp⟩
  | cons x a ih =>
    simp only [List.cons_append,closeFrom]
    split
    · exact .inl ⟨[],a,fun _ => rfl⟩
    · rcases ih (x.depthAfter depth) with ⟨inside,behind,closes⟩ | ⟨depth',opens⟩
      · exact .inl ⟨x :: inside,behind,fun rest => by rw [closes]; rfl⟩
      · refine .inr ⟨depth',fun rest => ?_⟩
        rw [opens,Option.map_map]
        rfl

/-- A bracket in front of a run without code closes in front of the run, or behind it, or nowhere. -/
theorem enclosed?_around {front : List Cell} (some : front ≠ []) (rest : List Cell) :
    (∀ u, NoCode u → enclosed? (front ++ (u ++ rest)) = none) ∨
      (∃ inside behind, ∀ u, NoCode u →
        enclosed? (front ++ (u ++ rest)) = Option.some (inside,behind ++ (u ++ rest))) ∨
      ∃ before inside behind, behind.length < rest.length ∧ ∀ u, NoCode u →
        enclosed? (front ++ (u ++ rest)) = Option.some (before ++ (u ++ inside),behind) := by
  cases front with
  | nil => exact absurd rfl some
  | cons x front =>
    simp only [List.cons_append,enclosed?]
    split
    next =>
      rcases closeFrom_append 1 front with ⟨inside,behind,closes⟩ | ⟨depth,opens⟩
      · exact .inr (.inl ⟨inside,behind,fun u _ => closes _⟩)
      · cases closed : closeFrom depth rest with
        | none =>
          refine .inl fun u noCode => ?_
          rw [opens,closeFrom_flat noCode.flat,closed]
          rfl
        | some parts =>
          obtain ⟨inside,behind⟩ := parts
          obtain ⟨y,-,whole⟩ := closeFrom_split closed
          refine .inr (.inr ⟨front,inside,behind,?_,fun u noCode => ?_⟩)
          · have size := congrArg List.length whole
            simp only [List.length_append,List.length_cons] at size
            omega
          · rw [opens,closeFrom_flat noCode.flat,closed]
            rfl
    next => exact .inl fun _ _ => rfl

end PipelineAtlas.Script
