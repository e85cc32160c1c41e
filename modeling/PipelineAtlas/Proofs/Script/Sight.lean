import PipelineAtlas.Proofs.Script.Lexeme
import PipelineAtlas.Proofs.Script.LooseStatement

/-! What code shows of literals and comments: blanks and line feeds. Texts with as many line feeds look
the same but for the lengths of blanks on each line. -/
namespace PipelineAtlas.Script

/-- Cells of which code shows blanks only. -/
def Unseen (cells : List Cell) : Prop := ∀ x ∈ cells, x.role ≠ .code ∧ x.char ≠ '\n'

theorem Cell.shown_feed {x : Cell} (feed : x.char = '\n') : x.shown = '\n' := by
  simp [Cell.shown,feed]

theorem Cell.role_of_shown {x : Cell} (visible : x.shown ≠ ' ') (stays : x.shown ≠ '\n') :
    x.role = .code := by
  by_cases feed : x.char = '\n'
  · exact absurd (shown_feed feed) stays
  · by_cases code : x.role = .code
    · exact code
    · simp [Cell.shown,code,feed] at visible

theorem Unseen.shown {cells : List Cell} (unseen : Unseen cells) {x : Cell} (inside : x ∈ cells) :
    x.shown = ' ' := by
  obtain ⟨hidden,stays⟩ := unseen x inside
  simp [Cell.shown,hidden,stays]

theorem Unseen.tail {x : Cell} {cells : List Cell} (unseen : Unseen (x :: cells)) : Unseen cells :=
  fun y inside => unseen y (List.mem_cons_of_mem x inside)

theorem codeText_append (a b : List Cell) : codeText (a ++ b) = codeText a ++ codeText b :=
  List.flatMap_append

def roleCells (role : Role) (s : List Char) : List Cell := s.map fun c => ⟨c,role⟩

theorem roleCells_append (role : Role) (s t : List Char) :
    roleCells role (s ++ t) = roleCells role s ++ roleCells role t := List.map_append

theorem unseen_roleCells {role : Role} (hidden : role ≠ .code) {s : List Char} (oneLine : '\n' ∉ s) :
    Unseen (roleCells role s) := by
  intro x inside
  obtain ⟨c,member,rfl⟩ := List.mem_map.mp inside
  refine ⟨hidden,?_⟩
  rintro rfl
  exact oneLine member

/-- Cells that look the same to patterns for code but for the lengths of gaps and of what hides the
start of a line. -/
inductive SameSight : List Cell → List Cell → Prop
  | nil : SameSight [] []
  | cons (x : Cell) {a b : List Cell} (rest : SameSight a b) : SameSight (x :: a) (x :: b)
  | gap {u u' a b : List Cell} (unseen : Unseen u) (unseen' : Unseen u') (some : u ≠ [])
      (some' : u' ≠ []) (rest : SameSight a b) : SameSight (u ++ a) (u' ++ b)
  | feed {x : Cell} {u u' a b : List Cell} (hidden : x.role ≠ .code) (breaks : x.char = '\n')
      (unseen : Unseen u) (unseen' : Unseen u') (rest : SameSight a b) :
      SameSight (x :: (u ++ a)) (x :: (u' ++ b))

namespace SameSight

variable {a b : List Cell}

theorem refl (a : List Cell) : SameSight a a := by
  induction a with
  | nil => exact .nil
  | cons x a ih => exact .cons x ih

theorem symm (same : SameSight a b) : SameSight b a := by
  induction same with
  | nil => exact .nil
  | cons x _ ih => exact .cons x ih
  | gap unseen unseen' some some' _ ih => exact .gap unseen' unseen some' some ih
  | feed hidden breaks unseen unseen' _ ih => exact .feed hidden breaks unseen' unseen ih

theorem prepend (front : List Cell) (same : SameSight a b) :
    SameSight (front ++ a) (front ++ b) := by
  induction front with
  | nil => exact same
  | cons x front ih => exact .cons x ih

theorem cons_inv {x : Cell} (same : SameSight (x :: a) b) (visible : x.shown ≠ ' ')
    (stays : x.shown ≠ '\n') : ∃ b', b = x :: b' ∧ SameSight a b' := by
  generalize begins : x :: a = whole at same
  cases same with
  | nil => cases begins
  | cons y rest =>
    cases begins
    exact ⟨_,rfl,rest⟩
  | @gap u u' s t unseen unseen' some some' rest =>
    cases u with
    | nil => exact absurd rfl some
    | cons y u =>
      rw [(List.cons.inj begins).1] at visible
      exact absurd (unseen.shown (by simp)) visible
  | feed hidden breaks unseen unseen' rest =>
    rw [(List.cons.inj begins).1] at stays
    exact absurd (Cell.shown_feed breaks) stays

section Tests

variable (p : Char → Bool)

private theorem dropWhile_unseen {u : List Cell} (unseen : Unseen u) (passes : p ' ' = true)
    (rest : List Cell) : (u ++ rest).dropWhile (fun x => p x.shown) =
      rest.dropWhile fun x => p x.shown :=
  List.dropWhile_append_of_pos fun x inside => by rwa [unseen.shown inside]

theorem dropWhile (same : SameSight a b) (stops : p '\n' = false) :
    SameSight (a.dropWhile fun x => p x.shown) (b.dropWhile fun x => p x.shown) := by
  induction same with
  | nil => exact .nil
  | @cons x a b rest ih =>
    cases passes : p x.shown with
    | true => simpa [passes] using ih
    | false => simpa [passes] using cons x rest
  | @gap u u' a b unseen unseen' some some' rest ih =>
    cases passes : p ' ' with
    | true => rwa [dropWhile_unseen p unseen passes,dropWhile_unseen p unseen' passes]
    | false =>
      have kept : ∀ {u rest : List Cell}, Unseen u → u ≠ [] →
          (u ++ rest).dropWhile (fun x => p x.shown) = u ++ rest := by
        intro u rest unseen some
        cases u with
        | nil => exact absurd rfl some
        | cons x u => simp [unseen.shown (x := x) (by simp),passes]
      rw [kept unseen some,kept unseen' some']
      exact .gap unseen unseen' some some' rest
  | @feed x u u' a b hidden breaks unseen unseen' rest ih =>
    have shown := Cell.shown_feed breaks
    simpa [shown,stops] using SameSight.feed hidden breaks unseen unseen' rest

theorem takeWhile_eq (same : SameSight a b) (apart : p ' ' = false) (stops : p '\n' = false) :
    (a.takeWhile fun x => p x.shown) = b.takeWhile fun x => p x.shown := by
  induction same with
  | nil => rfl
  | cons x _ ih => cases passes : p x.shown <;> simp [passes,ih]
  | @gap u u' a b unseen unseen' some some' rest ih =>
    have none : ∀ {u rest : List Cell}, Unseen u → u ≠ [] →
        (u ++ rest).takeWhile (fun x => p x.shown) = [] := by
      intro u rest unseen some
      cases u with
      | nil => exact absurd rfl some
      | cons x u => simp [unseen.shown (x := x) (by simp),apart]
    rw [none unseen some,none unseen' some']
  | feed hidden breaks unseen unseen' rest ih => simp [Cell.shown_feed breaks,stops]

end Tests

end SameSight

theorem feeds_split (s : List Char) : ∃ (first : List Char) (more : List (List Char)),
    s = first ++ more.flatMap ('\n' :: ·) ∧ '\n' ∉ first ∧ (∀ l ∈ more, '\n' ∉ l) ∧
      more.length = s.count '\n' := by
  induction s with
  | nil => exact ⟨[],[],rfl,by simp,by simp,rfl⟩
  | cons c s ih =>
    obtain ⟨first,more,rfl,clear,each,count⟩ := ih
    by_cases feed : c = '\n'
    · subst feed
      refine ⟨[],first :: more,rfl,by simp,?_,by simp [count]⟩
      intro l member
      rcases List.mem_cons.mp member with rfl | member
      · exact clear
      · exact each l member
    · refine ⟨c :: first,more,rfl,?_,each,?_⟩
      · simp [clear,Ne.symm feed]
      · rw [List.count_cons_of_ne feed,count]

theorem feeds_split₂ {c c' : Char} {w w' : List Char} (first : c ≠ '\n') (first' : c' ≠ '\n')
    (feeds : w.count '\n' = w'.count '\n') : ∃ (v v' : List Char) (ls ls' : List (List Char)),
      c :: w = v ++ ls.flatMap ('\n' :: ·) ∧ c' :: w' = v' ++ ls'.flatMap ('\n' :: ·) ∧
      v ≠ [] ∧ v' ≠ [] ∧ '\n' ∉ v ∧ '\n' ∉ v' ∧
      List.Forall₂ (fun l l' => '\n' ∉ l ∧ '\n' ∉ l') ls ls' := by
  have begun : ∀ {c : Char} {w v : List Char} {ls : List (List Char)}, c ≠ '\n' →
      c :: w = v ++ ls.flatMap ('\n' :: ·) → v ≠ [] := by
    rintro c w v ls other same rfl
    cases ls with
    | nil => simp at same
    | cons l ls => exact other (List.cons.inj same).1
  obtain ⟨v,ls,same,clear,each,count⟩ := feeds_split (c :: w)
  obtain ⟨v',ls',same',clear',each',count'⟩ := feeds_split (c' :: w')
  rw [List.count_cons_of_ne first] at count
  rw [List.count_cons_of_ne first'] at count'
  refine ⟨v,v',ls,ls',same,same',begun first same,begun first' same',clear,clear',?_⟩
  rw [List.forall₂_iff_zip]
  refine ⟨by omega,fun inside => ?_⟩
  exact ⟨each _ (List.of_mem_zip inside).1,each' _ (List.of_mem_zip inside).2⟩

section Hidden

variable {role : Role} (notCode : role ≠ .code) {c c' : Char} {w w' : List Char} (first : c ≠ '\n')
  (first' : c' ≠ '\n') (feeds : w.count '\n' = w'.count '\n')

include notCode first first' feeds

theorem SameSight.hidden {a b : List Cell} (rest : SameSight a b) :
    SameSight (roleCells role (c :: w) ++ a) (roleCells role (c' :: w') ++ b) := by
  obtain ⟨v,v',ls,ls',same,same',some,some',clear,clear',lines⟩ :=
    feeds_split₂ first first' feeds
  rw [same,same',roleCells_append,roleCells_append,List.append_assoc,List.append_assoc]
  refine .gap (unseen_roleCells notCode clear) (unseen_roleCells notCode clear')
    (by simpa [roleCells] using some) (by simpa [roleCells] using some') ?_
  clear same same'
  induction lines with
  | nil => exact rest
  | @cons l l' ls ls' here _ ih =>
    rw [List.flatMap_cons,List.flatMap_cons,roleCells_append,roleCells_append,List.append_assoc,
      List.append_assoc]
    exact .feed (x := ⟨'\n',role⟩) notCode rfl (unseen_roleCells notCode here.1)
      (unseen_roleCells notCode here.2) ih

omit first first' feeds in
private theorem codeText_line {s : List Char} (clear : '\n' ∉ s) :
    ∃ n, codeText (roleCells role s) = blanks (s.length + n) := by
  induction s with
  | nil => exact ⟨0,rfl⟩
  | cons c s ih =>
    simp only [List.mem_cons,not_or] at clear
    obtain ⟨n,same⟩ := ih clear.2
    have size := c.utf8Size_pos
    have here : Cell.code ⟨c,role⟩ = blanks c.utf8Size := by
      simp [Cell.code,notCode,blanked,Ne.symm clear.1,blanks]
    refine ⟨c.utf8Size - 1 + n,?_⟩
    rw [roleCells,List.map_cons,codeText,List.flatMap_cons,here,← roleCells,← codeText,same,blanks,
      List.replicate_append_replicate,List.length_cons]
    congr 1
    omega

/-- What hides literals and comments of as many lines differs in gaps and indents only. -/
theorem Gapped.hidden {s t : List Char} (rest : Gapped s t) :
    Gapped (codeText (roleCells role (c :: w)) ++ s) (codeText (roleCells role (c' :: w')) ++ t) := by
  obtain ⟨v,v',ls,ls',same,same',some,some',clear,clear',lines⟩ :=
    feeds_split₂ first first' feeds
  obtain ⟨m,left⟩ := codeText_line notCode clear
  obtain ⟨n,right⟩ := codeText_line notCode clear'
  rw [same,same',roleCells_append,roleCells_append,codeText_append,codeText_append,List.append_assoc,List.append_assoc,
    left,right]
  have lengths : v.length = v.length - 1 + 1 ∧ v'.length = v'.length - 1 + 1 := by
    rw [← List.length_pos_iff_ne_nil] at some some'
    omega
  rw [lengths.1,lengths.2,Nat.add_right_comm,Nat.add_right_comm _ 1]
  refine .gap _ _ ?_
  clear same same'
  induction lines with
  | nil => exact rest
  | @cons l l' ls ls' here _ ih =>
    obtain ⟨m,left⟩ := codeText_line notCode here.1
    obtain ⟨n,right⟩ := codeText_line notCode here.2
    have feed : Cell.code ⟨'\n',role⟩ = ['\n'] := by simp [Cell.code,blanked]
    have line : ∀ l rest : List Char, codeText (roleCells role ('\n' :: l ++ rest)) =
        '\n' :: (codeText (roleCells role l) ++ codeText (roleCells role rest)) := by
      intro l rest
      rw [List.cons_append,← codeText_append,← roleCells_append,roleCells,List.map_cons,codeText,
        List.flatMap_cons,feed]
      rfl
    rw [List.flatMap_cons,List.flatMap_cons,line,line,left,right,List.cons_append,List.cons_append,
      List.append_assoc,List.append_assoc]
    exact .feed _ _ ih

end Hidden

end PipelineAtlas.Script
