import PipelineAtlas.Proofs.Script.Bracket
import PipelineAtlas.Proofs.Script.LooseStatement
import PipelineAtlas.Proofs.Script.Statement
import PipelineAtlas.Proofs.Text.Word

/-! Where a text stands among the statements. It is in one of them, unless a line ends in it that is
not continued. -/
namespace PipelineAtlas.Script

/-- Between the texts no lines are joined. -/
def Apart (s t : List Char) : Prop :=
  (∀ c ∈ s.getLast?, c ≠ '\\' ∧ c ≠ '\r') ∨ ∀ c ∈ t.head?, c ≠ '\n' ∧ c ≠ '\r'

theorem Apart.tail {c : Char} {s t : List Char} (apart : Apart (c :: s) t) : Apart s t := by
  refine apart.imp_left fun straight d last => straight d ?_
  rw [Option.mem_def] at last ⊢
  rw [List.getLast?_cons,last]
  rfl

theorem Apart.joins {s t : List Char} (apart : Apart ('\\' :: s) t) (joins : Joins (s ++ t)) :
    Joins s := by
  obtain ⟨r,feed | feeds⟩ := joins
  · cases s with
    | nil =>
      rw [List.nil_append] at feed
      subst feed
      simp [Apart] at apart
    | cons c s => exact ⟨s,.inl (by rw [(List.cons.inj feed).1])⟩
  · match s,feeds with
    | [],feeds =>
      rw [List.nil_append] at feeds
      subst feeds
      simp [Apart] at apart
    | [c],feeds =>
      obtain ⟨rfl,feed⟩ := List.cons.inj feeds
      have feed : t = '\n' :: r := feed
      subst feed
      simp [Apart] at apart
    | c :: d :: s,feeds =>
      obtain ⟨rfl,feed⟩ := List.cons.inj feeds
      exact ⟨s,.inr (by rw [(List.cons.inj feed).1])⟩

theorem joinLines_append {s t : List Char} (apart : Apart s t) :
    joinLines (s ++ t) = joinLines s ++ joinLines t := by
  fun_induction joinLines s with
  | case1 s ih => simpa [joinLines] using ih apart.tail.tail.tail
  | case2 s ih => simpa [joinLines] using ih apart.tail.tail
  | case3 c s noReturn noFeed ih =>
    have more := ih apart.tail
    by_cases slash : c = '\\'
    · subst slash
      have alone : ¬ Joins s := by
        rintro ⟨r,rfl | rfl⟩
        · exact noFeed r rfl rfl
        · exact noReturn r rfl rfl
      rw [List.cons_append,joinLines_backslash fun joins => alone (apart.joins joins),more]
      rfl
    · rw [List.cons_append,joinLines_cons slash,more]
      rfl
  | case4 => rfl

theorem joinLines_eq_nil {s : List Char} (empty : joinLines s = []) : s = [] := by
  fun_cases joinLines s with
  | case1 => simp [joinLines] at empty
  | case2 => simp [joinLines] at empty
  | case3 => simp_all [joinLines]
  | case4 => rfl

theorem head?_joinLines (s : List Char) : ∀ c ∈ (joinLines s).head?, c = ' ' ∨ c ∈ s.head? := by
  fun_cases joinLines s with
  | case1 => simp
  | case2 => simp
  | case3 c s =>
    intro d first
    obtain rfl := Option.some.inj first
    split
    · exact .inl rfl
    · exact .inr rfl
  | case4 => simp

theorem getLast?_joinLines (s : List Char) :
    ∀ c ∈ (joinLines s).getLast?, c = ' ' ∨ c ∈ s.getLast? := by
  have longer {c d : Char} {s : List Char} (last : c ∈ (d :: joinLines s).getLast?)
      (ih : ∀ c ∈ (joinLines s).getLast?, c = ' ' ∨ c ∈ s.getLast?) :
      (c = d ∧ s = []) ∨ c = ' ' ∨ c ∈ s.getLast? := by
    rw [List.getLast?_cons,Option.mem_def,Option.some.injEq] at last
    cases ends : (joinLines s).getLast? with
    | none =>
      rw [ends] at last
      exact .inl ⟨last.symm,joinLines_eq_nil (List.getLast?_eq_none_iff.mp ends)⟩
    | some d' =>
      rw [ends] at last
      obtain rfl : d' = c := last
      exact .inr (ih d' ends)
  fun_induction joinLines s with
  | case1 s ih =>
    intro c last
    rcases longer last ih with ⟨rfl,-⟩ | blank | behind
    · exact .inl rfl
    · exact .inl blank
    · exact .inr (mem_getLast?_append ['\\','\r','\n'] behind)
  | case2 s ih =>
    intro c last
    rcases longer last ih with ⟨rfl,-⟩ | blank | behind
    · exact .inl rfl
    · exact .inl blank
    · exact .inr (mem_getLast?_append ['\\','\n'] behind)
  | case3 d s _ _ ih =>
    intro c last
    rcases longer last ih with ⟨rfl,rfl⟩ | blank | behind
    · split
      · exact .inl rfl
      · exact .inr rfl
    · exact .inl blank
    · exact .inr (mem_getLast?_append [d] behind)
  | case4 => simp

theorem trimRight_append {s : List Char} (t : List Char)
    (visible : ∃ c ∈ s.getLast?, Text.isBlank c = false) :
    Text.trimRight (s ++ t) = s ++ Text.trimRight t := by
  obtain ⟨c,last,visible⟩ := visible
  have stays : s.reverse.dropWhile Text.isBlank = s.reverse := by
    refine dropWhile_of_head fun d first => ?_
    rw [List.head?_reverse] at first
    rwa [Option.some.inj (first.symm.trans last)]
  unfold Text.trimRight
  rw [List.reverse_append,List.dropWhile_append,stays]
  split
  next empty => simp [List.isEmpty_iff.mp empty]
  next => simp

/-- Visible characters that join no lines. -/
def Solid (s : List Char) : Prop := s ≠ [] ∧ ∀ c ∈ s, c ≠ '\\' ∧ Text.isBlank c = false

theorem joinLines_around {core : List Char} (solid : Solid core) (a b : List Char) :
    joinLines (a ++ (core ++ b)) = joinLines a ++ (core ++ joinLines b) := by
  obtain ⟨nonempty,visible⟩ := solid
  have apart : ∀ c ∈ core, c ≠ '\\' ∧ c ≠ '\n' ∧ c ≠ '\r' := by
    intro c inside
    have here := visible c inside
    refine ⟨here.1,?_,?_⟩
    · rintro rfl
      exact absurd here.2 (by decide)
    · rintro rfl
      exact absurd here.2 (by decide)
  have whole : joinLines core = core :=
    joinLines_id (fun inside => (apart _ inside).1 rfl) (fun inside => (apart _ inside).2.1 rfl)
      (fun inside => (apart _ inside).2.2 rfl)
  rw [joinLines_append (.inr fun c first => ?_),joinLines_append (.inl fun c last => ?_),whole]
  · have inside := apart c (List.mem_of_mem_getLast? last)
    exact ⟨inside.1,inside.2.2⟩
  · rw [List.head?_append_of_ne_nil _ nonempty] at first
    exact (apart c (List.mem_of_mem_head? first)).2

theorem trimRight_around {core : List Char} (solid : Solid core) (a b : List Char) :
    Text.trimRight (a ++ (core ++ b)) = a ++ (core ++ Text.trimRight b) := by
  obtain ⟨nonempty,visible⟩ := solid
  rw [← List.append_assoc,trimRight_append,List.append_assoc]
  refine ⟨core.getLast nonempty,?_,(visible _ (List.getLast_mem nonempty)).2⟩
  rw [List.getLast?_append_of_ne_nil _ nonempty,List.getLast?_eq_some_getLast nonempty]
  rfl

theorem mem_joinLines_of_visible {s : List Char} {c : Char} (inside : c ∈ s) (noSlash : c ≠ '\\')
    (visible : Text.isBlank c = false) : c ∈ joinLines s := by
  have feed : c ≠ '\n' := by
    rintro rfl
    exact absurd visible (by decide)
  have noReturn : c ≠ '\r' := by
    rintro rfl
    exact absurd visible (by decide)
  fun_induction joinLines s with
  | case1 s ih => simp_all
  | case2 s ih => simp_all
  | case3 d s _ _ ih =>
    rcases List.mem_cons.mp inside with rfl | later
    · simp [feed,noReturn]
    · exact List.mem_cons_of_mem _ (ih later)
  | case4 => exact inside

theorem depthOver_joinLines (depth : Nat) (s : List Char) :
    depthOver depth (joinLines s) = depthOver depth s := by
  fun_induction joinLines s generalizing depth with
  | case1 s ih => exact ih depth
  | case2 s ih => exact ih depth
  | case3 c s _ _ ih =>
    have step : depthOver depth [if c = '\r' ∨ c = '\n' then ' ' else c] = depthOver depth [c] := by
      split
      next feed => rcases feed with rfl | rfl <;> rfl
      next => rfl
    rw [← List.singleton_append,depthOver_append,step,ih,← depthOver_append]
    rfl
  | case4 => rfl

namespace StatementScan

/-- No statement ends within a text. -/
def runsOver (scan : StatementScan) : List Char → Bool
  | [] => true
  | c :: s => !scan.endsAt c && (scan.push c).runsOver s

theorem statementsFrom_runsOver {scan : StatementScan} {s : List Char}
    (runs : scan.runsOver s = true) (rest : List Char) :
    statementsFrom scan (s ++ rest) = statementsFrom (s.foldl push scan) rest := by
  induction s generalizing scan with
  | nil => rfl
  | cons c s ih =>
    simp only [runsOver,Bool.and_eq_true,Bool.not_eq_true'] at runs
    simp only [List.cons_append,statementsFrom,runs.1,List.foldl_cons]
    exact ih runs.2

theorem split_of_not_runsOver {scan : StatementScan} {s : List Char}
    (breaks : scan.runsOver s = false) : ∃ s₁ s₂, s = s₁ ++ '\n' :: s₂ ∧
      scan.runsOver s₁ = true ∧ (s₁.foldl push scan).endsAt '\n' = true := by
  induction s generalizing scan with
  | nil => simp [runsOver] at breaks
  | cons c s ih =>
    cases ends : scan.endsAt c with
    | true =>
      have feed : c = '\n' := by
        simp only [endsAt,Bool.and_eq_true,beq_iff_eq] at ends
        exact ends.1.1
      subst feed
      exact ⟨[],s,rfl,rfl,ends⟩
    | false =>
      simp only [runsOver,ends,Bool.not_false,Bool.true_and] at breaks
      obtain ⟨s₁,s₂,rfl,runs,ends'⟩ := ih breaks
      exact ⟨c :: s₁,s₂,rfl,by simp [runsOver,ends,runs],ends'⟩

theorem begun_pushAll {scan : StatementScan} (begun : scan.begun ≠ []) (s : List Char) :
    (s.foldl push scan).begun = s.reverse ++ scan.begun := by
  induction s generalizing scan with
  | nil => rfl
  | cons c s ih =>
    have here : (scan.push c).begun = c :: scan.begun := by simp [push,begun]
    rw [List.foldl_cons,ih (by simp [here]),here]
    simp

theorem begun_pushAll_solid (scan : StatementScan) {s : List Char} (solid : Solid s) :
    (s.foldl push scan).begun = s.reverse ++ scan.begun := by
  obtain ⟨c,more,rfl⟩ := List.exists_cons_of_ne_nil solid.1
  have here : (scan.push c).begun = c :: scan.begun := by
    simp [push,(solid.2 c List.mem_cons_self).2]
  rw [List.foldl_cons,begun_pushAll (by simp [here]),here]
  simp

theorem finish_begun {scan : StatementScan} (begun : scan.begun ≠ []) : scan.finish =
    [⟨scan.start,Text.trimRight (joinLines scan.begun.reverse)⟩] := by
  simp [finish,begun]

theorem exists_statement {scan : StatementScan} (begun : scan.begun ≠ []) (rest : List Char) :
    ∃ s ∈ statementsFrom scan rest, ∃ more behind, rest = more ++ behind ∧
      s.text = Text.trimRight (joinLines (scan.begun.reverse ++ more)) := by
  induction rest generalizing scan with
  | nil =>
    refine ⟨⟨scan.start,Text.trimRight (joinLines scan.begun.reverse)⟩,?_,[],[],rfl,?_⟩
    · rw [statementsFrom,finish_begun begun]
      exact List.mem_singleton_self _
    · rw [List.append_nil]
  | cons c rest ih =>
    unfold statementsFrom
    split
    next =>
      refine ⟨⟨scan.start,Text.trimRight (joinLines scan.begun.reverse)⟩,?_,[],c :: rest,rfl,?_⟩
      · rw [finish_begun begun]
        exact List.mem_append_left _ (List.mem_singleton_self _)
      · rw [List.append_nil]
    next =>
      have here : (scan.push c).begun = c :: scan.begun := by simp [push,begun]
      have begun' : (scan.push c).begun ≠ [] := by simp [here]
      obtain ⟨s,member,more,behind,rfl,text⟩ := ih begun'
      exact ⟨s,member,c :: more,behind,rfl,by rw [text,here]; simp⟩

/-- The depth of a scan is that of the statement begun. -/
def Tracks (scan : StatementScan) : Prop := scan.depth = depthOver 0 scan.begun.reverse

theorem begun_push (scan : StatementScan) (c : Char) :
    ((scan.push c).begun = [] ∧ scan.begun = [] ∧ Text.isBlank c = true) ∨
      (scan.push c).begun = c :: scan.begun := by
  simp only [push]
  split
  next skipped =>
    simp only [Bool.and_eq_true,List.isEmpty_iff] at skipped
    exact .inl ⟨rfl,skipped⟩
  next => exact .inr rfl

theorem notMem_brackets_of_isBlank {c : Char} (blank : Text.isBlank c = true) : c ∉ brackets := by
  intro bracket
  have all : ∀ d ∈ brackets, Text.isBlank d = false := by decide
  simp [all c bracket] at blank

theorem Tracks.push {scan : StatementScan} (tracks : scan.Tracks) (c : Char) :
    (scan.push c).Tracks := by
  have depth : (scan.push c).depth = depthOver scan.depth [c] := rfl
  unfold Tracks at tracks ⊢
  rcases begun_push scan c with ⟨empty,before,blank⟩ | longer
  · have level : ∀ d ∈ [c], d ∉ brackets := by simpa using notMem_brackets_of_isBlank blank
    rw [depth,depthOver_level level,tracks,empty,before]
  · rw [depth,tracks,longer,List.reverse_cons,depthOver_append]

theorem Tracks.pushAll {scan : StatementScan} (tracks : scan.Tracks) (s : List Char) :
    (s.foldl StatementScan.push scan).Tracks := by
  induction s generalizing scan with
  | nil => exact tracks
  | cons c s ih => exact ih (tracks.push c)

/-- What a scan holds after a text. -/
structure Scanned (scan : StatementScan) (s : List Char) (scan' : StatementScan) : Prop where
  tracks : scan'.Tracks
  statements : ∃ front, ∀ rest, statementsFrom scan (s ++ rest) = front ++ statementsFrom scan' rest
  among : ∀ c ∈ scan'.begun, c ∈ scan.begun ∨ c ∈ s
  last : ∀ c ∈ scan'.begun.head?, c ∈ (scan.begun.reverse ++ s).getLast?

theorem exists_scanned {scan : StatementScan} (tracks : scan.Tracks) (s : List Char) :
    ∃ scan', Scanned scan s scan' := by
  induction s generalizing scan with
  | nil =>
    refine ⟨scan,tracks,⟨[],fun rest => rfl⟩,fun c inside => .inl inside,fun c first => ?_⟩
    rwa [List.append_nil,List.getLast?_reverse]
  | cons c s ih =>
    cases ends : scan.endsAt c with
    | true =>
      -- the line ends a statement, and the scan begins anew
      have fresh : (atLine (scan.line + 1)).Tracks := rfl
      obtain ⟨scan',tracks',⟨front,given⟩,among,last⟩ := ih fresh
      refine ⟨scan',tracks',⟨scan.finish ++ front,fun rest => ?_⟩,fun d inside => ?_,
        fun d first => ?_⟩
      · rw [List.cons_append,statementsFrom,if_pos ends,given,List.append_assoc]
      · rcases among d inside with none | later
        · simp [atLine] at none
        · exact .inr (List.mem_cons_of_mem c later)
      · exact mem_getLast?_append _ (mem_getLast?_append [c] (last d first))
    | false =>
      obtain ⟨scan',tracks',⟨front,given⟩,among,last⟩ := ih (tracks.push c)
      refine ⟨scan',tracks',⟨front,fun rest => ?_⟩,fun d inside => ?_,fun d first => ?_⟩
      · rw [List.cons_append,statementsFrom,if_neg (by simp [ends]),given]
      · rcases begun_push scan c with ⟨empty,-,-⟩ | longer
        · have later := among d inside
          simp only [empty,List.not_mem_nil,false_or] at later
          exact .inr (List.mem_cons_of_mem c later)
        · have held := among d inside
          rw [longer,List.mem_cons] at held
          rw [List.mem_cons]
          tauto
      · rcases begun_push scan c with ⟨empty,-,-⟩ | longer
        · have final := last d first
          rw [empty] at final
          exact mem_getLast?_append _ (mem_getLast?_append [c] final)
        · have final := last d first
          rw [longer] at final
          simpa using final

end StatementScan

end PipelineAtlas.Script
