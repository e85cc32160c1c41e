import PipelineAtlas.Proofs.Airflow.Inert
import PipelineAtlas.Proofs.Airflow.LineBreak
import PipelineAtlas.Proofs.Script.Continued

/-! Pairs of names in a file. A pair is linked wherever it stands, unless brackets enclose all marks
of its statement, or the file is rejected. -/
namespace PipelineAtlas.Airflow

open Fallible Script

def taskVariables (source : List Char) : Variables :=
  match readDeclared source >>= fun d =>
    (operatorCalls (Script.source source)).foldlM registerTask (d,[]) with
  | .ok (_,vars) => vars
  | .error _ => []

namespace MarkedPair

def joined (p : MarkedPair) : MarkedPair :=
  { p with gap := joinLines p.gap,gap' := joinLines p.gap' }

end MarkedPair

theorem solid_mark (s : Shift) : Solid s.mark := by
  cases s <;> exact ⟨by simp [Shift.mark],by decide⟩

theorem solid_of_isIdentifier {s : List Char} (identifier : Text.isIdentifier s = true) :
    Solid s := by
  obtain ⟨nonempty,word⟩ := Text.word_of_isIdentifier identifier
  exact ⟨nonempty,fun c inside => ⟨Text.ne_of_isAsciiWord (word c inside) (by decide),
    Text.isBlank_of_isAsciiWord (word c inside)⟩⟩

theorem notMem_of_solid {s : List Char} (solid : Solid s) : '\n' ∉ s := fun inside =>
  absurd (solid.2 '\n' inside).2 (by decide)

theorem remnant_of_joinLines {s : List Char} (blank : ∀ c ∈ joinLines s, Text.isBlank c = true) :
    Remnant s := by
  intro c inside
  by_contra visible
  simp only [not_or,Bool.not_eq_true] at visible
  simp [blank c (mem_joinLines_of_visible inside visible.2 visible.1)] at visible

theorem Remnant.joinLines {s : List Char} (remnant : Remnant s) : Remnant (joinLines s) := by
  intro c inside
  rcases mem_joinLines inside with rfl | held
  · exact .inl rfl
  · exact remnant c held

theorem Remnant.trimRight {s : List Char} (remnant : Remnant s) : Remnant (Text.trimRight s) := by
  intro c inside
  exact remnant c (List.mem_reverse.mp ((List.dropWhile_sublist _).subset (List.mem_reverse.mp inside)))

/-- Where a line ends in front of a mark, a statement begins with the mark. -/
theorem exists_begins {scan : StatementScan} {gap : List Char} (remnant : Remnant gap)
    (breaks : scan.runsOver gap = false) (s : Shift) (rest : List Char) :
    ∃ x ∈ statementsFrom scan (gap ++ (s.mark ++ rest)), ∃ left right,
      Remnant left ∧ x.text = left ++ (s.mark ++ right) := by
  obtain ⟨gap₁,gap₂,rfl,runs,ends⟩ := StatementScan.split_of_not_runsOver breaks
  have fresh : (StatementScan.atLine ((gap₁.foldl StatementScan.push scan).line + 1)).Tracks := rfl
  obtain ⟨scan',-,⟨front,given⟩,among,-⟩ := StatementScan.exists_scanned fresh gap₂
  have begun := scan'.begun_pushAll_solid (solid_mark s)
  have nonempty : (s.mark.foldl StatementScan.push scan').begun ≠ [] := by
    rw [begun]
    simp [Shift.mark]
  obtain ⟨x,member,more,behind,rfl,text⟩ := StatementScan.exists_statement nonempty rest
  refine ⟨x,?_,joinLines scan'.begun.reverse,Text.trimRight (joinLines more),?_,?_⟩
  · rw [List.append_assoc,StatementScan.statementsFrom_runsOver runs,List.cons_append,
      statementsFrom,if_pos ends,given,
      StatementScan.statementsFrom_append (notMem_of_solid (solid_mark s))]
    exact List.mem_append_right _ (List.mem_append_right _ member)
  · refine Remnant.joinLines fun c inside => remnant c ?_
    rcases among c (List.mem_reverse.mp inside) with none | held
    · simp [StatementScan.atLine] at none
    · simp [held]
  · rw [text,begun,List.reverse_append,List.reverse_reverse,List.append_assoc,
      joinLines_around (solid_mark s),trimRight_around (solid_mark s)]

theorem exists_ends {scan : StatementScan} (tracks : scan.Tracks) {before gap : List Char} {s : Shift}
    (begun : scan.begun.reverse = before ++ s.mark) (remnant : Remnant gap)
    (breaks : scan.runsOver gap = false) (rest : List Char) :
    ∃ x ∈ statementsFrom scan (gap ++ rest), ∃ front right, Remnant right ∧
      x.text = front ++ (s.mark ++ right) ∧ depthOver 0 x.text = 0 := by
  obtain ⟨gap₁,gap₂,rfl,runs,ends⟩ := StatementScan.split_of_not_runsOver breaks
  have nonempty : scan.begun ≠ [] := by
    intro empty
    simp [empty,Shift.mark] at begun
  have longer := StatementScan.begun_pushAll nonempty gap₁
  have remnant' : Remnant gap₁ := fun c inside => remnant c (List.mem_append_left _ inside)
  have text : Text.trimRight (joinLines (gap₁.foldl StatementScan.push scan).begun.reverse) =
      joinLines before ++ (s.mark ++ Text.trimRight (joinLines gap₁)) := by
    rw [longer,List.reverse_append,List.reverse_reverse,begun,List.append_assoc,
      joinLines_around (solid_mark s),trimRight_around (solid_mark s)]
  have closed : depthOver 0 before = 0 := by
    simp only [StatementScan.endsAt,Bool.and_eq_true,beq_iff_eq] at ends
    have depth := ends.1.2
    rw [tracks.pushAll gap₁,longer,List.reverse_append,List.reverse_reverse,begun,depthOver_append,
      depthOver_append,depthOver_mark,remnant'.level] at depth
    exact depth
  refine ⟨⟨(gap₁.foldl StatementScan.push scan).start,
    joinLines before ++ (s.mark ++ Text.trimRight (joinLines gap₁))⟩,?_,
    joinLines before,Text.trimRight (joinLines gap₁),remnant'.joinLines.trimRight,rfl,?_⟩
  · rw [List.append_assoc,StatementScan.statementsFrom_runsOver runs,List.cons_append,
      statementsFrom,if_pos ends,StatementScan.finish_begun (by simp [longer,nonempty]),text]
    exact List.mem_append_left _ (List.mem_singleton_self _)
  · rw [depthOver_append,depthOver_joinLines,closed,depthOver_append,depthOver_mark,
      remnant'.joinLines.trimRight.level]

/-- Statements as they are in an accepted file. -/
def Sensible (x : Statement) : Prop :=
  (∀ c ∈ x.text, isQuote c = false) ∧ (readDependency x.text).makesSense = true

theorem runsOver_before_mark {scan : StatementScan} {gap rest : List Char} {s : Shift}
    (remnant : Remnant gap)
    (sensible : ∀ x ∈ statementsFrom scan (gap ++ (s.mark ++ rest)), Sensible x) :
    scan.runsOver gap = true := by
  rw [← Bool.not_eq_false]
  intro breaks
  obtain ⟨x,member,left,right,noOperand,text⟩ := exists_begins remnant breaks s rest
  obtain ⟨plain,sense⟩ := sensible x member
  rw [text] at plain sense
  simp [not_makesSense_of_begins noOperand plain] at sense

theorem runsOver_behind_mark {scan : StatementScan} (tracks : scan.Tracks)
    {before gap rest : List Char} {s : Shift} (begun : scan.begun.reverse = before ++ s.mark)
    (remnant : Remnant gap) (sensible : ∀ x ∈ statementsFrom scan (gap ++ rest), Sensible x) :
    scan.runsOver gap = true := by
  rw [← Bool.not_eq_false]
  intro breaks
  obtain ⟨x,member,front,right,noOperand,text,closed⟩ :=
    exists_ends tracks begun remnant breaks rest
  obtain ⟨plain,sense⟩ := sensible x member
  rw [text] at plain sense closed
  simp [not_makesSense_of_ends noOperand closed plain] at sense

theorem head?_trimRight (s : List Char) : ∀ c ∈ (Text.trimRight s).head?, c ∈ s.head? := by
  intro c first
  have kept : Text.trimRight s <+: s := by
    rw [← List.reverse_suffix,Text.trimRight,List.reverse_reverse]
    exact List.dropWhile_suffix _
  obtain ⟨behind,whole⟩ := kept
  rw [← whole]
  exact mem_head?_append behind first

namespace MarkedPair

theorem writtenIn_joinLines {p : MarkedPair} (valid : p.joined.Valid) {before after : List Char}
    (boundLeft : ∀ c ∈ before.getLast?, Text.isAsciiWord c = false)
    (boundRight : ∀ c ∈ after.head?, Text.isAsciiWord c = false) :
    p.joined.WrittenIn (Text.trimRight (joinLines (before ++ (p.text ++ after)))) := by
  have left : Solid p.left := solid_of_isIdentifier valid.left
  have right : Solid p.right := solid_of_isIdentifier valid.right
  refine ⟨joinLines before,Text.trimRight (joinLines after),?_,fun c last => ?_,fun c first => ?_⟩
  · have whole : joinLines (before ++ (p.text ++ after)) = (joinLines before ++ (p.left ++
        (joinLines p.gap ++ (p.shift.mark ++ joinLines p.gap')))) ++ (p.right ++ joinLines after) := by
      have spelled : before ++ (p.text ++ after) = before ++ (p.left ++ (p.gap ++ (p.shift.mark ++
          (p.gap' ++ (p.right ++ after))))) := by simp [text]
      rw [spelled,joinLines_around left,joinLines_around (solid_mark p.shift),joinLines_around right]
      simp only [List.append_assoc]
    rw [whole,trimRight_around right]
    simp [text,joined]
  · rcases getLast?_joinLines before c last with rfl | held
    · rfl
    · exact boundLeft c held
  · rcases head?_joinLines after c (head?_trimRight _ c first) with rfl | held
    · rfl
    · exact boundRight c held

/-- A pair stands in one statement if all statements make sense. A line that ended at its mark would
leave a mark without an operand. -/
theorem WrittenIn.exists_statement {p : MarkedPair} (valid : p.joined.Valid) {code : List Char}
    (written : p.WrittenIn code) (sensible : ∀ s ∈ statements code, Sensible s) :
    ∃ s ∈ statements code, p.joined.WrittenIn s.text := by
  obtain ⟨before,after,rfl,boundLeft,boundRight⟩ := written
  have left : Solid p.left := solid_of_isIdentifier valid.left
  have right : Solid p.right := solid_of_isIdentifier valid.right
  have mark := solid_mark p.shift
  have fresh : (StatementScan.atLine 1).Tracks := rfl
  obtain ⟨scan,tracks,⟨front,given⟩,-,last⟩ := StatementScan.exists_scanned fresh before
  have spelled : p.text ++ after = p.left ++ (p.gap ++ (p.shift.mark ++
      (p.gap' ++ (p.right ++ after)))) := by simp [text]
  have held : ∀ s ∈ statementsFrom (p.left.foldl StatementScan.push scan)
      (p.gap ++ (p.shift.mark ++ (p.gap' ++ (p.right ++ after)))),
      s ∈ statements (before ++ (p.text ++ after)) := by
    intro s member
    rw [statements,given,spelled,StatementScan.statementsFrom_append (notMem_of_solid left)]
    exact List.mem_append_right _ member
  -- the scan is followed over the left name and its gap
  have tracksLeft := tracks.pushAll p.left
  have begunLeft := scan.begun_pushAll_solid left
  generalize p.left.foldl StatementScan.push scan = scanLeft at held tracksLeft begunLeft
  have nonemptyLeft : scanLeft.begun ≠ [] := by simp [begunLeft,left.1]
  have runsLeft := runsOver_before_mark (remnant_of_joinLines valid.gap)
    fun s member => sensible s (held s member)
  rw [StatementScan.statementsFrom_runsOver runsLeft,
    StatementScan.statementsFrom_append (notMem_of_solid mark)] at held
  -- over the mark and the gap behind it
  have tracksMark := (tracksLeft.pushAll p.gap).pushAll p.shift.mark
  have begunMark := (p.gap.foldl StatementScan.push scanLeft).begun_pushAll_solid mark
  rw [StatementScan.begun_pushAll nonemptyLeft,begunLeft] at begunMark
  generalize p.shift.mark.foldl StatementScan.push (p.gap.foldl StatementScan.push scanLeft) =
    scanMark at held tracksMark begunMark
  have nonemptyMark : scanMark.begun ≠ [] := by simp [begunMark,left.1]
  have endsMark : scanMark.begun.reverse =
      (scan.begun.reverse ++ (p.left ++ p.gap)) ++ p.shift.mark := by simp [begunMark]
  have runsMark := runsOver_behind_mark tracksMark endsMark (remnant_of_joinLines valid.gap')
    fun s member => sensible s (held s member)
  rw [StatementScan.statementsFrom_runsOver runsMark,
    StatementScan.statementsFrom_append (notMem_of_solid right)] at held
  -- and over the right name, to the end of the statement
  have begun := (p.gap'.foldl StatementScan.push scanMark).begun_pushAll_solid right
  rw [StatementScan.begun_pushAll nonemptyMark,begunMark] at begun
  generalize p.right.foldl StatementScan.push (p.gap'.foldl StatementScan.push scanMark) =
    scanRight at held begun
  have nonempty : scanRight.begun ≠ [] := by simp [begun,right.1]
  obtain ⟨s,member,more,behind,rfl,text⟩ := StatementScan.exists_statement nonempty after
  refine ⟨s,held s member,?_⟩
  have whole : scanRight.begun.reverse ++ more = scan.begun.reverse ++ (p.text ++ more) := by
    simp [begun,MarkedPair.text]
  rw [text,whole]
  refine writtenIn_joinLines valid (fun c final => boundLeft c ?_)
    fun c first => boundRight c (mem_head?_append behind first)
  exact last c (by rwa [← List.getLast?_reverse])

end MarkedPair

theorem taskVariables_eq {source : List Char} {d₀ d₁ : Dag} {vars : Variables}
    (declared : readDeclared source = .ok d₀)
    (registered : (operatorCalls (Script.source source)).foldlM registerTask (d₀,[]) =
      .ok (d₁,vars)) : taskVariables source = vars := by
  simp only [taskVariables,declared]
  simp [bind,Except.bind,registered]

theorem exists_edge {vars : Variables} {statements : List Statement} {d d' : Dag}
    (registered : Registered d vars)
    (applied : statements.foldlM (applyStatement vars) d = .ok d') {s : Statement}
    (member : s ∈ statements) {l : Link} (linked : l ∈ (readDependency s.text).links) :
    ∃ e ∈ d'.edges, l.edge? vars = some e := by
  obtain ⟨known,rfl⟩ := (applyStatements_ok registered).mp applied
  obtain ⟨source,target⟩ := Reading.mem_operands linked
  have assigned := (known s member).2
  obtain ⟨h,sourceHeld⟩ := Option.isSome_iff_exists.mp (assigned l.source source)
  obtain ⟨h',targetHeld⟩ := Option.isSome_iff_exists.mp (assigned l.target target)
  have edge : l.edge? vars = some ⟨h.task,h'.task⟩ := by
    simp [Link.edge?,sourceHeld,targetHeld]
  refine ⟨⟨h.task,h'.task⟩,Edge.mem_insertAll.mpr (.inr ?_),edge⟩
  exact List.mem_filterMap.mpr ⟨l,List.mem_flatMap.mpr ⟨s,member,linked⟩,edge⟩

/-- In an accepted file the tasks of two names with a mark between them are linked, on whatever lines
and inside whatever brackets the names stand. Only a statement with all its marks in brackets, which
is no dependency, is passed over. -/
theorem linked_of_written {source : List Char} {d : Dag} (accepted : readDag source = .ok d)
    {p : MarkedPair} (valid : p.joined.Valid)
    (written : p.WrittenIn (codeText (Script.source source))) :
    ∃ s ∈ statements (codeText (Script.source source)), p.joined.WrittenIn s.text ∧
      ((readDependency s.text = .other ∧ Nested (unwrap (scan (expression s.text)))) ∨
        ∃ e ∈ d.edges, p.link.edge? (taskVariables source) = some e) := by
  obtain ⟨d₀,d₁,vars,declared,registered,applied,-⟩ := readDag_ok.mp accepted
  have holds := (registerTasks_ok (registered_nil d₀) registered).1
  have sense := ((applyStatements_ok holds).mp applied).1
  obtain ⟨s,member,inside⟩ := written.exists_statement valid
    fun s member => ⟨isQuote_of_statement member,(sense s member).1⟩
  refine ⟨s,member,inside,?_⟩
  refine (mem_links valid inside (sense s member).1).imp id fun linked => ?_
  rw [taskVariables_eq declared registered]
  exact exists_edge holds applied member linked

def dependingOn (statement : String) : List Char :=
  "with DAG('d', start_date='2024-01-01') as dag:\n".toList ++
    "    a = BashOperator(task_id='a', bash_command='true')\n".toList ++
    "    b = BashOperator(task_id='b', bash_command='true')\n".toList ++ statement.toList

theorem noWord_of_eq {o : Option Char} {c : Char} (given : o = some c)
    (noWord : Text.isAsciiWord c = false) : ∀ d ∈ o, Text.isAsciiWord d = false := by
  subst given
  rintro d ⟨⟩
  exact noWord

def brokenPair : MarkedPair := ⟨['b'],"\n  ".toList,.backward," \\\n ".toList,['a']⟩

def broken : List Char := dependingOn "    x = ((b\n  << \\\n a))\n"

theorem linked_of_written_broken :
    (∃ d, readDag broken = .ok d ∧ d.edges = [⟨"a","b"⟩]) ∧ brokenPair.joined.Valid ∧
      brokenPair.WrittenIn (codeText (Script.source broken)) ∧
      ∃ d, readDag broken = .ok d ∧
        ∃ s ∈ statements (codeText (Script.source broken)), brokenPair.joined.WrittenIn s.text ∧
          ((readDependency s.text = .other ∧ Nested (unwrap (scan (expression s.text)))) ∨
            ∃ e ∈ d.edges, brokenPair.link.edge? (taskVariables broken) = some e) := by
  have linked : (readDag broken).map (·.edges) = .ok [⟨"a","b"⟩] := by decide +kernel
  obtain ⟨d,accepted,edges⟩ := map_ok.mp linked
  have valid : brokenPair.joined.Valid := ⟨by decide,by decide,by decide,by decide⟩
  have written : brokenPair.WrittenIn (codeText (Script.source broken)) :=
    ⟨codeText (Script.source (dependingOn "    x = ((")),"))\n".toList,by decide +kernel,
      noWord_of_eq (c := '(') (by decide +kernel) rfl,noWord_of_eq (c := ')') rfl rfl⟩
  exact ⟨⟨d,accepted,edges⟩,valid,written,d,accepted,linked_of_written accepted valid written⟩

def nestedPair : MarkedPair := ⟨['a'],[' '],.forward,[' '],['b']⟩

def nested : List Char := dependingOn "    [a >> b]\n"

/-- Inside square brackets a mark is passed over, though both names hold tasks. -/
theorem readDag_nested : nestedPair.Valid ∧ nestedPair.WrittenIn (codeText (Script.source nested)) ∧
    nestedPair.link.edge? (taskVariables nested) = some ⟨"a","b"⟩ ∧
      (readDag nested).map (·.edges) = .ok [] := by
  refine ⟨⟨by decide,by decide,by decide,by decide⟩,?_,by decide +kernel,by decide +kernel⟩
  exact ⟨codeText (Script.source (dependingOn "    [")),"]\n".toList,by decide +kernel,
    noWord_of_eq (c := '[') (by decide +kernel) rfl,noWord_of_eq (c := ']') rfl rfl⟩

end PipelineAtlas.Airflow
