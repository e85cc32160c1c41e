import PipelineAtlas.Proofs.Airflow.Place
import PipelineAtlas.Proofs.Airflow.Spelled

/-! Operands of accepted files. Whatever is seen between the commas and the marks of a dependency counts:
it is an operand, and is linked to its neighbours, or the file is rejected. -/
namespace PipelineAtlas.Airflow

open Fallible Script

/-- A statement that is passed over: it is no call that links tasks, and no mark stands outside its
brackets. -/
structure PassedOver (s : Statement) : Prop where
  other : readDependency s.text = .other
  noMethod : setCall? (unwrap (scan (expression s.text))) = none
  noChain : chainCall? (unwrap (scan (expression s.text))) = none
  nested : Nested (unwrap (scan (expression s.text)))

/-- A statement that stands in a source and spells a dependency there. -/
def SpelledIn (source : List Char) (s : Statement) (dep : Dependency) : Prop :=
  ∃ front indent passage behind, Script.source source = front ++ (indent ++ (passage ++ behind)) ∧
    s.Passage front indent passage behind ∧ Spelled passage dep

theorem ne_other_of_ofOption (dep : Option Dependency) : Reading.ofOption dep ≠ .other := by
  cases dep <;> simp [Reading.ofOption]

theorem passedOver_of_other {s : Statement} (other : readDependency s.text = .other) :
    PassedOver s := by
  have read := other
  simp only [readDependency] at read
  cases set : setCall? (unwrap (scan (expression s.text))) with
  | some call =>
    simp only [set] at read
    split at read <;> simp at read
  | none =>
  simp only [set] at read
  cases chain : chainCall? (unwrap (scan (expression s.text))) with
  | some body =>
    simp only [chain] at read
    split at read
    next => simp at read
    next => exact absurd read (ne_other_of_ofOption _)
  | none =>
    simp only [chain] at read
    split at read
    next single => exact ⟨other,set,chain,nested_of_shiftChain (List.isEmpty_iff.mp single)⟩
    next => exact absurd read (ne_other_of_ofOption _)

/-- A statement that makes sense is passed over, or spells the dependency that is read. -/
theorem spelledIn_of_makesSense {source : List Char} {s : Statement}
    (member : s ∈ statements (codeText (Script.source source)))
    (sense : (readDependency s.text).makesSense = true) :
    PassedOver s ∨ ∃ dep, readDependency s.text = .dependency dep ∧ SpelledIn source s dep := by
  cases read : readDependency s.text with
  | other => exact .inl (passedOver_of_other read)
  | unreadable => simp [read,Reading.makesSense] at sense
  | unreadableCall task => simp [read,Reading.makesSense] at sense
  | dependency dep =>
    obtain ⟨front,indent,passage,behind,whole,standing⟩ := exists_passage member
    exact .inr ⟨dep,rfl,front,indent,passage,behind,whole,standing,
      spelled_of_dependency standing.text read⟩

/-- What an accepted file adds up to. Its statements make sense, and its edges are their links. -/
theorem edges_of_accepted {source : List Char} {d : Dag} (accepted : readDag source = .ok d) :
    (∀ s ∈ statements (codeText (Script.source source)), (readDependency s.text).makesSense = true ∧
      Assigned (taskVariables source) (readDependency s.text).operands) ∧
    ∀ e, e ∈ d.edges ↔ ∃ s ∈ statements (codeText (Script.source source)),
      ∃ l ∈ (readDependency s.text).links, l.edge? (taskVariables source) = some e := by
  obtain ⟨d₀,d₁,vars,declared,registered,applied,-⟩ := readDag_ok.mp accepted
  obtain ⟨holds,edges,-⟩ := registerTasks_ok (registered_nil d₀) registered
  obtain ⟨known,rfl⟩ := (applyStatements_ok holds).mp applied
  rw [taskVariables_eq declared registered]
  refine ⟨known,fun e => ?_⟩
  have none : d₁.edges = [] := edges.trans (empty_of_readDeclared declared).2
  simp only [linked,none,Edge.mem_insertAll,List.not_mem_nil,false_or,List.mem_filterMap,
    List.mem_flatMap]
  constructor
  · rintro ⟨l,⟨s,member,inside⟩,edge⟩
    exact ⟨s,member,l,inside,edge⟩
  · rintro ⟨s,member,l,inside,edge⟩
    exact ⟨l,⟨s,member,inside⟩,edge⟩

theorem applyStatement_error {vars : Variables} {s : Statement}
    (nonsense : (readDependency s.text).makesSense = false) (d : Dag) :
    applyStatement vars d s = .error (.unreadableDependency (String.ofList s.text) s.line) ∨
      ∃ task, readDependency s.text = .unreadableCall task ∧
        vars.lookup (String.ofList task) = none ∧
        applyStatement vars d s = .error (.unknownTask (String.ofList task) s.line) := by
  unfold applyStatement
  cases read : readDependency s.text with
  | other => simp [read,Reading.makesSense] at nonsense
  | dependency dep => simp [read,Reading.makesSense] at nonsense
  | unreadable => exact .inl rfl
  | unreadableCall task =>
    cases held : vars.lookup (String.ofList task) with
    | none => exact .inr ⟨task,rfl,held,by simp [resolve,held]; rfl⟩
    | some h => exact .inl (by simp [resolve,held]; rfl)

/-- In an accepted file every statement is passed over, or spells its dependency with an operand in every
place where something is seen; the edges are the links of operands next to each other. The first
statement that makes no sense is an error, on its line. -/
theorem every_operand (source : List Char) :
    (∀ d, readDag source = .ok d →
      (∀ s ∈ statements (codeText (Script.source source)), PassedOver s ∨
        ∃ dep, readDependency s.text = .dependency dep ∧ SpelledIn source s dep ∧
          Assigned (taskVariables source) dep.operands) ∧
      ∀ e, e ∈ d.edges ↔ ∃ s ∈ statements (codeText (Script.source source)),
        ∃ l ∈ (readDependency s.text).links, l.edge? (taskVariables source) = some e) ∧
    ∀ d vars before s after d', readTasks source = .ok (d,vars) →
      statements (codeText (Script.source source)) = before ++ s :: after →
      before.foldlM (applyStatement vars) d = .ok d' →
      (readDependency s.text).makesSense = false →
        readDag source = .error (.unreadableDependency (String.ofList s.text) s.line) ∨
          ∃ task, readDependency s.text = .unreadableCall task ∧
            vars.lookup (String.ofList task) = none ∧
            readDag source = .error (.unknownTask (String.ofList task) s.line) := by
  constructor
  · intro d accepted
    obtain ⟨known,edges⟩ := edges_of_accepted accepted
    refine ⟨fun s member => ?_,edges⟩
    obtain ⟨sense,assigned⟩ := known s member
    refine (spelledIn_of_makesSense member sense).imp id fun ⟨dep,read,spelled⟩ => ?_
    rw [read] at assigned
    exact ⟨dep,read,spelled,assigned⟩
  · intro d vars before s after d' tasks split applied nonsense
    have step {e : Error} (error : applyStatement vars d' s = .error e) :
        readDag source = .error e := by
      rw [readDag_eq,tasks,split]
      simp only [bind,Except.bind,List.foldlM_append,applied,List.foldlM_cons,error]
    rcases applyStatement_error nonsense d' with unreadable | ⟨task,read,unknown,error⟩
    · exact .inl (step unreadable)
    · exact .inr ⟨task,read,unknown,step error⟩

def gappy : List Char := dependingOn "    chain(a,  # first\n      'x', [b, 'y'],)\n"

def indexed : List Char := dependingOn "    a >> b\n    chain(a, b[0])\n"

theorem every_operand_gappy :
    (∃ d, readDag gappy = .ok d ∧ d.edges = [⟨"a","b"⟩] ∧
      (∃ s ∈ statements (codeText (Script.source gappy)), ∃ dep, dep.links = [⟨['a'],['b']⟩] ∧
        SpelledIn gappy s dep ∧ Assigned (taskVariables gappy) dep.operands)) ∧
      readDag indexed = .error (.unreadableDependency "chain(a, b[0])" 5) := by
  constructor
  · have linked : (readDag gappy).map (·.edges) = .ok [⟨"a","b"⟩] := by decide +kernel
    obtain ⟨d,accepted,edges⟩ := map_ok.mp linked
    obtain ⟨spelled,edge⟩ := (every_operand gappy).1 d accepted
    have chain : ∃ s ∈ statements (codeText (Script.source gappy)),
        readDependency s.text = .dependency (.groups [['a']] [(.forward,[['b']])]) := by
      decide +kernel
    obtain ⟨s,member,read⟩ := chain
    refine ⟨d,accepted,edges,s,member,.groups [['a']] [(.forward,[['b']])],rfl,?_⟩
    rcases spelled s member with passed | ⟨dep,same,given⟩
    · exact absurd passed.other (by simp [read])
    · rw [read] at same
      cases same
      exact given
  · let before := (statements (codeText (Script.source indexed))).take 4
    have split : statements (codeText (Script.source indexed)) =
        before ++ ⟨5,"chain(a, b[0])".toList⟩ :: [] := by decide +kernel
    have linked : (readTasks indexed >>= fun given =>
        before.foldlM (applyStatement given.2) given.1).map (·.edges) = .ok [⟨"a","b"⟩] := by
      decide +kernel
    obtain ⟨d',run,-⟩ := map_ok.mp linked
    obtain ⟨⟨d,vars⟩,tasks,applied⟩ := bind_ok.mp run
    have unreadable : readDependency "chain(a, b[0])".toList = .unreadable := by decide +kernel
    have nonsense : (readDependency "chain(a, b[0])".toList).makesSense = false := by
      rw [unreadable]
      rfl
    rcases (every_operand indexed).2 d vars before _ [] d' tasks split applied nonsense with
      error | ⟨task,call,-⟩
    · exact error
    · exact absurd (unreadable.symm.trans call) (by simp)

/-- A literal between two operands leaves no trace, and they are linked. -/
theorem readDag_literal_between :
    (readDag (dependingOn "    chain(a, 'x', b)\n")).map (·.edges) = .ok [⟨"a","b"⟩] := by
  decide +kernel

end PipelineAtlas.Airflow
