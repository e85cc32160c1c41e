import PipelineAtlas.Proofs.Airflow.Declared
import PipelineAtlas.Proofs.Schedule.IntervalText

/-! Schedules given as time spans. A span is taken exactly if all its arguments are understood and their
exact sum is positive and fits 64 bits; then the sum is the time between two runs. -/
namespace PipelineAtlas.Airflow

open Fallible Script

def spanUnits : List (String × Nat) :=
  [("weeks",604800),("days",86400),("hours",3600),("minutes",60),("seconds",1)]

/-- Arguments that are all understood, with the sum of what they stand for, however large. -/
inductive Spans : Arguments → Nat → Prop
  | nil : Spans [] 0
  | cons {key : String} {unit total : Nat} {rest : Arguments} (known : (key,unit) ∈ spanUnits)
      (count : Nat) (later : Spans rest total) :
      Spans (⟨some key,.int count⟩ :: rest) (count * unit + total)

theorem spanUnit_eq_some {key : String} {unit : Nat} :
    spanUnit key = some unit ↔ (key,unit) ∈ spanUnits := by
  simp only [spanUnit,spanUnits,List.mem_cons,Prod.mk.injEq,List.not_mem_nil,or_false]
  grind

theorem spanUnits_pos {key : String} {unit : Nat} (known : (key,unit) ∈ spanUnits) : 0 < unit := by
  simp only [spanUnits,List.mem_cons,Prod.mk.injEq,List.not_mem_nil,or_false] at known
  omega

theorem addSpan_eq_some {total next : Nat} {a : Argument Value} :
    addSpan total a = some next ↔ ∃ key unit count, a = ⟨some key,.int (count : Nat)⟩ ∧
      (key,unit) ∈ spanUnits ∧ next = total + count * unit ∧ next < Interval.bound := by
  constructor
  · intro added
    unfold addSpan at added
    obtain ⟨key?,value⟩ := a
    cases value with
    | int n =>
      simp only [bind,Option.bind_eq_some_iff] at added
      obtain ⟨count,natural,key,rfl,unit,known,sum⟩ := added
      obtain rfl := natural?_eq_some.mp natural
      exact ⟨key,unit,count,rfl,spanUnit_eq_some.mp known,Interval.addUnits_eq_some sum⟩
    | string | bool | none | name | list | call | other => cases added
  · rintro ⟨key,unit,count,rfl,known,rfl,fits⟩
    have sum := Interval.addUnits_of_lt (spanUnits_pos known) fits
    simp [addSpan,natural?_eq_some.mpr rfl,spanUnit_eq_some.mpr known,sum]

theorem foldlM_addSpan {args : Arguments} {start n : Nat} (below : start < Interval.bound) :
    args.foldlM addSpan start = some n ↔
      ∃ total, Spans args total ∧ n = start + total ∧ n < Interval.bound := by
  induction args generalizing start with
  | nil =>
    rw [List.foldlM_nil]
    constructor
    · intro same
      obtain rfl : start = n := Option.some.inj same
      exact ⟨0,.nil,rfl,below⟩
    · rintro ⟨_,⟨⟩,rfl,-⟩
      rfl
  | cons a args ih =>
    rw [List.foldlM_cons,Option.bind_eq_bind,Option.bind_eq_some_iff]
    constructor
    · rintro ⟨next,here,later⟩
      obtain ⟨key,unit,count,rfl,known,rfl,fits⟩ := addSpan_eq_some.mp here
      obtain ⟨total,spans,rfl,within⟩ := (ih fits).mp later
      exact ⟨count * unit + total,.cons known count spans,by omega,within⟩
    · rintro ⟨_,spans,rfl,within⟩
      cases spans with
      | @cons key unit total _ known count spans =>
        have fits : start + count * unit < Interval.bound := by omega
        exact ⟨_,addSpan_eq_some.mpr ⟨key,unit,count,rfl,known,rfl,fits⟩,
          (ih fits).mpr ⟨total,spans,by omega,within⟩⟩

/-- No product and no sum is cut off: the checked total is the exact one or there is none. -/
theorem spanSeconds_eq_some {args : Arguments} {n : Nat} :
    spanSeconds args = some n ↔ Spans args n ∧ n < Interval.bound := by
  have positive : 0 < Interval.bound := by decide
  rw [spanSeconds,foldlM_addSpan positive]
  constructor
  · rintro ⟨total,spans,rfl,within⟩
    rw [Nat.zero_add] at within ⊢
    exact ⟨spans,within⟩
  · rintro ⟨spans,within⟩
    exact ⟨n,spans,(Nat.zero_add n).symm,within⟩

/-- The schedule of a declaration is a call of a function for time spans. -/
structure SpanGiven (args : Arguments) (function : String) (inner : Arguments) : Prop where
  given : (args.byKey "schedule" <|> args.byKey "schedule_interval") = some (.call function inner)
  named : namesFunction "timedelta" function = true

theorem SpanGiven.readSchedule {args inner : Arguments} {function : String}
    (spanGiven : SpanGiven args function inner) (line : Nat) :
    Airflow.readSchedule args line = (spanSeconds inner).elim
      (.error (.invalidArgument "schedule" (function ++ "(...)") line))
      fun seconds => (Schedule.every seconds 0).mapError Error.schedule := by
  simp only [Airflow.readSchedule,spanGiven.given,spanGiven.named,if_true]
  cases spanSeconds inner <;> rfl

/-- A span in a declaration that is accepted otherwise. If its arguments are understood and their sum is
positive and fits 64 bits, the sum is the period of the schedule, also when its text is read again. A sum
of zero is no interval, and all other arguments are refused. -/
theorem schedule_of_span {source : List Char} {args inner : Arguments} {line : Nat} {function : String}
    {d : Dag} (declared : DeclaredBy source args line) (sets : SetsUp args line d)
    (spanGiven : SpanGiven args function inner) :
    (∀ total, Spans inner total → 1 ≤ total → total ≤ 2 ^ 64 - 1 →
      ∃ s, s.recurrence = .interval total ∧ s.period = some total ∧
        Schedule.parse s.expression = .ok s ∧ readDeclared source = .ok { d with schedule := s } ∧
        ∀ d', readBody source d = .ok d' → readDag source = .ok { d' with schedule := s }) ∧
      (Spans inner 0 → readDag source = .error (.schedule (.invalidInterval "0ns"))) ∧
      ((¬ ∃ total, Spans inner total ∧ total ≤ 2 ^ 64 - 1) →
        readDag source = .error (.invalidArgument "schedule" (function ++ "(...)") line)) ∧
      ∀ d', readDag source = .ok d' → ∃ total, Spans inner total ∧ 1 ≤ total ∧
        total ≤ 2 ^ 64 - 1 ∧ d'.schedule.recurrence = .interval total ∧
        Schedule.parse d'.schedule.expression = .ok d'.schedule := by
  have within (n : Nat) : n < Interval.bound ↔ n ≤ 2 ^ 64 - 1 := by
    have bound : Interval.bound = 2 ^ 64 := rfl
    omega
  have read := spanGiven.readSchedule line
  have failing {e : Error} (failed : readSchedule args line = .error e) :
      readDag source = .error e := by
    rw [readDag_eq_body,declared.readDeclared,readDeclaration_error sets failed]
    rfl
  have taken {total : Nat} (spans : Spans inner total) (positive : 1 ≤ total)
      (fits : total ≤ 2 ^ 64 - 1) : ∃ s, readSchedule args line = .ok s ∧
        Schedule.parse s.expression = .ok s ∧ s.recurrence = .interval total := by
    have seconds := spanSeconds_eq_some.mpr ⟨spans,(within total).mpr fits⟩
    obtain ⟨s,made,again,recurs⟩ := @Schedule.parse_every total 0 positive ((within total).mpr fits)
    rw [seconds,Option.elim_some,made] at read
    exact ⟨s,read,again,recurs⟩
  have none (zero : Spans inner 0) :
      readSchedule args line = .error (.schedule (.invalidInterval "0ns")) := by
    rw [read,spanSeconds_eq_some.mpr ⟨zero,by decide⟩]
    rfl
  have refused (beyond : ¬ ∃ total, Spans inner total ∧ total ≤ 2 ^ 64 - 1) :
      readSchedule args line = .error (.invalidArgument "schedule" (function ++ "(...)") line) := by
    rw [read]
    cases seconds : spanSeconds inner with
    | none => rfl
    | some total =>
      obtain ⟨spans,fits⟩ := spanSeconds_eq_some.mp seconds
      exact absurd ⟨total,spans,(within total).mp fits⟩ beyond
  refine ⟨fun total spans positive fits => ?_,fun zero => failing (none zero),
    fun beyond => failing (refused beyond),fun d' accepted => ?_⟩
  · obtain ⟨s,scheduled,again,recurs⟩ := taken spans positive fits
    have declares : readDeclared source = .ok { d with schedule := s } := by
      rw [declared.readDeclared]
      exact readDeclaration_ok.mpr ⟨sets.reschedule s,scheduled⟩
    refine ⟨s,recurs,by rw [Schedule.period,recurs]; rfl,again,declares,fun d' body => ?_⟩
    rw [readDag_eq_body,declares]
    exact readBody_reschedule body s
  · by_cases fits : ∃ total, Spans inner total ∧ total ≤ 2 ^ 64 - 1
    · obtain ⟨total,spans,fits⟩ := fits
      rcases Nat.eq_zero_or_pos total with rfl | positive
      · rw [failing (none spans)] at accepted
        cases accepted
      · obtain ⟨s,scheduled,again,recurs⟩ := taken spans positive fits
        rw [readDag_eq_body,declared.readDeclared] at accepted
        obtain ⟨d₀,declares,body⟩ := bind_ok.mp accepted
        obtain ⟨-,scheduled'⟩ := readDeclaration_ok.mp declares
        obtain rfl : s = d₀.schedule := Except.ok.inj (scheduled.symm.trans scheduled')
        rw [readBody_head body]
        exact ⟨total,spans,positive,fits,recurs,again⟩
    · rw [failing (refused fits)] at accepted
      cases accepted

def spanning (arguments : String) : List Char :=
  ("with DAG('d', start_date='2024-01-01', schedule=timedelta(" ++ arguments ++ ")) as dag:\n" ++
    "    a = BashOperator(task_id='a', bash_command='true')\n").toList

/-- What a source says about its span, if it gives one. -/
def spanIn? (source : List Char) : Option (Option Nat × Except Error String) :=
  (declaration? (Script.source source)).bind fun (line,call) =>
    (callArguments? call).bind fun args =>
      match args.byKey "schedule" <|> args.byKey "schedule_interval" with
      | some (.call function inner) =>
        if namesFunction "timedelta" function then
          some (spanSeconds inner,(readDeclaration args line).map (·.schedule.expression))
        else none
      | _ => none

theorem schedule_of_span_weeks : ∃ args inner line function d d',
    DeclaredBy (spanning "weeks=1, hours=36, weeks=1") args line ∧ SetsUp args line d ∧
      SpanGiven args function inner ∧ Spans inner 1339200 ∧
      readDag (spanning "weeks=1, hours=36, weeks=1") = .ok d' ∧ d'.tasks = [⟨"a","true"⟩] ∧
      d'.schedule.recurrence = .interval 1339200 ∧
      Schedule.parse d'.schedule.expression = .ok d'.schedule := by
  have runs : spanIn? (spanning "weeks=1, hours=36, weeks=1") =
        some (some 1339200,.ok "@every 15d12h") ∧
      (readDag (spanning "weeks=1, hours=36, weeks=1")).map (·.tasks) = .ok [⟨"a","true"⟩] := by
    -- a literal would be decoded again wherever it is read
    simp only [spanning,String.toList_append]
    repeat rw [String.toList_ofList]
    decide +kernel
  obtain ⟨run,body⟩ := runs
  simp only [spanIn?,Option.bind_eq_some_iff,Prod.exists] at run
  obtain ⟨line,call,found,args,arguments,run⟩ := run
  split at run
  next function inner given =>
    split at run
    next named =>
      rw [Option.some.injEq,Prod.mk.injEq] at run
      obtain ⟨seconds,reads⟩ := run
      obtain ⟨d,reads,-⟩ := map_ok.mp reads
      obtain ⟨d',read,tasks⟩ := map_ok.mp body
      have declared : DeclaredBy (spanning "weeks=1, hours=36, weeks=1") args line := ⟨call,found,arguments⟩
      have spans := (spanSeconds_eq_some.mp seconds).1
      have sets := (readDeclaration_ok.mp reads).1
      obtain ⟨s,recurs,-,again,-,accepted⟩ :=
        (schedule_of_span declared sets ⟨given,named⟩).1 1339200 spans (by omega) (by omega)
      rw [readDag_eq_body,declared.readDeclared,reads,bind_of_ok] at read
      exact ⟨args,inner,line,function,d,_,declared,sets,⟨given,named⟩,spans,accepted d' read,tasks,
        recurs,again⟩
    next => cases run
  next => cases run

end PipelineAtlas.Airflow
