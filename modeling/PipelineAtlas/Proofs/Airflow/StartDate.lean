import PipelineAtlas.Proofs.Airflow.Declared
import PipelineAtlas.Proofs.Instant.Calendar

/-! Start dates given as calls. What such a call gives by position is checked and taken; what it gives by
keyword is never looked at, so that it counts only where it says the same. -/
namespace PipelineAtlas.Airflow

open Fallible Script

def partNames : List String := ["year","month","day","hour","minute","second"]

/-- A value that a call supplies for one of the parts of its date and time. -/
inductive Supplies (args : Arguments) : Nat → Value → Prop
  | place {k : Nat} {v : Value} (part : k < 6) (given : args.positional[k]? = some v) : Supplies args k v
  | keyword {k : Nat} {name : String} {v : Value} (part : partNames[k]? = some name)
      (given : ⟨some name,v⟩ ∈ args) : Supplies args k v

/-- Parts that agree with everything a call gives. Without its date parts there are none; the others are
zero unless given. -/
structure GivenParts (args : Arguments) (parts : List Int) : Prop where
  given : ∀ k v, Supplies args k v → v = .int (parts.getD k 0)
  missing : ∀ k < 6, (¬ ∃ v, Supplies args k v) → 3 ≤ k ∧ parts.getD k 0 = 0

/-- The instant is the one that all parts of a call give. -/
def Honours (args : Arguments) (i : Instant) : Prop :=
  ∃ parts, GivenParts args parts ∧ instantOf? parts = some i

/-- The start of a declaration is a call of a function for dates and times. -/
structure StartGiven (args : Arguments) (function : String) (inner : Arguments) : Prop where
  given : args.byKey "start_date" = some (.call function inner)
  named : namesFunction "datetime" function = true

theorem partNames_lt {k : Nat} {name : String} (part : partNames[k]? = some name) : k < 6 :=
  (List.getElem?_eq_some_iff.mp part).1

theorem integers?_eq_some {vs : List Value} {parts : List Int} :
    integers? vs = some parts ↔ vs = parts.map .int := by
  induction vs generalizing parts with
  | nil => cases parts <;> simp [integers?]
  | cons v vs ih =>
    cases v with
    | int n => cases parts <;> simp [integers?,ih,and_comm]
    | string | bool | none | name | list | call | other => cases parts <;> simp [integers?]

/-- The parts of an instant are those of a date on the calendar and of a time of day, and the instant
shows them again. -/
theorem instantOf?_shows {parts : List Int} {i : Instant} (made : instantOf? parts = some i) :
    i.date.OnCalendar ∧ i.date.year = parts.getD 0 0 ∧ (i.date.month : Int) = parts.getD 1 0 ∧
      (i.date.day : Int) = parts.getD 2 0 ∧ (i.clock.hour : Int) = parts.getD 3 0 ∧
      (i.clock.minute : Int) = parts.getD 4 0 ∧ (i.clock.second : Int) = parts.getD 5 0 := by
  simp only [instantOf?,bind,Option.bind_eq_some_iff,natural?_eq_some] at made
  obtain ⟨month,months,day,days,hour,hours,minute,minutes,second,seconds,_,dated,_,timed,made⟩ := made
  unfold Date.of? at dated
  unfold Clock.of? at timed
  split at dated
  next real =>
    split at timed
    next onClock =>
      split at made
      next usual =>
        obtain rfl := Option.some.inj dated
        obtain rfl := Option.some.inj timed
        obtain rfl := Option.some.inj made
        have calendar : Date.OnCalendar ⟨parts.getD 0 0,month,day⟩ := ⟨real.2.2.1,real.2.2.2⟩
        have clock : Instant.OnClock ⟨hour,minute,second,0⟩ :=
          ⟨onClock.1,onClock.2.1,onClock.2.2,Nat.zero_lt_succ _⟩
        rw [Instant.date_ofUniversal calendar clock,Instant.clock_ofUniversal clock]
        exact ⟨calendar,rfl,months.symm,days.symm,hours.symm,minutes.symm,seconds.symm⟩
      next => cases made
    next => cases timed
  next => cases dated

theorem instantOf?_inj {parts others : List Int} {i : Instant} (made : instantOf? parts = some i)
    (same : instantOf? others = some i) {k : Nat} (part : k < 6) : parts.getD k 0 = others.getD k 0 := by
  obtain ⟨-,year,month,day,hour,minute,second⟩ := instantOf?_shows made
  obtain ⟨-,year',month',day',hour',minute',second'⟩ := instantOf?_shows same
  interval_cases k
  · exact year.symm.trans year'
  · exact month.symm.trans month'
  · exact day.symm.trans day'
  · exact hour.symm.trans hour'
  · exact minute.symm.trans minute'
  · exact second.symm.trans second'

theorem length_of_instant {parts : List Int} {i : Instant} (made : instantOf? parts = some i) :
    3 ≤ parts.length := by
  obtain ⟨real,-,-,day,-⟩ := instantOf?_shows made
  by_contra short
  have first := real.first
  rw [List.getD_eq_getElem?_getD,List.getElem?_eq_none (by omega),Option.getD_none] at day
  omega

/-- Everything that a call gives is in its instant exactly if its keywords repeat what stands in their
places. -/
theorem honours_iff {args : Arguments} {parts : List Int} {i : Instant}
    (placed : args.positional.take 6 = parts.map .int) (made : instantOf? parts = some i) :
    Honours args i ↔ ∀ k name v, partNames[k]? = some name → ⟨some name,v⟩ ∈ args →
      v = .int (parts.getD k 0) := by
  have place {k : Nat} (part : k < 6) : args.positional[k]? = (parts.map Value.int)[k]? := by
    rw [← placed,List.getElem?_take_of_lt part]
  constructor
  · rintro ⟨others,meant,same⟩ k name v part given
    rw [instantOf?_inj made same (partNames_lt part)]
    exact meant.given k v (.keyword part given)
  · intro agree
    refine ⟨parts,⟨fun k v supplies => ?_,fun k part none => ?_⟩,made⟩
    · cases supplies with
      | place part given =>
        rw [place part,List.getElem?_map,Option.map_eq_some_iff] at given
        obtain ⟨n,given,rfl⟩ := given
        rw [List.getD_eq_getElem?_getD,given,Option.getD_some]
      | keyword part given => exact agree k _ v part given
    · have beyond : parts.length ≤ k := by
        by_contra inside
        refine none ⟨.int parts[k],.place part ?_⟩
        rw [place part,List.getElem?_map,List.getElem?_eq_getElem (by omega),Option.map_some]
      refine ⟨Nat.le_trans (length_of_instant made) beyond,?_⟩
      rw [List.getD_eq_getElem?_getD,List.getElem?_eq_none beyond,Option.getD_none]

theorem StartGiven.readStart {args inner : Arguments} {function : String}
    (startGiven : StartGiven args function inner) (line : Nat) :
    Airflow.readStart args line = readDateCall (.call function inner) inner line := by
  simp only [Airflow.readStart,startGiven.given,startGiven.named,if_true]

theorem readDateCall_ok {v : Value} {args : Arguments} {line : Nat} {i : Instant} :
    readDateCall v args line = .ok i ↔
      ∃ parts : List Int, args.positional.take 6 = parts.map .int ∧ instantOf? parts = some i := by
  simp only [← integers?_eq_some,readDateCall]
  cases read : integers? (args.positional.take 6) with
  | none => simp
  | some parts => cases made : instantOf? parts <;> simp [made]

theorem readDeclaration_unstarted {args : Arguments} {line : Nat} {id : String} {e : Error}
    (read : readId args line = .ok id) (failed : readStart args line = .error e) :
    readDeclaration args line = .error e := by
  simp only [readDeclaration,read,failed]
  rfl

/-- The start of an accepted declaration is the instant of the first six positional arguments of its call,
all of which are integers. It is what the whole call gives exactly if each part that is also given by
keyword, or only by keyword, has the value that stands in its place, which is zero where nothing stands.
Otherwise the call is the error, unless the name of the DAG already is. -/
theorem start_of_parts {source : List Char} {args inner : Arguments} {line : Nat} {function : String}
    (declared : DeclaredBy source args line) (startGiven : StartGiven args function inner) :
    (∀ d, readDag source = .ok d → ∃ parts : List Int, inner.positional.take 6 = parts.map .int ∧
      3 ≤ parts.length ∧ instantOf? parts = some d.start ∧
      (Honours inner d.start ↔ ∀ k name v, partNames[k]? = some name → ⟨some name,v⟩ ∈ inner →
        v = .int (parts.getD k 0))) ∧
      ∀ id, readId args line = .ok id →
        ((¬ ∃ parts : List Int, inner.positional.take 6 = parts.map .int) →
          readDag source = .error (invalid "start_date" (.call function inner) line)) ∧
        ∀ parts : List Int, inner.positional.take 6 = parts.map .int → instantOf? parts = none →
          readDag source = .error (.dag (.invalidStartDate (Value.call function inner).describe)) := by
  have read := startGiven.readStart line
  refine ⟨fun d accepted => ?_,fun id named => ?_⟩
  · rw [readDag_eq_body,declared.readDeclared] at accepted
    obtain ⟨d₀,declares,body⟩ := bind_ok.mp accepted
    have started := (readDeclaration_ok.mp declares).1.start
    rw [read] at started
    obtain ⟨parts,placed,made⟩ := readDateCall_ok.mp started
    rw [readBody_head body]
    exact ⟨parts,placed,length_of_instant made,made,honours_iff placed made⟩
  · have failing {e : Error} (failed : readDateCall (.call function inner) inner line = .error e) :
        readDag source = .error e := by
      rw [readDag_eq_body,declared.readDeclared,readDeclaration_unstarted named (read.trans failed)]
      rfl
    constructor
    · intro other
      refine failing ?_
      cases parts : integers? (inner.positional.take 6) with
      | none => simp only [readDateCall,parts]
      | some parts' => exact absurd ⟨parts',integers?_eq_some.mp parts⟩ other
    · intro parts placed none
      refine failing ?_
      simp only [readDateCall,integers?_eq_some.mpr placed,none]

def starting (arguments : String) : List Char :=
  ("with DAG('d', start_date=datetime(" ++ arguments ++ ")) as dag:\n" ++
    "    a = BashOperator(task_id='a', bash_command='true')\n").toList

def integerOf? : Value → Option Int
  | .int n => some n
  | _ => none

def startIn? (source : List Char) : Option (List (Option String × Option Int)) :=
  (declaration? (Script.source source)).bind fun (_,call) =>
    (callArguments? call).bind fun args =>
      match args.byKey "start_date" with
      | some (.call function inner) =>
        if namesFunction "datetime" function then some (inner.map fun a => (a.key,integerOf? a.value))
        else none
      | _ => none

theorem integerOf?_eq_some {v : Value} {n : Int} : integerOf? v = some n ↔ v = .int n := by
  cases v <;> simp [integerOf?]

theorem eq_of_integers {args : Arguments} {given : List (Option String × Int)}
    (integers : args.map (fun a => (a.key,integerOf? a.value)) = given.map fun g => (g.1,some g.2)) :
    args = given.map fun g => ⟨g.1,.int g.2⟩ := by
  induction args generalizing given with
  | nil => cases given with
    | nil => rfl
    | cons => cases integers
  | cons a args ih =>
    cases given with
    | nil => cases integers
    | cons g given =>
      obtain ⟨key,value⟩ := a
      obtain ⟨key',n⟩ := g
      simp only [List.map_cons,List.cons.injEq,Prod.mk.injEq,integerOf?_eq_some] at integers
      obtain ⟨⟨rfl,rfl⟩,rest⟩ := integers
      rw [ih rest,List.map_cons]

theorem startIn?_eq_some {source : List Char} {given : List (Option String × Int)}
    (found : startIn? source = some (given.map fun g => (g.1,some g.2))) : ∃ args line function,
      DeclaredBy source args line ∧ StartGiven args function (given.map fun g => ⟨g.1,.int g.2⟩) := by
  simp only [startIn?,Option.bind_eq_some_iff,Prod.exists] at found
  obtain ⟨line,call,declared,args,arguments,found⟩ := found
  split at found
  next function inner start =>
    split at found
    next named =>
      rw [eq_of_integers (Option.some.inj found)] at start
      exact ⟨args,line,function,⟨call,declared,arguments⟩,⟨start,named⟩⟩
    next => cases found
  next => cases found

theorem start_of_parts_agreeing : ∃ args inner line function d,
    DeclaredBy (starting "2024, 2, 29, 5, hour=5, minute=0") args line ∧
      StartGiven args function inner ∧ Supplies inner 3 (.int 5) ∧
      readDag (starting "2024, 2, 29, 5, hour=5, minute=0") = .ok d ∧
      d.start = Instant.ofUniversal ⟨2024,2,29⟩ ⟨5,0,0,0⟩ ∧ Honours inner d.start := by
  have runs : startIn? (starting "2024, 2, 29, 5, hour=5, minute=0") =
        some [(none,some 2024),(none,some 2),(none,some 29),(none,some 5),(some "hour",some 5),
          (some "minute",some 0)] ∧
      (readDag (starting "2024, 2, 29, 5, hour=5, minute=0")).map (·.start) =
        .ok (Instant.ofUniversal ⟨2024,2,29⟩ ⟨5,0,0,0⟩) := by
    -- a literal would be decoded again wherever it is read
    simp only [starting,String.toList_append]
    repeat rw [String.toList_ofList]
    decide +kernel
  obtain ⟨found,run⟩ := runs
  obtain ⟨args,line,function,declared,startGiven⟩ := @startIn?_eq_some _
    [(none,2024),(none,2),(none,29),(none,5),(some "hour",5),(some "minute",0)] found
  obtain ⟨d,read,start⟩ := map_ok.mp run
  obtain ⟨parts,placed,-,-,honours⟩ := (start_of_parts declared startGiven).1 d read
  have integers : some parts = some [2024,2,29,5] := (integers?_eq_some.mpr placed).symm
  obtain rfl := Option.some.inj integers
  refine ⟨args,_,line,function,d,declared,startGiven,.place (by omega) rfl,read,start,
    honours.mpr fun k name v part given => ?_⟩
  have early := partNames_lt part
  interval_cases k <;> cases part <;> simp_all

theorem readDag_hour_by_keyword : ∃ args inner line function d,
    DeclaredBy (starting "2024, 1, 1, hour=5") args line ∧ StartGiven args function inner ∧
      Supplies inner 3 (.int 5) ∧ readDag (starting "2024, 1, 1, hour=5") = .ok d ∧
      d.start = Instant.ofUniversal ⟨2024,1,1⟩ Clock.midnight ∧ ¬ Honours inner d.start := by
  have runs : startIn? (starting "2024, 1, 1, hour=5") =
        some [(none,some 2024),(none,some 1),(none,some 1),(some "hour",some 5)] ∧
      (readDag (starting "2024, 1, 1, hour=5")).map (·.start) =
        .ok (Instant.ofUniversal ⟨2024,1,1⟩ Clock.midnight) := by
    simp only [starting,String.toList_append]
    repeat rw [String.toList_ofList]
    decide +kernel
  obtain ⟨found,run⟩ := runs
  obtain ⟨args,line,function,declared,startGiven⟩ :=
    @startIn?_eq_some _ [(none,2024),(none,1),(none,1),(some "hour",5)] found
  obtain ⟨d,read,start⟩ := map_ok.mp run
  refine ⟨args,_,line,function,d,declared,startGiven,.keyword rfl (by simp),read,start,?_⟩
  rintro ⟨parts,meant,made⟩
  obtain ⟨-,-,-,-,hour,-⟩ := instantOf?_shows made
  have said := meant.given 3 (.int 5) (.keyword rfl (by simp))
  rw [Value.int.injEq,← hour,start] at said
  revert said
  decide

end PipelineAtlas.Airflow
