import PipelineAtlas.Proofs.Definition.Check

/-! The faults of definitions. A definition is refused for the first of its conditions that does not
hold, in the order name, start, tasks, their names, their dependencies one after another, cycles. A cycle
is reported with all tasks on cycles and all that depend on them. -/
namespace PipelineAtlas.Definition

open Fallible

variable {c : Definition} {e : DefinitionError}

/-- Dependencies of a task, each named once, on other tasks of the definition. -/
structure Fits (c : Definition) (task : String) (entries : List String) : Prop where
  others : ∀ u ∈ entries, u ≠ task ∧ u ∈ c.ids
  once : entries.Nodup

/-- What is wrong with a dependency of a task behind those in front of it. -/
inductive EntryFault (c : Definition) (task : String) (front : List String) (u : String) :
    DefinitionError → Prop
  | self (same : u = task) : EntryFault c task front u (.selfDependency task)
  | unknown (other : u ≠ task) (missing : u ∉ c.ids) :
      EntryFault c task front u (.unknownDependency task u)
  | repeated (other : u ≠ task) (known : u ∈ c.ids) (again : u ∈ front) :
      EntryFault c task front u (.repeatedDependency task u)

structure Filled (c : Definition) : Prop where
  named : c.id ≠ ""
  given : Text.trim c.start.toList ≠ []
  started : ∃ i, readStart c.start = .ok i
  nonempty : c.tasks ≠ []

/-- All but the absence of cycles. -/
structure Coherent (c : Definition) : Prop where
  filled : Filled c
  distinct : c.ids.Nodup
  fits : ∀ t ∈ c.tasks, Fits c t.id t.dependsOn

open Classical in
/-- The tasks that lie on a cycle or depend on one that does, in the order of the definition. -/
noncomputable def trapped (c : Definition) : List String :=
  c.ids.filter fun id => Edge.Trapped c.edges id

/-- The first condition that does not hold, as an error. -/
inductive Fault (c : Definition) : DefinitionError → Prop
  | name (missing : c.id = "") : Fault c (.missingField "id")
  | start (named : c.id ≠ "") (blank : Text.trim c.start.toList = []) :
      Fault c (.missingField "start_date")
  | date (named : c.id ≠ "") (given : Text.trim c.start.toList ≠ [])
      (unreadable : Instant.read? c.start.toList = none) :
      Fault c (.invalidStart (String.ofList (Text.trim c.start.toList)))
  | tasks (named : c.id ≠ "") (given : Text.trim c.start.toList ≠ [])
      (started : ∃ i, readStart c.start = .ok i) (none : c.tasks = []) : Fault c .noTasks
  | duplicate {front id rear} (filled : Filled c) (split : c.ids = front ++ id :: rear)
      (distinct : front.Nodup) (again : id ∈ front) : Fault c (.duplicateTask id)
  | dependency {before t after front u rear e} (filled : Filled c) (distinct : c.ids.Nodup)
      (split : c.tasks = before ++ t :: after) (fits : ∀ x ∈ before, Fits c x.id x.dependsOn)
      (entries : t.dependsOn = front ++ u :: rear) (fitting : Fits c t.id front)
      (wrong : EntryFault c t.id front u e) : Fault c e
  | cycle (coherent : Coherent c) (cyclic : Edge.Cyclic c.edges) :
      Fault c (.dependencyCycle c.trapped)

theorem checkFields_iff_filled : c.checkFields = .ok () ↔ Filled c := by
  rw [checkFields_ok]
  exact ⟨fun ⟨named,given,started,nonempty⟩ => ⟨named,given,started,nonempty⟩,
    fun ⟨named,given,started,nonempty⟩ => ⟨named,given,started,nonempty⟩⟩

theorem readStart_error {text : String} : readStart text = .error e ↔
    Instant.read? text.toList = none ∧ e = .invalidStart (String.ofList (Text.trim text.toList)) := by
  unfold readStart
  cases Instant.read? text.toList <;> simp [eq_comm]

theorem checkFields_error : c.checkFields = .error e ↔
    c.id = "" ∧ e = .missingField "id" ∨
      c.id ≠ "" ∧ (Text.trim c.start.toList = [] ∧ e = .missingField "start_date" ∨
        Text.trim c.start.toList ≠ [] ∧ (readStart c.start = .error e ∨
          (∃ i, readStart c.start = .ok i) ∧ c.tasks = [] ∧ e = .noTasks)) := by
  unfold checkFields
  by_cases named : c.id = ""
  · simp [named,@eq_comm _ e]
  · by_cases given : Text.trim c.start.toList = []
    · simp [named,given,@eq_comm _ e]
    · simp only [String.isEmpty_iff,named,List.isEmpty_iff,given,if_false,bind_error]
      by_cases none : c.tasks = [] <;> simp [named,given,none,@eq_comm _ e]

theorem firstRepeated_some {seen ids : List String} {id : String} :
    firstRepeated seen ids = some id ↔ ∃ front rear, ids = front ++ id :: rear ∧
      (front.Nodup ∧ ∀ x ∈ front, x ∉ seen) ∧ (id ∈ seen ∨ id ∈ front) := by
  induction ids generalizing seen with
  | nil => simp [firstRepeated]
  | cons first rest ih =>
    unfold firstRepeated
    by_cases again : first ∈ seen
    · rw [if_pos (by simpa using again),Option.some.injEq]
      constructor
      · rintro rfl
        exact ⟨[],rest,rfl,by simp,.inl again⟩
      · rintro ⟨front,rear,split,⟨-,fresh⟩,-⟩
        cases front with
        | nil => exact (List.cons.inj split).1
        | cons x front =>
          obtain ⟨rfl,-⟩ := List.cons.inj split
          exact absurd again (fresh first List.mem_cons_self)
    · rw [if_neg (by simpa using again),ih]
      constructor
      · rintro ⟨front,rear,rfl,⟨distinct,fresh⟩,taken⟩
        refine ⟨first :: front,rear,rfl,⟨?_,?_⟩,?_⟩
        · exact List.nodup_cons.mpr ⟨fun later => fresh first later List.mem_cons_self,distinct⟩
        · exact List.forall_mem_cons.mpr
            ⟨again,fun x inside old => fresh x inside (List.mem_cons_of_mem first old)⟩
        · simpa [or_left_comm,or_assoc] using taken
      · rintro ⟨front,rear,split,⟨distinct,fresh⟩,taken⟩
        cases front with
        | nil =>
          obtain ⟨rfl,-⟩ := List.cons.inj split
          simp [again] at taken
        | cons x front =>
          obtain ⟨rfl,rfl⟩ := List.cons.inj split
          obtain ⟨apart,distinct⟩ := List.nodup_cons.mp distinct
          obtain ⟨-,fresh⟩ := List.forall_mem_cons.mp fresh
          refine ⟨front,rear,rfl,⟨distinct,fun x inside => ?_⟩,by simpa [or_left_comm,or_assoc] using taken⟩
          rintro (_ | ⟨_,old⟩)
          · exact apart inside
          · exact fresh x inside old

theorem checkDistinct_error : c.checkDistinct = .error e ↔ ∃ front id rear,
    c.ids = front ++ id :: rear ∧ front.Nodup ∧ id ∈ front ∧ e = .duplicateTask id := by
  have failed : c.checkDistinct = .error e ↔
      ∃ id, firstRepeated [] c.ids = some id ∧ e = .duplicateTask id := by
    unfold checkDistinct
    cases firstRepeated [] c.ids <;> simp [@eq_comm _ e]
  rw [failed]
  simp only [firstRepeated_some]
  constructor
  · rintro ⟨id,⟨front,rear,split,⟨distinct,-⟩,none | again⟩,rfl⟩
    · cases none
    · exact ⟨front,id,rear,split,distinct,again,rfl⟩
  · rintro ⟨front,id,rear,split,distinct,again,rfl⟩
    exact ⟨id,⟨front,rear,split,⟨distinct,by simp⟩,.inr again⟩,rfl⟩

theorem checkDependency_error {seen : List String} {task u : String} :
    checkDependency c.ids task seen u = .error e ↔ EntryFault c task seen u e := by
  constructor
  · intro failed
    unfold checkDependency at failed
    split at failed
    next same =>
      cases failed
      exact .self same
    next other =>
      split at failed
      next missing =>
        cases failed
        exact .unknown other (by simpa using missing)
      next known =>
        split at failed
        next again =>
          cases failed
          exact .repeated other (by simpa using known) (by simpa using again)
        next => cases failed
  · rintro (same | ⟨other,missing⟩ | ⟨other,known,again⟩)
    · simp [checkDependency,same]
    · simp [checkDependency,other,missing]
    · simp [checkDependency,other,known,again]

theorem checkEntries_fits {task : String} {entries next : List String} :
    entries.foldlM (checkDependency c.ids task) [] = .ok next ↔
      Fits c task entries ∧ next = entries.reverse := by
  rw [checkEntries_ok,List.append_nil]
  constructor
  · rintro ⟨others,once,rfl⟩
    exact ⟨⟨fun u inside => ⟨(others u inside).1,(others u inside).2.1⟩,once⟩,rfl⟩
  · rintro ⟨⟨others,once⟩,rfl⟩
    exact ⟨fun u inside => ⟨(others u inside).1,(others u inside).2,by simp⟩,once,rfl⟩

theorem EntryFault.mono {task u : String} {front front' : List String} (sub : front ⊆ front')
    (wrong : EntryFault c task front u e) : EntryFault c task front' u e := by
  cases wrong with
  | self same => exact .self same
  | unknown other missing => exact .unknown other missing
  | repeated other known again => exact .repeated other known (sub again)

theorem checkEntries_error {task : String} {entries : List String} :
    entries.foldlM (checkDependency c.ids task) [] = .error e ↔ ∃ front u rear,
      entries = front ++ u :: rear ∧ Fits c task front ∧ EntryFault c task front u e := by
  rw [foldlM_error]
  simp only [checkEntries_fits,checkDependency_error]
  constructor
  · rintro ⟨front,u,rear,_,split,⟨fits,rfl⟩,wrong⟩
    exact ⟨front,u,rear,split,fits,wrong.mono (by simp)⟩
  · rintro ⟨front,u,rear,split,fits,wrong⟩
    exact ⟨front,u,rear,_,split,⟨fits,rfl⟩,wrong.mono (by simp)⟩

theorem checkDependencies_error : c.checkDependencies = .error e ↔
    ∃ before t after, c.tasks = before ++ t :: after ∧ (∀ x ∈ before, Fits c x.id x.dependsOn) ∧
      ∃ front u rear, t.dependsOn = front ++ u :: rear ∧ Fits c t.id front ∧
        EntryFault c t.id front u e := by
  unfold checkDependencies
  rw [forM_error_iff]
  simp only [bind_ok,bind_error,checkEntries_fits,checkEntries_error]
  simp [pure,Except.pure]

theorem checkDependencies_fits : c.checkDependencies = .ok () ↔
    ∀ t ∈ c.tasks, Fits c t.id t.dependsOn := by
  rw [checkDependencies_ok]
  exact forall₂_congr fun t _ => ⟨fun ⟨others,once⟩ => ⟨others,once⟩,
    fun ⟨others,once⟩ => ⟨others,once⟩⟩

theorem blocked_sweep (distinct : c.ids.Nodup) (known : ∀ t ∈ c.tasks, ∀ u ∈ t.dependsOn, u ∈ c.ids) :
    c.sweep.blocked c.ids = c.trapped := by
  classical
  have sources : ∀ e ∈ c.edges, e.source ∈ c.ids := by
    intro e inside
    obtain ⟨t,present,named,-⟩ := mem_edges.mp inside
    exact known t present e.source named
  unfold Sweep.blocked trapped
  refine List.filter_congr fun id member => ?_
  have left := (finished distinct).mem_blocked_iff sources id
  rw [Sweep.blocked,List.mem_filter] at left
  simpa [member] using left

theorem checkAcyclic_error (distinct : c.ids.Nodup)
    (known : ∀ t ∈ c.tasks, ∀ u ∈ t.dependsOn, u ∈ c.ids) :
    c.checkAcyclic = .error e ↔ Edge.Cyclic c.edges ∧ e = .dependencyCycle c.trapped := by
  have passes := checkAcyclic_ok distinct known
  unfold checkAcyclic at passes ⊢
  rw [blocked_sweep distinct known] at passes ⊢
  split at passes
  next all => simp_all
  next some => simp_all [@eq_comm _ e]

theorem Coherent.known (coherent : Coherent c) : ∀ t ∈ c.tasks, ∀ u ∈ t.dependsOn, u ∈ c.ids :=
  fun t inside u named => ((coherent.fits t inside).others u named).2

theorem coherent_iff_checks : Coherent c ↔
    c.checkFields = .ok () ∧ c.checkDistinct = .ok () ∧ c.checkDependencies = .ok () := by
  rw [checkFields_iff_filled,checkDistinct_ok,checkDependencies_fits]
  exact ⟨fun ⟨filled,distinct,fits⟩ => ⟨filled,distinct,fits⟩,
    fun ⟨filled,distinct,fits⟩ => ⟨filled,distinct,fits⟩⟩

theorem validate_error : c.validate = .error e ↔ c.checkFields = .error e ∨
    c.checkFields = .ok () ∧ (c.checkDistinct = .error e ∨
      c.checkDistinct = .ok () ∧ (c.checkDependencies = .error e ∨
        c.checkDependencies = .ok () ∧ c.checkAcyclic = .error e)) := by
  simp only [validate,andThen_error]

theorem Fault.of_checkFields (failed : c.checkFields = .error e) : Fault c e := by
  rcases checkFields_error.mp failed with ⟨missing,rfl⟩ | ⟨named,⟨blank,rfl⟩ | ⟨given,later⟩⟩
  · exact .name missing
  · exact .start named blank
  · rcases later with refused | ⟨started,none,rfl⟩
    · obtain ⟨unreadable,rfl⟩ := readStart_error.mp refused
      exact .date named given unreadable
    · exact .tasks named given started none

theorem validate_error_iff : c.validate = .error e ↔ Fault c e := by
  rw [validate_error]
  constructor
  · rintro (failed | ⟨filled,failed | ⟨distinct,failed | ⟨fits,failed⟩⟩⟩)
    · exact .of_checkFields failed
    · obtain ⟨front,id,rear,split,apart,again,rfl⟩ := checkDistinct_error.mp failed
      exact .duplicate (checkFields_iff_filled.mp filled) split apart again
    · obtain ⟨before,t,after,split,fits,front,u,rear,entries,fitting,wrong⟩ :=
        checkDependencies_error.mp failed
      exact .dependency (checkFields_iff_filled.mp filled) (checkDistinct_ok.mp distinct) split fits
        entries fitting wrong
    · have coherent : Coherent c := coherent_iff_checks.mpr ⟨filled,distinct,fits⟩
      obtain ⟨cyclic,rfl⟩ := (checkAcyclic_error coherent.distinct coherent.known).mp failed
      exact .cycle coherent cyclic
  · intro fault
    cases fault with
    | name missing => exact .inl (checkFields_error.mpr (.inl ⟨missing,rfl⟩))
    | start named blank => exact .inl (checkFields_error.mpr (.inr ⟨named,.inl ⟨blank,rfl⟩⟩))
    | date named given unreadable =>
      have refused := readStart_error.mpr ⟨unreadable,rfl⟩
      exact .inl (checkFields_error.mpr (.inr ⟨named,.inr ⟨given,.inl refused⟩⟩))
    | tasks named given started none =>
      exact .inl (checkFields_error.mpr (.inr ⟨named,.inr ⟨given,.inr ⟨started,none,rfl⟩⟩⟩))
    | duplicate filled split distinct again =>
      exact .inr ⟨checkFields_iff_filled.mpr filled,
        .inl (checkDistinct_error.mpr ⟨_,_,_,split,distinct,again,rfl⟩)⟩
    | dependency filled distinct split fits entries fitting wrong =>
      exact .inr ⟨checkFields_iff_filled.mpr filled,.inr ⟨checkDistinct_ok.mpr distinct,.inl
        (checkDependencies_error.mpr ⟨_,_,_,split,fits,_,_,_,entries,fitting,wrong⟩)⟩⟩
    | cycle coherent cyclic =>
      obtain ⟨filled,distinct,fits⟩ := coherent_iff_checks.mp coherent
      exact .inr ⟨filled,.inr ⟨distinct,.inr ⟨fits,
        (checkAcyclic_error coherent.distinct coherent.known).mpr ⟨cyclic,rfl⟩⟩⟩⟩

/-- The sweep of a definition with distinct tasks never takes from a count of zero. -/
theorem run?_sweep (distinct : c.ids.Nodup) :
    Sweep.run? c.edges c.tasks.length (Sweep.ofWaiting c.ids c.waiting) = some c.sweep :=
  ((Sweep.sound_ofWaiting distinct c.waiting (count_waiting distinct)).run target_mem_ids _).2

/-- A definition is accepted if and only if all conditions hold, and is refused for the first one that does
not. If that is the absence of cycles, exactly the tasks on cycles and those that depend on them are named,
in their order. No count falls below zero when cycles are looked for. -/
theorem validate_of_definition (c : Definition) :
    (c.validate = .ok () ↔ c.Accepted) ∧ (∀ e, c.validate = .error e ↔ Fault c e) ∧
      (Coherent c → Edge.Cyclic c.edges → c.validate = .error (.dependencyCycle c.trapped)) ∧
      (Coherent c → Sweep.run? c.edges c.tasks.length (Sweep.ofWaiting c.ids c.waiting) =
        some c.sweep) :=
  ⟨validate_ok,fun _ => validate_error_iff,
    fun coherent cyclic => validate_error_iff.mpr (.cycle coherent cyclic),
    fun coherent => run?_sweep coherent.distinct⟩

/-- Tasks that wait in a circle, one behind them, and one in front. -/
def circular : Definition :=
  ⟨"d",none,"2024-02-29",none,false,[⟨"first","true",[]⟩,⟨"a","true",["c","first"]⟩,
    ⟨"behind","true",["b"]⟩,⟨"b","true",["a"]⟩,⟨"c","true",["b"]⟩]⟩

theorem validate_of_circular : Coherent circular ∧ Edge.Cyclic circular.edges ∧
    circular.validate = .error (.dependencyCycle ["a","behind","b","c"]) ∧
    Fault circular (.dependencyCycle ["a","behind","b","c"]) ∧
    circular.trapped = ["a","behind","b","c"] ∧
    (Sweep.run? circular.edges 5 (Sweep.ofWaiting circular.ids circular.waiting)).isSome = true := by
  obtain ⟨-,fails,names,counts⟩ := validate_of_definition circular
  have coherent : Coherent circular := coherent_iff_checks.mpr (by decide +kernel)
  have stuck : circular.checkAcyclic = .error (.dependencyCycle ["a","behind","b","c"]) := by
    decide +kernel
  have cyclic := ((checkAcyclic_error coherent.distinct coherent.known).mp stuck).1
  have refused : circular.validate = .error (.dependencyCycle ["a","behind","b","c"]) := by
    decide +kernel
  have trapped := refused.symm.trans (names coherent cyclic)
  simp only [Except.error.injEq,DefinitionError.dependencyCycle.injEq] at trapped
  have counted : Sweep.run? circular.edges 5 (Sweep.ofWaiting circular.ids circular.waiting) =
      some circular.sweep := counts coherent
  exact ⟨coherent,cyclic,refused,(fails _).mp refused,trapped.symm,by rw [counted]; rfl⟩

end PipelineAtlas.Definition
