import PipelineAtlas.Proofs.Airflow.LayoutLine
import PipelineAtlas.Proofs.Dag.History

/-! What layouts add. A dependency that is laid out between complete statements adds the same edges on
whatever lines it stands, and the notations for groups that follow one another add the same edges. -/
namespace PipelineAtlas.Airflow

open Fallible Script

/-- All pairs of one group and the next, in the order of the groups and of the names in them. -/
def neighbourLinks (groups : List (List (List Char))) : List Link :=
  (groups.zip groups.tail).flatMap fun (left,right) =>
    left.flatMap fun source => right.map fun target => ⟨source,target⟩

namespace Dependency

def reversed (groups : List (List (List Char))) : Dependency :=
  match groups.reverse with
  | [] => .groups [] []
  | last :: rest => .groups last (rest.map fun group => (.backward,group))

theorem reversed_eq {groups rest : List (List (List Char))} {last : List (List Char)}
    (turned : groups.reverse = last :: rest) :
    reversed groups = .groups last (rest.map fun group => (.backward,group)) := by
  rw [reversed,turned]

def edges (vars : Variables) (dep : Dependency) : List Edge := dep.links.filterMap (Link.edge? vars)

end Dependency

/-- Every mark links the groups beside it in its own direction. -/
theorem chainLinks_eq (first : List (List Char)) (rest : List (Shift × List (List Char))) :
    chainLinks first rest = ((first :: rest.map Prod.snd).zip rest).flatMap fun (left,shift,right) =>
      groupLinks shift left right := by
  induction rest generalizing first with
  | nil => rfl
  | cons step rest ih => exact congrArg (groupLinks step.1 first step.2 ++ ·) (ih step.2)

theorem links_chained (groups : List (List (List Char))) :
    (Dependency.chained groups).links = neighbourLinks groups := by
  cases groups with
  | nil => rfl
  | cons first rest =>
    change chainLinks first (rest.map fun group => (.forward,group)) = neighbourLinks (first :: rest)
    induction rest generalizing first with
    | nil => rfl
    | cons next rest ih => exact congrArg (groupLinks .forward first next ++ ·) (ih next)

theorem mem_chainLinks_iff {shift : Shift} {first : List (List Char)} {rest : List (List (List Char))}
    {l : Link} : l ∈ chainLinks first (rest.map fun group => (shift,group)) ↔
      ∃ front left right back, first :: rest = front ++ left :: right :: back ∧
        l ∈ groupLinks shift left right := by
  induction rest generalizing first with
  | nil =>
    refine ⟨fun inside => absurd inside List.not_mem_nil,?_⟩
    rintro ⟨front,left,right,back,split,-⟩
    have lengths := congrArg List.length split
    simp at lengths
    omega
  | cons next rest ih =>
    rw [List.map_cons,chainLinks,List.mem_append,ih]
    constructor
    · rintro (here | ⟨front,left,right,back,split,inside⟩)
      · exact ⟨[],first,next,rest,rfl,here⟩
      · exact ⟨first :: front,left,right,back,by rw [split]; rfl,inside⟩
    · rintro ⟨front,left,right,back,split,inside⟩
      cases front with
      | nil =>
        obtain ⟨rfl,rfl,rfl⟩ : first = left ∧ next = right ∧ rest = back := by simpa using split
        exact .inl inside
      | cons group front =>
        exact .inr ⟨front,left,right,back,(List.cons.inj split).2,inside⟩

theorem mem_groupLinks_flip {left right : List (List Char)} {l : Link} :
    l ∈ groupLinks .backward right left ↔ l ∈ groupLinks .forward left right := by
  simp only [mem_groupLinks,Link.along]
  tauto

theorem mem_links_reversed (groups : List (List (List Char))) (l : Link) :
    l ∈ (Dependency.reversed groups).links ↔ l ∈ neighbourLinks groups := by
  rw [← links_chained]
  cases groups with
  | nil => rfl
  | cons first rest =>
    change _ ↔ l ∈ chainLinks first (rest.map fun group => (.forward,group))
    rw [mem_chainLinks_iff]
    obtain ⟨last,others,turned⟩ : ∃ last others, (first :: rest).reverse = last :: others :=
      List.exists_cons_of_ne_nil (by simp)
    rw [Dependency.reversed_eq turned,Dependency.links,mem_chainLinks_iff,← turned]
    constructor
    · rintro ⟨front,right,left,back,split,inside⟩
      refine ⟨back.reverse,left,right,front.reverse,?_,mem_groupLinks_flip.mp inside⟩
      simpa using congrArg List.reverse split
    · rintro ⟨front,left,right,back,split,inside⟩
      refine ⟨back.reverse,right,left,front.reverse,?_,mem_groupLinks_flip.mpr inside⟩
      simp [split]

theorem mem_chainOperands_iff {first : List (List Char)} {step : Shift × List (List Char)}
    {rest : List (Shift × List (List Char))} (some : first ≠ []) (others : ∀ s ∈ step :: rest, s.2 ≠ [])
    {x : List Char} : x ∈ chainOperands first (step :: rest) ↔
      x ∈ first ∨ ∃ s ∈ step :: rest, x ∈ s.2 := by
  have here {first : List (List Char)} (some : first ≠ []) (next : List (List Char)) :
      x ∈ (first.flatMap fun left => left :: next) ↔ x ∈ first ∨ x ∈ next := by
    rw [List.mem_flatMap]
    constructor
    · rintro ⟨left,member,inside⟩
      rcases List.mem_cons.mp inside with rfl | held
      · exact .inl member
      · exact .inr held
    · rintro (member | held)
      · exact ⟨x,member,List.mem_cons_self⟩
      · obtain ⟨left,member⟩ := List.exists_mem_of_ne_nil first some
        exact ⟨left,member,List.mem_cons_of_mem left held⟩
  induction rest generalizing first step with
  | nil => simp [chainOperands,here some]
  | cons step' rest ih =>
    obtain ⟨next,later⟩ := List.forall_mem_cons.mp others
    have further := ih next later
    rw [chainOperands,List.mem_append,here some]
    refine (or_congr Iff.rfl further).trans ?_
    simp only [List.mem_cons,exists_eq_or_imp]
    tauto

theorem assigned_operands {vars : Variables} {groups : List (List (List Char))} {dep : Dependency}
    (follows : dep = .chained groups ∨ dep = .reversed groups) (two : 2 ≤ groups.length)
    (some : ∀ group ∈ groups, group ≠ []) :
    Assigned vars dep.operands ↔ ∀ group ∈ groups, Assigned vars group := by
  have uniform (shift : Shift) {groups : List (List (List Char))} (two : 2 ≤ groups.length)
      (some : ∀ group ∈ groups, group ≠ []) {first : List (List Char)}
      {rest : List (List (List Char))} (split : groups = first :: rest) :
      Assigned vars (chainOperands first (rest.map fun group => (shift,group))) ↔
        ∀ group ∈ groups, Assigned vars group := by
    subst split
    cases rest with
    | nil => simp at two
    | cons next rest =>
      obtain ⟨here,later⟩ := List.forall_mem_cons.mp some
      have inside {x : List Char} : x ∈ chainOperands first ((next :: rest).map fun group => (shift,group)) ↔
          ∃ group ∈ first :: next :: rest, x ∈ group := by
        rw [List.map_cons,mem_chainOperands_iff here (by simpa using later)]
        simp
      simp only [Assigned,inside]
      constructor
      · exact fun all group member x held => all x ⟨group,member,held⟩
      · rintro all x ⟨group,member,held⟩
        exact all group member x held
  rcases follows with rfl | rfl
  · cases groups with
    | nil => simp at two
    | cons first rest => exact uniform .forward two some rfl
  · cases turned : groups.reverse with
    | nil => simp [List.reverse_eq_nil_iff.mp turned] at two
    | cons last others =>
      rw [Dependency.reversed_eq turned]
      refine (uniform .backward (by simpa using two) (by simpa using some) turned).trans ?_
      simp only [List.mem_reverse]

theorem Layout.balanced {dep : Dependency} {s : List Char} (layout : Layout Blanks dep s) :
    Balanced s := by
  cases layout with
  | alone enclosed => exact enclosed.balanced
  | @assigned target a b s _ path before behind enclosed =>
    have noBracket : ∀ d ∈ brackets, Text.isWord d = false ∧ d ≠ '.' := by decide
    have level : Balanced target := .flat fun c inside bracket => by
      rcases path c inside with word | dot
      · simp [(noBracket c bracket).1] at word
      · exact (noBracket c bracket).2 dot
    have equals : Balanced ['='] := .flat (by decide)
    exact level.append (before.balanced.append (equals.append (behind.balanced.append enclosed.balanced)))

theorem Layout.tight {gap : List Char → Prop} {dep : Dependency} {s : List Char}
    (layout : Layout gap dep s) : Tight s := by
  cases layout with
  | alone enclosed => exact enclosed.tight
  | @assigned target a b s starts path before behind enclosed =>
    have whole := (tight_of_solid (solid_of_target starts path)).around (a ++ '=' :: b) enclosed.tight
    simpa using whole

/-- A dependency that is laid out in a text, behind complete statements and up to the end of a line. -/
structure LaidOut (code front s : List Char) (dep : Dependency) : Prop where
  complete : Complete front
  layout : Layout Spacing dep s
  placed : ∃ tail behind, code = front ++ (s ++ (tail ++ behind)) ∧ Spacing tail ∧ GoesOn (s ++ tail) ∧
    AtLineEnd behind

theorem LaidOut.statements {code front s : List Char} {dep : Dependency}
    (laidOut : LaidOut code front s dep) : ∃ line after,
      Script.statements code = Script.statements front ++ ⟨line,joinLines s⟩ :: after ∧
        readDependency (joinLines s) = .dependency dep := by
  obtain ⟨tail,behind,rfl,gap,goesOn,ends⟩ := laidOut.placed
  have level : depthOver 0 s = 0 := by
    rw [← depthOver_joinLines]
    exact laidOut.layout.joinLines.balanced.depthOver 0
  obtain ⟨after,given⟩ := statements_between laidOut.complete laidOut.layout.tight gap goesOn level ends
  exact ⟨_,after,given,laidOut.layout.joinLines.readDependency⟩

/-- A dependency that is laid out adds the edges of its links in their order, those left out that are
there already. Marks in one direction and calls that chain groups link each group to the next. Every mark
links the groups beside it in its own direction, and so does a call on a task. -/
theorem laidOut_adds {source front s : List Char} {dep : Dependency} {d d₁ : Dag} {vars : Variables}
    (tasks : readTasks source = .ok (d,vars))
    (laidOut : LaidOut (codeText (Script.source source)) front s dep)
    (applied : (statements front).foldlM (applyStatement vars) d = .ok d₁) :
    ∃ st after, statements (codeText (Script.source source)) = statements front ++ st :: after ∧
      (∀ d₂, applyStatement vars d₁ st = .ok d₂ ↔ Assigned vars dep.operands ∧
        d₂ = { d₁ with edges :=
          d₁.edges ++ (dep.edges vars).eraseDups.filter fun e => !d₁.edges.contains e }) ∧
      (∀ groups, dep = .chained groups → dep.links = neighbourLinks groups) ∧
      (∀ groups, dep = .reversed groups → ∀ l, l ∈ dep.links ↔ l ∈ neighbourLinks groups) ∧
      (∀ groups, dep = .chained groups ∨ dep = .reversed groups → 2 ≤ groups.length →
        (∀ group ∈ groups, group ≠ []) →
          (Assigned vars dep.operands ↔ ∀ group ∈ groups, Assigned vars group)) ∧
      (∀ first rest, dep = .groups first rest →
        dep.links = ((first :: rest.map Prod.snd).zip rest).flatMap fun (left,shift,right) =>
          groupLinks shift left right) ∧
      ∀ task shift others, dep = .call task shift others →
        dep.links = (Dependency.groups [task] [(shift,others)]).links ∧
          dep.operands = (Dependency.groups [task] [(shift,others)]).operands := by
  obtain ⟨line,after,given,read⟩ := laidOut.statements
  obtain ⟨d₀,declared,registrations⟩ := bind_ok.mp tasks
  have registered := (registerTasks_ok (registered_nil d₀) registrations).1
  obtain ⟨-,rfl⟩ := (applyStatements_ok registered).mp applied
  refine ⟨_,after,given,fun d₂ => ?_,?_,?_,?_,?_,?_⟩
  · rw [applyStatement_ok registered.linked,read]
    simp [Reading.makesSense,Reading.operands,Reading.links,Reading.dependency?,linked,
      Edge.insertAll_eq,Dependency.edges]
  · rintro groups rfl
    exact links_chained groups
  · rintro groups rfl
    exact mem_links_reversed groups
  · exact fun groups follows two some => assigned_operands follows two some
  · rintro first rest rfl
    exact chainLinks_eq first rest
  · rintro task shift others rfl
    simp [Dependency.links,Dependency.operands,chainLinks,chainOperands]

def chainedLines : List Char := dependingOn "    x = (chain(a,\n        [b]))  # both\n"

def chainedLayout : List Char := "x = (chain(a,\n        [b]))".toList

def chainedPair : Dependency := .chained [[['a']],[['b']]]

theorem layout_chainedLayout : Layout Spacing chainedPair chainedLayout := by
  have indent : Spacing "\n        ".toList := Blanks.spacing (by decide)
  have empty : Spacing [] := .nothing
  have name : Name ['b'] ['b'] := .name (by decide)
  have names : Listed Spacing Name [['b']] ['b'] := Listed.last (b := []) empty name empty
  have a : Group Spacing [['a']] ['a'] := .one (by decide)
  have b : Group Spacing [['b']] "[b]".toList := Group.list names
  have last : Listed Spacing (Group Spacing) [[['b']]] "\n        [b]".toList :=
    Listed.last (b := []) indent b empty
  have listed : Listed Spacing (Group Spacing) [[['a']],[['b']]] "a,\n        [b]".toList :=
    Listed.more (b := []) empty a empty last
  have enclosed : Parenthesized Spacing chainedPair "(chain(a,\n        [b]))".toList :=
    Parenthesized.parens (b := []) empty (.bare (.chain listed)) empty
  have space : Spacing [' '] := .blank (by decide) .nothing
  have target : startsName ['x'] = true := by decide
  exact .assigned target (by decide) space space enclosed

theorem laidOut_adds_chained :
    let code := codeText (Script.source chainedLines)
    let front := codeText (Script.source (dependingOn "    "))
    ∃ d vars d₁ st after, readTasks chainedLines = .ok (d,vars) ∧
      LaidOut code front chainedLayout chainedPair ∧
      (statements front).foldlM (applyStatement vars) d = .ok d₁ ∧
      statements code = statements front ++ st :: after ∧
      ∃ d₂, applyStatement vars d₁ st = .ok d₂ ∧ d₂.edges = [⟨"a","b"⟩] := by
  intro code front
  have laidOut : LaidOut code front chainedLayout chainedPair := by
    refine ⟨by decide +kernel,layout_chainedLayout,"        ".toList,['\n'],by decide +kernel,
      Blanks.spacing (by decide),by decide +kernel,.inr rfl⟩
  have run : (readTasks chainedLines >>= fun given =>
      ((statements front).foldlM (applyStatement given.2) given.1).map fun d =>
        (d.edges,chainedPair.edges given.2,
          chainedPair.operands.all fun name => (given.2.lookup (String.ofList name)).isSome)) =
        .ok ([],[⟨"a","b"⟩],true) := by
    decide +kernel
  obtain ⟨⟨d,vars⟩,tasks,run⟩ := bind_ok.mp run
  obtain ⟨d₁,applied,same⟩ := map_ok.mp run
  simp only [Prod.mk.injEq,List.all_eq_true] at same
  obtain ⟨none,added,assigned⟩ := same
  obtain ⟨st,after,given,adds,-⟩ := laidOut_adds tasks laidOut applied
  refine ⟨d,vars,d₁,st,after,tasks,laidOut,applied,given,_,(adds _).mpr ⟨assigned,rfl⟩,?_⟩
  rw [none,added]
  rfl

def accented (statement : String) : List Char :=
  "with DAG('d', start_date='2024-01-01') as dag:\n".toList ++
    "    aé = BashOperator(task_id='a', bash_command='true')\n".toList ++
    "    b = BashOperator(task_id='b', bash_command='true')\n".toList ++ statement.toList

/-- White space in front of the parenthesis of a call, and letters that are not ASCII beside a mark, make
a difference. -/
theorem readDag_apart :
    (readDag (dependingOn "    chain(a, b)\n")).map (·.edges) = .ok [⟨"a","b"⟩] ∧
      (readDag (dependingOn "    chain \\\n        (a, b)\n")).map (·.edges) = .ok [] ∧
      (readDag (accented "    aé.set_downstream(b)\n")).map (·.edges) = .ok [⟨"a","b"⟩] ∧
      (readDag (accented "    aé >> b\n")).map (·.edges) =
        .error (.unreadableDependency "aé >> b" 4) := by
  refine ⟨?_,?_,?_,?_⟩ <;> decide +kernel

end PipelineAtlas.Airflow
