import PipelineAtlas.Definition

/-! Checks of a definition by itself: its required fields, its tasks and their dependencies. The
first fault decides. -/
namespace PipelineAtlas.Definition

/-- The identifier must not be empty, and the start must be a date. -/
def checkFields (d : Definition) : Except DefinitionError Unit := do
  if d.id.isEmpty then .error (.missingField "id")
  else if (Text.trim d.start.toList).isEmpty then .error (.missingField "start_date")
  else
    let _ ← readStart d.start
    if d.tasks.isEmpty then .error .noTasks else .ok ()

/-- The first identifier that also stands earlier in the list, given those seen before it. -/
def firstRepeated (seen : List String) : List String → Option String
  | [] => none
  | id :: rest => if seen.contains id then some id else firstRepeated (id :: seen) rest

def ids (d : Definition) : List String := d.tasks.map (·.id)

def checkDistinct (d : Definition) : Except DefinitionError Unit :=
  match firstRepeated [] d.ids with
  | some id => .error (.duplicateTask id)
  | none => .ok ()

/-- A dependency names another task of the definition and is named once. -/
def checkDependency (ids : List String) (task : String) (seen : List String) (dependency : String) :
    Except DefinitionError (List String) :=
  if dependency = task then .error (.selfDependency task)
  else if !ids.contains dependency then .error (.unknownDependency task dependency)
  else if seen.contains dependency then .error (.repeatedDependency task dependency)
  else .ok (dependency :: seen)

def checkDependencies (d : Definition) : Except DefinitionError Unit :=
  d.tasks.forM fun t => do
    let _ ← t.dependsOn.foldlM (checkDependency d.ids t.id) []
    return ()

def edges (d : Definition) : List Edge :=
  d.tasks.flatMap fun t => t.dependsOn.map fun u => ⟨u,t.id⟩

def waiting (d : Definition) : Waiting := d.tasks.map fun t => (t.id,t.dependsOn.length)

/-- The sweep over the tasks, with the named dependencies as counts. -/
def sweep (d : Definition) : Sweep :=
  Sweep.run d.edges d.tasks.length (Sweep.ofWaiting d.ids d.waiting)

/-- The sweep must come by every task. Otherwise the tasks that still wait are named. -/
def checkAcyclic (d : Definition) : Except DefinitionError Unit :=
  if d.sweep.emitted.length = d.tasks.length then .ok ()
  else .error (.dependencyCycle (d.sweep.blocked d.ids))

def validate (d : Definition) : Except DefinitionError Unit := do
  d.checkFields
  d.checkDistinct
  d.checkDependencies
  d.checkAcyclic

end PipelineAtlas.Definition
