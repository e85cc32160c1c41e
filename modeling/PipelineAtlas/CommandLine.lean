/-! The command line: a command with its places and options. Arguments count from left to right, and
the first one that is wrong, or that asks for help or the version, decides. -/
namespace PipelineAtlas

inductive GraphFormat where
  | mermaid
  | json
deriving DecidableEq, Repr

inductive DagFormat where
  | text
  | mermaid
  | json
deriving DecidableEq, Repr

inductive Command where
  | scan (root : String) (format : GraphFormat) (settings : Option String)
  | locate (root label : String) (settings : Option String)
  | validate (path : String)
  | display (path : String) (mermaid : Bool)
  | example (format : DagFormat)
  | help
  | version
deriving DecidableEq, Repr

namespace CommandLine

/-- An option. Without a test on its value it takes none. -/
structure Switch where
  long : String
  short : Option Char := none
  accepts : Option (String → Bool) := none

/-- The places and options of a command. Every place has a test on what stands there. -/
structure Shape where
  places : List (String → Bool)
  switches : List Switch

structure Given where
  places : List String := []
  values : List (String × String) := []
deriving DecidableEq, Repr

inductive Stop where
  | usage
  | help
deriving DecidableEq, Repr

namespace Shape

def addPlace (shape : Shape) (given : Given) (arg : String) : Except Stop Given :=
  match shape.places[given.places.length]? with
  | some accepts =>
    if accepts arg then .ok { given with places := given.places ++ [arg] } else .error .usage
  | none => .error .usage

def addValue (switch : Switch) (given : Given) (value : String) : Except Stop Given :=
  if (given.values.lookup switch.long).isNone &&
      switch.accepts.all fun accepts => accepts value then
    .ok { given with values := given.values ++ [(switch.long,value)] }
  else .error .usage

/-- An option as it is written: its switch, and the value that stands with it in one argument. -/
inductive Written where
  | place
  | stop (s : Stop)
  | switch (s : Switch) (value : Option String)

/-- The value behind the short form of a switch, which an equals sign may set apart. -/
def attached : List Char → Option String
  | [] => none
  | '=' :: cs => some (String.ofList cs)
  | cs => some (String.ofList cs)

def ofSwitch (s : Option Switch) (value : Option String) : Written :=
  match s with
  | some s => .switch s value
  | none => .stop .usage

/-- The form of an argument. A single dash is no option. -/
def written (shape : Shape) (arg : String) : Written :=
  match arg.toList with
  | '-' :: '-' :: cs =>
    let name := String.ofList (cs.takeWhile (· ≠ '='))
    let value := attached (cs.dropWhile (· ≠ '='))
    if name = "help" ∧ value = none then .stop .help
    else ofSwitch (shape.switches.find? fun s => s.long == name) value
  | '-' :: c :: cs =>
    if c = 'h' then .stop .help
    else ofSwitch (shape.switches.find? fun s => s.short == some c) (attached cs)
  | _ => .place

def isOption (arg : String) : Bool :=
  match arg.toList with
  | '-' :: _ :: _ => true
  | _ => false

def finish (shape : Shape) (given : Given) : Except Stop Given :=
  if given.places.length = shape.places.length then .ok given else .error .usage

/-- Reads arguments. After two dashes all arguments are places. -/
def read (shape : Shape) (given : Given) : List String → Except Stop Given
  | [] => shape.finish given
  | arg :: rest =>
    if arg = "--" then do shape.finish (← rest.foldlM shape.addPlace given)
    else
      match shape.written arg with
      | .stop s => .error s
      | .place => do read shape (← shape.addPlace given arg) rest
      | .switch s (some value) =>
        if s.accepts.isNone then .error .usage
        else do read shape (← addValue s given value) rest
      | .switch s none =>
        if s.accepts.isNone then do read shape (← addValue s given "") rest
        else
          match rest with
          | [] => .error .usage
          | value :: rest =>
            if isOption value then .error .usage
            else do read shape (← addValue s given value) rest

end Shape

def isPath (arg : String) : Bool := !arg.isEmpty

def graphFormat? (name : String) : Option GraphFormat :=
  [("mermaid",GraphFormat.mermaid),("json",.json)].lookup name

def dagFormat? (name : String) : Option DagFormat :=
  [("text",DagFormat.text),("mermaid",.mermaid),("json",.json)].lookup name

def settingsSwitch : Switch := ⟨"config",some 'c',some isPath⟩

def scanShape : Shape :=
  ⟨[isPath],[⟨"format",some 'f',some fun v => (graphFormat? v).isSome⟩,settingsSwitch]⟩

def locateShape : Shape := ⟨[isPath,fun _ => true],[settingsSwitch]⟩

def validateShape : Shape := ⟨[isPath],[]⟩

def displayShape : Shape := ⟨[isPath],[⟨"mermaid",none,none⟩]⟩

def exampleShape : Shape :=
  ⟨[],[⟨"format",some 'f',some fun v => (dagFormat? v).isSome⟩]⟩

def command? (name : String) (given : Given) : Option Command :=
  let settings := given.values.lookup "config"
  let format := given.values.lookup "format"
  match name,given.places with
  | "scan",[root] => some (.scan root ((format.bind graphFormat?).getD .mermaid) settings)
  | "locate",[root,label] => some (.locate root label settings)
  | "validate",[path] => some (.validate path)
  | "show",[path] => some (.display path (given.values.lookup "mermaid").isSome)
  | "example",[] => some (.example ((format.bind dagFormat?).getD .text))
  | _,_ => none

def shapes : List (String × Shape) :=
  [("scan",scanShape),("locate",locateShape),("validate",validateShape),
    ("show",displayShape),("example",exampleShape)]

def readCommand (name : String) (args : List String) : Option Command :=
  match shapes.lookup name with
  | none => none
  | some shape =>
    match shape.read {} args with
    | .ok given => command? name given
    | .error .help => some .help
    | .error .usage => none

def readHelp : List String → Option Command
  | [] => some .help
  | [name] => if name = "help" ∨ (shapes.lookup name).isSome then some .help else none
  | _ => none

def read? : List String → Option Command
  | [] => none
  | arg :: args =>
    if arg = "--help" ∨ "-h".toList.isPrefixOf arg.toList then some .help
    else if arg = "--version" ∨ "-V".toList.isPrefixOf arg.toList then some .version
    else if arg = "help" then readHelp args
    else readCommand arg args

end CommandLine

end PipelineAtlas
