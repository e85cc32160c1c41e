import PipelineAtlas.CommandLine

/-! The arguments of a command that takes one path and at most flags. -/
namespace PipelineAtlas.CommandLine

namespace Shape

/-- Whether an argument asks for help, whatever the command. -/
def asksHelp (arg : String) : Bool :=
  match arg.toList with
  | '-' :: '-' :: cs => cs = "help".toList
  | '-' :: c :: _ => c = 'h'
  | _ => false

/-- A command of one path all of whose options are flags. -/
structure TakesPath (shape : Shape) : Prop where
  places : shape.places = [isPath]
  flags : ∀ s ∈ shape.switches, s.accepts = none

theorem takesPath_validate : TakesPath validateShape := ⟨rfl,by simp [validateShape]⟩

theorem takesPath_display : TakesPath displayShape := ⟨rfl,by simp [displayShape]⟩

variable {shape : Shape} {arg : String} {given : Given}

theorem written_place (plain : isOption arg = false) : shape.written arg = .place := by
  unfold isOption at plain
  unfold written
  split at plain <;> simp_all

theorem ne_dashes (plain : isOption arg = false) : arg ≠ "--" := by
  rintro rfl
  exact absurd plain (by decide)

theorem attached_eq_none {cs : List Char} : attached cs = none ↔ cs = [] := by
  unfold attached
  split <;> simp_all

theorem written_help (asks : asksHelp arg = true) : shape.written arg = .stop .help := by
  unfold asksHelp at asks
  split at asks
  next cs split =>
    have help : cs = "help".toList := of_decide_eq_true asks
    rw [written,split,help]
    rfl
  next c cs notDash split =>
    have help : c = 'h' := of_decide_eq_true asks
    rw [written,split,help]
    rfl
  next => cases asks

theorem ofSwitch_of_find? {p : Switch → Bool} {value : Option String} :
    ofSwitch (shape.switches.find? p) value = .stop .usage ∨
      ∃ s ∈ shape.switches, ofSwitch (shape.switches.find? p) value = .switch s value := by
  cases found : shape.switches.find? p with
  | none => exact .inl rfl
  | some s => exact .inr ⟨s,List.mem_of_find?_eq_some found,rfl⟩

theorem named_help {cs : List Char} (name : String.ofList (cs.takeWhile (· ≠ '=')) = "help")
    (value : attached (cs.dropWhile (· ≠ '=')) = none) : cs = "help".toList := by
  have taken : cs.takeWhile (· ≠ '=') = "help".toList := String.ofList_inj.mp name
  rw [← cs.takeWhile_append_dropWhile (p := (· ≠ '=')),attached_eq_none.mp value,taken,
    List.append_nil]

theorem written_long {cs : List Char} (split : arg.toList = '-' :: '-' :: cs)
    (other : cs ≠ "help".toList) : shape.written arg = ofSwitch
      (shape.switches.find? fun s => s.long == String.ofList (cs.takeWhile (· ≠ '=')))
      (attached (cs.dropWhile (· ≠ '='))) := by
  rw [written,split]
  exact if_neg fun ⟨name,value⟩ => other (named_help name value)

theorem written_short {c : Char} {cs : List Char} (split : arg.toList = '-' :: c :: cs)
    (short : c ≠ '-') (other : c ≠ 'h') : shape.written arg =
      ofSwitch (shape.switches.find? fun s => s.short == some c) (attached cs) := by
  unfold written
  rw [split]
  split
  next same => exact absurd (List.cons.inj (List.cons.inj same).2).1 short
  next same =>
    cases same
    exact if_neg other
  next neither => exact absurd rfl (neither c cs)

/-- An option that does not ask for help is none of the command, or one of its switches. -/
theorem written_option (shape : Shape) (option : isOption arg = true)
    (silent : asksHelp arg = false) : shape.written arg = .stop .usage ∨
      ∃ s ∈ shape.switches, ∃ value, shape.written arg = .switch s value := by
  have found {p : Switch → Bool} {value : Option String} :
      ofSwitch (shape.switches.find? p) value = .stop .usage ∨ ∃ s ∈ shape.switches,
        ∃ v, ofSwitch (shape.switches.find? p) value = .switch s v :=
    ofSwitch_of_find?.imp_right fun ⟨s,member,same⟩ => ⟨s,member,_,same⟩
  unfold isOption at option
  unfold asksHelp at silent
  split at silent
  next cs split => exact written_long split (of_decide_eq_false silent) ▸ found
  next c cs short split =>
    exact written_short split short (of_decide_eq_false silent) ▸ found
  next notLong notShort =>
    split at option
    next c cs split => exact absurd split (notShort c cs)
    next => cases option

namespace TakesPath

variable (takes : TakesPath shape)
include takes

theorem addPlace (place : given.places = []) (path : isPath arg = true) :
    shape.addPlace given arg = .ok { given with places := [arg] } := by
  simp [Shape.addPlace,takes.places,place,path]

theorem addPlace_refused (noPath : isPath arg = false) :
    shape.addPlace {} arg = .error .usage := by
  simp [Shape.addPlace,takes.places,noPath]

theorem finish_empty (values : List (String × String)) :
    shape.finish ⟨[],values⟩ = .error .usage := by
  simp [finish,takes.places]

theorem read_path (plain : isOption arg = false) (path : isPath arg = true) :
    shape.read {} (arg :: rest) = shape.read { places := [arg] } rest := by
  rw [read,if_neg (ne_dashes plain),written_place plain]
  dsimp only
  rw [takes.addPlace rfl path]
  rfl

theorem read_refused (plain : isOption arg = false) (noPath : isPath arg = false) :
    shape.read {} (arg :: rest) = .error .usage := by
  rw [read,if_neg (ne_dashes plain),written_place plain]
  dsimp only
  rw [takes.addPlace_refused noPath]
  rfl

theorem read_option (option : isOption arg = true) (silent : asksHelp arg = false) :
    shape.read {} [arg] = .error .usage := by
  rw [read]
  split
  next => exact takes.finish_empty []
  next =>
    -- a flag fills no place, so that the path is missing where the arguments end
    rcases written_option shape option silent with usage | ⟨s,member,value,same⟩
    · rw [usage]
    · have flag := takes.flags s member
      rw [same]
      cases value with
      | some value => simp [flag]
      | none =>
        have added : addValue s {} "" = .ok ⟨[],[(s.long,"")]⟩ := by simp [addValue,flag]
        simp only [flag,Option.isNone_none,if_true,added]
        exact takes.finish_empty _

end TakesPath

theorem read_help (asks : asksHelp arg = true) : shape.read given (arg :: rest) = .error .help := by
  have longer : arg ≠ "--" := by
    rintro rfl
    exact absurd asks (by decide)
  rw [read,if_neg longer,written_help asks]

end Shape

open Shape

variable {arg : String} {rest : List String}

theorem read?_validate : read? ("validate" :: rest) = match validateShape.read {} rest with
    | .ok given => command? "validate" given
    | .error .help => some .help
    | .error .usage => none := by
  rfl

theorem read?_show : read? ("show" :: rest) = match displayShape.read {} rest with
    | .ok given => command? "show" given
    | .error .help => some .help
    | .error .usage => none := by
  rfl

theorem read?_asksHelp (asks : asksHelp arg = true) :
    read? ("validate" :: arg :: rest) = some .help ∧ read? ("show" :: arg :: rest) = some .help := by
  rw [read?_validate,read?_show,read_help asks,read_help asks]
  exact ⟨rfl,rfl⟩

theorem read?_path (plain : isOption arg = false) (path : isPath arg = true) :
    read? ["validate",arg] = some (.validate arg) ∧
      read? ["show",arg] = some (.display arg false) ∧
      read? ["show",arg,"--mermaid"] = some (.display arg true) := by
  rw [read?_validate,takesPath_validate.read_path plain path,read?_show,read?_show,
    takesPath_display.read_path plain path,takesPath_display.read_path plain path]
  exact ⟨rfl,rfl,rfl⟩

theorem read?_usage (misread : ∀ shape, TakesPath shape → shape.read {} [arg] = .error .usage) :
    read? ["validate",arg] = none ∧ read? ["show",arg] = none := by
  rw [read?_validate,read?_show,misread _ takesPath_validate,misread _ takesPath_display]
  exact ⟨rfl,rfl⟩

theorem read?_silent (silent : asksHelp arg = false) :
    (read? ["validate",arg] = some (.validate arg) ∧
      read? ["show",arg] = some (.display arg false) ∧
      read? ["show",arg,"--mermaid"] = some (.display arg true)) ∨
    (read? ["validate",arg] = none ∧ read? ["show",arg] = none) := by
  cases plain : isOption arg with
  | true => exact .inr (read?_usage fun _ takes => takes.read_option plain silent)
  | false =>
    cases path : isPath arg with
    | true => exact .inl (read?_path plain path)
    | false => exact .inr (read?_usage fun _ takes => takes.read_refused plain path)

end PipelineAtlas.CommandLine
