import PipelineAtlas.Airflow.Declaration
import PipelineAtlas.Proofs.Fallible
import PipelineAtlas.Proofs.Script.LooseValue

/-! A declaration is read alike from arguments that differ in texts without a meaning only. Such a
text shows in the message of an error and nowhere else. -/
namespace PipelineAtlas.Airflow

open Fallible Script

/-- The error without the value or the statement that its message shows. -/
def Error.plain : Error → Error
  | .invalidArgument name _ line => .invalidArgument name "" line
  | .unreadableDependency _ line => .unreadableDependency "" line
  | e => e

/-- The same result, or the same error up to what its message shows. -/
def Agree (x y : Except Error α) : Prop := x.mapError Error.plain = y.mapError Error.plain

theorem Agree.bind {x y : Except Error α} {f g : α → Except Error β} (first : Agree x y)
    (next : ∀ a, Agree (f a) (g a)) : Agree (x >>= f) (y >>= g) := by
  cases x with
  | error e =>
    cases y with
    | error e' =>
      have same : e.plain = e'.plain := by simpa [Agree,mapError_of_ok,mapError_of_error] using first
      exact congrArg Except.error same
    | ok b => simp [Agree,mapError_of_ok,mapError_of_error] at first
  | ok a =>
    cases y with
    | error e' => simp [Agree,mapError_of_ok,mapError_of_error] at first
    | ok b =>
      obtain rfl : a = b := by simpa [Agree,mapError_of_ok,mapError_of_error] using first
      exact next a

theorem Agree.foldlM {R : β → γ → Prop} {items : List β} {items' : List γ}
    {f : α → β → Except Error α} {g : α → γ → Except Error α} (related : List.Forall₂ R items items')
    (step : ∀ a x y, R x y → Agree (f a x) (g a y)) (start : α) :
    Agree (items.foldlM f start) (items'.foldlM g start) := by
  induction related generalizing start with
  | nil => rfl
  | cons here _ ih =>
    rw [List.foldlM_cons,List.foldlM_cons]
    exact (step start _ _ here).bind ih

section Arguments

variable {as bs : Arguments} (alike : as.Alike bs)

include alike

theorem byKey_alike (key : String) : Option.Rel Value.Alike (as.byKey key) (bs.byKey key) := by
  induction alike with
  | nil => exact .none
  | @cons a b as bs here _ ih =>
    simp only [Arguments.byKey,List.find?_cons,← here.1] at ih ⊢
    cases a.key == some key with
    | true => exact .some here.2
    | false => exact ih

theorem positional_alike : List.Forall₂ Value.Alike as.positional bs.positional := by
  induction alike with
  | nil => exact .nil
  | @cons a b as bs here _ ih =>
    simp only [Arguments.positional,List.filter_cons,← here.1] at ih ⊢
    cases a.key.isNone with
    | true => exact .cons here.2 ih
    | false => exact ih

end Arguments

theorem orElse_alike {a b c d : Option Value} (first : Option.Rel Value.Alike a b)
    (second : Option.Rel Value.Alike c d) : Option.Rel Value.Alike (a <|> c) (b <|> d) := by
  cases first with
  | none => exact second
  | some alike => exact .some alike

theorem integers?_alike {vs ws : List Value} (alike : List.Forall₂ Value.Alike vs ws) :
    integers? vs = integers? ws := by
  induction alike with
  | nil => rfl
  | @cons v w vs ws here _ ih =>
    cases here with
    | refl => cases v <;> simp [integers?,ih]
    | other | list | call => rfl

theorem spanSeconds_alike {as bs : Arguments} (alike : as.Alike bs) :
    spanSeconds as = spanSeconds bs := by
  have step : ∀ total, as.foldlM addSpan total = bs.foldlM addSpan total := by
    induction alike with
    | nil => exact fun _ => rfl
    | @cons a b as bs here _ ih =>
      intro total
      have same : addSpan total a = addSpan total b := by
        obtain ⟨key,v⟩ := a
        obtain ⟨key',w⟩ := b
        obtain ⟨rfl,value⟩ := here
        cases value <;> rfl
      rw [List.foldlM_cons,List.foldlM_cons,same]
      exact congrArg _ (funext ih)
  exact step 0

section Declaration

variable {as bs : Arguments} (alike : as.Alike bs) (line : Nat)

include alike

theorem readId_alike : Agree (readId as line) (readId bs line) := by
  have first : Option.Rel Value.Alike as.positional.head? bs.positional.head? := by
    have given := positional_alike alike
    generalize as.positional = left at given
    generalize bs.positional = right at given
    cases given with
    | nil => exact .none
    | cons here _ => exact .some here
  have given := orElse_alike (byKey_alike alike "dag_id") first
  simp only [readId]
  generalize (as.byKey "dag_id" <|> as.positional.head?) = left at given
  generalize (bs.byKey "dag_id" <|> bs.positional.head?) = right at given
  cases given with
  | none => rfl
  | some value => cases value <;> rfl

theorem readStart_alike : Agree (readStart as line) (readStart bs line) := by
  have given := byKey_alike alike "start_date"
  simp only [readStart]
  generalize as.byKey "start_date" = left at given
  generalize bs.byKey "start_date" = right at given
  cases given with
  | none => rfl
  | some value =>
    cases value with
    | refl | other | list => rfl
    | @call function as bs keys values =>
      have inner := Arguments.alike_iff.mpr ⟨keys,values⟩
      have parts := integers?_alike (List.forall₂_take 6 (positional_alike inner))
      simp only [readDateCall,parts]
      split
      · split
        · rfl
        · rfl
      · rfl

theorem readSchedule_alike : Agree (readSchedule as line) (readSchedule bs line) := by
  have given := orElse_alike (byKey_alike alike "schedule") (byKey_alike alike "schedule_interval")
  simp only [readSchedule]
  generalize (as.byKey "schedule" <|> as.byKey "schedule_interval") = left at given
  generalize (bs.byKey "schedule" <|> bs.byKey "schedule_interval") = right at given
  cases given with
  | none => rfl
  | some value =>
    cases value with
    | refl | other | list => rfl
    | @call function as bs keys values =>
      have span := spanSeconds_alike (Arguments.alike_iff.mpr ⟨keys,values⟩)
      simp only [span]
      rfl

theorem readCatchup_alike : Agree (readCatchup as line) (readCatchup bs line) := by
  have given := byKey_alike alike "catchup"
  simp only [readCatchup]
  generalize as.byKey "catchup" = left at given
  generalize bs.byKey "catchup" = right at given
  cases given with
  | none => rfl
  | some value => cases value <;> rfl

theorem readDescription_alike : Agree (readDescription as line) (readDescription bs line) := by
  have given := byKey_alike alike "description"
  simp only [readDescription]
  generalize as.byKey "description" = left at given
  generalize bs.byKey "description" = right at given
  cases given with
  | none => rfl
  | some value => cases value <;> rfl

theorem readDeclaration_alike : Agree (readDeclaration as line) (readDeclaration bs line) := by
  refine (readId_alike alike line).bind fun id => ?_
  refine (readStart_alike alike line).bind fun start => ?_
  refine (readSchedule_alike alike line).bind fun schedule => ?_
  refine (readCatchup_alike alike line).bind fun catchup => ?_
  refine Agree.bind rfl fun d => ?_
  refine (readDescription_alike alike line).bind fun description => ?_
  rfl

end Declaration

end PipelineAtlas.Airflow
