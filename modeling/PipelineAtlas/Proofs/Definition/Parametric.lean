import Mathlib.Data.List.Forall2
import Mathlib.Data.Option.Basic
import PipelineAtlas.Definition.Reading

/-! Two readers of related nodes. What holds between the results of their operations holds between
the definitions that are read with them. -/
namespace PipelineAtlas

section

variable (m m' : Type → Type) [Monad m] [Monad m'] [MonadExcept Unit m] [MonadExcept Unit m']

/-- A relation between computations for each relation between results. It is kept by doing one thing
after another. -/
structure Lifting where
  lift : {α β : Type} → (α → β → Prop) → m α → m' β → Prop
  pure : ∀ {α β : Type} {R : α → β → Prop} {a : α} {b : β}, R a b → lift R (Pure.pure a) (Pure.pure b)
  bind : ∀ {α β γ δ : Type} {R : α → β → Prop} {S : γ → δ → Prop} {x : m α} {y : m' β}
    {f : α → m γ} {g : β → m' δ}, lift R x y → (∀ a b, R a b → lift S (f a) (g b)) →
      lift S (x >>= f) (y >>= g)
  throw : ∀ {α β : Type} {R : α → β → Prop},
    lift R (MonadExcept.throw () : m α) (MonadExcept.throw () : m' β)

end

variable {m m' : Type → Type} [Monad m] [Monad m'] [MonadExcept Unit m] [MonadExcept Unit m']
variable {ν ν' : Type}

/-- Readers that give the same texts, truth values and names for related nodes, and related parts. An
optional text need not be the same. -/
structure NodeReader.Related (L : Lifting m m') (r : NodeReader m ν) (r' : NodeReader m' ν')
    (R : ν → ν' → Prop) : Prop where
  text : ∀ n v, R n v → L.lift Eq (r.text n) (r'.text v)
  optionalText : ∀ n v, R n v → L.lift (fun _ _ => True) (r.optionalText n) (r'.optionalText v)
  flag : ∀ n v, R n v → L.lift Eq (r.flag n) (r'.flag v)
  items : ∀ n v, R n v → L.lift (List.Forall₂ R) (r.items n) (r'.items v)
  fields : ∀ names n v, R n v →
    L.lift (List.Forall₂ fun x y => x.1 = y.1 ∧ R x.2 y.2) (r.fields names n) (r'.fields names v)

namespace Lifting

variable (L : Lifting m m')

theorem mono [LawfulMonad m] [LawfulMonad m'] {α β : Type} {R S : α → β → Prop} {x : m α} {y : m' β}
    (related : L.lift R x y) (sound : ∀ a b, R a b → S a b) : L.lift S x y := by
  have pured := L.bind related fun a b here => L.pure (sound a b here)
  rwa [bind_pure,bind_pure] at pured

theorem mapM [LawfulMonad m] [LawfulMonad m'] {α β γ δ : Type} {R : α → β → Prop} {S : γ → δ → Prop}
    {f : α → m γ} {g : β → m' δ} (step : ∀ a b, R a b → L.lift S (f a) (g b)) {as : List α}
    {bs : List β} (related : List.Forall₂ R as bs) :
    L.lift (List.Forall₂ S) (as.mapM f) (bs.mapM g) := by
  induction related with
  | nil => exact L.pure .nil
  | cons first _ ih =>
    rw [List.mapM_cons,List.mapM_cons]
    refine L.bind (step _ _ first) fun a b here => ?_
    exact L.bind ih fun as bs later => L.pure (.cons here later)

variable {R : ν → ν' → Prop}

theorem required {α β : Type} {S : α → β → Prop} {read : ν → m α} {read' : ν' → m' β}
    (step : ∀ n v, R n v → L.lift S (read n) (read' v)) {n : Option ν} {v : Option ν'}
    (related : Option.Rel R n v) :
    L.lift S (NodeReader.required read n) (NodeReader.required read' v) := by
  cases related with
  | some here => exact step _ _ here
  | none => exact L.throw

theorem orElse {α β : Type} {S : α → β → Prop} {read : ν → m α} {read' : ν' → m' β} {a : α} {b : β}
    (step : ∀ n v, R n v → L.lift S (read n) (read' v)) (default : S a b) {n : Option ν}
    {v : Option ν'} (related : Option.Rel R n v) :
    L.lift S (NodeReader.orElse read a n) (NodeReader.orElse read' b v) := by
  cases related with
  | some here => exact step _ _ here
  | none => exact L.pure default

end Lifting

section

variable {R : ν → ν' → Prop} {fields : List (String × ν)} {fields' : List (String × ν')}
variable (related : List.Forall₂ (fun x y => x.1 = y.1 ∧ R x.2 y.2) fields fields')

include related

theorem countP_related (name : String) :
    (fields.countP fun (key,_) => key == name) = fields'.countP fun (key,_) => key == name := by
  induction related with
  | nil => rfl
  | cons here _ ih => simp only [List.countP_cons,ih,here.1]

theorem lookup_related (name : String) : Option.Rel R (fields.lookup name) (fields'.lookup name) := by
  induction related with
  | nil => exact .none
  | @cons x y _ _ here _ ih =>
    obtain ⟨same,nodes⟩ := here
    rw [List.lookup_cons,List.lookup_cons,same]
    cases name == y.1 with
    | true => exact .some nodes
    | false => exact ih

end

namespace NodeReader.Related

variable {L : Lifting m m'} {r : NodeReader m ν} {r' : NodeReader m' ν'} {R : ν → ν' → Prop}
variable (readers : r.Related L r' R)

include readers

theorem record (names : List String) {n : ν} {v : ν'} (related : R n v) :
    L.lift (fun f g => ∀ name, Option.Rel R (f name) (g name)) (r.record names n)
      (r'.record names v) := by
  refine L.bind (readers.fields names _ _ related) fun fields fields' same => ?_
  have counts : (names.any fun name => decide (1 < fields.countP fun (key,_) => key == name)) =
      names.any fun name => decide (1 < fields'.countP fun (key,_) => key == name) := by
    simp only [countP_related same]
  simp only [counts]
  split
  · exact L.throw
  · exact L.pure (lookup_related same)

variable [LawfulMonad m] [LawfulMonad m']

theorem listed {α : Type} {read : ν → m α} {read' : ν' → m' α}
    (step : ∀ n v, R n v → L.lift Eq (read n) (read' v)) (n : ν) (v : ν') (related : R n v) :
    L.lift Eq (do (← r.items n).mapM read) (do (← r'.items v).mapM read') := by
  refine L.bind (readers.items n v related) fun items items' same => ?_
  refine L.mono (L.mapM step same) fun as bs equal => ?_
  exact List.forall₂_eq_eq_eq ▸ equal

theorem task (n : ν) (v : ν') (related : R n v) :
    L.lift Eq (TaskDefinition.read r n) (TaskDefinition.read r' v) := by
  refine L.bind (readers.record _ related) fun field field' same => ?_
  refine L.bind (L.required readers.text (same "id")) ?_
  rintro id _ rfl
  refine L.bind (L.required readers.text (same "command")) ?_
  rintro command _ rfl
  refine L.bind (L.orElse (readers.listed readers.text) rfl (same "depends_on")) ?_
  rintro dependsOn _ rfl
  exact L.pure rfl

theorem definition (n : ν) (v : ν') (related : R n v) :
    L.lift (fun d d' => d.tasks = d'.tasks) (Definition.read r n) (Definition.read r' v) := by
  refine L.bind (readers.record _ related) fun field field' same => ?_
  refine L.bind (L.required readers.text (same "id")) fun _ _ _ => ?_
  refine L.bind (L.orElse readers.optionalText trivial (same "description")) fun _ _ _ => ?_
  refine L.bind (L.required readers.text (same "start_date")) fun _ _ _ => ?_
  refine L.bind (L.orElse readers.optionalText trivial (same "schedule")) fun _ _ _ => ?_
  refine L.bind (L.orElse readers.flag rfl (same "catchup")) fun _ _ _ => ?_
  refine L.bind (L.required (readers.listed readers.task) (same "tasks")) ?_
  rintro tasks _ rfl
  exact L.pure rfl

end NodeReader.Related

end PipelineAtlas
