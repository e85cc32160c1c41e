import Mathlib.Data.List.Forall2
import PipelineAtlas.Yaml.Value

/-! Which value a node of a document has. It does not depend on how many aliases may be followed. -/
namespace PipelineAtlas.Yaml

/-- The result of a reading, for some number of aliases that it may follow. -/
def Reading.Yields (x : Reading α) (a : α) : Prop := ∃ left left', x.run left = some (a,left')

namespace Reading

theorem yields_pure {a b : α} (yields : Yields (pure a) b) : a = b := by
  obtain ⟨left,left',run⟩ := yields
  cases run
  rfl

theorem yields_bind {x : Reading α} {f : α → Reading β} {b : β} (yields : Yields (x >>= f) b) :
    ∃ a, Yields x a ∧ Yields (f a) b := by
  obtain ⟨left,left',run⟩ := yields
  rw [StateT.run_bind] at run
  obtain ⟨⟨a,between⟩,first,second⟩ := Option.bind_eq_some_iff.mp run
  exact ⟨a,⟨left,between,first⟩,between,left',second⟩

theorem yields_lift {x : Option α} {a : α} (yields : Yields (liftM x : Reading α) a) : x = some a := by
  obtain ⟨left,left',run⟩ := yields
  cases x with
  | none => cases run
  | some b =>
    cases run
    rfl

theorem not_yields_failure {a : α} : ¬ Yields (failure : Reading α) a := by
  rintro ⟨left,left',run⟩
  cases run

theorem yields_mapM {f : α → Reading β} {as : List α} {bs : List β} (yields : Yields (as.mapM f) bs) :
    List.Forall₂ (fun a b => Yields (f a) b) as bs := by
  induction as generalizing bs with
  | nil =>
    obtain rfl := yields_pure yields
    exact .nil
  | cons a as ih =>
    rw [List.mapM_cons] at yields
    obtain ⟨b,here,further⟩ := yields_bind yields
    obtain ⟨rest,later,same⟩ := yields_bind further
    obtain rfl := yields_pure same
    exact .cons here (ih later)

end Reading

open Reading

def Document.target? (d : Document) : Node → Option Node
  | .alias number => d.node? number
  | n => some n

theorem yields_follow {d : Document} {n n' : Node} (yields : Yields (d.follow n) n') :
    d.target? n = some n' := by
  match n,yields with
  | .alias number,⟨left,left',run⟩ =>
    cases left with
    | zero => cases run
    | succ left =>
      cases found : d.node? number with
      | none => simp [Document.follow,StateT.run,found] at run
      | some target =>
        simp only [Document.follow,StateT.run,found,Option.some.injEq,Prod.mk.injEq] at run
        rw [Document.target?,found,run.1]
  | .nothing,same => exact congrArg some (yields_pure same)
  | .scalar _,same => exact congrArg some (yields_pure same)
  | .sequence _ _,same => exact congrArg some (yields_pure same)
  | .mapping _ _,same => exact congrArg some (yields_pure same)

namespace Value

def Denotes (d : Document) (n : Node) (v : Value) : Prop := ∃ depth, Yields (ofNode d depth n) v

theorem mapping_of_distinctEntries {seen entries : List (Value × Value)} {v : Value}
    (distinct : distinctEntries seen entries = some v) : v = .mapping (seen.reverse ++ entries) := by
  induction entries generalizing seen with
  | nil => simpa [distinctEntries] using distinct.symm
  | cons entry rest ih =>
    obtain ⟨k,w⟩ := entry
    simp only [distinctEntries] at distinct
    split at distinct
    next => simp at distinct
    next => simpa using ih distinct

/-- The values of nodes, kind by kind. -/
inductive Shape (d : Document) : Node → Value → Prop
  | nothing : Shape d .nothing .null
  | scalar {s : Scalar} {v : Value} (value : ofScalar s = some v) : Shape d (.scalar s) v
  | sequence {tag : Option (List Char)} {items : List Node} {values : List Value}
      (each : List.Forall₂ (Denotes d) items values) :
      Shape d (.sequence tag items) (withTag tag (.sequence values))
  | mapping {tag : Option (List Char)} {entries : List (Node × Node)}
      {values : List (Value × Value)}
      (each : List.Forall₂ (fun x y => Denotes d x.1 y.1 ∧ Denotes d x.2 y.2) entries values) :
      Shape d (.mapping tag entries) (withTag tag (.mapping values))

theorem Denotes.shape {d : Document} {n n' : Node} {v : Value} (denotes : Denotes d n v)
    (target : d.target? n = some n') : Shape d n' v := by
  obtain ⟨depth,yields⟩ := denotes
  rw [ofNode] at yields
  obtain ⟨n'',followed,further⟩ := yields_bind yields
  obtain rfl : n'' = n' := Option.some.inj ((yields_follow followed).symm.trans target)
  match n'',depth,further with
  | .nothing,_,same =>
    obtain rfl := yields_pure same
    exact .nothing
  | .alias _,_,fails => exact absurd fails not_yields_failure
  | .scalar s,_,value => exact .scalar (yields_lift value)
  | .sequence _ _,0,fails => exact absurd fails not_yields_failure
  | .mapping _ _,0,fails => exact absurd fails not_yields_failure
  | .sequence tag items,depth + 1,within =>
    obtain ⟨values,each,same⟩ := yields_bind within
    obtain rfl := yields_pure same
    exact .sequence ((yields_mapM each).imp fun _ _ here => ⟨depth,here⟩)
  | .mapping tag entries,depth + 1,within =>
    obtain ⟨values,each,within⟩ := yields_bind within
    obtain ⟨v',distinct,same⟩ := yields_bind within
    obtain rfl := yields_pure same
    rw [mapping_of_distinctEntries (yields_lift distinct)]
    refine .mapping ((yields_mapM each).imp fun x y here => ?_)
    obtain ⟨key,keyed,here⟩ := yields_bind here
    obtain ⟨value,valued,same⟩ := yields_bind here
    obtain rfl := yields_pure same
    exact ⟨⟨depth,keyed⟩,depth,valued⟩

theorem untagged_withTag (tag : Option (List Char)) (v : Value) :
    (withTag tag v).untagged = v.untagged := by
  unfold withTag
  split <;> rfl

end Value

end PipelineAtlas.Yaml
