import PipelineAtlas.Proofs.Definition.Parametric
import PipelineAtlas.Proofs.Yaml.Denotes
import PipelineAtlas.Source.DefinitionFile

/-! Definitions read from a text and from its value. A text in which no number, truth value or null
stands for a text gives one definition in both ways. -/
namespace PipelineAtlas

namespace Yaml

open Reading

def Value.ofSimple? : Node → Option Value
  | .nothing => some .null
  | .scalar s => ofScalar s
  | _ => none

def noParts? (n : Node) : Option (List α) := do
  match (← Value.ofSimple? n).untagged with
  | .null => some []
  | _ => none

def Document.typedKey (d : Document) (n : Node) : Reading String := do
  match ← Value.ofSimple? (← d.follow n) with
  | .string s => return s
  | _ => failure

/-- Reads each node of a document as its value, so that a text is a scalar whose value is a string. -/
def Document.typedReader (d : Document) : NodeReader Reading Node where
  text n := do (← Value.ofSimple? (← d.follow n)).text?
  optionalText n := do (← Value.ofSimple? (← d.follow n)).optionalText?
  flag n := do (← Value.ofSimple? (← d.follow n)).flag?
  items n := do
    match ← d.follow n with
    | .sequence _ items => return items
    | n => noParts? n
  fields _ n := do
    match ← d.follow n with
    | .mapping _ entries => entries.mapM fun (key,v) => do return (← d.typedKey key,v)
    | n => noParts? n

namespace Value

/-- What the value of a scalar can be, apart from its tag. -/
inductive Simple (s : List Char) : Value → Prop
  | null : Simple s .null
  | number (n : Number) : Simple s (.number n)
  | bool {b : Bool} (truth : truth? s = some b) : Simple s (.bool b)
  | string : Simple s (.string (String.ofList s))

theorem simple_ofFraction? {s : List Char} {v : Value} (value : ofFraction? s = some v) :
    Simple s v := by
  obtain ⟨bits,-,rfl⟩ := Option.map_eq_some_iff.mp value
  exact .number _

theorem simple_ofWhole? {s : List Char} {n : Int} {v : Value} (value : ofWhole? n = some v) :
    Simple s v := by
  unfold ofWhole? at value
  split at value
  next => simp at value
  next =>
    obtain rfl := Option.some.inj value
    exact .number _

theorem simple_ofPlain {s : List Char} {v : Value} (value : ofPlain s = some v) : Simple s v := by
  unfold ofPlain at value
  split at value
  next =>
    obtain rfl := Option.some.inj value
    exact .null
  next =>
    split at value
    next truth =>
      obtain rfl := Option.some.inj value
      exact .bool truth
    next => exact simple_ofWhole? value
    next =>
      split at value
      next =>
        obtain rfl := Option.some.inj value
        exact .string
      next =>
        obtain rfl := Option.some.inj value
        cases fraction : ofFraction? s with
        | none => exact .string
        | some v => exact simple_ofFraction? fraction

theorem simple_ofUntagged {s : Scalar} {v : Value} (value : ofUntagged s = some v) :
    Simple s.text v := by
  unfold ofUntagged at value
  split at value
  next => exact simple_ofPlain value
  next =>
    obtain rfl := Option.some.inj value
    exact .string

theorem simple_ofKind {tag s : List Char} {v : Value} (value : ofKind tag s = some v) :
    Simple s v := by
  unfold ofKind at value
  split at value
  next =>
    split at value
    next =>
      obtain rfl := Option.some.inj value
      exact .null
    next => simp at value
  next =>
    obtain ⟨b,truth,rfl⟩ := Option.map_eq_some_iff.mp value
    exact .bool truth
  next =>
    obtain ⟨n,-,whole⟩ := Option.bind_eq_some_iff.mp value
    exact simple_ofWhole? whole
  next => exact simple_ofFraction? value
  next =>
    obtain rfl := Option.some.inj value
    exact .string

theorem Simple.untagged {s : List Char} {v : Value} (simple : Simple s v) : v.untagged = v := by
  cases simple <;> rfl

theorem simple_ofScalar {s : Scalar} {v : Value} (value : ofScalar s = some v) :
    Simple s.text v.untagged := by
  have bare {w : Value} (simple : Simple s.text w) : Simple s.text w.untagged :=
    simple.untagged.symm ▸ simple
  unfold ofScalar at value
  split at value
  next => exact bare (simple_ofUntagged value)
  next =>
    split at value
    next =>
      obtain ⟨w,inner,rfl⟩ := Option.map_eq_some_iff.mp value
      have simple := bare (simple_ofUntagged inner)
      exact simple
    next => exact bare (simple_ofKind value)

theorem text?_ofScalar {s : Scalar} {v : Value} {t : String} (value : ofScalar s = some v)
    (text : v.text? = some t) : t = String.ofList s.text := by
  have simple := simple_ofScalar value
  unfold text? at text
  generalize v.untagged = w at simple text
  cases simple <;> simp_all

theorem flag?_ofScalar {s : Scalar} {v : Value} {b : Bool} (value : ofScalar s = some v)
    (flag : v.flag? = some b) : truth? s.text = some b := by
  have simple := simple_ofScalar value
  unfold flag? at flag
  generalize v.untagged = w at simple flag
  cases simple <;> simp_all

theorem list?_ofScalar {s : Scalar} {v : Value} {vs : List Value} (value : ofScalar s = some v)
    (parts : v.list? = some vs) : vs = [] := by
  have simple := simple_ofScalar value
  unfold list? at parts
  generalize v.untagged = w at simple parts
  cases simple <;> simp_all [items?,untagged]

theorem fields?_ofScalar {s : Scalar} {v : Value} {fields : List (String × Value)}
    (value : ofScalar s = some v) (parts : v.fields? = some fields) : fields = [] := by
  have simple := simple_ofScalar value
  unfold fields? at parts
  generalize v.untagged = w at simple parts
  cases simple <;> simp_all [entries?,untagged]

end Value

/-- Where both computations have a result, the results are related. -/
def agreement : Lifting Reading Option where
  lift R x y := ∀ a b, Yields x a → y = some b → R a b
  pure related a b yields same := by
    obtain rfl := yields_pure yields
    obtain rfl := Option.some.inj same
    exact related
  bind first second a b yields same := by
    obtain ⟨a',here,further⟩ := yields_bind yields
    obtain ⟨b',here',further'⟩ := Option.bind_eq_some_iff.mp same
    exact second a' b' (first a' b' here here') a b further further'
  throw _ _ fails := (not_yields_failure fails).elim

/-- Where the first computation has a result, the second has a related one. -/
def transfer : Lifting Reading Option where
  lift R x y := ∀ a, Yields x a → ∃ b, y = some b ∧ R a b
  pure related a yields := by
    obtain rfl := yields_pure yields
    exact ⟨_,rfl,related⟩
  bind first second a yields := by
    obtain ⟨a',here,further⟩ := yields_bind yields
    obtain ⟨b',rfl,related⟩ := first a' here
    exact second a' b' related a further
  throw _ fails := (not_yields_failure fails).elim

variable {d : Document} {n : Node} {v : Value}

theorem agreement_follow {k : Node → Reading α} {y : Option β} {R : α → β → Prop}
    (denotes : Value.Denotes d n v) (step : ∀ n', Value.Shape d n' v → agreement.lift R (k n') y) :
    agreement.lift R (d.follow n >>= k) y := by
  intro a b yields same
  obtain ⟨n',followed,further⟩ := yields_bind yields
  exact step n' (denotes.shape (yields_follow followed)) a b further same

theorem transfer_follow {k : Node → Reading α} {y : Option β} {R : α → β → Prop}
    (denotes : Value.Denotes d n v) (step : ∀ n', Value.Shape d n' v → transfer.lift R (k n') y) :
    transfer.lift R (d.follow n >>= k) y := by
  intro a yields
  obtain ⟨n',followed,further⟩ := yields_bind yields
  exact step n' (denotes.shape (yields_follow followed)) a further

theorem list?_sequence (tag : Option (List Char)) (values : List Value) :
    (Value.withTag tag (.sequence values)).list? = some values := by
  simp [Value.list?,Value.items?,Value.untagged_withTag,Value.untagged]

theorem fields?_mapping (tag : Option (List Char)) (values : List (Value × Value)) :
    (Value.withTag tag (.mapping values)).fields? =
      values.mapM fun (key,v) => do return (← key.text?,v) := by
  simp [Value.fields?,Value.entries?,Value.untagged_withTag,Value.untagged]

theorem text_agrees (denotes : Value.Denotes d n v) : agreement.lift Eq (d.text n) v.text? := by
  refine agreement_follow denotes fun n' shape => ?_
  intro s t yields text
  cases shape with
  | scalar value =>
    obtain rfl := yields_pure yields
    exact (Value.text?_ofScalar value text).symm
  | nothing => exact absurd yields not_yields_failure
  | sequence => exact absurd yields not_yields_failure
  | mapping => exact absurd yields not_yields_failure

theorem flag_agrees (denotes : Value.Denotes d n v) : agreement.lift Eq (d.flag n) v.flag? := by
  refine agreement_follow denotes fun n' shape => ?_
  intro b b' yields flag
  cases shape with
  | scalar value =>
    dsimp only at yields
    split at yields
    next =>
      have truth := (yields_lift yields).symm.trans (Value.flag?_ofScalar value flag)
      exact Option.some.inj truth
    next => exact absurd yields not_yields_failure
  | nothing => exact absurd yields not_yields_failure
  | sequence => exact absurd yields not_yields_failure
  | mapping => exact absurd yields not_yields_failure

theorem nil_of_isMissing {n : Node} {as : List α}
    (yields : Yields (if Document.isMissing n then return [] else failure) as) : as = [] := by
  split at yields
  next => exact (yields_pure yields).symm
  next => exact absurd yields not_yields_failure

/-- Where a node and its value are both read, they are read alike, but that a quoted text may have a
value that is null. -/
theorem reader_agrees (d : Document) :
    d.reader.Related agreement Value.reader (Value.Denotes d) where
  text _ _ denotes := text_agrees denotes
  optionalText _ _ _ := fun _ _ _ _ => trivial
  flag _ _ denotes := flag_agrees denotes
  items n v denotes := by
    refine agreement_follow denotes fun n' shape as bs yields parts => ?_
    cases shape with
    | sequence each =>
      obtain rfl := yields_pure yields
      obtain rfl := Option.some.inj ((list?_sequence _ _).symm.trans parts)
      exact each
    | nothing =>
      obtain rfl := nil_of_isMissing yields
      obtain rfl := Option.some.inj parts
      exact .nil
    | scalar value =>
      obtain rfl := nil_of_isMissing yields
      obtain rfl := Value.list?_ofScalar value parts
      exact .nil
    | mapping each => exact absurd yields not_yields_failure
  fields _ n v denotes := by
    refine agreement_follow denotes fun n' shape => ?_
    cases shape with
    | mapping each =>
      rw [show Value.reader.fields _ _ = _ from fields?_mapping _ _]
      refine agreement.mapM (fun x y here => ?_) each
      exact agreement.bind (text_agrees here.1) fun _ _ same => agreement.pure ⟨same,here.2⟩
    | nothing =>
      intro as bs yields parts
      obtain rfl := nil_of_isMissing yields
      obtain rfl := Option.some.inj parts
      exact .nil
    | scalar value =>
      intro as bs yields parts
      obtain rfl := nil_of_isMissing yields
      obtain rfl := Value.fields?_ofScalar value parts
      exact .nil
    | sequence each => exact fun _ _ yields _ => absurd yields not_yields_failure

theorem Value.Shape.eq_of_ofSimple? {n' : Node} {w : Value} (shape : Value.Shape d n' v)
    (simple : Value.ofSimple? n' = some w) : w = v := by
  cases shape with
  | nothing => exact (Option.some.inj simple).symm
  | scalar value => exact Option.some.inj (simple.symm.trans value)
  | sequence each => simp [Value.ofSimple?] at simple
  | mapping each => simp [Value.ofSimple?] at simple

theorem Value.Shape.noParts {n' : Node} {as : List α} (shape : Value.Shape d n' v)
    (none : noParts? n' = some as) : as = [] ∧ v.untagged = .null := by
  obtain ⟨w,simple,parts⟩ := Option.bind_eq_some_iff.mp none
  obtain rfl := shape.eq_of_ofSimple? simple
  split at parts
  next null => exact ⟨(Option.some.inj parts).symm,null⟩
  next => simp at parts

theorem typed_transfers (denotes : Value.Denotes d n v) {f : Value → Option α} {R : α → α → Prop}
    (holds : ∀ a, R a a) :
    transfer.lift R (do f (← Value.ofSimple? (← d.follow n)) : Reading α) (f v) := by
  refine transfer_follow denotes fun n' shape a yields => ?_
  obtain ⟨w,simple,further⟩ := yields_bind yields
  obtain rfl := shape.eq_of_ofSimple? (yields_lift simple)
  exact ⟨a,yields_lift further,holds a⟩

theorem string_of_typedKey {s : String} (denotes : Value.Denotes d n v)
    (yields : Yields (d.typedKey n) s) : v = .string s := by
  obtain ⟨n',followed,yields⟩ := yields_bind yields
  obtain ⟨w,simple,string⟩ := yields_bind yields
  obtain rfl := (denotes.shape (yields_follow followed)).eq_of_ofSimple? (yields_lift simple)
  cases w with
  | string t => exact congrArg _ (yields_pure string)
  | _ => exact absurd string not_yields_failure

theorem key_transfers (denotes : Value.Denotes d n v) :
    transfer.lift Eq (d.typedKey n) v.text? := by
  intro s yields
  obtain rfl := string_of_typedKey denotes yields
  exact ⟨s,rfl,rfl⟩

/-- What is read of a node as its value is read of the value. -/
theorem typedReader_transfers (d : Document) :
    d.typedReader.Related transfer Value.reader (Value.Denotes d) where
  text _ _ denotes := typed_transfers denotes fun _ => rfl
  optionalText _ _ denotes := typed_transfers denotes fun _ => trivial
  flag _ _ denotes := typed_transfers denotes fun _ => rfl
  items n v denotes := by
    refine transfer_follow denotes fun n' shape => ?_
    have missing (as : List Node) (yields : Yields (liftM (noParts? n' : Option (List Node))) as) :
        ∃ bs, v.list? = some bs ∧ List.Forall₂ (Value.Denotes d) as bs := by
      obtain ⟨rfl,null⟩ := shape.noParts (yields_lift yields)
      exact ⟨[],by simp [Value.list?,null],.nil⟩
    cases shape with
    | sequence each =>
      intro as yields
      obtain rfl := yields_pure yields
      exact ⟨_,list?_sequence _ _,each⟩
    | nothing => exact missing
    | scalar value => exact missing
    | mapping each => exact missing
  fields _ n v denotes := by
    refine transfer_follow denotes fun n' shape => ?_
    have missing (as : List (String × Node))
        (yields : Yields (liftM (noParts? n' : Option (List (String × Node)))) as) :
        ∃ bs, v.fields? = some bs ∧
          List.Forall₂ (fun x y => x.1 = y.1 ∧ Value.Denotes d x.2 y.2) as bs := by
      obtain ⟨rfl,null⟩ := shape.noParts (yields_lift yields)
      exact ⟨[],by simp [Value.fields?,null],.nil⟩
    cases shape with
    | mapping each =>
      rw [show Value.reader.fields _ _ = _ from fields?_mapping _ _]
      refine transfer.mapM (fun x y here => ?_) each
      exact transfer.bind (key_transfers here.1) fun _ _ same => transfer.pure ⟨same,here.2⟩
    | nothing => exact missing
    | scalar value => exact missing
    | sequence each => exact missing

theorem exists_of_forall₂ {as : List α} {bs : List β} {cs : List γ} {R : α → β → Prop}
    {S : α → γ → Prop} (first : List.Forall₂ R as bs) (second : List.Forall₂ S as cs) :
    ∀ b ∈ bs, ∃ a, R a b ∧ ∃ c ∈ cs, S a c := by
  induction first generalizing cs with
  | nil => simp
  | @cons a b _ _ here _ ih =>
    obtain ⟨c,cs,here',later,rfl⟩ := List.forall₂_cons_left_iff.mp second
    refine List.forall_mem_cons.mpr ⟨⟨a,here,c,List.mem_cons_self,here'⟩,fun b' inside => ?_⟩
    obtain ⟨a',related,c',member,related'⟩ := ih later b' inside
    exact ⟨a',related,c',List.mem_cons_of_mem c member,related'⟩

theorem field?_isSome {names : List String} {fields : List (String × Node)} {name : String} {n' : Node}
    (denotes : Value.Denotes d n v) (yields : Yields (d.typedReader.fields names n) fields)
    (given : fields.lookup name = some n') : (v.field? name).isSome = true := by
  obtain ⟨target,followed,yields⟩ := yields_bind yields
  have shape := denotes.shape (yields_follow followed)
  have absent (missing : Yields (liftM (noParts? target : Option (List (String × Node)))) fields) :
      False := by
    obtain ⟨rfl,-⟩ := shape.noParts (yields_lift missing)
    simp at given
  cases shape with
  | @mapping tag entries values each =>
    obtain ⟨front,back,rfl,-⟩ := List.lookup_eq_some_iff.mp given
    obtain ⟨entry,read,value,member,keyed,-⟩ :=
      exists_of_forall₂ (yields_mapM yields) each (name,n') (by simp)
    obtain ⟨s,key,same⟩ := yields_bind read
    obtain ⟨rfl,-⟩ := Prod.mk.inj (yields_pure same)
    obtain ⟨w,x⟩ := value
    obtain rfl : w = .string s := string_of_typedKey keyed key
    have entries : (Value.withTag tag (.mapping values)).entries? = some values := by
      simp [Value.entries?,Value.untagged_withTag,Value.untagged]
    have isSome (found : Option (Value × Value)) :
        (found.bind fun entry => some entry.2).isSome = found.isSome := by cases found <;> rfl
    rw [Value.field?,entries]
    exact (isSome _).trans (List.find?_isSome.mpr ⟨_,member,by simp⟩)
  | nothing => exact (absent yields).elim
  | scalar value => exact (absent yields).elim
  | sequence each => exact (absent yields).elim

end Yaml

namespace Definition

open Yaml Reading

theorem field?_tasks {d : Document} {n : Node} {v : Value} {c : Definition}
    (denotes : Value.Denotes d n v) (yields : Yields (Definition.read d.typedReader n) c) :
    (v.field? "tasks").isSome = true := by
  obtain ⟨field,record,yields⟩ := yields_bind yields
  obtain ⟨fields,given,record⟩ := yields_bind record
  -- the tasks are the last field that is read
  obtain ⟨id,-,yields⟩ := yields_bind yields
  obtain ⟨description,-,yields⟩ := yields_bind yields
  obtain ⟨start,-,yields⟩ := yields_bind yields
  obtain ⟨schedule,-,yields⟩ := yields_bind yields
  obtain ⟨catchup,-,yields⟩ := yields_bind yields
  obtain ⟨tasks,required,-⟩ := yields_bind yields
  split at record
  next => exact absurd record not_yields_failure
  next =>
    obtain rfl := yields_pure record
    cases found : fields.lookup "tasks" with
    | none =>
      simp only [found] at required
      exact absurd required not_yields_failure
    | some n' => exact field?_isSome denotes given found

def ofTypedText? (text : List Char) : Option Definition := do
  let d ← Document.read? text
  d.readRoot (Definition.read d.typedReader)

theorem yields_of_readRoot {d : Document} {read : Node → Reading α} {a : α}
    (given : d.readRoot read = some a) : Yields (read d.root) a := by
  obtain ⟨⟨a',left⟩,run,rfl⟩ := Option.map_eq_some_iff.mp given
  exact ⟨_,left,run⟩

/-- A text that is read as a definition in both ways is one whose value is a definition, with the same
tasks. -/
theorem definition?_of_text {text : List Char} {c : Definition} {v : Value}
    (read : ofText? text = some c) (typed : (ofTypedText? text).isSome = true)
    (value : Value.read? text = some v) :
    ∃ c', DefinitionFile.definition? v = some c' ∧ c'.tasks = c.tasks := by
  obtain ⟨d,document,root⟩ := Option.bind_eq_some_iff.mp read
  obtain ⟨d',document',valued⟩ := Option.bind_eq_some_iff.mp value
  obtain rfl : d = d' := Option.some.inj (document.symm.trans document')
  obtain ⟨t,typed⟩ := Option.isSome_iff_exists.mp typed
  obtain ⟨d',document',typed⟩ := Option.bind_eq_some_iff.mp typed
  obtain rfl : d = d' := Option.some.inj (document.symm.trans document')
  have denotes : Value.Denotes d d.root v := ⟨128,yields_of_readRoot valued⟩
  have yields := yields_of_readRoot typed
  obtain ⟨c',given,-⟩ := (typedReader_transfers d).definition _ _ denotes t yields
  have same := (reader_agrees d).definition _ _ denotes c c' (yields_of_readRoot root) given
  refine ⟨c',?_,same.symm⟩
  rw [DefinitionFile.definition?,if_pos (field?_tasks denotes yields),given]

end Definition

end PipelineAtlas
