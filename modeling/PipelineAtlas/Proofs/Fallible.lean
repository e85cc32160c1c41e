import Mathlib.Data.List.Forall2

/-! Taking apart computations that may fail. -/
namespace PipelineAtlas.Fallible

theorem bind_of_ok (a : α) (f : α → Except ε β) : ((Except.ok a : Except ε α) >>= f) = f a := rfl

theorem bind_ok {x : Except ε α} {f : α → Except ε β} {r : β} :
    (x >>= f) = .ok r ↔ ∃ a, x = .ok a ∧ f a = .ok r := by
  cases x <;> simp [bind,Except.bind]

theorem bind_error {x : Except ε α} {f : α → Except ε β} {e : ε} :
    (x >>= f) = .error e ↔ x = .error e ∨ ∃ a, x = .ok a ∧ f a = .error e := by
  cases x <;> simp [bind,Except.bind]

theorem andThen_ok {x : Except ε Unit} {f : Unit → Except ε β} {r : β} :
    (x >>= f) = .ok r ↔ x = .ok () ∧ f () = .ok r := by
  cases x <;> simp [bind,Except.bind]

theorem andThen_error {x : Except ε Unit} {f : Unit → Except ε β} {e : ε} :
    (x >>= f) = .error e ↔ x = .error e ∨ x = .ok () ∧ f () = .error e := by
  cases x <;> simp [bind,Except.bind]

theorem map_ok {x : Except ε α} {f : α → β} {r : β} :
    x.map f = .ok r ↔ ∃ a, x = .ok a ∧ f a = r := by
  cases x <;> simp [Except.map]

theorem map_error {x : Except ε α} {f : α → β} {e : ε} : x.map f = .error e ↔ x = .error e := by
  cases x <;> simp [Except.map]

theorem mapError_of_ok (f : ε → δ) (r : α) : (Except.ok r : Except ε α).mapError f = .ok r := rfl

theorem mapError_of_error (f : ε → δ) (e : ε) :
    (Except.error e : Except ε α).mapError f = .error (f e) := rfl

theorem mapError_ok {x : Except ε α} {f : ε → δ} {r : α} : x.mapError f = .ok r ↔ x = .ok r := by
  cases x <;> simp [mapError_of_ok,mapError_of_error]

theorem mapError_error {x : Except ε α} {f : ε → δ} {e : δ} :
    x.mapError f = .error e ↔ ∃ e', x = .error e' ∧ f e' = e := by
  cases x <;> simp [mapError_of_ok,mapError_of_error]

theorem toOption_congr {x : Except ε α} {y : Except δ α} (same : ∀ r, x = .ok r ↔ y = .ok r) :
    x.toOption = y.toOption := by
  cases x with
  | ok r => rw [(same r).mp rfl]; rfl
  | error e =>
    cases y with
    | ok r => cases (same r).mpr rfl
    | error e => rfl

theorem forM_ok {items : List α} {f : α → Except ε Unit} :
    items.forM f = .ok () ↔ ∀ x ∈ items, f x = .ok () := by
  induction items with
  | nil => simp [pure,Except.pure]
  | cons x items ih =>
    have unfolded : (x :: items).forM f = (f x >>= fun _ => items.forM f) := rfl
    rw [unfolded,andThen_ok,ih]
    simp

theorem foldlM_error {items : List α} {f : β → α → Except ε β} {s : β} {e : ε} :
    items.foldlM f s = .error e ↔ ∃ before x after s', items = before ++ x :: after ∧
      before.foldlM f s = .ok s' ∧ f s' x = .error e := by
  induction items generalizing s with
  | nil => simp [pure,Except.pure]
  | cons y items ih =>
    rw [List.foldlM_cons,bind_error]
    constructor
    · rintro (here | ⟨s₁,run,later⟩)
      · exact ⟨[],y,items,s,rfl,rfl,here⟩
      · obtain ⟨before,x,after,s',rfl,first,failed⟩ := ih.mp later
        exact ⟨y :: before,x,after,s',rfl,by rw [List.foldlM_cons,run]; exact first,failed⟩
    · rintro ⟨before,x,after,s',split,first,failed⟩
      cases before with
      | nil =>
        obtain ⟨rfl,rfl⟩ := List.cons.inj split
        cases first
        exact .inl failed
      | cons z before =>
        obtain ⟨rfl,rfl⟩ := List.cons.inj split
        rw [List.foldlM_cons,bind_ok] at first
        obtain ⟨s₁,run,first⟩ := first
        exact .inr ⟨s₁,run,ih.mpr ⟨before,x,after,s',rfl,first,failed⟩⟩

theorem forM_eq_foldlM {items : List α} {f : α → Except ε Unit} :
    items.forM f = items.foldlM (fun _ x => f x) () := by
  induction items with
  | nil => rfl
  | cons x items ih =>
    have unfolded : (x :: items).forM f = (f x >>= fun _ => items.forM f) := rfl
    rw [unfolded,List.foldlM_cons,ih]

theorem forM_error_iff {items : List α} {f : α → Except ε Unit} {e : ε} :
    items.forM f = .error e ↔ ∃ before x after, items = before ++ x :: after ∧
      (∀ y ∈ before, f y = .ok ()) ∧ f x = .error e := by
  rw [forM_eq_foldlM,foldlM_error]
  constructor
  · rintro ⟨before,x,after,_,split,passed,failed⟩
    exact ⟨before,x,after,split,forM_ok.mp (forM_eq_foldlM.trans passed),failed⟩
  · rintro ⟨before,x,after,split,passed,failed⟩
    exact ⟨before,x,after,(),split,forM_eq_foldlM.symm.trans (forM_ok.mpr passed),failed⟩

theorem forM_error {items : List α} {f : α → Except ε Unit} {e : ε}
    (failed : items.forM f = .error e) : ∃ x ∈ items, f x = .error e := by
  obtain ⟨before,x,after,rfl,-,failed⟩ := forM_error_iff.mp failed
  exact ⟨x,by simp,failed⟩

theorem mapM_ok {items : List α} {f : α → Except ε β} {results : List β} :
    items.mapM f = .ok results ↔ List.Forall₂ (fun x r => f x = .ok r) items results := by
  induction items generalizing results with
  | nil => cases results <;> simp [pure,Except.pure]
  | cons x items ih =>
    rw [List.mapM_cons,bind_ok]
    simp only [bind_ok,ih,pure,Except.pure,Except.ok.injEq]
    constructor
    · rintro ⟨r,here,others,later,rfl⟩
      exact .cons here later
    · rintro (_ | ⟨here,later⟩)
      exact ⟨_,here,_,later,rfl⟩

theorem exists_of_mem_mapM {items : List α} {f : α → Except ε β} {results : List β}
    (mapped : items.mapM f = .ok results) : ∀ r ∈ results, ∃ x ∈ items, f x = .ok r := by
  induction mapM_ok.mp mapped with
  | nil => simp
  | @cons x r _ _ here later ih =>
    refine List.forall_mem_cons.mpr ⟨⟨x,List.mem_cons_self,here⟩,fun r' member => ?_⟩
    obtain ⟨x',inside,found⟩ := ih (mapM_ok.mpr later) r' member
    exact ⟨x',List.mem_cons_of_mem x inside,found⟩

end PipelineAtlas.Fallible
