import Mathlib.Data.List.Forall2

/-! Lists that differ in the lengths of their gaps only. A gap is a run of one filling item, and it
is empty on neither side. -/
namespace PipelineAtlas.Script

theorem forall₂_imp_of_mem {R S : α → β → Prop} {s : List α} {t : List β}
    (related : List.Forall₂ R s t) (step : ∀ x ∈ s, ∀ y ∈ t, R x y → S x y) : List.Forall₂ S s t := by
  induction related with
  | nil => exact .nil
  | cons here _ ih =>
    refine .cons (step _ (by simp) _ (by simp) here) (ih fun x member y member' => ?_)
    exact step x (List.mem_cons_of_mem _ member) y (List.mem_cons_of_mem _ member')

/-- Equal but for the lengths of gaps filled with `b`. -/
inductive Loose (b : α) : List α → List α → Prop
  | nil : Loose b [] []
  | cons (x : α) {s t : List α} (rest : Loose b s t) : Loose b (x :: s) (x :: t)
  | gap (m n : Nat) {s t : List α} (rest : Loose b s t) :
      Loose b (List.replicate (m + 1) b ++ s) (List.replicate (n + 1) b ++ t)

namespace Loose

variable {b : α} {s t : List α}

theorem refl (b : α) (s : List α) : Loose b s s := by
  induction s with
  | nil => exact .nil
  | cons x s ih => exact .cons x ih

theorem symm (loose : Loose b s t) : Loose b t s := by
  induction loose with
  | nil => exact .nil
  | cons x _ ih => exact .cons x ih
  | gap m n _ ih => exact .gap n m ih

theorem append (loose : Loose b s t) {s' t' : List α} (more : Loose b s' t') :
    Loose b (s ++ s') (t ++ t') := by
  induction loose with
  | nil => exact more
  | cons x _ ih => exact .cons x ih
  | gap m n _ ih =>
    rw [List.append_assoc,List.append_assoc]
    exact .gap m n ih

theorem reverse (loose : Loose b s t) : Loose b s.reverse t.reverse := by
  induction loose with
  | nil => exact .nil
  | cons x _ ih =>
    rw [List.reverse_cons,List.reverse_cons]
    exact ih.append (refl b [x])
  | gap m n _ ih =>
    rw [List.reverse_append,List.reverse_append,List.reverse_replicate,List.reverse_replicate]
    have run := gap m n (nil (b := b))
    rw [List.append_nil,List.append_nil] at run
    exact ih.append run

theorem map (f : α → β) (loose : Loose b s t) : Loose (f b) (s.map f) (t.map f) := by
  induction loose with
  | nil => exact .nil
  | cons x _ ih => exact .cons (f x) ih
  | gap m n _ ih =>
    rw [List.map_append,List.map_append,List.map_replicate,List.map_replicate]
    exact .gap m n ih

theorem head?_eq (loose : Loose b s t) : s.head? = t.head? := by
  cases loose with
  | nil => rfl
  | cons x _ => rfl
  | gap m n _ => rfl

theorem getLast?_eq (loose : Loose b s t) : s.getLast? = t.getLast? := by
  rw [← List.head?_reverse,← List.head?_reverse]
  exact loose.reverse.head?_eq

theorem nil_iff (loose : Loose b s t) : s = [] ↔ t = [] := by
  cases loose <;> simp [List.replicate_succ]

theorem mem_iff (loose : Loose b s t) (x : α) : x ∈ s ↔ x ∈ t := by
  induction loose with
  | nil => rfl
  | cons y _ ih => rw [List.mem_cons,List.mem_cons,ih]
  | gap m n _ ih => simp [ih]

theorem all_eq (loose : Loose b s t) (p : α → Bool) : s.all p = t.all p := by
  rw [Bool.eq_iff_iff,List.all_eq_true,List.all_eq_true]
  constructor
  · intro all x inside
    exact all x ((loose.mem_iff x).mpr inside)
  · intro all x inside
    exact all x ((loose.mem_iff x).mp inside)

theorem eq_of_notMem (loose : Loose b s t) (absent : b ∉ s) : s = t := by
  induction loose with
  | nil => rfl
  | cons x _ ih => rw [ih fun inside => absent (List.mem_cons_of_mem x inside)]
  | gap m n _ _ => simp [List.replicate_succ] at absent

theorem cons_inv {x : α} (loose : Loose b (x :: s) t) (other : x ≠ b) :
    ∃ t', t = x :: t' ∧ Loose b s t' := by
  generalize begins : x :: s = whole at loose
  cases loose with
  | nil => cases begins
  | cons y rest =>
    cases begins
    exact ⟨_,rfl,rest⟩
  | gap m n rest =>
    rw [List.replicate_succ,List.cons_append] at begins
    exact absurd (List.cons.inj begins).1 other

theorem append_inv {front : List α} (loose : Loose b (front ++ s) t) (absent : b ∉ front) :
    ∃ t', t = front ++ t' ∧ Loose b s t' := by
  induction front generalizing t with
  | nil => exact ⟨t,rfl,loose⟩
  | cons x front ih =>
    simp only [List.mem_cons,not_or] at absent
    obtain ⟨t',rfl,rest⟩ := cons_inv loose (Ne.symm absent.1)
    obtain ⟨t'',rfl,more⟩ := ih rest absent.2
    exact ⟨t'',rfl,more⟩

theorem concat_inv {x : α} (loose : Loose b (s ++ [x]) t) (other : x ≠ b) :
    ∃ t', t = t' ++ [x] ∧ Loose b s t' := by
  have turned := loose.reverse
  rw [List.reverse_append] at turned
  obtain ⟨r,same,rest⟩ := cons_inv turned other
  refine ⟨r.reverse,?_,by simpa using rest.reverse⟩
  rw [← List.reverse_reverse t,same,List.reverse_cons]

variable (p : α → Bool)

private theorem dropWhile_replicate (m : Nat) (s : List α) (passes : p b = true) :
    (List.replicate m b ++ s).dropWhile p = s.dropWhile p :=
  List.dropWhile_append_of_pos fun x inside => by rwa [List.eq_of_mem_replicate inside]

theorem dropWhile (loose : Loose b s t) : Loose b (s.dropWhile p) (t.dropWhile p) := by
  induction loose with
  | nil => exact .nil
  | @cons x s t rest ih =>
    cases passes : p x with
    | true => simpa [passes] using ih
    | false => simpa [passes] using cons x rest
  | @gap m n s t rest ih =>
    cases passes : p b with
    | true => rwa [dropWhile_replicate p _ s passes,dropWhile_replicate p _ t passes]
    | false => simpa [List.replicate_succ,passes] using gap m n rest

theorem takeWhile_eq (loose : Loose b s t) (stops : p b = false) :
    s.takeWhile p = t.takeWhile p := by
  induction loose with
  | nil => rfl
  | cons x _ ih => cases passes : p x <;> simp [passes,ih]
  | gap m n _ _ => simp [List.replicate_succ,stops]

theorem takeWhile (loose : Loose b s t) : Loose b (s.takeWhile p) (t.takeWhile p) := by
  induction loose with
  | nil => exact .nil
  | @cons x s t rest ih =>
    cases passes : p x with
    | true => simpa [passes] using cons x ih
    | false => simpa [passes] using nil
  | @gap m n s t rest ih =>
    cases passes : p b with
    | true =>
      have each : ∀ k, ∀ x ∈ List.replicate k b, p x = true := by
        intro k x inside
        rwa [List.eq_of_mem_replicate inside]
      rw [List.takeWhile_append_of_pos (each _),List.takeWhile_append_of_pos (each _)]
      exact .gap m n ih
    | false => simpa [List.replicate_succ,passes] using nil

end Loose

end PipelineAtlas.Script
