import Mathlib.Data.List.Induction
import Mathlib.Data.List.Nodup

/-! Lists without their repetitions: of equal members, the first one stays. What is looked up by a key
is the first entry too. -/
namespace PipelineAtlas.FirstOccurrence

variable {α : Type} [BEq α] [LawfulBEq α]

theorem eraseDups_concat (xs : List α) (x : α) :
    (xs ++ [x]).eraseDups = xs.eraseDups ++ if xs.elem x then [] else [x] := by
  rw [List.eraseDups_append,List.removeAll,List.filter_singleton]
  cases xs.elem x <;> rfl

theorem elem_eraseDups (xs : List α) (x : α) : xs.eraseDups.elem x = xs.elem x := by
  rw [Bool.eq_iff_iff,List.elem_iff,List.elem_iff,List.mem_eraseDups]

theorem nodup_eraseDups (xs : List α) : xs.eraseDups.Nodup := by
  induction xs using List.reverseRecOn with
  | nil => exact .nil
  | append_singleton xs x ih =>
    rw [eraseDups_concat]
    split
    next => simpa using ih
    next absent =>
      exact ih.append (by simp) (by simpa using absent)

theorem eraseDups_of_nodup {xs : List α} (distinct : xs.Nodup) : xs.eraseDups = xs := by
  induction xs using List.reverseRecOn with
  | nil => rfl
  | append_singleton xs x ih =>
    obtain ⟨first,-,apart⟩ := List.nodup_append.mp distinct
    have absent : xs.elem x = false := by
      rw [Bool.eq_false_iff,ne_eq,List.elem_iff]
      exact fun inside => apart x inside x List.mem_cons_self rfl
    rw [eraseDups_concat,ih first,absent]
    rfl

theorem eraseDups_append_of_subset {xs ys : List α} (inside : ys ⊆ xs) :
    (xs ++ ys).eraseDups = xs.eraseDups := by
  have repeated : ys.removeAll xs = [] := by
    rw [List.removeAll,List.filter_eq_nil_iff]
    intro y member
    simpa using inside member
  rw [List.eraseDups_append,repeated]
  exact List.append_nil _

/-- What a map keeps apart has its repetitions at the same places behind the map. -/
theorem eraseDups_map {β : Type} [BEq β] [LawfulBEq β] {f : α → β} {xs : List α}
    (apart : ∀ x ∈ xs, ∀ y ∈ xs, f x = f y → x = y) :
    (xs.map f).eraseDups = xs.eraseDups.map f := by
  induction xs using List.reverseRecOn with
  | nil => rfl
  | append_singleton xs x ih =>
    have inside : ∀ y ∈ xs, ∀ z ∈ xs, f y = f z → y = z := fun y first z second =>
      apart y (List.mem_append_left _ first) z (List.mem_append_left _ second)
    have again : (xs.map f).elem (f x) = xs.elem x := by
      rw [Bool.eq_iff_iff,List.elem_iff,List.elem_iff,List.mem_map]
      constructor
      · rintro ⟨y,member,same⟩
        rwa [← apart y (List.mem_append_left _ member) x (by simp) same]
      · intro member
        exact ⟨x,member,rfl⟩
    rw [List.map_append,List.map_singleton,eraseDups_concat,eraseDups_concat,ih inside,again,
      List.map_append]
    cases xs.elem x <;> rfl

theorem lookup_of_unique {β : Type} {entries : List (α × β)} {key : α} {value : β}
    (member : (key,value) ∈ entries) (unique : ∀ v, (key,v) ∈ entries → v = value) :
    entries.lookup key = some value := by
  induction entries with
  | nil => simp at member
  | cons first entries ih =>
    obtain ⟨k,v⟩ := first
    by_cases same : key = k
    · subst same
      rw [List.lookup_cons_self,unique v List.mem_cons_self]
    · have other : (key == k) = false := beq_eq_false_iff_ne.mpr same
      rw [List.lookup_cons,other]
      apply ih
      · rcases List.mem_cons.mp member with here | later
        · exact absurd (Prod.mk.inj here).1 same
        · exact later
      · exact fun w inside => unique w (List.mem_cons_of_mem _ inside)

theorem exists_lookup {β : Type} {entries : List (α × β)} {key : α} {value : β}
    (member : (key,value) ∈ entries) : ∃ v, entries.lookup key = some v ∧ (key,v) ∈ entries := by
  have there := List.lookup_isSome_iff.mpr ⟨(key,value),member,beq_self_eq_true key⟩
  obtain ⟨v,found⟩ := Option.isSome_iff_exists.mp there
  obtain ⟨front,back,rfl,-⟩ := List.lookup_eq_some_iff.mp found
  exact ⟨v,found,by simp⟩

theorem lookup_of_absent {β : Type} {entries : List (α × β)} {key : α}
    (absent : ∀ v, (key,v) ∉ entries) : entries.lookup key = none := by
  rw [List.lookup_eq_none_iff]
  rintro ⟨k,v⟩ among
  rw [bne_iff_ne]
  rintro rfl
  exact absent v among

theorem lookup_map {β κ : Type} [BEq κ] [LawfulBEq κ] {f : α → κ} {key : α} {entries : List (α × β)}
    (alone : ∀ e ∈ entries, f e.1 = f key → e.1 = key) :
    (entries.map fun e => (f e.1,e.2)).lookup (f key) = entries.lookup key := by
  induction entries with
  | nil => rfl
  | cons e entries ih =>
    have same : (f key == f e.1) = (key == e.1) := by
      rw [Bool.eq_iff_iff,beq_iff_eq,beq_iff_eq]
      exact ⟨fun same => (alone e List.mem_cons_self same.symm).symm,congrArg f⟩
    rw [List.map_cons,List.lookup_cons,List.lookup_cons,same,
      ih fun e inside => alone e (List.mem_cons_of_mem _ inside)]

end PipelineAtlas.FirstOccurrence
