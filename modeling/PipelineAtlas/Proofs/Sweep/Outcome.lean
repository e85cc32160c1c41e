import PipelineAtlas.Proofs.Sweep.Invariant

/-! What a sweep ends with. It emits every task, each after those it waits for, unless the edges have
a cycle, and then the tasks on the cycle are among those left over. -/
namespace PipelineAtlas.Sweep

variable {ids : List String} {edges : List Edge} {s : Sweep}

structure Finished (ids : List String) (edges : List Edge) (s : Sweep) : Prop where
  distinct : ids.Nodup
  sound : Sound ids edges [] s
  idle : s.ready = []

theorem Finished.of_run (unique : ids.Nodup) (waiting : Waiting)
    (counts : ∀ id ∈ ids, waiting.count id = edges.countP (·.target == id))
    (closed : ∀ e ∈ edges, e.target ∈ ids) :
    Finished ids edges (run edges ids.length (ofWaiting ids waiting)) := by
  have initial := sound_ofWaiting unique waiting counts
  exact ⟨unique,(initial.run closed _).1,initial.exhausted closed⟩

theorem Finished.mem_blocked (finished : Finished ids edges s) (id : String) :
    id ∈ s.blocked ids ↔ id ∈ ids ∧ id ∉ s.emitted := by
  simp only [blocked,List.mem_filter,decide_eq_true_eq,Nat.pos_iff_ne_zero]
  apply and_congr_right
  intro member
  rw [ne_eq,finished.sound.settled id member]
  simp [finished.idle]

theorem Finished.emitted_subperm (finished : Finished ids edges s) :
    s.emitted.Subperm ids := by
  have unique := finished.sound.unique
  have known := finished.sound.known
  rw [finished.idle,List.append_nil] at unique known
  exact List.subperm_of_subset unique known

theorem Finished.perm_iff (finished : Finished ids edges s) :
    s.order.Perm ids ↔ s.blocked ids = [] := by
  constructor
  · intro perm
    apply List.eq_nil_iff_forall_not_mem.mpr
    intro id left
    obtain ⟨member,missing⟩ := (finished.mem_blocked id).mp left
    exact missing (by simpa [order] using perm.symm.subset member)
  · intro none
    have all : ids ⊆ s.emitted := by
      intro id member
      by_contra missing
      have left := (finished.mem_blocked id).mpr ⟨member,missing⟩
      simp [none] at left
    have covered : ids.Subperm s.emitted := List.subperm_of_subset finished.distinct all
    exact s.emitted.reverse_perm.trans (finished.emitted_subperm.antisymm covered)

theorem Finished.length_iff (finished : Finished ids edges s) :
    s.emitted.length = ids.length ↔ s.blocked ids = [] := by
  rw [← finished.perm_iff]
  constructor
  · intro same
    exact (s.emitted.reverse_perm).trans (finished.emitted_subperm.perm_of_length_le same.ge)
  · intro perm
    simpa [order] using perm.length_eq

theorem Finished.waits (finished : Finished ids edges s) (known : ∀ e ∈ edges, e.source ∈ ids) :
    ∀ id ∈ s.blocked ids, ∃ source ∈ s.blocked ids, Edge.Leads edges source id := by
  intro id waits
  obtain ⟨member,missing⟩ := (finished.mem_blocked id).mp waits
  have positive : 0 < edges.countP (Edge.open? s.emitted id) := by
    have settled := (finished.sound.settled id member).not.mpr (by simp [missing,finished.idle])
    have counted := finished.sound.counted id member
    simp at counted
    omega
  obtain ⟨e,inside,into⟩ := List.countP_pos_iff.mp positive
  simp only [Edge.open?,Bool.and_eq_true,beq_iff_eq,Bool.not_eq_true',List.contains_eq_mem,
    decide_eq_false_iff_not] at into
  obtain ⟨rfl,outside⟩ := into
  exact ⟨e.source,(finished.mem_blocked _).mpr ⟨known e inside,outside⟩,inside⟩

theorem Finished.idxOf_lt (finished : Finished ids edges s) {a b : String}
    (path : Relation.TransGen (Edge.Leads edges) a b) (emitted : b ∈ s.emitted) :
    a ∈ s.emitted ∧ s.order.idxOf a < s.order.idxOf b := by
  have unique : s.order.Nodup := List.nodup_reverse.mpr (List.nodup_append.mp finished.sound.unique).1
  have step : ∀ {a b}, Edge.Leads edges a b → b ∈ s.emitted →
      a ∈ s.emitted ∧ s.order.idxOf a < s.order.idxOf b := by
    intro a b edge emitted
    have before := finished.sound.ordered ⟨a,b⟩ edge emitted
    obtain ⟨front,rear,split,inFront⟩ := id before
    refine ⟨?_,before.idxOf_lt unique⟩
    rw [← List.mem_reverse,split]
    exact List.mem_append_left _ inFront
  induction path with
  | single edge => exact step edge emitted
  | tail _ edge ih =>
    obtain ⟨between,later⟩ := step edge emitted
    obtain ⟨first,earlier⟩ := ih between
    exact ⟨first,earlier.trans later⟩

/-- The tasks left over are those on a cycle and those behind one. -/
theorem Finished.mem_blocked_iff (finished : Finished ids edges s)
    (known : ∀ e ∈ edges, e.source ∈ ids) (id : String) :
    id ∈ s.blocked ids ↔ id ∈ ids ∧ Edge.Trapped edges id := by
  constructor
  · intro left
    exact ⟨((finished.mem_blocked id).mp left).1,
      Edge.trapped_of_predecessors (finished.waits known) left⟩
  · rintro ⟨member,loop,around,path⟩
    refine (finished.mem_blocked id).mpr ⟨member,fun emitted => ?_⟩
    have reached : loop ∈ s.emitted := by
      rcases Relation.reflTransGen_iff_eq_or_transGen.mp path with rfl | longer
      · exact emitted
      · exact (finished.idxOf_lt longer emitted).1
    exact (finished.idxOf_lt around reached).2.false

theorem Finished.respected (finished : Finished ids edges s) (closed : ∀ e ∈ edges, e.target ∈ ids)
    (none : s.blocked ids = []) : Edge.Respected edges s.order := by
  intro e inside
  have perm := finished.perm_iff.mpr none
  apply finished.sound.ordered e inside
  simpa [order] using perm.symm.subset (closed e inside)

theorem Finished.blocked_iff (finished : Finished ids edges s)
    (closed : ∀ e ∈ edges, e.source ∈ ids ∧ e.target ∈ ids) :
    s.blocked ids = [] ↔ ¬ Edge.Cyclic edges := by
  constructor
  · intro none
    have perm := finished.perm_iff.mpr none
    exact Edge.not_cyclic_of_respected (perm.nodup_iff.mpr finished.distinct)
      (finished.respected (fun e inside => (closed e inside).2) none)
  · intro acyclic
    refine List.eq_nil_iff_forall_not_mem.mpr fun id left => acyclic ?_
    exact ((finished.mem_blocked_iff (fun e inside => (closed e inside).1) id).mp left).2.cyclic

end PipelineAtlas.Sweep
