import PipelineAtlas.ExecutionOrder
import PipelineAtlas.Proofs.Edge.Precedence

/-! What holds throughout a sweep. Every count is the number of edges from tasks
not emitted yet, and the tasks without such edges are those emitted or ready. -/
namespace PipelineAtlas

namespace Waiting

private theorem count_cons (key x : String) (n : Nat) (w : Waiting) :
    count ((key,n) :: w) x = if x = key then n else count w x := by
  by_cases here : x = key
  · simp [count,here]
  · have other : (x == key) = false := by simpa using here
    simp [count,List.lookup_cons,here,other]

theorem count_map (items : List α) (key : α → String) (number : α → Nat)
    (unique : (items.map key).Nodup) (item : α) (member : item ∈ items) :
    count (items.map fun i => (key i,number i)) (key item) = number item := by
  induction items with
  | nil => cases member
  | cons first rest ih =>
    simp only [List.map_cons,List.nodup_cons] at unique
    rw [List.map_cons,count_cons]
    rcases List.mem_cons.mp member with rfl | later
    · simp
    · have apart : key item ≠ key first := by
        intro same
        exact unique.1 (same ▸ List.mem_map_of_mem later)
      rw [if_neg apart]
      exact ih unique.2 later

theorem count_release (w : Waiting) (id x : String) :
    (w.release id).count x = if x = id then w.count x - 1 else w.count x := by
  unfold release
  induction w with
  | nil => simp [count]
  | cons p w ih =>
    obtain ⟨key,n⟩ := p
    simp only [List.map_cons,beq_iff_eq] at ih ⊢
    rw [count_cons key x n w]
    by_cases atKey : key = id
    · rw [if_pos atKey,count_cons,ih]
      grind
    · rw [if_neg atKey,count_cons,ih]
      grind

end Waiting

namespace Edge

/-- Edges into a task from outside a set of tasks. -/
def open? (done : List String) (id : String) (e : Edge) : Bool :=
  e.target == id && !done.contains e.source

theorem countP_open_cons (edges : List Edge) (done : List String) (id x : String)
    (fresh : id ∉ done) :
    edges.countP (open? done x) =
      edges.countP (open? (id :: done) x) + (successors edges id).count x := by
  induction edges with
  | nil => rfl
  | cons e edges ih =>
    simp only [successors] at ih ⊢
    by_cases out : e.source = id
    · by_cases into : e.target = x
      · simp [open?,out,into,fresh] at ih ⊢
        omega
      · simpa [List.countP_cons,open?,out,into] using ih
    · have same : open? (id :: done) x e = open? done x e := by simp [open?,out]
      simp only [List.countP_cons,same,List.filter_cons,beq_iff_eq,out,if_false]
      omega

end Edge

namespace Sweep

def release? (s : Sweep) (id : String) : Option Sweep :=
  if s.waiting.count id = 0 then none else some (s.release id)

def step? (edges : List Edge) (s : Sweep) : Option Sweep :=
  match s.ready with
  | [] => some s
  | id :: ready =>
    (Edge.successors edges id).foldlM release? { s with ready := ready,emitted := id :: s.emitted }

/-- A run that fails where a count would fall below zero. -/
def run? (edges : List Edge) : Nat → Sweep → Option Sweep
  | 0,s => some s
  | n + 1,s => (s.step? edges).bind (run? edges n)

/-- A sweep under way, where the tasks `pending` are still to be released by the task emitted
last. -/
structure Sound (ids : List String) (edges : List Edge) (pending : List String) (s : Sweep) :
    Prop where
  counted : ∀ id ∈ ids,
    s.waiting.count id = edges.countP (Edge.open? s.emitted id) + pending.count id
  settled : ∀ id ∈ ids, s.waiting.count id = 0 ↔ id ∈ s.emitted ∨ id ∈ s.ready
  unique : (s.emitted ++ s.ready).Nodup
  known : ∀ id ∈ s.emitted ++ s.ready, id ∈ ids
  ordered : ∀ e ∈ edges, e.target ∈ s.emitted → Edge.Precedes s.emitted.reverse e.source e.target

variable {ids : List String} {edges : List Edge}

theorem sound_ofWaiting (unique : ids.Nodup) (waiting : Waiting)
    (counts : ∀ id ∈ ids, waiting.count id = edges.countP (·.target == id)) :
    Sound ids edges [] (ofWaiting ids waiting) where
  counted := by
    intro id member
    have all : Edge.open? [] id = fun e => e.target == id := by
      funext e
      simp [Edge.open?]
    simpa [ofWaiting,all] using counts id member
  settled := by
    intro id member
    simp [ofWaiting,member]
  unique := by simpa [ofWaiting] using unique.filter _
  known := by
    intro id member
    simp [ofWaiting] at member
    exact member.1
  ordered := by
    intro e _ emitted
    simp [ofWaiting] at emitted

private theorem release_fields (s : Sweep) (id : String) :
    (s.release id).waiting = s.waiting.release id ∧ (s.release id).emitted = s.emitted ∧
      (s.release id).ready =
        if (s.waiting.release id).count id = 0 then s.ready ++ [id] else s.ready :=
  ⟨rfl,rfl,rfl⟩

theorem Sound.count_pos {pending : List String} {s : Sweep} {id : String}
    (sound : Sound ids edges (id :: pending) s) (member : id ∈ ids) :
    0 < s.waiting.count id := by
  have counted := sound.counted id member
  simp at counted
  omega

theorem Sound.release {pending : List String} {s : Sweep} {id : String}
    (sound : Sound ids edges (id :: pending) s) (member : id ∈ ids) :
    Sound ids edges pending (s.release id) := by
  have positive := sound.count_pos member
  have absent : id ∉ s.emitted ∧ id ∉ s.ready := by
    have settled := (sound.settled id member).not.mp (by omega)
    simpa [not_or] using settled
  obtain ⟨waiting,emitted,ready⟩ := release_fields s id
  have counted : ∀ x ∈ ids, (s.waiting.release id).count x =
      edges.countP (Edge.open? s.emitted x) + pending.count x := by
    intro x inside
    have before := sound.counted x inside
    rw [Waiting.count_release]
    by_cases same : x = id
    · subst x
      simp at before ⊢
      omega
    · simpa [same,List.count_cons,Ne.symm same] using before
  constructor
  · rw [waiting,emitted]
    exact counted
  · intro x inside
    have before := sound.settled x inside
    rw [waiting,emitted,ready]
    by_cases same : x = id
    · rw [same]
      by_cases zero : (s.waiting.release id).count id = 0
      · simp [zero]
      · simp [zero,absent]
    · rw [Waiting.count_release,if_neg same,before]
      split <;> simp [same]
  · rw [emitted,ready]
    split
    · rw [← List.append_assoc]
      refine sound.unique.append (by simp) ?_
      simpa [List.disjoint_singleton] using absent
    · exact sound.unique
  · rw [emitted,ready]
    intro x inside
    split at inside
    · simp only [← List.append_assoc,List.mem_append,List.mem_singleton] at inside
      rcases inside with old | rfl
      · exact sound.known x (by simpa using old)
      · exact member
    · exact sound.known x inside
  · rw [emitted]
    exact sound.ordered

theorem Sound.releaseAll {pending : List String} {s : Sweep} (sound : Sound ids edges pending s)
    (known : ∀ id ∈ pending, id ∈ ids) :
    Sound ids edges [] (pending.foldl Sweep.release s) ∧
      pending.foldlM release? s = some (pending.foldl Sweep.release s) := by
  induction pending generalizing s with
  | nil => exact ⟨sound,rfl⟩
  | cons id pending ih =>
    have member := known id (by simp)
    have positive := sound.count_pos member
    have released : s.release? id = some (s.release id) := if_neg (by omega)
    simp only [List.foldl_cons,List.foldlM_cons,released,Option.bind_eq_bind,Option.bind_some]
    exact ih (sound.release member) (fun x inside => known x (by simp [inside]))

theorem Sound.emit {s : Sweep} {id : String} {ready : List String}
    (sound : Sound ids edges [] s) (next : s.ready = id :: ready) :
    Sound ids edges (Edge.successors edges id)
      { s with ready := ready,emitted := id :: s.emitted } := by
  have unique := sound.unique
  rw [next] at unique
  have fresh : id ∉ s.emitted := by
    intro again
    exact (List.nodup_append.mp unique).2.2 id again id (by simp) rfl
  have member : id ∈ ids := sound.known id (by simp [next])
  have closed : ∀ e ∈ edges, e.target = id → e.source ∈ s.emitted := by
    have zero := (sound.settled id member).mpr (by simp [next])
    have none := sound.counted id member
    rw [zero] at none
    simp only [List.count_nil,Nat.add_zero] at none
    intro e inside into
    have shut := List.countP_eq_zero.mp none.symm e inside
    simpa [Edge.open?,into] using shut
  constructor
  · intro x inside
    rw [← Edge.countP_open_cons edges s.emitted id x fresh]
    simpa using sound.counted x inside
  · intro x inside
    have settled := sound.settled x inside
    simp only [next,List.mem_cons] at settled ⊢
    rw [settled]
    tauto
  · exact (List.perm_middle.nodup_iff).mp unique
  · intro x inside
    apply sound.known x
    simp only [next,List.mem_append,List.mem_cons] at inside ⊢
    tauto
  · intro e inside emitted
    simp only [List.reverse_cons]
    rcases List.mem_cons.mp emitted with into | earlier
    · exact ⟨s.emitted.reverse,[],by simp [into],by simpa using closed e inside into⟩
    · exact (sound.ordered e inside earlier).append _

theorem Sound.step {s : Sweep} (sound : Sound ids edges [] s)
    (closed : ∀ e ∈ edges, e.target ∈ ids) :
    Sound ids edges [] (s.step edges) ∧ s.step? edges = some (s.step edges) := by
  unfold Sweep.step step?
  cases next : s.ready with
  | nil => exact ⟨sound,rfl⟩
  | cons id ready =>
    apply (sound.emit next).releaseAll
    intro x inside
    simp only [Edge.successors,List.mem_map,List.mem_filter] at inside
    obtain ⟨e,⟨present,-⟩,rfl⟩ := inside
    exact closed e present

theorem Sound.run {s : Sweep} (sound : Sound ids edges [] s)
    (closed : ∀ e ∈ edges, e.target ∈ ids) (n : Nat) :
    Sound ids edges [] (Sweep.run edges n s) ∧ run? edges n s = some (Sweep.run edges n s) := by
  induction n generalizing s with
  | zero => exact ⟨sound,rfl⟩
  | succ n ih =>
    obtain ⟨next,checked⟩ := sound.step closed
    simp only [Sweep.run,run?,checked,Option.bind_some]
    exact ih next

theorem releaseAll_emitted (pending : List String) (s : Sweep) :
    (pending.foldl Sweep.release s).emitted = s.emitted := by
  induction pending generalizing s with
  | nil => rfl
  | cons id pending ih => exact ih (s.release id)

private theorem step_emitted (s : Sweep) (busy : s.ready ≠ []) :
    (s.step edges).emitted.length = s.emitted.length + 1 := by
  unfold Sweep.step
  cases next : s.ready with
  | nil => exact absurd next busy
  | cons id ready => simp [releaseAll_emitted]

private theorem run_idle (s : Sweep) (none : s.ready = []) (n : Nat) : run edges n s = s := by
  induction n with
  | zero => rfl
  | succ n ih => simpa [Sweep.run,Sweep.step,none] using ih

private theorem run_busy (edges : List Edge) (s : Sweep) (n : Nat) :
    (run edges n s).ready = [] ∨ (run edges n s).emitted.length = s.emitted.length + n := by
  induction n generalizing s with
  | zero => exact .inr rfl
  | succ n ih =>
    by_cases none : s.ready = []
    · exact .inl (by rw [run_idle s none,none])
    · rcases ih (s.step edges) with idle | busy
      · exact .inl idle
      · exact .inr (by simp only [Sweep.run,busy,step_emitted s none]; omega)

/-- One step for each task empties the queue: no task is emitted twice. -/
theorem Sound.exhausted {s : Sweep} (sound : Sound ids edges [] s)
    (closed : ∀ e ∈ edges, e.target ∈ ids) : (Sweep.run edges ids.length s).ready = [] := by
  have final := (sound.run closed ids.length).1
  rcases run_busy edges s ids.length with idle | busy
  · exact idle
  · have bound := (List.subperm_of_subset final.unique final.known).length_le
    simp only [List.length_append] at bound
    exact List.length_eq_zero_iff.mp (by omega)

end Sweep

end PipelineAtlas
