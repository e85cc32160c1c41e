import PipelineAtlas.Proofs.Dag.Builder
import PipelineAtlas.Proofs.Dag.Operation
import PipelineAtlas.Proofs.Sweep.Queue

/-! The order in which a valid DAG serves its tasks. Of the tasks that are ready at the same time the
one that was released first comes first. The order of declaration decides only between tasks that
wait for nothing, and between others the order of the edges of the task that released them. -/
namespace PipelineAtlas.Dag

/-- A task that has not been served and waits for none that has not. -/
structure Ready (d : Dag) (done : List String) (id : String) : Prop where
  member : id ∈ d.ids
  fresh : id ∉ done
  released : ∀ other, Edge.Leads d.edges other id → other ∈ done

/-- Of the tasks that are ready, the one in front of the others. -/
structure First (d : Dag) (before : String → String → Prop) (done : List String) (id : String) :
    Prop where
  ready : d.Ready done id
  front : ∀ other, d.Ready done other → other ≠ id → before id other

/-- An execution order in which tasks come as they are released. -/
structure Serves (d : Dag) (order : List String) : Prop where
  perm : order.Perm d.ids
  unique : order.Nodup
  respected : Edge.Respected d.edges order
  served : order.Pairwise (Edge.ServedBefore d.ids d.edges order)
  rootsFirst : ∃ rest, order = d.roots ++ rest ∧ ∀ id ∈ rest, d.predecessors id ≠ []

variable {d : Dag} {order front rear : List String} {id other : String}

theorem Consistent.queued (consistent : Consistent d) :
    Sweep.Queued d.ids d.edges (Sweep.complete d.ids d.edges) := by
  have counts := fun id member => Waiting.count_start d.edges consistent.distinct id member
  have initial := Sweep.sound_ofWaiting consistent.distinct _ counts
  exact (Sweep.queued_ofWaiting _ counts).run initial consistent.unique
    (fun e inside => (consistent.closed e inside).2) _

theorem Valid.exists_served (valid : Valid d) :
    ∃ order, d.topologicalSort = .ok order ∧ d.Serves order := by
  have consistent := valid.consistent
  have finished := consistent.finished
  have free := (finished.blocked_iff consistent.closed).mpr valid.acyclic
  have queued := consistent.queued
  have split := queued
  rw [Sweep.Queued,finished.idle,List.append_nil] at split
  have perm := finished.perm_iff.mpr free
  refine ⟨_,consistent.sort_ok free,perm,perm.nodup_iff.mpr consistent.distinct,
    finished.respected (fun e inside => (consistent.closed e inside).2) free,
    by simpa [finished.idle] using queued.pairwise,
    Sweep.released d.edges (Sweep.complete d.ids d.edges).emitted,?_,fun id member => ?_⟩
  · rw [split,roots_eq]
    rfl
  · obtain ⟨last,-,releases⟩ := Sweep.releases_of_released member
    exact releases.predecessors_ne_nil

theorem Serves.distinct (serves : d.Serves order) : d.ids.Nodup :=
  serves.perm.nodup_iff.mp serves.unique

theorem Serves.ready (serves : d.Serves (front ++ id :: rear)) : d.Ready front id := by
  refine ⟨serves.perm.subset (by simp),fun again => ?_,fun other edge => ?_⟩
  · exact (List.nodup_append.mp serves.unique).2.2 id again id (by simp) rfl
  · exact (Edge.precedes_iff_mem serves.unique).mp (serves.respected _ edge)

theorem Serves.precedes (serves : d.Serves (front ++ id :: rear)) (ready : d.Ready front other)
    (apart : other ≠ id) : Edge.Precedes (front ++ id :: rear) id other := by
  have member := serves.perm.symm.subset ready.member
  refine (Edge.precedes_or (by simp) member apart.symm).resolve_right fun before => ?_
  exact ready.fresh ((Edge.precedes_iff_mem serves.unique).mp before)

theorem Serves.first (serves : d.Serves (front ++ id :: rear)) :
    d.First (Edge.ServedBefore d.ids d.edges (front ++ id :: rear)) front id :=
  ⟨serves.ready,fun _ ready apart => (serves.precedes ready apart).of_pairwise serves.served⟩

theorem Ready.later {more : List String} (ready : d.Ready front id) (absent : id ∉ front ++ more) :
    d.Ready (front ++ more) id :=
  ⟨ready.member,absent,fun other edge => List.mem_append_left _ (ready.released other edge)⟩

theorem Serves.served_of_declared (serves : d.Serves order)
    (declared : ∀ front id rear, order = front ++ id :: rear →
      d.First (Edge.Precedes d.ids) front id)
    {done : List String} {a b : String} (sofar : done <+: order) (ready : d.Ready done a)
    (readyToo : d.Ready done b) (before : Edge.Precedes d.ids a b) :
    Edge.ServedBefore d.ids d.edges order a b := by
  have unique := serves.unique
  have apart := before.ne serves.distinct
  have aIn := serves.perm.symm.subset ready.member
  have bIn := serves.perm.symm.subset readyToo.member
  rcases Edge.precedes_or aIn bIn apart with first | last
  · exact first.of_pairwise serves.served
  · -- If `b` came first, `a` would still be ready there, though it was declared before `b`.
    obtain ⟨rest,rfl⟩ := sofar
    have left : b ∈ rest := (List.mem_append.mp bIn).resolve_left readyToo.fresh
    obtain ⟨more,rear,rfl⟩ := List.append_of_mem left
    rw [← List.append_assoc] at declared unique last
    have absent : a ∉ done ++ more := fun again =>
      last.asymm unique ((Edge.precedes_iff_mem unique).mpr again)
    have after := (declared _ b rear rfl).front a (ready.later absent) apart
    exact absurd after (before.asymm serves.distinct)

theorem Serves.declared_iff (serves : d.Serves order) (edgesUnique : d.edges.Nodup) :
    (∀ front id rear, order = front ++ id :: rear → d.First (Edge.Precedes d.ids) front id) ↔
      ∀ done a b, done <+: order → d.Ready done a → d.Ready done b → Edge.Precedes d.ids a b →
        Edge.ServedBefore d.ids d.edges order a b := by
  constructor
  · intro declared done a b sofar ready readyToo before
    exact serves.served_of_declared declared sofar ready readyToo before
  · rintro agree front id rear rfl
    have served := serves.first
    refine ⟨served.ready,fun other ready apart => ?_⟩
    have members := Edge.precedes_or served.ready.member ready.member apart.symm
    refine members.resolve_right fun before => ?_
    have earlier := agree front other id ⟨id :: rear,rfl⟩ ready served.ready before
    exact earlier.asymm serves.distinct edgesUnique serves.unique (served.front other ready apart)

theorem Consistent.sort_congr {e : Dag} (consistent : Consistent d) (consistentToo : Consistent e)
    (ids : e.ids = d.ids) (successors : ∀ id, e.successors id = d.successors id) :
    e.topologicalSort = d.topologicalSort := by
  have same := Sweep.complete_congr consistentToo.unique consistent.unique successors d.ids
  cases blocked : (Sweep.complete d.ids d.edges).blocked d.ids with
  | nil =>
    rw [consistent.sort_ok blocked,consistentToo.sort_ok (by rw [ids,same,blocked]),ids,same]
  | cons id rest =>
    rw [consistent.sort_error blocked,consistentToo.sort_error (by rw [ids,same,blocked])]

/-- At each place of the execution order stands, of the tasks that are ready there, the one that is
served first. This is always the one declared first if and only if, of any two tasks that are ready
at the same time, the one declared first is served first. Of the order in which edges are declared
only the order of the edges of each single task counts. -/
theorem ties_of_reachable (d : Dag) (reachable : Reachable d) (acyclic : ¬ Edge.Cyclic d.edges) :
    ∃ order, d.topologicalSort = .ok order ∧
      (∀ front id rear, order = front ++ id :: rear →
        d.First (Edge.ServedBefore d.ids d.edges order) front id) ∧
      ((∀ front id rear, order = front ++ id :: rear →
          d.First (Edge.Precedes d.ids) front id) ↔
        ∀ done a b, done <+: order → d.Ready done a → d.Ready done b → Edge.Precedes d.ids a b →
          Edge.ServedBefore d.ids d.edges order a b) ∧
      ∀ e, Reachable e → e.ids = d.ids → (∀ id, e.successors id = d.successors id) →
        e.topologicalSort = .ok order := by
  have consistent := reachable.consistent
  obtain ⟨order,sorted,serves⟩ := Valid.exists_served ⟨consistent,acyclic⟩
  refine ⟨order,sorted,?_,serves.declared_iff consistent.unique,?_⟩
  · rintro front id rear rfl
    exact serves.first
  · intro e reachableToo ids successors
    exact (consistent.sort_congr reachableToo.consistent ids successors).trans sorted

def twoPairs (edges : List Edge) : Dag := drawn ["a","b","c","d"] edges

theorem ties_of_twoPairs :
    Reachable (twoPairs [⟨"b","c"⟩,⟨"a","d"⟩]) ∧
    ¬ Edge.Cyclic (twoPairs [⟨"b","c"⟩,⟨"a","d"⟩]).edges ∧
    (twoPairs [⟨"b","c"⟩,⟨"a","d"⟩]).topologicalSort = .ok ["a","b","d","c"] ∧
    (twoPairs [⟨"b","c"⟩,⟨"a","d"⟩]).First
      (Edge.ServedBefore ["a","b","c","d"] (twoPairs [⟨"b","c"⟩,⟨"a","d"⟩]).edges
        ["a","b","d","c"]) ["a","b"] "d" ∧
    (twoPairs [⟨"a","d"⟩,⟨"b","c"⟩]).topologicalSort = .ok ["a","b","d","c"] := by
  have reachable : Reachable (twoPairs [⟨"b","c"⟩,⟨"a","d"⟩]) := reachable_drawn _ _
  have sorted : (twoPairs [⟨"b","c"⟩,⟨"a","d"⟩]).topologicalSort = .ok ["a","b","d","c"] := by
    decide
  have acyclic : ¬ Edge.Cyclic (twoPairs [⟨"b","c"⟩,⟨"a","d"⟩]).edges :=
    reachable.consistent.validate_ok.mp (by decide)
  obtain ⟨order,found,first,-,only⟩ := ties_of_reachable _ reachable acyclic
  obtain rfl : ["a","b","d","c"] = order := Except.ok.inj (sorted.symm.trans found)
  refine ⟨reachable,acyclic,sorted,first _ _ ["c"] rfl,?_⟩
  refine only _ (reachable_drawn _ _) (by decide) fun id => ?_
  have edges : (twoPairs [⟨"b","c"⟩,⟨"a","d"⟩]).edges = [⟨"b","c"⟩,⟨"a","d"⟩] := by decide
  have swapped : (twoPairs [⟨"a","d"⟩,⟨"b","c"⟩]).edges = [⟨"a","d"⟩,⟨"b","c"⟩] := by decide
  simp only [Dag.successors,edges,swapped]
  by_cases atA : id = "a"
  · subst atA
    decide
  · by_cases atB : id = "b"
    · subst atB
      decide
    · simp [Edge.successors,Ne.symm atA,Ne.symm atB]

def fan (edges : List Edge) : Dag := drawn ["r","a","b"] edges

/-- Of two tasks that are ready at the same time the one declared last comes first, because its edge
was declared first. With the edges the other way round the order is another. -/
theorem ties_of_fan : Reachable (fan [⟨"r","b"⟩,⟨"r","a"⟩]) ∧
    ¬ Edge.Cyclic (fan [⟨"r","b"⟩,⟨"r","a"⟩]).edges ∧
    (fan [⟨"r","b"⟩,⟨"r","a"⟩]).topologicalSort = .ok (["r"] ++ "b" :: ["a"]) ∧
    ¬ (fan [⟨"r","b"⟩,⟨"r","a"⟩]).First
      (Edge.Precedes (fan [⟨"r","b"⟩,⟨"r","a"⟩]).ids) ["r"] "b" ∧
    Reachable (fan [⟨"r","a"⟩,⟨"r","b"⟩]) ∧
    (fan [⟨"r","a"⟩,⟨"r","b"⟩]).ids = (fan [⟨"r","b"⟩,⟨"r","a"⟩]).ids ∧
    (fan [⟨"r","a"⟩,⟨"r","b"⟩]).edges.Perm (fan [⟨"r","b"⟩,⟨"r","a"⟩]).edges ∧
    (fan [⟨"r","a"⟩,⟨"r","b"⟩]).topologicalSort = .ok ["r","a","b"] := by
  have reachable : Reachable (fan [⟨"r","b"⟩,⟨"r","a"⟩]) := reachable_drawn _ _
  have edges : (fan [⟨"r","b"⟩,⟨"r","a"⟩]).edges = [⟨"r","b"⟩,⟨"r","a"⟩] := by decide
  have ready : (fan [⟨"r","b"⟩,⟨"r","a"⟩]).Ready ["r"] "a" := by
    refine ⟨by decide,by decide,fun other edge => ?_⟩
    simpa [Edge.Leads,edges] using edge
  have before : Edge.Precedes (fan [⟨"r","b"⟩,⟨"r","a"⟩]).ids "a" "b" :=
    ⟨["r","a"],[],by decide,by simp⟩
  refine ⟨reachable,reachable.consistent.validate_ok.mp (by decide),by decide,fun first => ?_,
    reachable_drawn _ _,by decide,by decide,by decide⟩
  exact before.asymm reachable.consistent.distinct (first.front "a" ready (by decide))

end PipelineAtlas.Dag
