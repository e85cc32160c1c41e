import PipelineAtlas.Proofs.Mermaid

/-! Flowcharts can be read back. Only the quotation marks of a label are escaped, and a backslash at the end
of a label looks like one, so a label may seem to go on behind its end. It never does so in a whole
chart: what goes on in one reading would have to go on in the other one, and so forth without end. -/
namespace PipelineAtlas

def IsNumbered (id : String) : Prop :=
  ∃ digits : List Char, (∀ d ∈ digits, d.isDigit = true) ∧ id.toList = 'n' :: digits

theorem IsNumbered.absent {id : String} (numbered : IsNumbered id) {c : Char} (letter : c ≠ 'n')
    (noDigit : c.isDigit = false) : c ∉ id.toList := by
  obtain ⟨digits,digit,split⟩ := numbered
  rw [split,List.mem_cons,not_or]
  refine ⟨letter,fun inside => ?_⟩
  rw [digit c inside] at noDigit
  cases noDigit

theorem IsNumbered.isWhole {id : String} (numbered : IsNumbered id) : Text.IsWhole id.toList where
  unbroken := numbered.absent (by decide) (by decide)
  uncut last := numbered.absent (c := '\r') (by decide) (by decide) (List.mem_of_getLast? last)
  nonempty := by
    obtain ⟨digits,-,split⟩ := numbered
    rw [split]
    exact List.cons_ne_nil _ _

theorem IsNodeName.isNumbered {id : String} (name : IsNodeName id) : IsNumbered id := by
  obtain ⟨n,-,rfl⟩ := name
  have shown : (toString n).toList = Nat.toDigits 10 n := Nat.toList_repr
  refine ⟨Nat.toDigits 10 n,fun d inside => ?_,?_⟩
  · exact Nat.isDigit_of_mem_toDigits (by decide) (by decide) inside
  · rw [String.toList_append,shown]
    rfl

namespace Mermaid

private theorem split_at_first {mark : α} {before before' after after' : List α}
    (absent : mark ∉ before) (absent' : mark ∉ before')
    (same : before ++ mark :: after = before' ++ mark :: after') :
    before = before' ∧ after = after' := by
  induction before generalizing before' with
  | nil =>
    cases before' with
    | nil => exact ⟨rfl,(List.cons.inj same).2⟩
    | cons x before' => exact absurd (by simp [(List.cons.inj same).1]) absent'
  | cons x before ih =>
    cases before' with
    | nil => exact absurd (by simp [(List.cons.inj same).1]) absent
    | cons y before' =>
      rw [List.mem_cons,not_or] at absent absent'
      obtain ⟨rfl,rest⟩ := List.cons.inj same
      obtain ⟨rfl,behind⟩ := ih absent.2 absent'.2 rest
      exact ⟨rfl,behind⟩

def escaped (label : List Char) : List Char :=
  label.flatMap fun c => if c = '"' then ['\\','"'] else [c]

theorem toList_escapeLabel (label : String) : (escapeLabel label).toList = escaped label.toList := by
  rw [escapeLabel,String.toList_ofList,escaped]

theorem escaped_quote (label : List Char) : escaped ('"' :: label) = '\\' :: '"' :: escaped label :=
  rfl

theorem escaped_other {c : Char} (other : c ≠ '"') (label : List Char) :
    escaped (c :: label) = c :: escaped label := by
  rw [escaped,List.flatMap_cons,if_neg other]
  rfl

theorem eq_nil_of_escaped {label : List Char} (nothing : escaped label = []) : label = [] := by
  cases label with
  | nil => rfl
  | cons c label =>
    by_cases quote : c = '"'
    · rw [quote,escaped_quote] at nothing
      cases nothing
    · rw [escaped_other quote] at nothing
      cases nothing

/-- A quotation mark in an escaped label is one of the label, behind its backslash. -/
theorem escaped_split {label before after : List Char} (split : escaped label = before ++ '"' :: after) :
    ∃ front back, label = front ++ '"' :: back ∧ before = escaped front ++ ['\\'] ∧
      after = escaped back := by
  induction label generalizing before with
  | nil => simp [escaped] at split
  | cons c label ih =>
    by_cases quote : c = '"'
    · subst quote
      rw [escaped_quote] at split
      match before with
      | [] => simp at split
      | [b] =>
        simp only [List.cons_append,List.nil_append,List.cons.injEq,true_and] at split
        obtain ⟨rfl,rfl⟩ := split
        exact ⟨[],label,rfl,rfl,rfl⟩
      | b :: d :: before =>
        simp only [List.cons_append,List.cons.injEq] at split
        obtain ⟨rfl,rfl,rest⟩ := split
        obtain ⟨front,back,rfl,rfl,rfl⟩ := ih rest
        exact ⟨'"' :: front,back,rfl,rfl,rfl⟩
    · rw [escaped_other quote] at split
      cases before with
      | nil => exact absurd (List.cons.inj split).1 quote
      | cons b before =>
        obtain ⟨rfl,rest⟩ := List.cons.inj split
        obtain ⟨front,back,rfl,rfl,rfl⟩ := ih rest
        refine ⟨c :: front,back,rfl,?_,rfl⟩
        rw [escaped_other quote,List.cons_append]

theorem escaped_ne_quote {label after : List Char} : escaped label ≠ '"' :: after := by
  intro split
  obtain ⟨front,-,-,before,-⟩ := escaped_split (split.trans (List.nil_append _).symm)
  simp at before

theorem escaped_cons {label after : List Char} {c : Char} (other : c ≠ '"') (noSlash : c ≠ '\\')
    (split : escaped label = c :: after) : ∃ back, label = c :: back ∧ after = escaped back := by
  cases label with
  | nil => simp [escaped] at split
  | cons d label =>
    by_cases quote : d = '"'
    · subst quote
      rw [escaped_quote] at split
      exact absurd (List.cons.inj split).1.symm noSlash
    · rw [escaped_other quote] at split
      obtain ⟨rfl,rfl⟩ := List.cons.inj split
      exact ⟨label,rfl,rfl⟩

theorem escaped_injective {a b : List Char} (same : escaped a = escaped b) : a = b := by
  induction a generalizing b with
  | nil => rw [eq_nil_of_escaped same.symm]
  | cons c a ih =>
    cases b with
    | nil => rw [eq_nil_of_escaped same]
    | cons d b =>
      by_cases quote : c = '"' <;> by_cases quote' : d = '"'
      · subst quote quote'
        simp only [escaped_quote,List.cons.injEq,true_and] at same
        rw [ih same]
      · subst quote
        rw [escaped_quote,escaped_other quote'] at same
        exact absurd (List.cons.inj same).2.symm escaped_ne_quote
      · subst quote'
        rw [escaped_quote,escaped_other quote] at same
        exact absurd (List.cons.inj same).2 escaped_ne_quote
      · rw [escaped_other quote,escaped_other quote'] at same
        obtain ⟨rfl,rest⟩ := List.cons.inj same
        rw [ih rest]

/-- The label that a chart shows. An empty one gives way to the name of its node. -/
def shownLabel (id label : String) : String := if label.isEmpty then id else label

/-- A chart without its header. -/
def body (nodes edges : List (String × String)) : List Char :=
  (rows nodes edges).flatMap fun row => '\n' :: row.toList

def opening (id : String) : List Char := '\n' :: ' ' :: ' ' :: (id.toList ++ ['['])

theorem body_cons (id label : String) (nodes edges : List (String × String)) :
    body ((id,label) :: nodes) edges = opening id ++
      '"' :: (escaped (shownLabel id label).toList ++ '"' :: ']' :: body nodes edges) := by
  simp [body,rows,nodeText,opening,toList_escapeLabel,shownLabel]

theorem flowchart_eq_iff {nodes edges nodes' edges' : List (String × String)} :
    flowchart nodes edges = flowchart nodes' edges' ↔ body nodes edges = body nodes' edges' := by
  rw [← String.toList_inj,toList_flowchart,toList_flowchart,List.append_right_inj,body,body]

theorem body_congr {nodes nodes' : List (String × String)}
    (shown : nodes.map (fun n => (n.1,shownLabel n.1 n.2)) =
      nodes'.map fun n => (n.1,shownLabel n.1 n.2)) (edges : List (String × String)) :
    body nodes edges = body nodes' edges := by
  induction nodes generalizing nodes' with
  | nil => rw [List.map_eq_nil_iff.mp shown.symm]
  | cons n nodes ih =>
    cases nodes' with
    | nil => cases shown
    | cons n' nodes' =>
      obtain ⟨here,rest⟩ := List.cons.inj shown
      obtain ⟨ids,labels⟩ := Prod.mk.inj here
      rw [body_cons,body_cons,ih rest,labels,ids]

theorem quote_mem_body (n : String × String) (nodes edges : List (String × String)) :
    '"' ∈ body (n :: nodes) edges := by
  rw [body_cons]
  exact List.mem_append_right _ List.mem_cons_self

/-- Names of nodes and ends of edges are the letter n and digits. -/
structure Numbered (nodes edges : List (String × String)) : Prop where
  nodes : ∀ n ∈ nodes, IsNumbered n.1
  edges : ∀ e ∈ edges, IsNumbered e.1 ∧ IsNumbered e.2

theorem Numbered.tail {n : String × String} {nodes edges : List (String × String)}
    (numbered : Numbered (n :: nodes) edges) : Numbered nodes edges :=
  ⟨fun m inside => numbered.nodes m (List.mem_cons_of_mem n inside),numbered.edges⟩

theorem quote_notMem_opening {id : String} (numbered : IsNumbered id) : '"' ∉ opening id := by
  have absent : '"' ∉ id.toList := numbered.absent (by decide) (by decide)
  simp [opening,absent]

theorem quote_notMem_edges {edges : List (String × String)} (numbered : Numbered [] edges) :
    '"' ∉ body [] edges := by
  intro inside
  obtain ⟨row,member,shown⟩ := List.mem_flatMap.mp inside
  obtain ⟨e,among,rfl⟩ := List.mem_map.mp member
  have source : '"' ∉ e.1.toList := (numbered.edges e among).1.absent (by decide) (by decide)
  have target : '"' ∉ e.2.toList := (numbered.edges e among).2.absent (by decide) (by decide)
  simp [edgeText,source,target] at shown

/-- No chart goes on behind a node as if a label had not ended there. What would have to come first in
the label is the start of the next node, and what comes behind would go on in the same way, with one
node less. -/
theorem body_ne_continued {nodes nodes' edges edges' : List (String × String)}
    (numbered : Numbered nodes edges) (numbered' : Numbered nodes' edges') (label : List Char) :
    body nodes edges ≠ escaped label ++ '"' :: ']' :: body nodes' edges' := by
  induction size : nodes.length + nodes'.length using Nat.strongRecOn
    generalizing nodes nodes' edges edges' label with
  | _ size ih =>
  intro same
  cases nodes with
  | nil =>
    have quote : '"' ∈ body [] edges := by simp [same]
    exact quote_notMem_edges numbered quote
  | cons n nodes =>
    obtain ⟨id,text⟩ := n
    have noQuote := quote_notMem_opening (numbered.nodes _ List.mem_cons_self)
    rw [body_cons] at same
    by_cases quoted : '"' ∈ escaped label
    · obtain ⟨before,after,split,first⟩ := List.eq_append_cons_of_mem quoted
      obtain ⟨front,back,-,rfl,-⟩ := escaped_split split
      rw [split,List.append_assoc,List.cons_append] at same
      have start := (split_at_first noQuote first same).1
      have last := congrArg List.getLast? start
      simp [opening,List.getLast?_cons] at last
    · obtain ⟨-,rest⟩ := split_at_first noQuote quoted same
      obtain ⟨c,more,split⟩ : ∃ c more, escaped (shownLabel id text).toList = c :: more := by
        refine List.exists_cons_of_ne_nil fun nothing => ?_
        rw [nothing] at rest
        simp at rest
      rw [split,List.cons_append] at rest
      obtain ⟨rfl,behind⟩ := List.cons.inj rest
      obtain ⟨label',-,rfl⟩ := escaped_cons (by decide) (by decide) split
      refine ih _ ?_ numbered' numbered.tail label' rfl behind.symm
      simp only [List.length_cons] at size
      omega

theorem label_of_body {nodes nodes' edges edges' : List (String × String)}
    (numbered : Numbered nodes edges) (numbered' : Numbered nodes' edges') {label label' : List Char}
    (same : escaped label ++ '"' :: ']' :: body nodes edges =
      escaped label' ++ '"' :: ']' :: body nodes' edges') :
    label = label' ∧ body nodes edges = body nodes' edges' := by
  have longer {nodes nodes' edges edges' : List (String × String)} {label label' more : List Char}
      (numbered : Numbered nodes edges) (numbered' : Numbered nodes' edges')
      (labels : escaped label' = escaped label ++ more)
      (behind : '"' :: ']' :: body nodes edges = more ++ '"' :: ']' :: body nodes' edges') :
      more = [] := by
    cases more with
    | nil => rfl
    | cons c more =>
      obtain ⟨rfl,rest⟩ := List.cons.inj behind
      obtain ⟨-,back,-,-,rfl⟩ := escaped_split labels
      cases split : escaped back with
      | nil => simp [split] at rest
      | cons d after =>
        rw [split] at rest
        obtain ⟨rfl,going⟩ := List.cons.inj rest
        obtain ⟨label'',-,rfl⟩ := escaped_cons (by decide) (by decide) split
        exact absurd going (body_ne_continued numbered numbered' label'')
  rcases List.append_eq_append_iff.mp same with ⟨more,labels,behind⟩ | ⟨more,labels,behind⟩
  · obtain rfl := longer numbered numbered' labels behind
    rw [List.append_nil] at labels
    refine ⟨escaped_injective labels.symm,?_⟩
    simpa using behind
  · obtain rfl := longer numbered' numbered labels behind
    rw [List.append_nil] at labels
    refine ⟨escaped_injective labels,?_⟩
    simpa using behind.symm

theorem edgeText_injective {e e' : String × String} (numbered : IsNumbered e.1)
    (numbered' : IsNumbered e'.1) (same : edgeText e.1 e.2 = edgeText e'.1 e'.2) : e = e' := by
  have chars := congrArg String.toList same
  have absent : ' ' ∉ e.1.toList := numbered.absent (by decide) (by decide)
  have absent' : ' ' ∉ e'.1.toList := numbered'.absent (by decide) (by decide)
  have split (f : String × String) : (edgeText f.1 f.2).toList =
      ' ' :: ' ' :: (f.1.toList ++ ' ' :: ("--> ".toList ++ f.2.toList)) := by
    simp [edgeText]
  rw [split,split] at chars
  obtain ⟨sources,targets⟩ := split_at_first absent absent' (List.cons.inj (List.cons.inj chars).2).2
  exact Prod.ext (String.toList_inj.mp sources)
    (String.toList_inj.mp ((List.append_right_inj _).mp targets))

private theorem eq_of_edgeTexts {edges edges' : List (String × String)}
    (numbered : Numbered [] edges) (numbered' : Numbered [] edges')
    (same : edges.map (fun e => edgeText e.1 e.2) = edges'.map fun e => edgeText e.1 e.2) :
    edges = edges' := by
  induction edges generalizing edges' with
  | nil => exact (List.map_eq_nil_iff.mp same.symm).symm
  | cons e edges ih =>
    cases edges' with
    | nil => cases same
    | cons e' edges' =>
      obtain ⟨here,rest⟩ := List.cons.inj same
      have first := edgeText_injective (numbered.edges e List.mem_cons_self).1
        (numbered'.edges e' List.mem_cons_self).1 here
      have others := ih ⟨by simp,fun f inside => numbered.edges f (List.mem_cons_of_mem e inside)⟩
        ⟨by simp,fun f inside => numbered'.edges f (List.mem_cons_of_mem e' inside)⟩ rest
      rw [first,others]

theorem edges_of_body {edges edges' : List (String × String)} (numbered : Numbered [] edges)
    (numbered' : Numbered [] edges') (same : body [] edges = body [] edges') : edges = edges' := by
  have whole {edges : List (String × String)} (numbered : Numbered [] edges) :
      ∀ e ∈ edges, '\n' ∉ e.1.toList ∧ Text.IsWhole e.2.toList := fun e inside =>
    ⟨(numbered.edges e inside).1.isWhole.unbroken,(numbered.edges e inside).2.isWhole⟩
  have noNodes : ∀ n ∈ ([] : List (String × String)), '\n' ∉ n.1.toList ∧ '\n' ∉ n.2.toList := by
    simp
  have lines := congrArg (fun chart => (Text.lines chart.toList).map String.ofList)
    (flowchart_eq_iff.mpr same)
  simp only [lines_flowchart noNodes (whole numbered),
    lines_flowchart noNodes (whole numbered')] at lines
  exact eq_of_edgeTexts numbered numbered' (List.cons.inj lines).2

theorem eq_of_body {nodes nodes' edges edges' : List (String × String)}
    (numbered : Numbered nodes edges) (numbered' : Numbered nodes' edges')
    (same : body nodes edges = body nodes' edges') :
    nodes.map (fun n => (n.1,shownLabel n.1 n.2)) =
      nodes'.map (fun n => (n.1,shownLabel n.1 n.2)) ∧ edges = edges' := by
  induction nodes generalizing nodes' with
  | nil =>
    cases nodes' with
    | nil => exact ⟨rfl,edges_of_body numbered numbered' same⟩
    | cons n nodes' =>
      have quote : '"' ∈ body [] edges := same ▸ quote_mem_body n nodes' edges'
      exact absurd quote (quote_notMem_edges numbered)
  | cons n nodes ih =>
    cases nodes' with
    | nil =>
      have quote : '"' ∈ body [] edges' := same ▸ quote_mem_body n nodes edges
      exact absurd quote (quote_notMem_edges numbered')
    | cons n' nodes' =>
      have name := numbered.nodes n List.mem_cons_self
      have name' := numbered'.nodes n' List.mem_cons_self
      rw [body_cons,body_cons] at same
      obtain ⟨starts,labels⟩ :=
        split_at_first (quote_notMem_opening name) (quote_notMem_opening name') same
      have ids : n.1 = n'.1 := by
        simpa [opening,String.toList_inj] using starts
      obtain ⟨shown,rest⟩ := label_of_body numbered.tail numbered'.tail labels
      obtain ⟨others,ends⟩ := ih numbered.tail numbered'.tail rest
      refine ⟨?_,ends⟩
      rw [List.map_cons,List.map_cons,others,String.toList_inj.mp shown,ids]

end Mermaid

namespace PipelineGraph

/-- Names of nodes and ends of edges are the letter n and digits. -/
structure IsNumbered (g : PipelineGraph) : Prop where
  nodes : ∀ n ∈ g.nodes, PipelineAtlas.IsNumbered n.id
  edges : ∀ e ∈ g.edges, PipelineAtlas.IsNumbered e.source ∧ PipelineAtlas.IsNumbered e.target

def shownNodes (g : PipelineGraph) : List (String × String) :=
  g.nodes.map fun n => (n.id,Mermaid.shownLabel n.id n.label)

theorem IsNumbered.chart {g : PipelineGraph} (numbered : g.IsNumbered) :
    Mermaid.Numbered (g.nodes.map fun n => (n.id,n.label))
      (g.edges.map fun e => (e.source,e.target)) := by
  constructor
  · intro n inside
    obtain ⟨node,member,rfl⟩ := List.mem_map.mp inside
    exact numbered.nodes node member
  · intro e inside
    obtain ⟨edge,member,rfl⟩ := List.mem_map.mp inside
    exact numbered.edges edge member

end PipelineGraph

namespace Mermaid

/-- The chart of a graph determines the names of its nodes with the labels that it shows, and its edges,
all of them in their order, whatever the labels imitate. -/
theorem ofGraph_eq_iff {g h : PipelineGraph} (numbered : g.IsNumbered) (numbered' : h.IsNumbered) :
    ofGraph g = ofGraph h ↔ g.shownNodes = h.shownNodes ∧ g.edges = h.edges := by
  have ends : Function.Injective fun e : GraphEdge => (e.source,e.target) := by
    rintro ⟨source,target⟩ ⟨source',target'⟩ same
    cases same
    rfl
  have shown (g : PipelineGraph) :
      (g.nodes.map fun n => (n.id,n.label)).map (fun n => (n.1,shownLabel n.1 n.2)) =
        g.shownNodes := List.map_map
  rw [ofGraph,ofGraph,flowchart_eq_iff]
  constructor
  · intro same
    obtain ⟨nodes,edges⟩ := eq_of_body numbered.chart numbered'.chart same
    rw [shown,shown] at nodes
    exact ⟨nodes,List.map_injective_iff.mpr ends edges⟩
  · rintro ⟨nodes,edges⟩
    rw [edges]
    exact body_congr (by rw [shown,shown,nodes]) _

/-- Two nodes, the first with a label that ends in a backslash and the second with one that looks like the
end of a node line. -/
def imitated : PipelineGraph where
  nodes := [⟨nodeId "ci.yml" "build","\\"⟩,⟨nodeId "ci.yml" "test","]"⟩]
  edges := [⟨nodeId "ci.yml" "build",nodeId "ci.yml" "test"⟩]

/-- One node with a label that looks like the end of its line and a second line. -/
def imitating : PipelineGraph where
  nodes := [⟨nodeId "ci.yml" "build","\"]\n  " ++ nodeId "ci.yml" "test" ++ "["⟩]
  edges := [⟨nodeId "ci.yml" "build",nodeId "ci.yml" "test"⟩]

theorem ofGraph_eq_iff_imitated : imitated.IsNumbered ∧ imitating.IsNumbered ∧
    (ofGraph imitated = ofGraph imitating ↔
      imitated.shownNodes = imitating.shownNodes ∧ imitated.edges = imitating.edges) ∧
    ofGraph imitated ≠ ofGraph imitating := by
  have named (key : String) := (isNodeName_nodeId "ci.yml" key).isNumbered
  have first : imitated.IsNumbered :=
    ⟨by simp [imitated,named],by simp [imitated,named]⟩
  have second : imitating.IsNumbered :=
    ⟨by simp [imitating,named],by simp [imitating,named]⟩
  have determined := ofGraph_eq_iff first second
  refine ⟨first,second,determined,fun same => ?_⟩
  have nodes := congrArg List.length (determined.mp same).1
  simp [PipelineGraph.shownNodes,imitated,imitating] at nodes

end Mermaid

end PipelineAtlas
