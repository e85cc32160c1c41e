import PipelineAtlas.Text.Lines

/-! Texts written line by line have the lines that were written. -/
namespace PipelineAtlas.Text

/-- A line that reading neither breaks nor shortens nor passes over. -/
structure IsWhole (line : List Char) : Prop where
  unbroken : '\n' ∉ line
  uncut : line.getLast? ≠ some '\r'
  nonempty : line ≠ []

theorem IsWhole.append {before line : List Char} (unbroken : '\n' ∉ before) (whole : IsWhole line) :
    IsWhole (before ++ line) where
  unbroken := by
    rw [List.mem_append,not_or]
    exact ⟨unbroken,whole.unbroken⟩
  uncut := by
    rw [List.getLast?_append,Option.or_of_isSome (by simpa using whole.nonempty)]
    exact whole.uncut
  nonempty := List.append_ne_nil_of_right_ne_nil _ whole.nonempty

theorem linesFrom_append {line : List Char} (unbroken : '\n' ∉ line) (begun rest : List Char) :
    linesFrom begun (line ++ rest) = linesFrom (line.reverse ++ begun) rest := by
  induction line generalizing begun with
  | nil => rfl
  | cons c line ih =>
    rw [List.mem_cons,not_or] at unbroken
    obtain ⟨here,later⟩ := unbroken
    rw [List.cons_append,linesFrom,if_neg (Ne.symm here),ih later]
    simp

theorem endedLine_reverse {line : List Char} (uncut : line.getLast? ≠ some '\r') :
    endedLine line.reverse = line := by
  rw [← List.head?_reverse] at uncut
  unfold endedLine
  split
  next cs turned =>
    rw [turned] at uncut
    exact absurd rfl uncut
  next => exact List.reverse_reverse line

theorem lines_joined {first : List Char} {rest : List (List Char)} (whole : IsWhole first)
    (others : ∀ line ∈ rest, IsWhole line) :
    lines (first ++ rest.flatMap ('\n' :: ·)) = first :: rest := by
  induction rest generalizing first with
  | nil =>
    rw [lines,linesFrom_append whole.unbroken]
    simp [linesFrom,whole.nonempty]
  | cons line rest ih =>
    obtain ⟨here,later⟩ := List.forall_mem_cons.mp others
    rw [List.flatMap_cons,lines,linesFrom_append whole.unbroken,List.append_nil,List.cons_append,
      linesFrom,if_pos rfl,endedLine_reverse whole.uncut]
    exact congrArg _ (ih here later)

theorem lines_ended {ls : List (List Char)} (whole : ∀ line ∈ ls, IsWhole line) :
    lines (ls.flatMap fun line => line ++ ['\n']) = ls := by
  induction ls with
  | nil => rfl
  | cons line ls ih =>
    obtain ⟨here,later⟩ := List.forall_mem_cons.mp whole
    rw [List.flatMap_cons,lines,List.append_assoc,linesFrom_append here.unbroken,List.append_nil,
      List.singleton_append,linesFrom,if_pos rfl,endedLine_reverse here.uncut]
    exact congrArg _ (ih later)

/-- A text that is not empty and does not end with a line feed has one line more than line feeds. -/
theorem length_linesFrom {s : List Char} (visible : s.getLast? ≠ some '\n') {begun : List Char}
    (nonempty : begun ≠ [] ∨ s ≠ []) : (linesFrom begun s).length = s.count '\n' + 1 := by
  induction s generalizing begun with
  | nil => simp [linesFrom,nonempty.resolve_right (by simp)]
  | cons c s ih =>
    rw [linesFrom]
    split
    next feed =>
      subst feed
      have more : s ≠ [] := by
        rintro rfl
        exact visible rfl
      rw [List.getLast?_cons_of_ne_nil more] at visible
      rw [List.length_cons,ih visible (.inr more),List.count_cons_self]
    next other =>
      rw [List.count_cons_of_ne other]
      refine ih (fun last => visible ?_) (.inl (List.cons_ne_nil c begun))
      have more : s ≠ [] := by
        rintro rfl
        cases last
      rw [List.getLast?_cons_of_ne_nil more,last]

theorem lines_rows {first : String} {rest : List String} (whole : IsWhole first.toList)
    (others : ∀ row ∈ rest, IsWhole row.toList) :
    (lines (first.toList ++ rest.flatMap fun row => '\n' :: row.toList)).map String.ofList =
      first :: rest := by
  have joined := lines_joined whole (List.forall_mem_map.mpr others)
  rw [List.flatMap_map] at joined
  rw [joined,List.map_cons,List.map_map,String.ofList_toList]
  refine congrArg _ ((List.map_congr_left fun row _ => ?_).trans (List.map_id rest))
  exact String.ofList_toList

end PipelineAtlas.Text
