/-! Classes of characters given by ranges of code points. -/
namespace PipelineAtlas.Text

def inRanges (ranges : List (Nat × Nat)) (n : Nat) : Bool :=
  ranges.any fun r => decide (r.1 ≤ n) && decide (n ≤ r.2)

end PipelineAtlas.Text
