/-! Node names that are safe in a flowchart. A name is the letter n and the magnitude of a 32-bit
hash of the file and the key that the node stands for. -/
namespace PipelineAtlas

def codeUnits (c : Char) : List Nat :=
  if c.toNat < 0x10000 then [c.toNat]
  else [0xD800 + (c.toNat - 0x10000) / 0x400,0xDC00 + (c.toNat - 0x10000) % 0x400]

/-- One step of the hash: times 31, plus the code unit, in 32 bits with a sign. -/
def hashStep (h : Int) (u : Nat) : Int := Int.bmod (h * 31 + u) 0x100000000

def hashCode (s : String) : Int := (s.toList.flatMap codeUnits).foldl hashStep 0

def nodeId (file key : String) : String :=
  "n" ++ toString (hashCode (file ++ "::" ++ key)).natAbs

end PipelineAtlas
