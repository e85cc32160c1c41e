/-! File trees, the paths in them, and the files that a walk through them meets. -/
namespace PipelineAtlas

/-- What is in a file: a text, or octets that are no text in UTF-8. -/
inductive Content where
  | text (s : String)
  | binary (size : Nat)
deriving DecidableEq, Repr

namespace Content

def size : Content → Nat
  | .text s => s.utf8ByteSize
  | .binary n => n

def text? : Content → Option String
  | .text s => some s
  | .binary _ => none

def ofBytes (bytes : ByteArray) : Content :=
  match String.fromUTF8? bytes with
  | some s => .text s
  | none => .binary bytes.size

end Content

/-- A file, or a directory with its entries. No two entries of a directory have one name. -/
inductive FileTree where
  | file (c : Content)
  | directory (entries : List (String × FileTree))
deriving Repr

structure FoundFile where
  path : List String
  content : Content
deriving DecidableEq, Repr

namespace FileTree

def empty : FileTree := .directory []

def isDirectory : FileTree → Bool
  | .file _ => false
  | .directory _ => true

def entries : FileTree → List (String × FileTree)
  | .file _ => []
  | .directory entries => entries

def text? : FileTree → Option String
  | .file c => c.text?
  | .directory _ => none

def setEntry (name : String) (t : FileTree) : List (String × FileTree) → List (String × FileTree)
  | [] => [(name,t)]
  | (key,old) :: rest =>
    if key = name then (name,t) :: rest else (key,old) :: setEntry name t rest

/-- Puts a file or a directory at a path, with the directories on it that are missing. A directory
that is there stays. -/
def put (new : FileTree) : List String → FileTree → FileTree
  | [],old => if new.isDirectory && old.isDirectory then old else new
  | name :: rest,old =>
    .directory (setEntry name (put new rest ((old.entries.lookup name).getD empty)) old.entries)

def insertByName (entry : String × α) : List (String × α) → List (String × α)
  | [] => [entry]
  | other :: rest =>
    if entry.1 ≤ other.1 then entry :: other :: rest else other :: insertByName entry rest

def sortByName (entries : List (String × α)) : List (String × α) :=
  entries.foldr insertByName []

mutual

/-- The files of a tree at a path, by the order of names at every level. Directories with an
ignored name are passed over. -/
def filesAt (ignored : List String) (path : List String) : FileTree → List FoundFile
  | .file c => [⟨path,c⟩]
  | .directory entries => (sortByName (entryFiles ignored path entries)).flatMap (·.2)

def entryFiles (ignored : List String) (path : List String) :
    List (String × FileTree) → List (String × List FoundFile)
  | [] => []
  | (name,t) :: rest =>
    (name,if t.isDirectory && ignored.contains name then []
      else filesAt ignored (path ++ [name]) t) :: entryFiles ignored path rest

end

/-- The files of a tree. The name of the tree itself is never ignored. -/
def files (ignored : List String) (t : FileTree) : List FoundFile := filesAt ignored [] t

/-- The names on a path, given the name begun, last character first. -/
def namesFrom (begun : List Char) : List Char → List String
  | [] => [String.ofList begun.reverse]
  | c :: cs =>
    if c = '/' then String.ofList begun.reverse :: namesFrom [] cs else namesFrom (c :: begun) cs

/-- What stands at the end of a path, given the directories above. -/
def follow (above : List FileTree) (t : FileTree) : List String → Option FileTree
  | [] => some t
  | name :: rest =>
    if !t.isDirectory then none
    else if name = "" ∨ name = "." then follow above t rest
    else if name = ".." then
      match above with
      | up :: above => follow above up rest
      | [] => none
    else
      match t.entries.lookup name with
      | some child => follow (t :: above) child rest
      | none => none

/-- What stands at a path that starts in the tree and does not leave it. -/
def find? (t : FileTree) (path : String) : Option FileTree :=
  match path.toList with
  | [] | '/' :: _ => none
  | cs => follow [] t (namesFrom [] cs)

end FileTree

namespace FileName

def splitAtStop? (name : List Char) : Option (List Char × List Char) :=
  let behind := (name.reverse.takeWhile (· ≠ '.')).reverse
  let before := name.take (name.length - behind.length - 1)
  if behind.length < name.length ∧ !before.isEmpty then some (before,behind) else none

/-- What stands behind the last full stop of a name, unless nothing stands in front of it. -/
def extension? (name : String) : Option String :=
  (splitAtStop? name.toList).map fun (_,behind) => String.ofList behind

def stem (name : String) : String :=
  match splitAtStop? name.toList with
  | some (before,_) => String.ofList before
  | none => name

/-- The last name on a path, past names that stand for the directory itself. -/
def ofPath (path : String) : String :=
  (((FileTree.namesFrom [] path.toList).filter fun n => n ≠ "" ∧ n ≠ ".").getLast?).getD ""

end FileName

namespace FoundFile

def name (f : FoundFile) : String := f.path.getLast?.getD ""

def pathText (f : FoundFile) : String := "/".intercalate f.path

def hasExtension (extensions : List String) (f : FoundFile) : Bool :=
  (FileName.extension? f.name).any extensions.contains

end FoundFile

end PipelineAtlas
