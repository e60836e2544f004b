import MarkupTemplate.FileSystem

/-!
# File trees

A directory with everything below it, as a value. A directory is there when a file lies below it,
and so is the root; what lies outside of the root is not there.

* `FileTree.find`: what a path leads to.
* `FileTree.system`: the file system that reads and changes a tree.
* `FileTree.changesFrom`: the files that differ from those of another tree.
-/

namespace MarkupTemplate

/-- The files below a directory; the path to a file is the list of names on the way. -/
structure FileTree where
  files : List (List String × List UInt8)
deriving Repr, Inhabited

/-- What a path leads to: a directory, a file, or a place where a file can be made. -/
inductive Entry where
  | directory
  | file (way : List String) (bytes : List UInt8)
  | vacant (way : List String)
deriving Repr

namespace FileTree

/-- The tree of files that are given by the spelling of their paths. -/
def ofFiles (files : List (String × List UInt8)) : FileTree :=
  ⟨files.map fun (name, bytes) => ((Path.ofText name).names, bytes)⟩

/-- The bytes of a file. -/
def bytes? (t : FileTree) (way : List String) : Option (List UInt8) :=
  (t.files.find? (·.1 == way)).map (·.2)

/-- True of the ways that lead to a directory. -/
def isDirectory (t : FileTree) (way : List String) : Bool :=
  way.isEmpty || t.files.any fun f => way.isPrefixOf f.1 && f.1 != way

/-- What the names lead to from a directory. -/
def follow (t : FileTree) (way : List String) : List String → Except FileFault Entry
  | [] => .ok .directory
  | ".." :: rest =>
    if way.isEmpty then if rest.all (· == "..") then .ok .directory else .error .notFound
    else t.follow way.dropLast rest
  | name :: rest =>
    let next := way ++ [name]
    if t.isDirectory next then t.follow next rest
    else
      match t.bytes? next with
      | some bytes => if rest.isEmpty then .ok (.file next bytes) else .error .notADirectory
      | none => if rest.isEmpty then .ok (.vacant next) else .error .notFound

/-- What a path leads to. -/
def find (t : FileTree) (path : Path) : Except FileFault Entry :=
  if path.anchor = "" then t.follow [] path.names
  else if path.names.isEmpty then .ok .directory
  else .error .notFound

/-- The tree in which a file holds the given bytes. -/
def put (t : FileTree) (way : List String) (bytes : List UInt8) : FileTree :=
  ⟨(way, bytes) :: t.files.filter (·.1 != way)⟩

/-- The bytes of the file that a path leads to. -/
def read (t : FileTree) (path : Path) : Except FileFault (List UInt8) := do
  match ← t.find path with
  | .directory => throw .isADirectory
  | .file _ bytes => return bytes
  | .vacant _ => throw .notFound

/-- The tree in which the file that a path leads to holds a text. -/
def write (t : FileTree) (path : Path) (text : String) : Except FileFault FileTree := do
  match ← t.find path with
  | .directory => throw .isADirectory
  | .file way _ => return t.put way text.toUTF8.toList
  | .vacant way => return t.put way text.toUTF8.toList

/-- The file system that reads and changes a tree. -/
def system : FileSystem (StateM FileTree) where
  read path := do return (← get).read path
  write path text := do
    match (← get).write path text with
    | .ok t =>
      set t
      return .ok ()
    | .error f => return .error f

/-- The files that differ from those of an earlier tree, each with the spelling of its path. -/
def changesFrom (before after : FileTree) : List (String × List UInt8) :=
  (after.files.filter fun f => before.bytes? f.1 != some f.2).map fun f =>
    ("/".intercalate f.1, f.2)

theorem bytes?_put_self (t : FileTree) (way : List String) (bytes : List UInt8) :
    (t.put way bytes).bytes? way = some bytes := by
  simp [put, bytes?]

theorem bytes?_put_of_ne (t : FileTree) {way other : List String} (bytes : List UInt8)
    (h : way ≠ other) : (t.put way bytes).bytes? other = t.bytes? other := by
  simp only [put, bytes?]
  rw [List.find?_cons_of_neg (by simpa using h), List.find?_filter]
  congr 2
  funext f
  by_cases hf : f.1 = other
  · simp [hf, h.symm]
  · simp [hf]

end FileTree

end MarkupTemplate
