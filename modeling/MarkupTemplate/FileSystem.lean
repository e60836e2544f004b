import MarkupTemplate.Text.Quoted
import MarkupTemplate.Text.Utf8

/-!
# Files

What a program asks of a file system: the bytes of a file, and to put a text into a file. Paths are
written with slashes; steps to the same directory and slashes that say nothing are left out.

* `Path.ofText`, `Path.text`: a path and its shortest spelling.
* `FileSystem`: a file system that is at work in a monad.
* `FileSystem.readText`: the text of a file, with line feeds as its only newlines.
-/

namespace MarkupTemplate

/-- A path: the slashes it starts with, and the names between its slashes. -/
structure Path where
  anchor : String
  names : List String
deriving DecidableEq, Repr, Inhabited

namespace Path

/-- The slashes that a path starts with; two of them differ from one, more do not. -/
def anchorOf : List Char → String
  | '/' :: '/' :: '/' :: _ => "/"
  | '/' :: '/' :: _ => "//"
  | '/' :: _ => "/"
  | _ => ""

/-- The path that a text spells. -/
def ofText (s : String) : Path :=
  let names := (s.toList.splitOn '/').map String.ofList
  ⟨anchorOf s.toList, names.filter fun name => name != "" && name != "."⟩

/-- True of a path that names no file because a zero byte would end it. -/
def isBroken (p : Path) : Bool := p.names.any fun name => name.toList.contains '\x00'

/-- The shortest spelling of a path. -/
def text (p : Path) : String :=
  if p.anchor = "" ∧ p.names = [] then "." else p.anchor ++ "/".intercalate p.names

end Path

/-- Why a file cannot be read or written. -/
inductive FileFault where
  | notFound
  | notADirectory
  | isADirectory
  | denied
  | zeroByte
  | other (text : String)
deriving DecidableEq, Repr

namespace FileFault

/-- The failure that reports a fault with a file. -/
def toFailure (path : Path) : FileFault → Failure
  | notFound =>
    .raised .fileNotFound ("[Errno 2] No such file or directory: " ++ Text.quote path.text)
  | denied => .raised .permission ("[Errno 13] Permission denied: " ++ Text.quote path.text)
  | notADirectory =>
    .raised .notADirectory ("[Errno 20] Not a directory: " ++ Text.quote path.text)
  | isADirectory =>
    .raised .isADirectory ("[Errno 21] Is a directory: " ++ Text.quote path.text)
  | zeroByte => .raised .value "embedded null byte"
  | other text => .raised .os text

end FileFault

/-- A file system. -/
structure FileSystem (m : Type → Type) where
  /-- The bytes of a file. -/
  read : Path → m (Except FileFault (List UInt8))
  /-- Makes a file hold a text and nothing else. -/
  write : Path → String → m (Except FileFault Unit)

namespace FileSystem

variable {m : Type → Type} [Monad m]

/-- The text that the bytes of a file spell, with line feeds as its only newlines. -/
def textOfBytes (bytes : List UInt8) : Except Failure (List Char) :=
  match Utf8.decode bytes with
  | .ok text => .ok (Text.unifyNewlines text)
  | .error f => .error f.toFailure

/-- The text of a file. -/
def readText (files : FileSystem m) (path : Path) : ExceptT Failure m (List Char) := do
  if path.isBroken then throw (FileFault.zeroByte.toFailure path)
  match ← files.read path with
  | .ok bytes => ExceptT.mk (pure (textOfBytes bytes))
  | .error f => throw (f.toFailure path)

/-- Makes a file hold a text. -/
def writeText (files : FileSystem m) (path : Path) (text : String) : ExceptT Failure m Unit := do
  if path.isBroken then throw (FileFault.zeroByte.toFailure path)
  match ← files.write path text with
  | .ok () => return ()
  | .error f => throw (f.toFailure path)

end FileSystem

end MarkupTemplate
