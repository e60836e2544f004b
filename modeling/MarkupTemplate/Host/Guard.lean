import MarkupTemplate.Host.Guard.Piece

/-!
# Guards

A pattern may be followed by `if` and a guard. The guard starts at the first `if` that is a name of
its own outside all brackets; an `if` in a string, a comment or a longer name does not count. The
word is found by the row and the column where it stands, and the text is cut at the offset of that
place.

* `Position.offset`: the offset of a place.
* `findGuard`: the place of the word that opens the guard.
* `splitGuard`: the pattern and the guard.
-/

namespace MarkupTemplate.Host

/-- A place in a text: its row, counted from one, and how far into the row it is. -/
structure Position where
  row : Nat
  column : Nat
deriving DecidableEq, Repr

/-- The rows of a text, each with the line feed that ends it. -/
def rows : List Char → List (List Char)
  | [] => []
  | c :: rest =>
    if c = '\n' then [c] :: rows rest
    else match rows rest with
      | [] => [[c]]
      | row :: others => (c :: row) :: others

namespace Position

/-- The place behind a character. -/
def next (p : Position) (c : Char) : Position :=
  if c = '\n' then ⟨p.row + 1, 0⟩ else ⟨p.row, p.column + 1⟩

/-- The place behind a text. -/
def past (p : Position) (text : List Char) : Position := text.foldl next p

/-- The offset of a place in a text of the given rows: all of the rows before it, and what is before
it in its own row. -/
def offset (rows : List (List Char)) (p : Position) : Nat :=
  (rows.take (p.row - 1)).flatten.length + p.column

end Position

/-- How many brackets are open behind a piece. -/
def Piece.depthAfter (depth : Int) (p : Piece) : Int :=
  match p.kind with
  | .opener => depth + 1
  | .closer => depth - 1
  | _ => depth

/-- The place of the word that opens the guard; `place` is where the first of the pieces stands. -/
def findGuard (depth : Int) (place : Position) : List Piece → Option Position
  | [] => none
  | p :: pieces =>
    if p = ⟨.name, ['i', 'f']⟩ ∧ depth = 0 then some place
    else findGuard (p.depthAfter depth) (place.past p.text) pieces

/-- The pattern and the guard of a text; an error when the text cannot be cut into pieces before the
guard is found. -/
def splitGuard (text : List Char) : Except HostError (List Char × Option (List Char)) :=
  let (pieces, ending) := Piece.cut text
  match findGuard 0 ⟨1, 0⟩ pieces with
  | some place =>
    let offset := place.offset (rows text)
    .ok (text.take offset, some (text.drop (offset + 2)))
  | none =>
    match ending with
    | .complete => .ok (text, none)
    | .unbalanced => .error ⟨.unbalanced, none⟩
    | .misindented => .error ⟨.malformed, none⟩

end MarkupTemplate.Host
