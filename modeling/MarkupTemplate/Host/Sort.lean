import MarkupTemplate.Host.Interp

/-!
# Sorting

Values are sorted in place order: the run at the front that is sorted already is kept, each further
value is put where it belongs by halving. Equal values keep their order, and a comparison that fails
ends the sorting.

* `Sort.sorted`: pairs of a key and a value, sorted by key.
-/

namespace MarkupTemplate.Host.Sort

/-- A value with the key that it is sorted by. -/
abbrev Keyed := Value × Value

/-- Whether the key of the first comes before that of the second. -/
def less (self : Interp) (a b : Keyed) : Action Bool := self.order .lt a.1 b.1

/-- The longest run at the front in which every value stands to its predecessor as wanted; `last`
is the predecessor. -/
def run (self : Interp) (falling : Bool) (last : Keyed) :
    List Keyed → Action (List Keyed × List Keyed)
  | [] => pure ([], [])
  | a :: rest => do
    if (← less self a last) == falling then
      let (more, rest) ← run self falling a rest
      return (a :: more, rest)
    else return ([], a :: rest)

/-- The place of a value among sorted ones, between `low` and `high`, after all equal ones. -/
def place (self : Interp) (a : Keyed) (done : Array Keyed) : Nat → Nat → Nat → Action Nat
  | 0, low, _ => pure low
  | fuel + 1, low, high => do
    if low < high then
      let middle := (low + high) / 2
      match done[middle]? with
      | some b =>
        if ← less self a b then place self a done fuel low middle
        else place self a done fuel (middle + 1) high
      | none => return low
    else return low

/-- Sorted values with further ones put in their places. -/
def insertAll (self : Interp) (done : Array Keyed) : List Keyed → Action (List Keyed)
  | [] => pure done.toList
  | a :: rest => do
    let i ← place self a done (done.size + 1) 0 done.size
    insertAll self (done.insertIdxIfInBounds i a) rest

/-- Pairs of a key and a value, sorted by key. -/
def sorted (self : Interp) (items : List Keyed) : Action (List Keyed) := do
  match items with
  | a :: b :: rest =>
    let falling ← less self b a
    let (more, rest) ← run self falling b rest
    let front := a :: b :: more
    insertAll self (if falling then front.reverse else front).toArray rest
  | _ => return items

end MarkupTemplate.Host.Sort
