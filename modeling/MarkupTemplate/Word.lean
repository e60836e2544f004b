/-!
# Machine words

The range of the integers that a signed machine word holds, from `-bound` up to below `bound`.

* `Word.bound`: where the range ends.
* `Word.holds`: whether an integer lies in it.
-/

namespace MarkupTemplate.Word

/-- The first natural number that a signed word of some bits does not hold. -/
def bound (bits : Nat) : Nat := Nat.pow 2 (bits - 1)

/-- True of an integer that a signed word of some bits holds. -/
def holds (bits : Nat) (n : Int) : Bool :=
  decide (-(bound bits : Int) ≤ n) && decide (n < (bound bits : Int))

end MarkupTemplate.Word
