/-!
# Sorted tables of intervals

A property of characters is stored as the ascending list of the closed intervals of code points
that have it.  Looking one up halves the table until a single interval is left.

* `find?` — the interval that contains a code point.
* `contains` — whether one does.
-/

namespace PathExpansion.Text.Ranges

/-- The interval among positions `low` to `high - 1` of the table that contains `n`. -/
def findIn (table : Array (Nat × Nat)) (n low high : Nat) : Option (Nat × Nat) :=
  if low < high then
    let middle := (low + high) / 2
    match table[middle]? with
    | none => none
    | some (first, last) =>
      if n < first then findIn table n low middle
      else if last < n then findIn table n (middle + 1) high
      else some (first, last)
  else none
termination_by high - low

/-- The interval of an ascending table that contains `n`. -/
def find? (table : Array (Nat × Nat)) (n : Nat) : Option (Nat × Nat) :=
  findIn table n 0 table.size

/-- Membership in an ascending table. -/
def contains (table : Array (Nat × Nat)) (n : Nat) : Bool := (find? table n).isSome

end PathExpansion.Text.Ranges
