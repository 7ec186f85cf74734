import PathExpansion.Fault
import PathExpansion.Text.Folding

/-!
# Directory listings

A listing gives the names in a directory one at a time, and may fail on the way.  An open listing
holds a handle, which has to be given back; names that have been put in order are at hand, and a
cursor over them holds none.

* `Listing` — the names that can be read, and the fault that ends them, if one does.
* `Cursor` — a listing that is being read; `Cursor.drain` reads it to its end.
* `Sorting` — the orders in which names can be wanted.
* `Sorting.arrange` — brings the names of a directory into order; `Sorting.arrange_perm`: it neither
  loses a name nor invents one.

A comparison supplied by a caller may fail.  Sorting then fails with the fault of the first
comparison that does; which comparisons are made is for the sorting to choose.
-/

namespace PathExpansion

/-- The names that can be read from a directory, and the fault that comes after them.  Reading names
fails by faults of the operating system only. -/
structure Listing where
  names : List String
  fault : Option Fault

/-- A listing that is being read: its handle if it holds one, what is still to come, and the fault
at the end. -/
structure Cursor where
  handle : Option Nat
  unread : List String
  fault : Option Fault

namespace Cursor

/-- A cursor over names that are at hand. -/
def ofNames (names : List String) : Cursor := ⟨none, names, none⟩

/-- The next name, and the cursor behind it. -/
def read (c : Cursor) : Option String × Cursor :=
  match c.unread with
  | [] => (none, c)
  | name :: rest => (some name, { c with unread := rest })

/-- A closed cursor has nothing to give. -/
def close (_ : Cursor) : Cursor := ofNames []

/-- Reads names one after the other, behind those read before: all of them, or the fault that comes
instead of the end. -/
def readOn (fault : Option Fault) (read : List String) : List String → Except Fault (List String)
  | [] =>
    match fault with
    | none => .ok read
    | some fault => .error fault
  | name :: unread => readOn fault (read ++ [name]) unread

/-- Reads a cursor to its end. -/
def drain (c : Cursor) : Except Fault (List String) := readOn c.fault [] c.unread

/-- All that matters in the end is whether there was a fault. -/
theorem readOn_eq (fault : Option Fault) (read unread : List String) :
    readOn fault read unread = fault.elim (.ok (read ++ unread)) .error := by
  induction unread generalizing read with
  | nil => cases fault <;> simp [readOn]
  | cons name unread ih => rw [readOn, ih, List.append_assoc, List.singleton_append]

/-- A cursor that does not fail gives all that is left; one that fails gives nothing but its
fault. -/
theorem drain_eq (c : Cursor) : c.drain = c.fault.elim (.ok c.unread) .error :=
  readOn_eq c.fault [] c.unread

/-- The names that are left in the order of a key; names with equal keys keep their order. -/
def sortedBy {κ : Type} [LE κ] [DecidableLE κ] (key : String → κ) (c : Cursor) : Cursor :=
  ofNames (c.unread.mergeSort fun a b => decide (key a ≤ key b))

/-- How a cursor over the directory at a path shows itself. -/
def inspectAt (path : String) : String := "ScandirCursor(path=" ++ Text.quote path ++ ")"

end Cursor

/-! ## Order -/

/-- A comparison of two paths: negative, zero or positive, or a fault. -/
abbrev PathComparison := String → String → Except Fault Int

/-- The orders in which the names of a directory can be wanted. -/
inductive Sorting where
  | asListed
  | byName
  | byComparison (compare : PathComparison)

/-- Names are read to the end before any is used. -/
def Sorting.isEager : Sorting → Bool
  | .asListed => false
  | _ => true

/-- Two ordered lists in one.  Where a comparison does not put the second first, the first comes
first. -/
def mergeSorted {α ε : Type} (before : α → α → Except ε Bool) : List α → List α → Except ε (List α)
  | [], bs => .ok bs
  | as, [] => .ok as
  | a :: as, b :: bs => do
    if ← before b a then
      let rest ← mergeSorted before (a :: as) bs
      return b :: rest
    else
      let rest ← mergeSorted before as (b :: bs)
      return a :: rest

/-- Stable sorting by a comparison that may fail, by halves.  Which pairs are compared, and in which
order, is nothing that a caller may rely on: by another choice a comparison that fails for some
pairs only may fail elsewhere, or not at all.  What is proved of sorting holds for every comparison,
and asks no more of the choice than that items are neither lost nor invented. -/
def sortChecked {α ε : Type} (before : α → α → Except ε Bool) (items : List α) :
    Except ε (List α) :=
  if items.length < 2 then .ok items
  else do
    let half := (items.length + 1) / 2
    let left ← sortChecked before (items.take half)
    let right ← sortChecked before (items.drop half)
    mergeSorted before left right
termination_by items.length
decreasing_by
  · simp only [List.length_take]; omega
  · simp only [List.length_drop]; omega

section Sorted

variable {α ε : Type} {before : α → α → Except ε Bool}

/-- Two things in a row come to something if the first does and the second does with it. -/
theorem bind_eq_ok {β : Type} {x : Except ε α} {f : α → Except ε β} {b : β} :
    (x >>= f) = .ok b ↔ ∃ a, x = .ok a ∧ f a = .ok b := by
  cases x <;> simp [bind, Except.bind]

/-- They fail if the first does, or the second with what the first came to. -/
theorem bind_eq_error {β : Type} {x : Except ε α} {f : α → Except ε β} {fault : ε} :
    (x >>= f) = .error fault ↔ x = .error fault ∨ ∃ a, x = .ok a ∧ f a = .error fault := by
  cases x <;> simp [bind, Except.bind]

/-- Merging neither loses an item nor invents one. -/
theorem mergeSorted_perm {as bs merged : List α} (h : mergeSorted before as bs = .ok merged) :
    merged.Perm (as ++ bs) := by
  fun_induction mergeSorted before as bs generalizing merged with
  | case1 bs => cases h; simp
  | case2 as => cases h; simp
  | case3 a as b bs ihLater ihSooner =>
    obtain ⟨first, _, h⟩ := bind_eq_ok.1 h
    split at h
    · obtain ⟨rest, hrest, h⟩ := bind_eq_ok.1 h
      cases h
      exact ((ihLater hrest).cons b).trans List.perm_middle.symm
    · obtain ⟨rest, hrest, h⟩ := bind_eq_ok.1 h
      cases h
      exact (ihSooner hrest).cons a

/-- Sorting neither loses an item nor invents one. -/
theorem sortChecked_perm {items sorted : List α} (h : sortChecked before items = .ok sorted) :
    sorted.Perm items := by
  fun_induction sortChecked before items generalizing sorted with
  | case1 items _ => cases h; exact .refl _
  | case2 items _ half ihLeft =>
    rename_i ihRight
    obtain ⟨left, hleft, h⟩ := bind_eq_ok.1 h
    obtain ⟨right, hright, h⟩ := bind_eq_ok.1 h
    have halves := (ihLeft hleft).append (ihRight hright)
    rw [List.take_append_drop] at halves
    exact (mergeSorted_perm h).trans halves

end Sorted

/-- The order of names by code points. -/
def nameLe (a b : String) : Bool := decide (a ≤ b)

/-- The order of names by their case folding, and by code points where that is equal. -/
def foldedNameLe (a b : String × String) : Bool :=
  decide (a.1 < b.1) || (a.1 == b.1 && nameLe a.2 b.2)

/-- Names in order, with or without regard to case. -/
def sortNames (ignoreCase : Bool) (names : List String) : List String :=
  if ignoreCase then
    ((names.map fun n => (Text.foldCase n, n)).mergeSort foldedNameLe).map (·.2)
  else names.mergeSort nameLe

/-- Putting names in order neither loses a name nor invents one. -/
theorem sortNames_perm (ignoreCase : Bool) (names : List String) :
    (sortNames ignoreCase names).Perm names := by
  unfold sortNames
  split
  · have h := (List.mergeSort_perm (names.map fun n => (Text.foldCase n, n)) foldedNameLe).map
      (·.2)
    simpa [Function.comp_def] using h
  · exact List.mergeSort_perm _ _

/-- Brings the names of a directory into order.  A comparison is given whole paths, which start
with that of the directory. -/
def Sorting.arrange (ignoreCase : Bool) (directory : String) (names : List String) :
    Sorting → Except Fault (List String)
  | .asListed => .ok names
  | .byName => .ok (sortNames ignoreCase names)
  | .byComparison compare =>
    sortChecked (fun a b => (compare (directory ++ a) (directory ++ b)).map (· < 0)) names

/-- Whatever the order, the names are those of the directory. -/
theorem Sorting.arrange_perm {ignoreCase : Bool} {directory : String} {names arranged : List String}
    {sorting : Sorting} (h : sorting.arrange ignoreCase directory names = .ok arranged) :
    arranged.Perm names := by
  cases sorting with
  | asListed => cases h; exact .refl _
  | byName => cases h; exact sortNames_perm ignoreCase names
  | byComparison compare => exact sortChecked_perm h

end PathExpansion
