import PathExpansion.Datum

/-!
# Splitting a path into parts

A path is written as one text and split at slashes.  Three slashes in a row stand for any number of
directories; a pair of slashes counts as one, so that a run of three leaves an empty part, which is
how the rest of the library knows it.  A path can also be given as the list of its parts, which is
taken as it is.

* `collapse` — pairs of slashes become one, from left to right.
* `splitText` — the parts of a path, and whether it starts at the root.
* `PathInput.split` — the same for a path in any of the forms it can be given in.
-/

namespace PathExpansion.PathSpec

/-- Every pair of slashes becomes one, from left to right. -/
def collapse : List Char → List Char
  | '/' :: '/' :: rest => '/' :: collapse rest
  | c :: rest => c :: collapse rest
  | [] => []

/-- The stretches between slashes; there is one more of them than there are slashes. -/
def stretches : List Char → List (List Char)
  | [] => [[]]
  | c :: rest =>
    if c = '/' then [] :: stretches rest
    else
      match stretches rest with
      | [] => [[c]]
      | s :: ss => (c :: s) :: ss

/-- Drops a slash at the start. -/
def dropSlash : List Char → List Char
  | '/' :: rest => rest
  | cs => cs

/-- Drops the dot of a path that starts with a dot and a slash. -/
def dropDot : List Char → List Char
  | '.' :: '/' :: rest => '/' :: rest
  | cs => cs

/-- Drops an empty stretch at the start. -/
def dropFirstEmpty : List (List Char) → List (List Char)
  | [] :: ss => ss
  | ss => ss

/-- Drops an empty stretch at the end. -/
def dropLastEmpty : List (List Char) → List (List Char)
  | [] => []
  | [s] => if s = [] then [] else [s]
  | s :: ss => s :: dropLastEmpty ss

/-- The parts of a path and whether it starts at the root.  One slash at the start marks the root;
an empty stretch at either end of what remains is no part. -/
def splitList (path : List Char) : List (List Char) × Bool :=
  let collapsed := collapse path
  let body := dropDot (dropSlash collapsed)
  (dropLastEmpty (dropFirstEmpty (stretches body)), collapsed.head? = some '/')

/-- The parts of a path and whether it starts at the root. -/
def splitText (path : String) : List String × Bool :=
  let (parts, absolute) := splitList path.toList
  (parts.map String.ofList, absolute)

/-! ## Paths in any form -/

/-- A path as it is given: none, a text, or something to be gone through for its parts. -/
inductive PathInput where
  | nothing
  | text (path : String)
  | presplit (parts : List Datum)
  | indivisible (typeName : String)

/-- Why a path cannot be split. -/
inductive SplitProblem where
  | needsAbsolute
  | partNotText (part : Datum)
  /-- A part is no text, and it is too long to be shown. -/
  | partTooLong
  | indivisible (typeName : String)

/-- The wording of a problem with a path. -/
def SplitProblem.message : SplitProblem → String
  | .needsAbsolute => "A pre-split path needs an explicit 'absolute' flag"
  | .partNotText part => "Path components must be strings, got " ++ part.inspect
  | .partTooLong => Datum.tooLongText
  | .indivisible typeName => "'" ++ typeName ++ "' object is not iterable"

/-- The problem with a part that is no text. -/
def SplitProblem.ofPart (part : Datum) : SplitProblem :=
  if part.isWritable then .partNotText part else .partTooLong

/-- The parts of a list that must all be texts; the first that is not is reported. -/
def textParts : List Datum → Except SplitProblem (List String)
  | [] => .ok []
  | .text s :: rest => (textParts rest).map (s :: ·)
  | part :: _ => .error (.ofPart part)

/-- The parts of a path and whether it starts at the root.  Only for a text can that be read off;
where it is not known, a missing path starts elsewhere and a list of parts is refused. -/
def PathInput.split (absolute : Option Bool) : PathInput → Except SplitProblem (List String × Bool)
  | .nothing => .ok ([], absolute.getD false)
  | .text path => .ok (splitText path)
  | .presplit parts =>
    match absolute with
    | none => .error .needsAbsolute
    | some a => (textParts parts).map (·, a)
  | .indivisible typeName =>
    match absolute with
    | none => .error .needsAbsolute
    | some _ => .error (.indivisible typeName)

end PathExpansion.PathSpec
