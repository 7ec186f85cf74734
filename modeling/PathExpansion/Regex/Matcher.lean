import PathExpansion.Regex.Basic

/-!
# Matching by trying in order

A pattern is run at a position with a continuation that says what has to follow.  Choices are
tried in order and the first that lets the continuation succeed wins, so that the result is the
one a reader finds by trying the alternatives from left to right, longer repetitions first unless
they are lazy.

A repetition goes on past its least count only while each further round consumes something; this
is what makes the search end, and it is why the recursion below is on the length of the text that
is left.

* `Spot` — a position, with the text on both sides and what the groups have matched.
* `Regex.run` — running a pattern at a spot.
* `Regex.find?` — the first match of a pattern in a text, from left to right.
* `Regex.matchesAll` — whether a pattern matches a text from end to end.
-/

namespace PathExpansion

namespace Regex

/-- A position in a text: the characters before it, nearest first, those after it, and the texts
of the groups matched so far, latest first. -/
structure Spot where
  before : List Char
  after : List Char
  groups : List (Nat × List Char)
deriving DecidableEq, Repr

namespace Spot

/-- The start of a text. -/
def start (text : List Char) : Spot := ⟨[], text, []⟩

/-- The text of a group, if it has matched. -/
def group? (s : Spot) (index : Nat) : Option (List Char) := s.groups.lookup index

/-- The characters between a spot and a later one. -/
def textTo (s t : Spot) : List Char := s.after.take (s.after.length - t.after.length)

/-- The spot behind the next character, if the test holds of it. -/
def step? (test : CharacterTest) (s : Spot) : Option Spot :=
  match s.after with
  | [] => none
  | c :: rest =>
    if test.accepts c then some { s with before := c :: s.before, after := rest } else none

/-- The spot `count` characters back. -/
def back? : (count : Nat) → Spot → Option Spot
  | 0, s => some s
  | n + 1, s =>
    match s.before with
    | [] => none
    | c :: rest => back? n { s with before := rest, after := c :: s.after }

/-- The spot behind a given text, character by character compared as told. -/
def skip? (how : Comparison) : List Char → Spot → Option Spot
  | [], s => some s
  | d :: ds, s =>
    match s.after with
    | [] => none
    | c :: rest =>
      if how.key c = how.key d then
        skip? how ds { s with before := c :: s.before, after := rest }
      else none

/-- A word character stands right before the spot. -/
def wordBefore (ascii : Bool) (s : Spot) : Bool := s.before.head?.any (Category.word.contains ascii)

/-- A word character stands right after the spot. -/
def wordAfter (ascii : Bool) (s : Spot) : Bool := s.after.head?.any (Category.word.contains ascii)

end Spot

/-- The condition holds at a spot.  In an empty text there is neither a word boundary nor the
absence of one. -/
def Anchor.holdsAt (s : Spot) : Anchor → Bool
  | .textStart => s.before.isEmpty
  | .lineStart => s.before.head?.all (· == '\n')
  | .textEnd => s.after.isEmpty
  | .lastLineEnd => s.after == [] || s.after == ['\n']
  | .lineEnd => s.after.head?.all (· == '\n')
  | .wordBoundary ascii =>
    !(s.before.isEmpty && s.after.isEmpty) && (s.wordBefore ascii != s.wordAfter ascii)
  | .notWordBoundary ascii =>
    !(s.before.isEmpty && s.after.isEmpty) && (s.wordBefore ascii == s.wordAfter ascii)

/-! ## Repetition

The loops take the body as a function, so that they can be stated before the matcher. -/

/-- What has to follow a spot, answered with the spot where everything ends. -/
abbrev Continuation := Spot → Option Spot

/-- A pattern as a function of what follows it. -/
abbrev Runner := Spot → Continuation → Option Spot

/-- Exactly `n` rounds. -/
def exactly (body : Runner) : (n : Nat) → Runner
  | 0, s, k => k s
  | n + 1, s, k => body s fun t => exactly body n t k

/-- Up to `most` rounds, many first.  A round that consumes nothing is the last. -/
def many (body : Runner) (k : Continuation) (most : Option Nat) (s : Spot) : Option Spot :=
  if most = some 0 then k s
  else
    (body s fun t =>
      if t.after.length < s.after.length then many body k (most.map (· - 1)) t else k t) <|> k s
termination_by s.after.length

/-- Up to `most` rounds, few first.  A round that consumes nothing is the last. -/
def few (body : Runner) (k : Continuation) (most : Option Nat) (s : Spot) : Option Spot :=
  if most = some 0 then k s
  else
    k s <|> body s fun t =>
      if t.after.length < s.after.length then few body k (most.map (· - 1)) t else k t
termination_by s.after.length

/-- Up to `most` rounds, as many as there are, each settled before the next. -/
def greatest (body : Runner) (most : Option Nat) (s : Spot) : Spot :=
  if most = some 0 then s
  else
    match body s some with
    | none => s
    | some t => if t.after.length < s.after.length then greatest body (most.map (· - 1)) t else t
termination_by s.after.length

/-- Exactly `n` rounds, each settled before the next. -/
def settled (body : Runner) : (n : Nat) → Spot → Option Spot
  | 0, s => some s
  | n + 1, s => (body s some).bind (settled body n)

/-- The rounds of a repetition: the least count first, and then up to the rest in the order that
its greed asks for. -/
def rounds (body : Runner) (greed : Greed) (least : Nat) (most : Option Nat) : Runner := fun s k =>
  let rest := most.map (· - least)
  match greed with
  | .greedy => exactly body least s (many body k rest)
  | .lazy => exactly body least s (few body k rest)
  | .possessive => (settled body least s).bind fun t => k (greatest body rest t)

/-! ## The matcher -/

/-- Runs a pattern at a spot: the first way to match it that the continuation accepts.  Groups
matched inside a condition are kept if the condition is not negated. -/
def run : Regex → Runner
  | .empty, s, k => k s
  | .one test, s, k => (s.step? test).bind k
  | .anchor a, s, k => if a.holdsAt s then k s else none
  | .seq r₁ r₂, s, k => r₁.run s fun t => r₂.run t k
  | .alt r₁ r₂, s, k => r₁.run s k <|> r₂.run s k
  | .capture i r, s, k => r.run s fun t => k { t with groups := (i, s.textTo t) :: t.groups }
  | .reference how i, s, k => (s.group? i).bind fun text => (s.skip? how text).bind k
  | .repeated greed least most r, s, k => rounds r.run greed least most s k
  | .atomic r, s, k => (r.run s some).bind k
  | .ahead false r, s, k => (r.run s some).bind fun t => k { s with groups := t.groups }
  | .ahead true r, s, k => if (r.run s some).isSome then none else k s
  | .behind false width r, s, k =>
    ((s.back? width).bind fun b => r.run b some).bind fun t => k { s with groups := t.groups }
  | .behind true width r, s, k =>
    if ((s.back? width).bind fun b => r.run b some).isSome then none else k s
  | .ifMatched i yes no, s, k => if (s.group? i).isSome then yes.run s k else no.run s k

/-- The first match at the given position or a later one, as its two ends. -/
def findFrom (r : Regex) (before : List Char) : (after : List Char) → Option (Spot × Spot)
  | [] => (r.run ⟨before, [], []⟩ some).map (⟨before, [], []⟩, ·)
  | c :: rest =>
    match r.run ⟨before, c :: rest, []⟩ some with
    | some t => some (⟨before, c :: rest, []⟩, t)
    | none => findFrom r (c :: before) rest

/-- The first match in a text, from left to right, as its two ends. -/
def find? (r : Regex) (text : List Char) : Option (Spot × Spot) := r.findFrom [] text

/-- The pattern matches the text from end to end, with the groups of the first way to do so. -/
def matchAll? (r : Regex) (text : List Char) : Option Spot :=
  r.run (.start text) fun t => if t.after.isEmpty then some t else none

/-- Whether the pattern matches the text from end to end. -/
def matchesAll (r : Regex) (text : List Char) : Bool := (r.matchAll? text).isSome

end Regex

end PathExpansion
