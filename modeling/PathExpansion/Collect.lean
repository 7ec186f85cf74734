import PathExpansion.Expansion

/-!
# Results without an expansion at hand

Callers that only want results need no expansion of their own.  These functions set one up, use it,
and close it whatever happens.

* `CallError` — what can go wrong.
* `collect`, `count` — all results, and their number.
* `Stream` — results one at a time; the expansion is set up when the first is wanted.
-/

namespace PathExpansion

/-- What goes wrong in a call: the expansion cannot be set up, or its scan raises an error. -/
inductive CallError where
  | setup (error : SetupError)
  | scan (error : ScanError)
  /-- The bound of a scan was spent. -/
  | unfinished

/-- All results, with the expansion after it has been closed. -/
def collect (r : Reader) (named : List (String × Setting)) :
    Option Expansion × Except CallError (List Answer) :=
  match Expansion.create named with
  | .error error => (none, .error (.setup error))
  | .ok e =>
    let (e, outcome) := e.all r
    (some e.close, match outcome with
      | .value answers => .ok answers
      | .raised error => .error (.scan error)
      | .unfinished => .error .unfinished)

/-- The number of results. -/
def count (r : Reader) (named : List (String × Setting)) :
    Option Expansion × Except CallError Nat :=
  let (e, found) := collect r named
  (e, found.map List.length)

/-- Results one at a time.  A stream that has ended keeps the expansion it used, closed. -/
inductive Stream where
  | waiting (named : List (String × Setting))
  | running (e : Expansion)
  | ended (e : Option Expansion)

/-- What asking a stream comes to. -/
inductive StreamStep where
  | yielded (answer : Answer)
  | stopped
  | failed (error : CallError)

namespace Stream

/-- The next result of an expansion; at the end, and after an error, the expansion is closed and
the stream ends. -/
def advance (r : Reader) (e : Expansion) : Stream × StreamStep :=
  match e.next r with
  | (e, .value (some answer)) => (running e, .yielded answer)
  | (e, .value none) => (ended (some e.close), .stopped)
  | (e, .raised error) => (ended (some e.close), .failed (.scan error))
  | (e, .unfinished) => (ended (some e.close), .failed .unfinished)

/-- The next result of a stream. -/
def next (r : Reader) : Stream → Stream × StreamStep
  | waiting named =>
    match Expansion.create named with
    | .error error => (ended none, .failed (.setup error))
    | .ok e => advance r e
  | running e => advance r e
  | ended e => (ended e, .stopped)

/-- Ends a stream. -/
def close : Stream → Stream
  | waiting _ => ended none
  | running e => ended (some e.close)
  | ended e => ended e

/-- The expansion that a stream uses or has used. -/
def expansion? : Stream → Option Expansion
  | waiting _ => none
  | running e => some e
  | ended e => e

end Stream

end PathExpansion
