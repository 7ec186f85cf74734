import PathExpansion.Datum

/-!
# Faults of the outside world

Opening and reading directories can fail, and so can a comparison that a caller supplies.  A fault
has a kind and the arguments it was raised with; its message is made from both.  Faults of the
operating system carry a number, by which their kind is refined, a text, and mostly a path.

* `FaultKind`, `Fault` — the kinds, and a fault.
* `Fault.refined` — a fault of the operating system with the kind of its number.
* `Fault.message` — its wording.
-/

namespace PathExpansion

/-- The kinds of faults.  All but the last two are of the operating system. -/
inductive FaultKind where
  | system
  | notFound
  | permission
  | notADirectory
  | isADirectory
  | exists
  | timeout
  | blocking
  | brokenPipe
  | childProcess
  | connectionAborted
  | connectionRefused
  | connectionReset
  | connection
  | interrupted
  | processLookup
  | missingKey
  | other (label : String)
deriving DecidableEq, Repr

/-- Faults of the operating system are those that a scan hands to its error policy. -/
def FaultKind.isSystem : FaultKind → Bool
  | .missingKey | .other _ => false
  | _ => true

/-- The kind of an error number; numbers without one stay general. -/
def FaultKind.ofNumber : Int → FaultKind
  | 1 | 13 => .permission
  | 2 => .notFound
  | 3 => .processLookup
  | 4 => .interrupted
  | 10 => .childProcess
  | 11 | 114 | 115 => .blocking
  | 17 => .exists
  | 20 => .notADirectory
  | 21 => .isADirectory
  | 32 | 108 => .brokenPipe
  | 103 => .connectionAborted
  | 104 => .connectionReset
  | 110 => .timeout
  | 111 => .connectionRefused
  | _ => .system

/-- A fault: its kind, and what it was raised with. -/
structure Fault where
  kind : FaultKind
  arguments : List Datum

namespace Fault

/-- A fault that was raised as a general one of the operating system takes the kind of its number,
provided that it has a text too. -/
def refined (f : Fault) : Fault :=
  match f.kind, f.arguments with
  | .system, .integer n :: _ :: rest => if rest.length ≤ 3 then ⟨.ofNumber n, f.arguments⟩ else f
  | _, _ => f

/-- A fault of the operating system: number, text and path. -/
def ofSystem (number : Int) (text path : String) : Fault :=
  ⟨.ofNumber number, [.integer number, .text text, .text path]⟩

/-- The same fault about another path. -/
def about (f : Fault) (path : String) : Fault :=
  { f with arguments := f.arguments.take 2 ++ [.text path] }

/-- Faults of the operating system are those that a scan hands to its error policy. -/
def isSystem (f : Fault) : Bool := f.kind.isSystem

/-- The wording of arguments that have no meaning of their own: nothing, a single one as it is, or
all of them in parentheses. -/
def plainMessage : List Datum → String
  | [] => ""
  | [d] => d.display
  | ds => Datum.inspectTuple ds

/-- A path behind a message, if there is one. -/
def pathSuffix (mark : String) : Option Datum → String
  | none | some .nothing => ""
  | some d => mark ++ d.inspect

/-- The wording of a fault of the operating system: the number in brackets, the text, and the paths
it is about.  The argument between the two paths means nothing here. -/
def systemMessage : List Datum → String
  | number :: text :: rest =>
    if 3 < rest.length then Datum.inspectTuple (number :: text :: rest)
    else
      let path := pathSuffix ": " rest[0]?
      "[Errno " ++ number.display ++ "] " ++ text.display ++ path
        ++ (if path = "" then "" else pathSuffix " -> " rest[2]?)
  | ds => plainMessage ds

/-- The wording of a fault. -/
def message (f : Fault) : String :=
  match f.kind, f.arguments with
  | .missingKey, [d] => d.inspect
  | .missingKey, ds | .other _, ds => plainMessage ds
  | _, ds => systemMessage ds

end Fault

end PathExpansion
