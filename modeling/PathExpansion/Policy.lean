import PathExpansion.Fault

/-!
# Error policies

A directory that cannot be listed is handed to the error policy of the scan.  The policy either
lets the scan go on, the branch then yielding nothing further, or stops it; most policies also keep
a record of what they were handed.

* `Incident` — a recorded fault, with the operation and the path.
* `Manner` — what a policy does with a fault.
* `Policy` — a manner and its record.
* `Policy.handle` — hands a fault to a policy.
* `Policy.statistics` — what the record adds up to.
-/

namespace PathExpansion

/-- A fault, the operation that met it and the path it was about. -/
structure Incident where
  path : String
  operation : String
  fault : Fault

/-- What a policy does with a fault. -/
inductive Manner where
  /-- It raises the fault again. -/
  | failFast
  /-- It records the fault. -/
  | collect
  /-- It records the fault and may print a warning. -/
  | tolerant (verbose : Bool)
  /-- It records the fault and stops once there are more than `limit`; before, it may print a
  warning. -/
  | threshold (limit : Int) (verbose : Bool)
  /-- It does nothing. -/
  | indifferent
deriving DecidableEq, Repr

/-- A policy records if its statistics can be asked for. -/
def Manner.records : Manner → Bool
  | .failFast | .indifferent => false
  | _ => true

/-- A policy at work: its manner and its record, oldest first. -/
structure Policy where
  manner : Manner
  record : List Incident

/-- What a policy raises to stop a scan. -/
inductive PolicyStop where
  | raised (fault : Fault)
  | thresholdExceeded (limit : Int) (cause : Fault)

/-- The wording of what a policy raises. -/
def PolicyStop.message : PolicyStop → String
  | .raised fault => fault.message
  | .thresholdExceeded limit _ => "Error threshold exceeded (" ++ toString limit ++ " errors)"

/-- What handing over a fault comes to: the policy afterwards, the warning it prints, and whether
it stops the scan. -/
structure Handled where
  policy : Policy
  warning : Option String
  stop : Option PolicyStop

namespace Policy

/-- A policy that has seen nothing. -/
def fresh (manner : Manner) : Policy := ⟨manner, []⟩

/-- The policy of a scan that names none. -/
def standard : Policy := fresh (.tolerant false)

/-- What a tolerant policy prints. -/
def tolerantWarning (i : Incident) : String :=
  if i.fault.kind = .permission then
    "\nWARNING: Skipping inaccessible path '" ++ i.path ++ "': " ++ i.fault.message
  else
    "\nWARNING: Error in " ++ i.operation ++ " for '" ++ i.path ++ "': " ++ i.fault.message

/-- What a policy with a limit prints when it has recorded `count` faults. -/
def countedWarning (count : Nat) (limit : Int) (i : Incident) : String :=
  "\nWARNING [" ++ toString count ++ "/" ++ toString limit ++ "]: Error in " ++ i.operation
    ++ " for '" ++ i.path ++ "': " ++ i.fault.message

/-- Hands a fault to a policy. -/
def handle (p : Policy) (i : Incident) : Handled :=
  let recorded := { p with record := p.record ++ [i] }
  match p.manner with
  | .failFast => ⟨p, none, some (.raised i.fault)⟩
  | .collect => ⟨recorded, none, none⟩
  | .tolerant verbose => ⟨recorded, if verbose then some (tolerantWarning i) else none, none⟩
  | .threshold limit verbose =>
    let count := recorded.record.length
    if limit < count then ⟨recorded, none, some (.thresholdExceeded limit i.fault)⟩
    else ⟨recorded, if verbose then some (countedWarning count limit i) else none, none⟩
  | .indifferent => ⟨p, none, none⟩

/-- Forgets the record. -/
def reset (p : Policy) : Policy := fresh p.manner

/-- The paths that faults of the operating system made a scan skip. -/
def skipped (p : Policy) : List String :=
  (p.record.filter (·.fault.isSystem)).map (·.path)

/-- The number of recorded faults of a kind. -/
def countOf (p : Policy) (kind : FaultKind) : Nat :=
  p.record.countP (·.fault.kind = kind)

end Policy

/-- What a record adds up to. -/
structure Statistics where
  total : Nat
  permission : Nat
  notFound : Nat
  skipped : List String
  incidents : List Incident

/-- What the record of a policy adds up to, if it keeps one. -/
def Policy.statistics (p : Policy) : Option Statistics :=
  if p.manner.records then
    some ⟨p.record.length, p.countOf .permission, p.countOf .notFound, p.skipped, p.record⟩
  else none

end PathExpansion
