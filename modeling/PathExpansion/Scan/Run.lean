import PathExpansion.Scan.Step

/-!
# Running a scan

Asking a scan for its next result repeats steps until one comes to something.  That it comes to
something is a property of the filesystem, so the repetition is bounded: by two to the power of a
number that grows with the extent of the filesystem and with what the frames still have to do.  The
power is never computed.  The bound is spent in portions that double, and a scan that has come to
something spends no more of it.

* `repeatStep` — a step repeated two to the power of `k` times at most.
* `Scan.patience` — the exponent for a scan.
* `Scan.advance` — the next result.
* `Scan.drain` — all results that are left.
-/

namespace PathExpansion

variable {σ ρ : Type}

/-- A step repeated until it comes to something, `2 ^ k` times at most. -/
def repeatStep (step : σ → σ ⊕ ρ) : (k : Nat) → σ → σ ⊕ ρ
  | 0, s => step s
  | k + 1, s =>
    match repeatStep step k s with
    | .inl s => repeatStep step k s
    | .inr r => .inr r

/-- A step repeated until it comes to something, in `portions` portions of which the first has
`2 ^ k` rounds and each other one twice as many as the one before. -/
def repeatDoubling (step : σ → σ ⊕ ρ) : (portions k : Nat) → σ → σ ⊕ ρ
  | 0, _, s => .inl s
  | n + 1, k, s =>
    match repeatStep step k s with
    | .inl s => repeatDoubling step n (k + 1) s
    | .inr r => .inr r

/-- What running a scan comes to. -/
inductive Outcome (α : Type) where
  | value (a : α)
  | raised (error : ScanError)
  /-- The bound was spent without result. -/
  | unfinished

namespace Scan

variable (r : Reader) (plan : Plan)

/-- The exponent of the number of steps that a frame can take: each component that it has left may
branch as widely, and an ellipsis go as deep, as the filesystem extends. -/
def frameWeight (s : Scan) (f : Frame) : Nat :=
  let components := f.remaining.length + (s.specOf f.root).components.length + 2
  let waiting := (f.pending.getD []).length + (f.cursor.map (·.unread.length)).getD 0
  components * (r.extent + 2) * (r.extent + 2) + waiting

/-- The exponent of the number of steps that a scan can take. -/
def patience (s : Scan) : Nat :=
  (s.frame :: s.stack).foldl (fun n f => n + s.frameWeight r f) 64

/-- One step towards the next result. -/
def towardsNext (s : Scan) : Scan ⊕ (Scan × Outcome (Option Answer)) :=
  match s.turn r plan with
  | (s, .running) => .inl s
  | (s, .answered answer) => .inr (s, .value answer)
  | (s, .raised error) => .inr (s, .raised error)

/-- The next result, or none when the scan is over. -/
def advance (s : Scan) : Scan × Outcome (Option Answer) :=
  match repeatDoubling (towardsNext r plan) (s.patience r) 0 s with
  | .inl s => (s, .unfinished)
  | .inr found => found

/-- One step towards the end, with the results found so far, latest first. -/
def towardsEnd (state : Scan × List Answer) :
    (Scan × List Answer) ⊕ (Scan × Outcome (List Answer)) :=
  match state.1.turn r plan with
  | (s, .running) => .inl (s, state.2)
  | (s, .answered (some answer)) => .inl (s, answer :: state.2)
  | (s, .answered none) => .inr (s, .value state.2.reverse)
  | (s, .raised error) => .inr (s, .raised error)

/-- All results that are left.  An error loses those that were found before it. -/
def drain (s : Scan) : Scan × Outcome (List Answer) :=
  match repeatDoubling (towardsEnd r plan) (s.patience r) 0 (s, []) with
  | .inl (s, _) => (s, .unfinished)
  | .inr found => found

end Scan

end PathExpansion
