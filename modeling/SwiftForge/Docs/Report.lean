import SwiftForge.Decimal.Format
import SwiftForge.Docs.Preparation

/-!
Findings and reports: the outcome of each sample and the totals of a run.
-/

namespace SwiftForge.Docs

/-- What became of a sample. -/
inductive Outcome where
  | passed
  | failed (diagnostics : String)
  | skipped (reason : SkipCause)
deriving DecidableEq, Repr

namespace Outcome

def isPassed : Outcome → Bool
  | .passed => true
  | _ => false

def isFailed : Outcome → Bool
  | .failed _ => true
  | _ => false

def isSkipped : Outcome → Bool
  | .skipped _ => true
  | _ => false

def status : Outcome → String
  | .passed => "ok"
  | .failed _ => "FAILED"
  | .skipped reason => "skipped (" ++ reason.text ++ ")"

end Outcome

/-- The outcome of a sample and the place of the sample. -/
structure Finding where
  path : String
  line : Nat
  offset : Nat
  len : Nat
  outcome : Outcome
deriving DecidableEq, Repr

namespace Finding

/-- The document and line of the sample. -/
def place (r : Finding) : String := r.path ++ ":" ++ Decimal.intText r.line

/-- The finding as one line. -/
def text (r : Finding) : String := r.place ++ " ... " ++ r.outcome.status

/-- The title of a failure. -/
def failureTitle (r : Finding) : String := "sample at " ++ r.place ++ " does not parse"

/-- What the log holds of a finding: the cause of a skip. -/
def note? (r : Finding) : Option String :=
  match r.outcome with
  | .skipped _ => some (r.place ++ ": " ++ r.outcome.status)
  | _ => none

end Finding

/-- The findings of a run in order. -/
structure Report where
  findings : List Finding := []

namespace Report

def passed (r : Report) : Nat := r.findings.countP fun s => s.outcome.isPassed

def failed (r : Report) : Nat := r.findings.countP fun s => s.outcome.isFailed

def skipped (r : Report) : Nat := r.findings.countP fun s => s.outcome.isSkipped

/-- Nothing failed; skips do not count. -/
def isSuccess (r : Report) : Bool := r.failed == 0

def failures (r : Report) : List Finding := r.findings.filter fun s => s.outcome.isFailed

def summary (r : Report) : String :=
  Decimal.intText r.passed ++ " passed; " ++ Decimal.intText r.failed ++ " failed; " ++
    Decimal.intText r.skipped ++ " skipped"

/-- The report as printed: a line for each sample, an empty line and the totals. -/
def text (r : Report) : String :=
  String.join (r.findings.map fun s => s.text ++ "\n") ++ "\ndoc samples: " ++
    (if r.isSuccess then "ok" else "FAILED") ++ ". " ++ r.summary ++ "\n"

end Report

end SwiftForge.Docs
