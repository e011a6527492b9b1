/-!
# Severities

How much an event matters, and from which severity on events are kept.
-/
namespace WhereClause

inductive Severity where
  /-- Detail of a single call. -/
  | trace
  /-- Setup and configuration. -/
  | info
  /-- Input that was tolerated or refused. -/
  | warn
  deriving DecidableEq, Repr, Inhabited

namespace Severity

def all : List Severity := [trace, info, warn]

def name : Severity → String
  | trace => "TRACE"
  | info => "INFO"
  | warn => "WARN"

def ofName? (s : String) : Option Severity := all.find? (·.name == s)

def rank : Severity → Nat
  | trace => 0
  | info => 1
  | warn => 2

/-- Events of this severity are kept when `least` is the least severity kept. -/
def enabled (s least : Severity) : Bool := decide (least.rank ≤ s.rank)

/-- The least severity kept unless something else is asked for. -/
def quiet : Severity := warn

theorem enabled_trace (s : Severity) : s.enabled trace = true := by
  cases s <;> rfl

end Severity
end WhereClause
