import WhereClause.Error
import WhereClause.Expr.Method
import WhereClause.Log.Line

/-!
# Events

What a run reports about itself. A topic is the kind of event, with its name and
severity; an event is a topic with what happened. Events are read-only: no result
depends on them.
-/
namespace WhereClause

/-- The kinds of events. -/
inductive Topic where
  | mappingLoaded
  | memberUnmapped
  | predicateExpanded
  | predicateAccepted
  | predicateRejected
  deriving DecidableEq, Repr

namespace Topic

def all : List Topic :=
  [mappingLoaded, memberUnmapped, predicateExpanded, predicateAccepted, predicateRejected]

def name : Topic → String
  | mappingLoaded => "MAPPING_LOADED"
  | memberUnmapped => "MEMBER_UNMAPPED"
  | predicateExpanded => "PREDICATE_EXPANDED"
  | predicateAccepted => "PREDICATE_TRANSLATED"
  | predicateRejected => "PREDICATE_REJECTED"

def ofName? (s : String) : Option Topic := all.find? (·.name == s)

def severity : Topic → Severity
  | mappingLoaded => .info
  | memberUnmapped | predicateRejected => .warn
  | predicateExpanded | predicateAccepted => .trace

end Topic

inductive Event where
  /-- A mapping configuration was read from a file. -/
  | mappingLoaded (path tableAlias : String)
  /-- A path that is not registered was used as it is. -/
  | memberUnmapped (path tableAlias : String)
  /-- A predicate call was expanded. -/
  | predicateExpanded (method : Method)
  /-- An expression was compiled; the length is in bytes of UTF-8. -/
  | predicateAccepted (parameters : Nat) (tableAlias : String) (textLength : Nat)
  /-- An expression was refused. -/
  | predicateRejected (error : Error)
  deriving DecidableEq, Repr

namespace Event

def topic : Event → Topic
  | mappingLoaded _ _ => .mappingLoaded
  | memberUnmapped _ _ => .memberUnmapped
  | predicateExpanded _ => .predicateExpanded
  | predicateAccepted _ _ _ => .predicateAccepted
  | predicateRejected _ => .predicateRejected

def severity (e : Event) : Severity := e.topic.severity

def fields : Event → List (String × String)
  | mappingLoaded path tableAlias => [("path", path), ("table_alias", tableAlias)]
  | memberUnmapped path tableAlias => [("path", path), ("table_alias", tableAlias)]
  | predicateExpanded method => [("method", method.name)]
  | predicateAccepted parameters tableAlias textLength =>
    [("parameters", toString parameters), ("table_alias", tableAlias),
     ("text_length", toString textLength)]
  | predicateRejected error => [("code", error.code), ("reason", error.message)]

/-- The log line of an event, without its line feed. -/
def content (e : Event) : String := Log.content e.severity e.topic.name e.fields

end Event
end WhereClause
