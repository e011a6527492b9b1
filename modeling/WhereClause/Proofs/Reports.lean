import WhereClause.Proofs.Columns
import WhereClause.Proofs.Restating
import WhereClause.Proofs.Verbosity

/-!
# What a compilation reports

The events of a compilation can be told from the expression, its tree and the mapping: the calls
in the expression, then the columns in the tree that the mapping has no entry for, and last the
outcome. What fails reports some of them in the same order (`Traced.Reports`). No call of an
accepted expression stands within another one, since the operands of a call are values and paths
(`Expr.calls_eq_nil_of_leaf`); so it does not show that a call is reported after its operands.
What the lines of the log say is told by what they read back as, with the names, the codes and the
messages spelled out (`Run.logLines_compile`).
-/
namespace WhereClause

namespace Traced

variable {α β : Type} {x : Traced α} {expected others : List Event}

/-- These are the events of a result, and a failure has some of them, in their order. -/
structure Reports (x : Traced α) (expected : List Event) : Prop where
  sublist : x.events.Sublist expected
  events_eq : ∀ a, x.result = .ok a → x.events = expected

theorem reports_pure (a : α) : (Pure.pure a : Traced α).Reports [] :=
  ⟨.refl _, fun _ _ => rfl⟩

theorem reports_ofResult (r : Except Error α) : (ofResult r).Reports [] :=
  ⟨.refl _, fun _ _ => rfl⟩

theorem reports_fail (e : Error) (expected : List Event) : (fail e : Traced α).Reports expected :=
  ⟨List.nil_sublist _, fun _ h => by cases h⟩

theorem reports_report (e : Event) : (report e).Reports [e] :=
  ⟨.refl _, fun _ _ => rfl⟩

/-- A sequence reports what its parts do, one after the other. -/
theorem Reports.bind {f : α → Traced β} (first : x.Reports expected)
    (rest : ∀ a, x.result = .ok a → (f a).Reports others) :
    (x >>= f).Reports (expected ++ others) := by
  cases hx : x.result with
  | error e =>
    refine ⟨?_, fun b hb => ?_⟩
    · rw [events_bind_of_error hx]
      exact first.sublist.trans (List.sublist_append_left _ _)
    · rw [result_bind, hx] at hb
      cases hb
  | ok a =>
    refine ⟨?_, fun b hb => ?_⟩
    · rw [events_bind_of_ok hx]
      exact first.sublist.append (rest a hx).sublist
    · rw [result_bind, hx] at hb
      rw [events_bind_of_ok hx, first.events_eq a hx, (rest a hx).events_eq b hb]

/-- What goes on without an event reports no more than its first part. -/
theorem Reports.andThen {f : α → Traced β} (first : x.Reports expected)
    (rest : ∀ a, x.result = .ok a → (f a).Reports []) : (x >>= f).Reports expected := by
  have both := first.bind rest
  rwa [List.append_nil] at both

/-- What begins without an event reports no more than the rest. -/
theorem reports_after {f : α → Traced β} (r : Except Error α)
    (rest : ∀ a, r = .ok a → (f a).Reports expected) : (ofResult r >>= f).Reports expected :=
  (reports_ofResult r).bind rest

/-- A result that is followed by an event, where whatever succeeds has no other events. -/
theorem Reports.thenReport (h : x.Reports expected) (event : Event)
    (silent : ∀ a, x.result = .ok a → expected = []) :
    (x >>= fun a => report event >>= fun _ => Pure.pure a).Reports (event :: expected) := by
  cases hx : x.result with
  | error e =>
    refine ⟨?_, fun a ha => ?_⟩
    · rw [events_bind_of_error hx]
      exact h.sublist.cons event
    · rw [result_bind, hx] at ha
      cases ha
  | ok a =>
    obtain rfl := silent a hx
    have last := h.bind fun a _ => (reports_report event).andThen fun _ _ => reports_pure a
    exact last

theorem bind_bind (x : Traced α) {γ : Type} (f : α → Traced β) (g : β → Traced γ) :
    (x >>= f) >>= g = x >>= fun a => f a >>= g := by
  show Traced.bind (Traced.bind x f) g = Traced.bind x fun a => Traced.bind (f a) g
  unfold Traced.bind
  cases x.result with
  | error e => rfl
  | ok a => cases hfa : (f a).result <;> simp [hfa]

end Traced

open Outcome Traced

namespace Node

/-- A method is of a value and a path, and so of no predicates. -/
theorem Expands.operands_not_composite {method : Method} {first second n : Node}
    (h : Expands method first second n) :
    first.isComposite = false ∧ second.isComposite = false := by
  cases h <;> exact ⟨rfl, rfl⟩

end Node

namespace Expr

mutual

/-- The methods that an expression calls, from left to right, a call before those within it. -/
def calls : Expr → List Method
  | .constant _ _ | .subject => []
  | .lambda body => body.calls
  | .convert operand => operand.calls
  | .member receiver _ _ => receiver.calls
  | .binary _ left right => left.calls ++ right.calls
  | .call method none args => method :: callsInList args
  | .call method (some receiver) args => method :: (receiver.calls ++ callsInList args)

def callsInList : List Expr → List Method
  | [] => []
  | e :: es => e.calls ++ callsInList es

end

theorem calls_of_isSubject {e : Expr} (h : e.isSubject = true) : e.calls = [] := by
  match e with
  | .subject => rfl
  | .convert operand => exact calls_of_isSubject (e := operand) h
  | .constant _ _ | .lambda _ | .member _ _ _ | .binary _ _ _ | .call _ _ _ => cases h

/-- An expression whose node is no composite calls nothing. -/
theorem calls_eq_nil_of_leaf {e : Expr} {n : Node}
    (reports : e.toNode.Reports (e.calls.map .predicateExpanded)) (h : e.toNode.result = .ok n)
    (leaf : n.isComposite = false) : e.calls = [] := by
  have events := reports.events_eq n h
  rw [toNode_eq_pure h leaf, Traced.events_pure] at events
  exact List.map_eq_nil_iff.1 events.symm

/-- The step for a call, however its operands are written: they call nothing if it succeeds. -/
theorem reports_call {method : Method} {first second : Expr}
    {expand : Node → Node → Except Error Node}
    (hexpand : ∀ a b n, expand a b = .ok n → Node.Expands method a b n)
    (hfirst : first.toNode.Reports (first.calls.map .predicateExpanded))
    (hsecond : second.toNode.Reports (second.calls.map .predicateExpanded)) :
    (do
      let a ← first.toNode
      let b ← second.toNode
      let n ← Traced.ofResult (expand a b)
      Traced.report (.predicateExpanded method)
      return n : Traced Node).Reports
        ((method :: (first.calls ++ second.calls)).map .predicateExpanded) := by
  rw [List.map_cons]
  -- All that comes before the event of the call is one part, its operands and what is made of them.
  simp only [← bind_bind]
  refine Reports.thenReport ?_ _ fun n hn => ?_
  · rw [List.map_append]
    exact hfirst.bind fun _ _ => hsecond.andThen fun _ _ => reports_ofResult _
  · simp only [Traced.result_bind, Traced.result_ofResult, bind_eq_ok_iff] at hn
    obtain ⟨a, ha, b, hb, hn⟩ := hn
    obtain ⟨firstLeaf, secondLeaf⟩ := (hexpand a b n hn).operands_not_composite
    rw [calls_eq_nil_of_leaf hfirst ha firstLeaf, calls_eq_nil_of_leaf hsecond hb secondLeaf]
    rfl

/-- The calls of an expression are reported, in the order in which they are written. -/
theorem reports_toNode (e : Expr) : e.toNode.Reports (e.calls.map .predicateExpanded) := by
  induction e using toNode.induct with
  | case1 value kind => exact reports_pure _
  | case2 => exact reports_fail _ _
  | case3 body ih => exact ih
  | case4 operand ih => exact ih
  | case5 receiver name kind hsubject =>
    rw [toNode, if_pos hsubject, calls, calls_of_isSubject hsubject]
    exact reports_pure _
  | case6 receiver name kind hsubject ih =>
    rw [toNode, if_neg hsubject, calls]
    exact ih.andThen fun _ _ => reports_ofResult _
  | case7 operator left right ihleft ihright =>
    rw [toNode, calls, List.map_append]
    exact reports_after _ fun _ _ => ihleft.bind fun _ _ =>
      ihright.andThen fun _ _ => reports_ofResult _
  | case8 method receiver arg ihreceiver iharg =>
    rw [toNode, calls, callsInList, callsInList, List.append_nil]
    exact reports_call (fun _ _ _ => Node.expandCall_eq_ok_iff.1) ihreceiver iharg
  | case9 method first second ihfirst ihsecond =>
    rw [toNode, calls, callsInList, callsInList, callsInList, List.append_nil]
    exact reports_call (fun _ _ _ h => (Node.expandPair_eq_ok_iff.1 h).1) ihfirst ihsecond
  | case10 method receiver args notCall notPair =>
    rw [toNode]
    · exact reports_fail _ _
    · exact notCall
    · exact notPair

theorem reports_toPredicate (e : Expr) :
    e.toPredicate.Reports (e.calls.map .predicateExpanded) :=
  (reports_toNode e).andThen fun _ _ => reports_ofResult _

end Expr

namespace Node

/-- The paths that are compared with literals in a tree, from left to right. -/
def compared : Node → List MemberPath
  | composite _ _ (member path) (literal _) => [path]
  | composite _ _ left right => left.compared ++ right.compared
  | literal _ | member _ => []

/-- The dotted paths of the columns compared with literals that have no entry in a mapping, from
left to right. -/
def unregistered (m : Mapping) (n : Node) : List String :=
  let columns := n.compared.filter fun path => !path.nullRef
  (columns.map fun path => ".".intercalate path.segments).filter fun dotted => !m.contains dotted

theorem unregistered_comparison (m : Mapping) (form : Form) (op : Operation) (path : MemberPath)
    (value : Literal) :
    (composite form op (member path) (literal value)).unregistered m
      = if path.nullRef || m.contains path.dotted then [] else [path.dotted] := by
  unfold MemberPath.dotted
  cases hn : path.nullRef <;> cases hm : m.contains (".".intercalate path.segments) <;>
    simp [unregistered, compared, hn, hm]

theorem unregistered_join (m : Mapping) {form : Form} {op : Operation} {left right : Node}
    (hleft : left.isComposite = true) :
    (composite form op left right).unregistered m
      = left.unregistered m ++ right.unregistered m := by
  have split : (composite form op left right).compared = left.compared ++ right.compared := by
    cases left <;> first | rfl | cases hleft
  simp [unregistered, split]

end Node

/-- The event of a path without an entry. -/
def Mapping.unmappedEvent (m : Mapping) (path : String) : Event :=
  .memberUnmapped path m.tableAlias

theorem Mapping.reports_resolve (m : Mapping) (path : String) :
    (m.resolve path).Reports ((if m.contains path then [] else [path]).map m.unmappedEvent) := by
  unfold resolve contains
  cases m.lookup? path with
  | some identifier => exact reports_pure _
  | none =>
    cases m.policy with
    | fallback => exact (reports_report _).andThen fun _ _ => reports_pure _
    | reject => exact reports_fail _ _

namespace Clause

variable {m : Mapping}

theorem reports_operand (path : MemberPath) (name : String) :
    (operand m path name).Reports
      ((if path.nullRef || m.contains path.dotted then [] else [path.dotted]).map
        m.unmappedEvent) := by
  unfold operand
  cases path.nullRef with
  | true => exact reports_pure _
  | false => exact (m.reports_resolve path.dotted).andThen fun _ _ => reports_pure _

theorem reports_ofComparison (form : Form) (op : Operation) (path : MemberPath) (value : Literal) :
    (ofComparison m op path value).Reports
      (((Node.composite form op (.member path) (.literal value)).unregistered m).map
        m.unmappedEvent) := by
  rw [Node.unregistered_comparison]
  refine reports_after _ fun token _ => (reports_operand path _).andThen fun left _ => ?_
  -- The operand has been reported, whichever of the two clauses comes of it.
  split
  · exact reports_after _ fun _ _ => reports_pure _
  · exact reports_pure _

/-- A tree of an expression reports its columns without an entry, if they are not refused. -/
theorem reports_ofNode {n : Node} (paired : n.WellPaired) :
    (ofNode m n).Reports ((n.unregistered m).map m.unmappedEvent) := by
  induction paired with
  | join form op hleft hright ihleft ihright =>
    rw [Node.unregistered_join m hleft.isComposite, List.map_append,
      ofNode_join hleft.isComposite hright.isComposite]
    exact reports_after _ fun _ _ => ihleft.bind fun _ _ =>
      ihright.andThen fun _ _ => reports_pure _
  | comparison form path value hop => exact reports_ofComparison form _ path value
  | constants form a b hop => exact reports_after _ fun _ _ => reports_pure _

end Clause

namespace Predicate

variable {m : Mapping} {e : Expr}

theorem reports_ofNode {n : Node} (hn : e.toPredicate.result = .ok n) :
    (ofNode m n).Reports ((n.unregistered m).map m.unmappedEvent) :=
  (Clause.reports_ofNode (Expr.wellPaired_of_toPredicate hn)).andThen fun _ _ => reports_pure _

/-- The tree of an expression is only written once all of its calls are reported. -/
theorem events_ofExpr_of_ok {n : Node} (hn : e.toPredicate.result = .ok n) :
    (ofExpr m e).events = e.calls.map .predicateExpanded ++ (ofNode m n).events := by
  rw [ofExpr, events_bind_of_ok hn, e.reports_toPredicate.events_eq n hn]

theorem events_ofExpr_of_error {refused : Error} (h : e.toPredicate.result = .error refused) :
    ∃ methods : List Method, methods.Sublist e.calls ∧
      (ofExpr m e).events = methods.map .predicateExpanded := by
  obtain ⟨methods, sublist, events⟩ := List.sublist_map_iff.1 e.reports_toPredicate.sublist
  exact ⟨methods, sublist, (events_bind_of_error h _).trans events⟩

end Predicate

/-- What a report calls a method. -/
def Method.reported : Method → String
  | startsWith => "StartsWith"
  | contains => "Contains"
  | endsWith => "EndsWith"
  | containsOrNull => "ContainsOrNull"
  | likeOrNull => "LikeOrNull"
  | equalsOrNull => "EqualsOrNull"

theorem Method.reported_eq (method : Method) : method.reported = method.name := by
  cases method <;> rfl

/-- The code and the reason that a report gives for an error. -/
def Error.reported : Error → String × String
  | unsupportedShape detail =>
    ("PREDSQL_UNSUPPORTED_SHAPE", "Unsupported expression shape: " ++ detail)
  | unsupportedOperation name arity =>
    ("PREDSQL_UNSUPPORTED_OPERATION",
      "Unsupported operation: " ++ name ++ " with " ++ toString arity ++ " operand(s)")
  | unsupportedOperator detail =>
    ("PREDSQL_UNSUPPORTED_OPERATOR", "Unsupported operator: " ++ detail)
  | malformedTree detail => ("PREDSQL_MALFORMED_TREE", "Malformed predicate tree: " ++ detail)
  | unmappedMember path => ("PREDSQL_UNMAPPED_MEMBER", "Unmapped member path: " ++ path)

theorem Error.reported_eq (error : Error) : error.reported = (error.code, error.message) := by
  cases error <;> rfl

/-- The keys of the fields are in their order. -/
theorem Event.ascending_fields (e : Event) : Keyed.Ascending e.fields := by
  have keys : (e.fields.map Prod.fst).Pairwise (· < ·) := by
    cases e with
    | mappingLoaded | memberUnmapped =>
      exact (by decide : ["path", "table_alias"].Pairwise (· < ·))
    | predicateExpanded => exact List.pairwise_singleton _ _
    | predicateAccepted =>
      exact (by decide : ["parameters", "table_alias", "text_length"].Pairwise (· < ·))
    | predicateRejected => exact (by decide : ["code", "reason"].Pairwise (· < ·))
  exact Keyed.ascending_iff_pairwise.2 (List.pairwise_map.1 keys)

theorem Event.isLine_content (e : Event) : Text.IsLine e.content := by
  rw [content, Log.content]
  exact Json.isLine_render _

/-- The line of an event says its name, its severity and its fields. -/
theorem Event.read?_content (e : Event) : Json.read? e.content
    = some (.ofTexts (("event", e.topic.name) :: ("severity", e.severity.name) :: e.fields)) := by
  rw [content, Log.read?_content, Log.toWritten_members,
    Log.sortFields_eq_of_ascending (.refl _) e.ascending_fields]

namespace Run

open Json (Written)

/-- What the lines of a log with all events read back as. -/
theorem read?_logLines_trace (events : List Event) :
    (logLines .trace events).map Json.read? = events.map fun e => some
      (Written.ofTexts (("event", e.topic.name) :: ("severity", e.severity.name) :: e.fields)) := by
  rw [logLines_trace, List.map_map]
  refine List.map_congr_left fun event _ => ?_
  rw [Function.comp_apply, event.read?_content]

/-- The events of an expression that compiles. -/
theorem events_compile_of_ok {m : Mapping} {e : Expr} {p : Predicate}
    (hp : (compile m e).result = .ok p) : ∃ n, e.toPredicate.result = .ok n ∧
      (compile m e).events = e.calls.map .predicateExpanded
        ++ (n.unregistered m).map m.unmappedEvent
        ++ [.predicateAccepted p.parameters.length m.tableAlias p.text.utf8ByteSize] := by
  obtain ⟨n, -, hn, -, -⟩ := result_compile_eq_ok_iff.1 hp
  have written : (Predicate.ofNode m n).result = .ok p := by
    rw [result_compile_of_toPredicate hn] at hp
    rwa [Predicate.ofNode, Traced.result_bind]
  refine ⟨n, hn, ?_⟩
  rw [events_compile, hp, Predicate.events_ofExpr_of_ok hn,
    (Predicate.reports_ofNode hn).events_eq p written]
  rfl

/-- The events of an expression that is refused. -/
theorem events_compile_of_error {m : Mapping} {e : Expr} {error : Error}
    (herror : (compile m e).result = .error error) : ∃ (methods : List Method)
      (paths : List String), (compile m e).events = methods.map .predicateExpanded
        ++ paths.map m.unmappedEvent ++ [.predicateRejected error] ∧
      methods.Sublist e.calls ∧
      (∀ refused, e.toPredicate.result = .error refused → paths = []) ∧
      ∀ n, e.toPredicate.result = .ok n → methods = e.calls ∧ paths.Sublist (n.unregistered m) := by
  rw [events_compile, herror]
  cases hn : e.toPredicate.result with
  | error refused =>
    obtain ⟨methods, sublist, events⟩ := Predicate.events_ofExpr_of_error hn
    refine ⟨methods, [], ?_, sublist, fun _ _ => rfl, fun _ h => by cases h⟩
    rw [events, List.map_nil, List.append_nil]
    rfl
  | ok n =>
    obtain ⟨paths, sublist, events⟩ := List.sublist_map_iff.1 (Predicate.reports_ofNode hn).sublist
    refine ⟨e.calls, paths, ?_, .refl _, fun _ h => (by cases h), fun n' hn' => ⟨rfl, ?_⟩⟩
    · rw [Predicate.events_ofExpr_of_ok hn, events]
      rfl
    · obtain rfl := Except.ok.inj hn'
      exact sublist

/-- The lines of a log tell the truth about a compilation, if all of them are kept: each of them is
one line, and reads back as an object of texts. One that succeeds has first a line for each call in
the expression, from left to right, with the method; then a line for each comparison of a column
and a literal whose column has no entry, from left to right, with its dotted path; and last one
line with the number of parameters and the length of the text in bytes. One that fails has some of
these lines and last one with the code and the message of the error, and no line for a column if
the expression has no tree. -/
theorem logLines_compile (m : Mapping) (e : Expr) :
    (∀ line ∈ logLines .trace (compile m e).events, Text.IsLine line) ∧
    (∀ p, (compile m e).result = .ok p → ∃ n, e.toPredicate.result = .ok n ∧
      (logLines .trace (compile m e).events).map Json.read?
        = (e.calls.map (fun method => Written.ofTexts
            [("event", "PREDICATE_EXPANDED"), ("severity", "TRACE"), ("method", method.reported)])
          ++ (n.unregistered m).map (fun path => Written.ofTexts
            [("event", "MEMBER_UNMAPPED"), ("severity", "WARN"), ("path", path),
             ("table_alias", m.tableAlias)])
          ++ [Written.ofTexts
            [("event", "PREDICATE_TRANSLATED"), ("severity", "TRACE"),
             ("parameters", toString p.parameters.length), ("table_alias", m.tableAlias),
             ("text_length", toString p.text.toUTF8.size)]]).map some) ∧
    ∀ error, (compile m e).result = .error error → ∃ (methods : List Method) (paths : List String),
      (logLines .trace (compile m e).events).map Json.read?
        = (methods.map (fun method => Written.ofTexts
            [("event", "PREDICATE_EXPANDED"), ("severity", "TRACE"), ("method", method.reported)])
          ++ paths.map (fun path => Written.ofTexts
            [("event", "MEMBER_UNMAPPED"), ("severity", "WARN"), ("path", path),
             ("table_alias", m.tableAlias)])
          ++ [Written.ofTexts
            [("event", "PREDICATE_REJECTED"), ("severity", "WARN"), ("code", error.reported.1),
             ("reason", error.reported.2)]]).map some ∧
      methods.Sublist e.calls ∧
      (∀ refused, e.toPredicate.result = .error refused → paths = []) ∧
      ∀ n, e.toPredicate.result = .ok n → methods = e.calls ∧ paths.Sublist (n.unregistered m) := by
  refine ⟨fun line hline => ?_, fun p hp => ?_, fun error herror => ?_⟩
  · rw [logLines_trace] at hline
    obtain ⟨event, -, rfl⟩ := List.mem_map.1 hline
    exact event.isLine_content
  · obtain ⟨n, hn, events⟩ := events_compile_of_ok hp
    refine ⟨n, hn, ?_⟩
    rw [read?_logLines_trace, events]
    simp only [List.map_append, List.map_map, Method.reported_eq]
    rfl
  · obtain ⟨methods, paths, events, rest⟩ := events_compile_of_error herror
    refine ⟨methods, paths, ?_, rest⟩
    rw [read?_logLines_trace, events]
    simp only [List.map_append, List.map_map, Method.reported_eq, Error.reported_eq]
    rfl

/-- Rows with a code or all of them, of those whose name begins with a letter. -/
def nameAndCode : Expr := .and (.startsWith (.field "Name") (.ofValue (.text "a"))) codeOrAll

theorem nameAndCode_logged :
    (compile (.ofModel "m" ["Id"]) nameAndCode).result
      = .ok ⟨"((Name LIKE @Name + '%') AND ((Code = @Code) OR (@Code IS NULL)))",
          [⟨"Name", .text "a"⟩, ⟨"Code", .text "x"⟩]⟩ ∧
    (logLines .trace (compile (.ofModel "m" ["Id"]) nameAndCode).events).map Json.read?
      = [Written.ofTexts
            [("event", "PREDICATE_EXPANDED"), ("severity", "TRACE"), ("method", "StartsWith")],
          Written.ofTexts
            [("event", "PREDICATE_EXPANDED"), ("severity", "TRACE"), ("method", "EqualsOrNull")],
          Written.ofTexts [("event", "MEMBER_UNMAPPED"), ("severity", "WARN"), ("path", "Name"),
            ("table_alias", "m")],
          Written.ofTexts [("event", "MEMBER_UNMAPPED"), ("severity", "WARN"), ("path", "Code"),
            ("table_alias", "m")],
          Written.ofTexts [("event", "PREDICATE_TRANSLATED"), ("severity", "TRACE"),
            ("parameters", "2"), ("table_alias", "m"), ("text_length", "65")]].map some ∧
    (compile (.ofModel "m" ["Id"]) codeAndNullBound).result
      = .error (.unsupportedOperator "Ge against null") ∧
    ∃ (methods : List Method) (paths : List String),
      (logLines .trace (compile (.ofModel "m" ["Id"]) codeAndNullBound).events).map Json.read?
        = (methods.map (fun method => Written.ofTexts
            [("event", "PREDICATE_EXPANDED"), ("severity", "TRACE"), ("method", method.reported)])
          ++ paths.map (fun path => Written.ofTexts
            [("event", "MEMBER_UNMAPPED"), ("severity", "WARN"), ("path", path),
             ("table_alias", "m")])
          ++ [Written.ofTexts [("event", "PREDICATE_REJECTED"), ("severity", "WARN"),
            ("code", "PREDSQL_UNSUPPORTED_OPERATOR"),
            ("reason", "Unsupported operator: Ge against null")]]).map some ∧
      methods = [.equalsOrNull] ∧ paths.Sublist ["Code"] := by
  have accepted : (compile (.ofModel "m" ["Id"]) nameAndCode).result
      = .ok ⟨"((Name LIKE @Name + '%') AND ((Code = @Code) OR (@Code IS NULL)))",
          [⟨"Name", .text "a"⟩, ⟨"Code", .text "x"⟩]⟩ := rfl
  have refused : (compile (.ofModel "m" ["Id"]) codeAndNullBound).result
      = .error (.unsupportedOperator "Ge against null") := rfl
  obtain ⟨-, logged, -⟩ := logLines_compile (.ofModel "m" ["Id"]) nameAndCode
  obtain ⟨n, hn, lines⟩ := logged _ accepted
  cases hn
  obtain ⟨-, -, logged⟩ := logLines_compile (.ofModel "m" ["Id"]) codeAndNullBound
  obtain ⟨methods, paths, rejected, -, -, tree⟩ := logged _ refused
  obtain ⟨all, some⟩ := tree _ rfl
  exact ⟨accepted, lines, refused, methods, paths, rejected, all, some⟩

end Run
end WhereClause
