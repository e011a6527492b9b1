import WhereClause.Proofs.Answers
import WhereClause.Proofs.LogLines

/-!
# What more a run says when asked to

A run says more about itself when it is asked to be verbose, and nothing else about it changes.
Which lines come to be said can be read off the lines themselves: each of them is a JSON object
that names its severity (`Log.severity?_content`), and the last line, with the error, is none.
-/
namespace WhereClause

open Json (Written)

theorem Severity.ofName?_name (s : Severity) : ofName? s.name = some s := by
  cases s <;> decide

namespace Log

/-- The severity that a line of the log names. -/
def severity? (line : String) : Option Severity := do
  match ← (Json.read? line).bind (Written.record? ["severity"]) with
  | [some severity] => Severity.ofName? (← severity.text?)
  | _ => none

/-- The line is said only by a run that was asked to be verbose. -/
def isDetail (line : String) : Bool :=
  severity? line == some .trace || severity? line == some .info

end Log

namespace Json

/-- The members of an object that was written have their names. -/
theorem named?_toWrittenFields (fields : List (String × Json)) :
    Written.named? (toWrittenFields fields)
      = some (fields.map fun (name, value) => (name, value.toWritten)) := by
  induction fields with
  | nil => rfl
  | cons field fields ih =>
    obtain ⟨name, value⟩ := field
    simp [toWrittenFields, Written.named?, ih]

/-- What is written under a name is what the members of that name were written as. -/
theorem under_toWritten (key : String) (fields : List (String × Json)) :
    Written.under key (fields.map fun (name, value) => (name, value.toWritten))
      = (fields.filter (·.1 == key)).map (·.2.toWritten) := by
  simp [Written.under, List.filter_map, Function.comp_def]

end Json

namespace Log

/-- A line names the severity it was logged with, if no field has that name. -/
theorem severity?_content (severity : Severity) (event : String) {fields : List (String × String)}
    (h : ∀ f ∈ fields, f.1 ≠ "severity") :
    severity? (content severity event fields) = some severity := by
  have others : (sortFields fields).filter (fun f => f.1 == "severity") = [] := by
    simpa [List.filter_eq_nil_iff, (perm_sortFields fields).mem_iff] using h
  have entries : Written.record? ["severity"] (record severity event fields).toWritten
      = some [some (.text (some severity.name))] := by
    rw [record, Json.toWritten, Written.record?, Json.named?_toWrittenFields, Option.bind_some,
      Written.objectEntries?, Written.entry?, Json.under_toWritten]
    simp [List.filter_map, Function.comp_def, others, Json.toWritten, Written.objectEntries?]
  rw [severity?, content, Json.read?_render (integral_record severity event fields)]
  simp [entries, Written.text?, Severity.ofName?_name]

end Log

/-- Every event is logged with its severity. -/
theorem Event.severity?_content (e : Event) : Log.severity? e.content = some e.severity := by
  apply Log.severity?_content
  cases e <;> simp [fields]

theorem CommandError.exists_kind_of_code (e : CommandError) :
    ∃ kind, e.code = "PREDSQL_" ++ kind := by
  cases e with
  | io message => exact ⟨"CLI_IO_ERROR", rfl⟩
  | input message => exact ⟨"CLI_INVALID_INPUT", rfl⟩
  | mapping error =>
    cases error with
    | unreadable failure => exact ⟨"MAPPING_READ", rfl⟩
    | malformed => exact ⟨"MAPPING_JSON", rfl⟩
    | invalid reason => exact ⟨"MAPPING_INVALID", rfl⟩
  | expression error =>
    cases error with
    | unsupportedShape detail => exact ⟨"UNSUPPORTED_SHAPE", rfl⟩
    | unsupportedOperation name arity => exact ⟨"UNSUPPORTED_OPERATION", rfl⟩
    | unsupportedOperator detail => exact ⟨"UNSUPPORTED_OPERATOR", rfl⟩
    | malformedTree detail => exact ⟨"MALFORMED_TREE", rfl⟩
    | unmappedMember path => exact ⟨"UNMAPPED_MEMBER", rfl⟩

/-- The line with an error names no severity: it does not begin as a JSON text does. -/
theorem CommandError.severity?_display (e : CommandError) : Log.severity? e.display = none := by
  obtain ⟨kind, code⟩ := e.exists_kind_of_code
  have unread : Json.read? e.display = none := by
    rw [Json.read?, display, code]
    simp only [String.toList_append]
    rfl
  rw [Log.severity?, unread]
  rfl

namespace Request

variable {args : List String} {action : Action} {file : String}

/-- A draft comes to the same action however verbose the run is asked to be ahead of it. -/
theorem Draft.finish_eq_run {d : Draft} {ahead verbose : Bool}
    (h : d.finish ahead = some (.run action file verbose)) :
    verbose = (ahead || d.verbose) ∧
      ∀ ahead', d.finish ahead' = some (.run action file (ahead' || d.verbose)) := by
  unfold finish at h ⊢
  cases hcommand : d.command with
  | compile =>
    simp only [hcommand] at h
    cases h
    exact ⟨rfl, fun _ => rfl⟩
  | resolve =>
    simp only [hcommand, Option.map_eq_some_iff] at h
    obtain ⟨path, hpath, h⟩ := h
    cases h
    exact ⟨rfl, fun _ => by simp [hpath]⟩

/-- Asked ahead of the command to be verbose, a run is. -/
theorem verbose_of_readFrom {verbose : Bool}
    (h : readFrom true args = some (.run action file verbose)) : verbose = true := by
  cases args with
  | nil => cases h
  | cons arg args =>
    unfold readFrom at h
    split at h
    · cases h
    · split at h
      · cases h
      · obtain ⟨command, -, h⟩ := Option.bind_eq_some_iff.1 h
        obtain ⟨d, -, h⟩ := Option.bind_eq_some_iff.1 h
        simpa using (Draft.finish_eq_run h).1

/-- A request for a run that is not verbose does not ask to be verbose ahead of the command, and
asked so it is the same request but for that. -/
theorem readFrom_verbose (h : readFrom false args = some (.run action file false)) :
    readFrom true args = some (.run action file true) := by
  cases args with
  | nil => cases h
  | cons arg args =>
    unfold readFrom at h ⊢
    split at h
    · cases h
    · split at h
      · cases verbose_of_readFrom h
      · next notVersion notVerbose =>
        rw [if_neg notVersion, if_neg notVerbose]
        obtain ⟨command, hcommand, h⟩ := Option.bind_eq_some_iff.1 h
        obtain ⟨d, hd, h⟩ := Option.bind_eq_some_iff.1 h
        rw [hcommand, Option.bind_some, hd, Option.bind_some]
        exact (Draft.finish_eq_run h).2 true

theorem ofArguments_verbose (h : ofArguments args = some (.run action file false)) :
    ofArguments ("--verbose" :: args) = some (.run action file true) := by
  have notVersion : ¬ ("--verbose" = "--version" ∨ "-V".toList.isPrefixOf "--verbose".toList) := by
    decide +kernel
  rw [ofArguments, readFrom, if_neg notVersion, if_pos rfl]
  exact readFrom_verbose h

end Request

namespace Run

open Log

theorem logLines_trace (events : List Event) :
    logLines .trace events = events.map Event.content := by
  rw [logLines, List.filter_eq_self.2 fun e _ => e.severity.enabled_trace]

/-- A run that is not verbose keeps of the log what is no detail. -/
theorem logLines_quiet (events : List Event) :
    logLines (leastSeverity false) events
      = (logLines (leastSeverity true) events).filter (!isDetail ·) := by
  have kept (e : Event) : e.severity.enabled .warn = !isDetail e.content := by
    rw [isDetail, e.severity?_content]
    cases e.severity <;> rfl
  show logLines .warn events = (logLines .trace events).filter (!isDetail ·)
  rw [logLines_trace, List.filter_map, logLines]
  simp only [kept, Function.comp_def]

theorem isDetail_display (e : CommandError) : isDetail e.display = false := by
  rw [isDetail, e.severity?_display]
  rfl

/-- Being verbose adds lines to the report, and changes nothing else. -/
theorem outcome_verbose {s : Surroundings Id} {args : List String} {action : Action} {file : String}
    (h : Request.ofArguments args = some (.run action file false)) :
    Request.ofArguments ("--verbose" :: args) = some (.run action file true) ∧
    ∀ loud, Request.ofArguments loud = some (.run action file true) →
      (outcome s args).exitCode = (outcome s loud).exitCode ∧
      (outcome s args).output = (outcome s loud).output ∧
      (outcome s args).report = (outcome s loud).report.filter (!isDetail ·) := by
  refine ⟨Request.ofArguments_verbose h, fun loud hloud => ?_⟩
  cases hload : loadConfig (textOf (s.file file)) with
  | error e =>
    rw [outcome_of_not_loaded h hload, outcome_of_not_loaded hloud hload]
    simp [isDetail_display]
  | ok config =>
    rw [outcome_of_loaded h hload, outcome_of_loaded hloud hload]
    cases (Id.run (act s config.mapping action)).2 with
    | error e => simp [respond, logLines_quiet, isDetail_display]
    | ok answer => exact ⟨rfl, rfl, logLines_quiet _⟩

/-- Resolving a path without an entry is a warning, which is kept; loading the mapping is not. -/
theorem unmappedName_verbose :
    Request.ofArguments ["resolve", "Name"] = some (.run (.resolve "Name") "./mapping.json" false) ∧
    (outcome (holding (bare .fallback).document) ["--verbose", "resolve", "Name"]).report
      = [(Event.mappingLoaded "./mapping.json" "m").content,
          (Event.memberUnmapped "Name" "m").content] ∧
    (outcome (holding (bare .fallback).document) ["resolve", "Name"]).output
      = (outcome (holding (bare .fallback).document) ["--verbose", "resolve", "Name"]).output ∧
    (outcome (holding (bare .fallback).document) ["resolve", "Name"]).report
      = [(Event.mappingLoaded "./mapping.json" "m").content,
          (Event.memberUnmapped "Name" "m").content].filter (!isDetail ·) := by
  have asked : Request.ofArguments ["resolve", "Name"]
      = some (.run (.resolve "Name") "./mapping.json" false) := by decide +kernel
  obtain ⟨askedLoud, same⟩ := outcome_verbose (s := holding (bare .fallback).document) asked
  obtain ⟨-, output, report⟩ := same _ askedLoud
  have said : (outcome (holding (bare .fallback).document) ["--verbose", "resolve", "Name"]).report
      = [(Event.mappingLoaded "./mapping.json" "m").content,
          (Event.memberUnmapped "Name" "m").content] := by
    rw [outcome_of_loaded askedLoud (loads_iff.1 (loads_bare _ _))]
    rfl
  rw [said] at report
  exact ⟨asked, said, output, report⟩

end Run
end WhereClause
