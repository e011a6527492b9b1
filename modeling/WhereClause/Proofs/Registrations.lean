import Mathlib.Data.Finset.Card
import Mathlib.Data.List.Induction
import WhereClause.Mapping.Basic
import WhereClause.Proofs.ByteOrder

/-!
# The last registration counts

A mapping is what its steps leave of one another: for each path the identifier of the last step
that registers it, and the policy that was set last. Each step keeps this
(`Mapping.lookup?_register`, `Mapping.Records.register`), and since the entries are in a fixed
order, nothing else of the steps is left (`Mapping.build_by_last_registration`).
-/
namespace WhereClause

namespace Registration

/-- The paths that a step registers. -/
def paths : Registration → List String
  | autoMap properties => properties
  | map path _ _ => [path]
  | unmapped _ => []

/-- The identifier that a step registers for a path, if it registers the path at all. -/
def identifier? (tableAlias path : String) : Registration → Option String
  | autoMap properties =>
    if path ∈ properties then some (tableAlias ++ "." ++ snakeColumn path) else none
  | map registered column otherAlias =>
    if path = registered then some (otherAlias.getD tableAlias ++ "." ++ column) else none
  | unmapped _ => none

/-- The policy that a step sets. -/
def policy? : Registration → Option Policy
  | unmapped policy => some policy
  | autoMap _ | map _ _ _ => none

theorem isSome_identifier?_iff (tableAlias path : String) (step : Registration) :
    (step.identifier? tableAlias path).isSome = true ↔ path ∈ step.paths := by
  cases step <;> simp [identifier?, paths]

section Last

variable {α : Type} {answer? : Registration → Option α} {steps : List Registration}

/-- The answer of the last step that has one. -/
def last? (answer? : Registration → Option α) (steps : List Registration) : Option α :=
  steps.reverse.findSome? answer?

theorem last?_concat (step : Registration) :
    last? answer? (steps ++ [step]) = (answer? step).or (last? answer? steps) := by
  rw [last?, List.reverse_append, List.reverse_singleton, List.singleton_append,
    List.findSome?_cons]
  cases answer? step <;> rfl

/-- After the step that answers there is none that does. -/
theorem last?_eq_some_iff {a : α} : last? answer? steps = some a ↔
    ∃ before step after, steps = before ++ step :: after ∧ answer? step = some a ∧
      ∀ later ∈ after, answer? later = none := by
  rw [last?, List.findSome?_eq_some_iff]
  constructor
  · rintro ⟨after, step, before, split, answered, silent⟩
    refine ⟨before.reverse, step, after.reverse, ?_, answered, fun later h => ?_⟩
    · simpa using congrArg List.reverse split
    · exact silent later (List.mem_reverse.1 h)
  · rintro ⟨before, step, after, rfl, answered, silent⟩
    refine ⟨after.reverse, step, before.reverse, by simp, answered, fun later h => ?_⟩
    exact silent later (List.mem_reverse.1 h)

theorem isSome_last?_iff :
    (last? answer? steps).isSome = true ↔ ∃ step ∈ steps, (answer? step).isSome = true := by
  simp [last?, List.findSome?_isSome_iff]

end Last
end Registration

namespace Mapping

open Registration (last?)

section Step

variable (m : Mapping)

theorem tableAlias_map (path column : String) (otherAlias : Option String) :
    (m.map path column otherAlias).tableAlias = m.tableAlias := rfl

theorem tableAlias_autoMap (properties : List String) :
    (m.autoMap properties).tableAlias = m.tableAlias :=
  List.foldlRecOn (motive := fun m' : Mapping => m'.tableAlias = m.tableAlias) properties _
    rfl fun _ same _ _ => same

theorem policy_autoMap (properties : List String) : (m.autoMap properties).policy = m.policy :=
  List.foldlRecOn (motive := fun m' : Mapping => m'.policy = m.policy) properties _ rfl
    fun _ same _ _ => same

/-- A property that is named twice is registered twice in the same way. -/
theorem lookup?_autoMap (properties : List String) (path : String) :
    (m.autoMap properties).lookup? path
      = if path ∈ properties then some (m.tableAlias ++ "." ++ snakeColumn path)
        else m.lookup? path := by
  induction properties generalizing m with
  | nil => rfl
  | cons property properties ih =>
    have first := lookup?_map m property (snakeColumn property) none path
    have rest := ih (m.map property (snakeColumn property) none)
    rw [first, tableAlias_map] at rest
    refine rest.trans ?_
    by_cases same : path = property
    · simp [same]
    · simp [same, Ne.symm same]

theorem ascending_autoMap (properties : List String) (h : Keyed.Ascending m.entries) :
    Keyed.Ascending (m.autoMap properties).entries :=
  List.foldlRecOn (motive := fun m' : Mapping => Keyed.Ascending m'.entries) properties _ h
    fun _ ascending _ _ => ascending.insert

theorem lookup?_register (step : Registration) (path : String) :
    (m.register step).lookup? path
      = (step.identifier? m.tableAlias path).or (m.lookup? path) := by
  cases step with
  | autoMap properties =>
    refine (m.lookup?_autoMap properties path).trans ?_
    by_cases registered : path ∈ properties <;> simp [Registration.identifier?, registered]
  | map registered column otherAlias =>
    refine (lookup?_map m registered column otherAlias path).trans ?_
    by_cases same : path = registered
    · simp [Registration.identifier?, same]
    · simp [Registration.identifier?, same, Ne.symm same]
  | unmapped policy => rfl

end Step

variable {tableAlias : String} {steps : List Registration} {m : Mapping}

/-- The mapping holds what is left of the steps, and its entries are in order. -/
structure Records (tableAlias : String) (steps : List Registration) (m : Mapping) : Prop where
  alias_eq : m.tableAlias = tableAlias
  lookup?_eq : ∀ path, m.lookup? path = last? (·.identifier? tableAlias path) steps
  policy_eq : m.policy = (last? Registration.policy? steps).getD .fallback
  ascending : Keyed.Ascending m.entries

theorem records_empty (tableAlias : String) : (empty tableAlias).Records tableAlias [] :=
  ⟨rfl, fun _ => rfl, rfl, trivial⟩

/-- One more step is recorded. -/
theorem Records.register (h : m.Records tableAlias steps) (step : Registration) :
    (m.register step).Records tableAlias (steps ++ [step]) where
  alias_eq := by
    cases step with
    | autoMap properties => exact (m.tableAlias_autoMap properties).trans h.alias_eq
    | map path column otherAlias => exact h.alias_eq
    | unmapped policy => exact h.alias_eq
  lookup?_eq path := by
    rw [lookup?_register, h.alias_eq, h.lookup?_eq, Registration.last?_concat]
  policy_eq := by
    rw [Registration.last?_concat]
    cases step with
    | autoMap properties => exact (m.policy_autoMap properties).trans h.policy_eq
    | map path column otherAlias => exact h.policy_eq
    | unmapped policy => rfl
  ascending := by
    cases step with
    | autoMap properties => exact m.ascending_autoMap properties h.ascending
    | map path column otherAlias => exact h.ascending.insert
    | unmapped policy => exact h.ascending

theorem records_build (tableAlias : String) (steps : List Registration) :
    (build tableAlias steps).Records tableAlias steps := by
  induction steps using List.reverseRecOn with
  | nil => exact records_empty tableAlias
  | append_singleton steps step ih =>
    have last : build tableAlias (steps ++ [step]) = (build tableAlias steps).register step := by
      simp [build]
    rw [last]
    exact ih.register step

theorem Records.mem_entries_iff (h : m.Records tableAlias steps) {path identifier : String} :
    (path, identifier) ∈ m.entries ↔ m.lookup? path = some identifier :=
  h.ascending.find?_eq_some_iff.symm

/-- The paths that have an entry are those that some step registers. -/
theorem Records.mem_paths_iff (h : m.Records tableAlias steps) {path : String} :
    path ∈ m.entries.map Prod.fst ↔ path ∈ steps.flatMap Registration.paths := by
  simp only [List.mem_map, Prod.exists, h.mem_entries_iff, h.lookup?_eq, exists_and_right,
    exists_eq_right, ← Option.isSome_iff_exists, Registration.isSome_last?_iff,
    Registration.isSome_identifier?_iff, List.mem_flatMap]

theorem Records.pairwise_paths (h : m.Records tableAlias steps) :
    (m.entries.map Prod.fst).Pairwise (· < ·) :=
  List.pairwise_map.2 (Keyed.ascending_iff_pairwise.1 h.ascending)

theorem Records.size_eq (h : m.Records tableAlias steps) :
    m.size = (steps.flatMap Registration.paths).toFinset.card := by
  have distinct : (m.entries.map Prod.fst).Nodup := h.pairwise_paths.imp Std.ne_of_lt
  have same : (m.entries.map Prod.fst).toFinset = (steps.flatMap Registration.paths).toFinset := by
    ext path
    rw [List.mem_toFinset, List.mem_toFinset, h.mem_paths_iff]
  rw [← same, List.toFinset_card_of_nodup distinct, List.length_map, size]

/-- What is left of the steps is all that a mapping is. -/
theorem Records.eq {m' : Mapping} {steps' : List Registration} (h : m.Records tableAlias steps)
    (h' : m'.Records tableAlias steps') (sameLookup : ∀ path, m.lookup? path = m'.lookup? path)
    (samePolicy : m.policy = m'.policy) : m = m' := by
  have entries : m.entries = m'.entries := h.ascending.eq_of_find?_eq h'.ascending sameLookup
  have tableAlias_eq : m.tableAlias = m'.tableAlias := h.alias_eq.trans h'.alias_eq.symm
  cases m
  cases m'
  simp_all

/-- A mapping is determined by the last registration of each path. It looks a path up as the
identifier of the last step that registers it, and its policy is the one set last, or else the
fallback. Its entries are what it looks up: the registered paths, no other and none twice, in the
order of their UTF-8 bytes, so its size is their number, and it contains what it looks up. Any
other steps for the same table that register the same identifiers last, and set the same policy
last, set up the same mapping. -/
theorem build_by_last_registration (tableAlias : String) (steps : List Registration) :
    (∀ path identifier, (build tableAlias steps).lookup? path = some identifier ↔
      ∃ before step after, steps = before ++ step :: after ∧
        step.identifier? tableAlias path = some identifier ∧
        ∀ later ∈ after, path ∉ later.paths) ∧
    (build tableAlias steps).policy = (last? Registration.policy? steps).getD .fallback ∧
    (∀ path identifier, (path, identifier) ∈ (build tableAlias steps).entries ↔
      (build tableAlias steps).lookup? path = some identifier) ∧
    (∀ path, path ∈ (build tableAlias steps).entries.map Prod.fst ↔
      ∃ step ∈ steps, path ∈ step.paths) ∧
    ((build tableAlias steps).entries.map Prod.fst).Pairwise
      (fun path next => Text.bytes path < Text.bytes next) ∧
    (build tableAlias steps).size = (steps.flatMap Registration.paths).toFinset.card ∧
    (∀ path, (build tableAlias steps).contains path = true ↔
      ∃ identifier, (build tableAlias steps).lookup? path = some identifier) ∧
    ∀ steps' : List Registration,
      (∀ path, last? (·.identifier? tableAlias path) steps
        = last? (·.identifier? tableAlias path) steps') →
      (last? Registration.policy? steps).getD .fallback
        = (last? Registration.policy? steps').getD .fallback →
      build tableAlias steps = build tableAlias steps' := by
  have records := records_build tableAlias steps
  refine ⟨fun path identifier => ?_, records.policy_eq, fun path identifier =>
    records.mem_entries_iff, fun path => ?_, ?_, records.size_eq, fun path => ?_,
    fun steps' sameLast samePolicy => ?_⟩
  · have unregistered (step : Registration) :
        step.identifier? tableAlias path = none ↔ path ∉ step.paths := by
      rw [← Registration.isSome_identifier?_iff tableAlias, Bool.not_eq_true,
        Option.isSome_eq_false_iff, Option.isNone_iff_eq_none]
    simp only [records.lookup?_eq, Registration.last?_eq_some_iff, unregistered]
  · rw [records.mem_paths_iff, List.mem_flatMap]
  · exact records.pairwise_paths.imp Text.lt_iff_bytes_lt.1
  · rw [contains, Option.isSome_iff_exists]
  · have records' := records_build tableAlias steps'
    refine records.eq records' (fun path => ?_) ?_
    · rw [records.lookup?_eq, records'.lookup?_eq, sameLast]
    · rw [records.policy_eq, records'.policy_eq, samePolicy]

/-- Steps that register two paths over and over. -/
def manySteps : List Registration :=
  [.autoMap ["Name", "Id", "Name"], .unmapped .fallback, .map "Id" "key" (some "s"),
   .map "Name" "title" (some "s"), .unmapped .reject, .autoMap ["Id"]]

/-- The last of them. -/
def fewSteps : List Registration :=
  [.unmapped .reject, .autoMap ["Id"], .map "Name" "title" (some "s")]

theorem manySteps_by_last_registration :
    (∀ path, last? (·.identifier? "m" path) manySteps = last? (·.identifier? "m" path) fewSteps) ∧
    build "m" manySteps = build "m" fewSteps ∧
    (build "m" manySteps).lookup? "Id" = some "m.id" ∧ (build "m" manySteps).size = 2 := by
  have sameLast (path : String) :
      last? (·.identifier? "m" path) manySteps = last? (·.identifier? "m" path) fewSteps := by
    by_cases id : path = "Id" <;> by_cases name : path = "Name" <;>
      simp_all [last?, manySteps, fewSteps, Registration.identifier?]
  obtain ⟨looksUp, -, -, -, -, counts, -, determined⟩ := build_by_last_registration "m" manySteps
  refine ⟨sameLast, determined fewSteps sameLast rfl, ?_, counts⟩
  exact (looksUp "Id" "m.id").2
    ⟨manySteps.dropLast, .autoMap ["Id"], [], rfl, by decide, fun _ h => (by cases h)⟩

end Mapping
end WhereClause
