import WhereClause.Proofs.Composition

/-!
# Places in an expression

A predicate somewhere in an expression is written where it stands: the text of the whole is
its own text between two others, which are the same whatever predicate is put there
(`Expr.exists_place_of_compile`). Only wrappers and operators between predicates can stand
around a predicate, so one step adds a half of a group to the two texts, and the run down to
the place adds them all.
-/
namespace WhereClause

open Outcome

/-- What stands before and behind a predicate in the text of another one, and in its list of
parameters. -/
structure Place where
  before : String
  after : String
  front : List Parameter
  back : List Parameter

namespace Place

/-- The predicate with another one at the place. -/
def fill (place : Place) (p : Predicate) : Predicate :=
  ⟨place.before ++ p.text ++ place.after, place.front ++ p.parameters ++ place.back⟩

/-- The place of a whole predicate. -/
def whole : Place := ⟨"", "", [], []⟩

/-- The place of a predicate at a place in one that stands at a place itself. -/
def inside (outer inner : Place) : Place :=
  ⟨outer.before ++ inner.before, inner.after ++ outer.after, outer.front ++ inner.front,
    inner.back ++ outer.back⟩

theorem fill_whole (p : Predicate) : whole.fill p = p := by
  simp [fill, whole]

theorem fill_inside (outer inner : Place) (p : Predicate) :
    (outer.inside inner).fill p = outer.fill (inner.fill p) := by
  simp [fill, inside, String.append_assoc]

end Place

namespace Expr

/-- An expression without one of its parts. -/
inductive Around where
  | lambda
  | convert
  | owner (name : String) (kind : Kind)
  | leftOf (operator : BinaryOperator) (right : Expr)
  | rightOf (operator : BinaryOperator) (left : Expr)
  | receiver (method : Method) (args : List Expr)
  | arg (method : Method) (callee : Option Expr) (before after : List Expr)

/-- The expression with the part put in. -/
def Around.put (part : Expr) : Around → Expr
  | .lambda => .lambda part
  | .convert => .convert part
  | .owner name kind => .member part name kind
  | .leftOf operator right => .binary operator part right
  | .rightOf operator left => .binary operator left part
  | .receiver method args => .call method (some part) args
  | .arg method callee before after => .call method callee (before ++ part :: after)

/-- The expression that has a part with some others around it, the innermost first. -/
def plug : List Around → Expr → Expr
  | [], part => part
  | around :: above, part => plug above (around.put part)

variable {m : Mapping} {part : Expr} {around : Around} {above : List Around} {s t : OperandSort}

theorem hasSort_predicate_iff {e : Expr} :
    e.HasSort .predicate ↔ ∃ n, e.toPredicate.result = .ok n := by
  simp only [result_toPredicate_eq_ok_iff, hasSort_iff, Node.sort_eq_predicate_iff]

theorem HasSort.unique {e : Expr} (hs : e.HasSort s) (ht : e.HasSort t) : s = t := by
  obtain ⟨n, hn, rfl⟩ := hs.exists_toNode
  obtain ⟨n', hn', rfl⟩ := ht.exists_toNode
  rw [hn] at hn'
  cases hn'
  rfl

theorem HasSort.not_coercesSubject {e : Expr} (h : e.HasSort s) : ¬ e.CoercesSubject := by
  intro coerces
  obtain ⟨n, hn, -⟩ := h.exists_toNode
  exact not_isSubject_of_toNode hn (coercesSubject_iff.1 coerces)

theorem coercesSubject_of_put (h : (around.put part).CoercesSubject) : part.CoercesSubject := by
  cases around with
  | convert =>
    cases h with
    | convert h => exact h
  | _ => cases h

/-- What can stand around a predicate. -/
inductive Around.OfPredicate : Around → Prop
  | lambda : OfPredicate .lambda
  | convert : OfPredicate .convert
  | leftOf {operator : BinaryOperator} {right : Expr} (hop : operator.isArithmetic = false)
      (hright : right.HasSort .predicate) : OfPredicate (.leftOf operator right)
  | rightOf {operator : BinaryOperator} {left : Expr} (hop : operator.isArithmetic = false)
      (hleft : left.HasSort .predicate) : OfPredicate (.rightOf operator left)

/-- No method takes a predicate. -/
theorem not_takes_predicate {method : Method} {onReceiver : Bool}
    (h : method.Takes onReceiver s t) : s ≠ .predicate ∧ t ≠ .predicate := by
  cases h with
  | setOrNull hset => cases hset <;> exact ⟨nofun, nofun⟩
  | membership hset => cases hset <;> exact ⟨nofun, nofun⟩
  | _ => exact ⟨nofun, nofun⟩

/-- A part of an operand is one itself, or it is the subject of a member. Only wrappers and
operators stand around a predicate, and next to it another one. -/
theorem HasSort.of_put (h : (around.put part).HasSort s) :
    part.CoercesSubject ∨ ∃ t, part.HasSort t ∧ (t = .predicate → around.OfPredicate) := by
  cases around with
  | lambda =>
    cases h with
    | lambda h => exact .inr ⟨_, h, fun _ => .lambda⟩
  | convert =>
    cases h with
    | convert h => exact .inr ⟨_, h, fun _ => .convert⟩
  | owner name kind =>
    cases h with
    | ofSubject _ _ h => exact .inl h
    | ofPath _ _ h => exact .inr ⟨_, h, nofun⟩
    | ofObject _ _ h => exact .inr ⟨_, h, nofun⟩
  | leftOf operator right =>
    cases h with
    | binary hleft hright joins =>
      refine .inr ⟨_, hleft, ?_⟩
      rintro rfl
      cases joins with
      | predicates hop => exact .leftOf hop hright
  | rightOf operator left =>
    cases h with
    | binary hleft hright joins =>
      refine .inr ⟨_, hright, ?_⟩
      rintro rfl
      cases joins with
      | predicates hop => exact .rightOf hop hleft
  | receiver method args =>
    cases h with
    | call hreceiver _ takes =>
      exact .inr ⟨_, hreceiver, fun same => absurd same (not_takes_predicate takes).1⟩
  | arg method callee before after =>
    have among : part ∈ before ++ part :: after := by simp
    generalize hargs : before ++ part :: after = args at among
    rw [Around.put, hargs] at h
    cases h with
    | call _ harg takes =>
      obtain rfl := List.mem_singleton.1 among
      exact .inr ⟨_, harg, fun same => absurd same (not_takes_predicate takes).2⟩
    | pair hfirst hsecond takes =>
      rcases List.mem_cons.1 among with rfl | among
      · exact .inr ⟨_, hfirst, fun same => absurd same (not_takes_predicate takes).1⟩
      · obtain rfl := List.mem_singleton.1 among
        exact .inr ⟨_, hsecond, fun same => absurd same (not_takes_predicate takes).2⟩

theorem HasSort.ofPredicate (h : (around.put part).HasSort s) (hpart : part.HasSort .predicate) :
    around.OfPredicate := by
  rcases h.of_put with coerces | ⟨t, ht, haround⟩
  · exact absurd coerces hpart.not_coercesSubject
  · exact haround (ht.unique hpart)

theorem HasSort.of_plug (h : (plug above part).HasSort s) :
    part.CoercesSubject ∨ ∃ t, part.HasSort t := by
  induction above generalizing part with
  | nil => exact .inr ⟨s, h⟩
  | cons around above ih =>
    rcases ih h with coerces | ⟨t, ht⟩
    · exact .inl (coercesSubject_of_put coerces)
    · rcases ht.of_put with coerces | ⟨u, hu, -⟩
      · exact .inl coerces
      · exact .inr ⟨u, hu⟩

theorem Around.OfPredicate.put (h : around.OfPredicate) (hpart : part.HasSort .predicate) :
    (around.put part).HasSort .predicate := by
  cases h with
  | lambda => exact .lambda hpart
  | convert => exact .convert hpart
  | leftOf hop hright => exact .binary hpart hright (.predicates hop)
  | rightOf hop hleft => exact .binary hleft hpart (.predicates hop)

/-- Every predicate around which there is this is written at the place. -/
def IsPlace (m : Mapping) (above : List Around) (place : Place) : Prop :=
  ∀ part, part.HasSort .predicate →
    (compile m (plug above part)).result
      = (compile m part).result >>= fun p => .ok (place.fill p)

theorem not_compile_coalesce {a b : Expr} {p : Predicate} :
    (compile m (.binary .coalesce a b)).result ≠ .ok p := by
  intro h
  obtain ⟨n, c, hn, renders, -⟩ := result_compile_eq_ok_iff.1 h
  obtain ⟨op, l, r, hop, -, -, combined⟩ :=
    result_toNode_binary_eq_ok_iff.1 (result_toPredicate_eq_ok_iff.1 hn).1
  cases hop
  have token : ∃ token, Operation.coalesce.token = .ok token := by
    cases combined with
    | converse value path hop => cases hop
    | _ => exact Clause.token_of_renders renders
  obtain ⟨_, token⟩ := token
  cases token

/-- An operator in what compiles has a word. -/
theorem exists_word?_of_compile {operator : BinaryOperator} {a b : Expr} {p : Predicate}
    (hop : operator.isArithmetic = false) (h : (compile m (.binary operator a b)).result = .ok p) :
    ∃ word, operator.word? = some word := by
  cases operator with
  | coalesce => exact absurd h not_compile_coalesce
  | add => cases hop
  | subtract => cases hop
  | multiply => cases hop
  | divide => cases hop
  | _ => exact ⟨_, rfl⟩

theorem isPlace_whole : IsPlace m [] .whole := by
  intro part _
  cases h : (compile m part).result with
  | error e => exact h
  | ok p =>
    show _ = Except.ok (Place.whole.fill p)
    rw [Place.fill_whole]
    exact h

/-- A wrapper leaves the whole place to what it wraps. -/
theorem isPlace_wrapper
    (h : ∀ part, (compile m (around.put part)).result = (compile m part).result) :
    IsPlace m [around] .whole := by
  intro part hpart
  exact (h part).trans (isPlace_whole part hpart)

/-- On the left of an operator there is the first half of a group, whatever stands on the right. -/
theorem isPlace_leftOf {operator : BinaryOperator} {word : String} {right : Expr} {q : Predicate}
    (hword : operator.word? = some word) (hright : right.HasSort .predicate)
    (hq : (compile m right).result = .ok q) :
    IsPlace m [.leftOf operator right]
      ⟨"(", " " ++ word ++ " " ++ q.text ++ ")", [], q.parameters⟩ := by
  intro part hpart
  show (compile m (.binary operator part right)).result = _
  rw [result_compile_binary hword (hasSort_predicate_iff.1 hpart) (hasSort_predicate_iff.1 hright),
    hq]
  cases (compile m part).result with
  | error e => rfl
  | ok p =>
    show Except.ok (p.join word q) = Except.ok (Place.fill _ p)
    simp [Predicate.join, Place.fill, Clause.group, String.append_assoc]

theorem isPlace_rightOf {operator : BinaryOperator} {word : String} {left : Expr} {q : Predicate}
    (hword : operator.word? = some word) (hleft : left.HasSort .predicate)
    (hq : (compile m left).result = .ok q) :
    IsPlace m [.rightOf operator left]
      ⟨"(" ++ q.text ++ " " ++ word ++ " ", ")", q.parameters, []⟩ := by
  intro part hpart
  show (compile m (.binary operator left part)).result = _
  rw [result_compile_binary hword (hasSort_predicate_iff.1 hleft) (hasSort_predicate_iff.1 hpart),
    hq]
  cases (compile m part).result with
  | error e => rfl
  | ok p =>
    show Except.ok (q.join word p) = Except.ok (Place.fill _ p)
    simp [Predicate.join, Place.fill, Clause.group, String.append_assoc]

/-- The step: around a predicate in what compiles there is a place. -/
theorem exists_place_of_put {p : Predicate} (h : (compile m (around.put part)).result = .ok p)
    (hpart : part.HasSort .predicate) (haround : around.OfPredicate) :
    ∃ place, IsPlace m [around] place := by
  cases haround with
  | lambda => exact ⟨_, isPlace_wrapper fun _ => rfl⟩
  | convert => exact ⟨_, isPlace_wrapper fun _ => rfl⟩
  | @leftOf operator right hop hright =>
    obtain ⟨word, hword⟩ := exists_word?_of_compile hop h
    rw [Around.put, result_compile_binary hword (hasSort_predicate_iff.1 hpart)
      (hasSort_predicate_iff.1 hright), bind_eq_ok_iff] at h
    obtain ⟨p, -, h⟩ := h
    obtain ⟨q, hq, -⟩ := bind_eq_ok_iff.1 h
    exact ⟨_, isPlace_leftOf hword hright hq⟩
  | @rightOf operator left hop hleft =>
    obtain ⟨word, hword⟩ := exists_word?_of_compile hop h
    rw [Around.put, result_compile_binary hword (hasSort_predicate_iff.1 hleft)
      (hasSort_predicate_iff.1 hpart), bind_eq_ok_iff] at h
    obtain ⟨q, hq, -⟩ := h
    exact ⟨_, isPlace_rightOf hword hleft hq⟩

theorem IsPlace.inside {outer inner : Place} (houter : IsPlace m above outer)
    (hinner : IsPlace m [around] inner) (haround : around.OfPredicate) :
    IsPlace m (around :: above) (outer.inside inner) := by
  intro part hpart
  have step : (compile m (around.put part)).result
      = (compile m part).result >>= fun p => .ok (inner.fill p) := hinner part hpart
  show (compile m (plug above (around.put part))).result = _
  rw [houter _ (haround.put hpart), step]
  cases (compile m part).result with
  | error e => rfl
  | ok p =>
    show Except.ok (outer.fill (inner.fill p)) = Except.ok ((outer.inside inner).fill p)
    rw [Place.fill_inside]

/-- The run: wherever a predicate stands in what compiles, there is a place. -/
theorem exists_place_of_compile {p : Predicate} (h : (compile m (plug above part)).result = .ok p)
    (hpart : part.HasSort .predicate) : ∃ place, IsPlace m above place := by
  induction above generalizing part with
  | nil => exact ⟨_, isPlace_whole⟩
  | cons around above ih =>
    obtain ⟨n, hn⟩ := exists_toPredicate_of_compile h
    have accepted : (plug above (around.put part)).HasSort .predicate :=
      hasSort_predicate_iff.2 ⟨n, hn⟩
    rcases accepted.of_plug with coerces | ⟨s, hs⟩
    · exact absurd (coercesSubject_of_put coerces) hpart.not_coercesSubject
    · have haround := hs.ofPredicate hpart
      obtain ⟨outer, houter⟩ := ih h (haround.put hpart)
      rw [plug, houter _ (haround.put hpart), bind_eq_ok_iff] at h
      obtain ⟨q, hq, -⟩ := h
      obtain ⟨inner, hinner⟩ := exists_place_of_put hq hpart haround
      exact ⟨_, houter.inside hinner haround⟩

/-- What stands at a place in what compiles compiles, and is written there. -/
theorem IsPlace.exists_fill {place : Place} {p : Predicate} (h : IsPlace m above place)
    (hp : (compile m (plug above part)).result = .ok p) (hpart : part.HasSort .predicate) :
    ∃ q, (compile m part).result = .ok q ∧ p = place.fill q := by
  rw [h part hpart, bind_eq_ok_iff] at hp
  obtain ⟨q, hq, hp⟩ := hp
  cases hp
  exact ⟨q, hq, rfl⟩

/-- What does not compile at a place ends the whole with its error. -/
theorem IsPlace.result_eq_error {place : Place} {error : Error} (h : IsPlace m above place)
    (hpart : part.HasSort .predicate) (herror : (compile m part).result = .error error) :
    (compile m (plug above part)).result = .error error := by
  rw [h part hpart, herror]
  rfl

end Expr
end WhereClause
