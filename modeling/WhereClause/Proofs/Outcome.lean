import WhereClause.Error

/-!
# Outcomes

How the outcome of a sequence hangs on the outcomes of its parts: when it is a value,
when it is an error, when two sequences that run side by side end alike, and when one of
them ends as the other does unless it is stopped.
-/
namespace WhereClause.Outcome

variable {ε α β γ δ : Type}

theorem bind_eq_ok_iff {x : Except ε α} {f : α → Except ε β} {b : β} :
    (x >>= f) = .ok b ↔ ∃ a, x = .ok a ∧ f a = .ok b := by
  cases x with
  | error e =>
    constructor
    · intro h
      cases h
    · rintro ⟨a, h, -⟩
      cases h
  | ok a =>
    constructor
    · exact fun h => ⟨a, rfl, h⟩
    · rintro ⟨a', h, hb⟩
      cases h
      exact hb

/-- A sequence fails because its first part does, or else because the rest does. -/
theorem bind_eq_error_iff {x : Except ε α} {f : α → Except ε β} {e : ε} :
    (x >>= f) = .error e ↔ x = .error e ∨ ∃ a, x = .ok a ∧ f a = .error e := by
  cases x with
  | error e' =>
    constructor
    · intro h
      cases h
      exact .inl rfl
    · rintro (h | ⟨a, h, -⟩)
      · cases h
        rfl
      · cases h
  | ok a =>
    constructor
    · exact fun h => .inr ⟨a, rfl, h⟩
    · rintro (h | ⟨a', h, he⟩)
      · cases h
      · cases h
        exact he

/-- Whenever this outcome is an error, `P` holds of it. -/
def Fails (P : Error → Prop) (x : Except Error α) : Prop := ∀ error, x = .error error → P error

theorem fails_ok {P : Error → Prop} (a : α) : Fails P (.ok a) := by
  intro error h
  cases h

theorem fails_error {P : Error → Prop} {error : Error} (h : P error) :
    Fails P (.error error : Except Error α) := by
  intro error' same
  cases same
  exact h

/-- A sequence fails only where its first part does, or the rest on a value of it. -/
theorem Fails.bind {P : Error → Prop} {x : Except Error α} {f : α → Except Error β}
    (first : Fails P x) (rest : ∀ a, x = .ok a → Fails P (f a)) : Fails P (x >>= f) := by
  cases x with
  | error e => exact fails_error (first e rfl)
  | ok a => exact rest a rfl

/-- Two outcomes that differ only as far as `R` allows: related values, or errors of
one code. -/
def Alike (R : α → β → Prop) : Except Error α → Except Error β → Prop
  | .ok a, .ok b => R a b
  | .error e, .error e' => e.code = e'.code
  | _, _ => False

theorem Alike.refl {R : α → α → Prop} (hR : ∀ a, R a a) (x : Except Error α) : Alike R x x := by
  cases x with
  | error e => exact rfl
  | ok a => exact hR a

/-- Sequences that start alike and go on alike end alike. -/
theorem Alike.bind {R : α → β → Prop} {S : γ → δ → Prop} {x : Except Error α}
    {y : Except Error β} {f : α → Except Error γ} {g : β → Except Error δ} (first : Alike R x y)
    (rest : ∀ a b, x = .ok a → y = .ok b → R a b → Alike S (f a) (g b)) :
    Alike S (x >>= f) (y >>= g) := by
  cases x with
  | error e =>
    cases y with
    | error e' => exact first
    | ok b => exact first.elim
  | ok a =>
    cases y with
    | error e' => exact first.elim
    | ok b => exact rest a b rfl rfl first

/-- Outcomes that fail with one code only are alike if what the values of each are has
a partner in what those of the other are. -/
theorem Alike.of_iff {R : α → α → Prop} {x y : Except Error α} {S S' : α → Prop} {code : String}
    (hx : Fails (·.code = code) x) (hy : Fails (·.code = code) y)
    (hS : ∀ {a}, x = .ok a ↔ S a) (hS' : ∀ {b}, y = .ok b ↔ S' b)
    (forward : ∀ a, S a → ∃ b, S' b ∧ R a b) (backward : ∀ b, S' b → ∃ a, S a ∧ R b a) :
    Alike R x y := by
  cases x with
  | error e =>
    cases y with
    | error e' => exact (hx e rfl).trans (hy e' rfl).symm
    | ok b =>
      obtain ⟨a, ha, -⟩ := backward b (hS'.1 rfl)
      cases hS.2 ha
  | ok a =>
    obtain ⟨b, hb, related⟩ := forward a (hS.1 rfl)
    cases hS'.2 hb
    exact related

/-- The second outcome is the first one, unless it is stopped by an error of its own. Then it
is that error, or one that ended the first outcome before. -/
inductive StoppedBy : Option Error → Except Error α → Except Error α → Prop
  | never (x : Except Error α) : StoppedBy none x x
  | stopped (error : Error) (x : Except Error α) : StoppedBy (some error) x (.error error)
  | before (error earlier : Error) : StoppedBy (some error) (.error earlier) (.error earlier)

/-- Of two places where a sequence can be stopped the first one counts. -/
theorem StoppedBy.bind {s t : Option Error} {x y : Except Error α} {f g : α → Except Error β}
    (first : StoppedBy s x y) (rest : ∀ a, x = .ok a → StoppedBy t (f a) (g a)) :
    StoppedBy (s.or t) (x >>= f) (y >>= g) := by
  cases first with
  | never =>
    cases x with
    | ok a => exact rest a rfl
    | error earlier =>
      cases t with
      | none => exact .never _
      | some error => exact .before error earlier
  | stopped error => exact .stopped error _
  | before error earlier => exact .before error earlier

/-- What both outcomes begin with stops neither. -/
theorem StoppedBy.after {s : Option Error} (x : Except Error α) {f g : α → Except Error β}
    (rest : ∀ a, StoppedBy s (f a) (g a)) : StoppedBy s (x >>= f) (x >>= g) :=
  (StoppedBy.never x).bind fun a _ => rest a

/-- What both outcomes go on with stops neither. -/
theorem StoppedBy.andThen {s : Option Error} {x y : Except Error α} (first : StoppedBy s x y)
    (f : α → Except Error β) : StoppedBy s (x >>= f) (y >>= f) := by
  have stopped := first.bind fun a _ => StoppedBy.never (f a)
  rwa [Option.or_none] at stopped

theorem StoppedBy.eq {x y : Except Error α} (h : StoppedBy none x y) : y = x := by
  cases h
  rfl

/-- An outcome that was not stopped is the first one. -/
theorem StoppedBy.eq_ok {s : Option Error} {x y : Except Error α} (h : StoppedBy s x y) {a : α}
    (hy : y = .ok a) : x = .ok a := by
  cases h with
  | never => exact hy
  | stopped error => cases hy
  | before error earlier => cases hy

theorem StoppedBy.eq_error {error : Error} {x y : Except Error α} (h : StoppedBy (some error) x y) :
    y = .error error ∨ ∃ earlier, x = .error earlier ∧ y = .error earlier := by
  cases h with
  | stopped => exact .inl rfl
  | before _ earlier => exact .inr ⟨earlier, rfl, rfl⟩

end WhereClause.Outcome
