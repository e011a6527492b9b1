import WhereClause.Log.Event

/-!
# Traced results

A result together with the events met on the way to it. Events of a part that
succeeded are kept when a later part fails. `result` is the view: it turns the
monad's operations into those of `Except`, so that a law about results never
meets an event.
-/
namespace WhereClause

structure Traced (α : Type) where
  events : List Event
  result : Except Error α
  deriving Repr

namespace Traced

variable {α β : Type}

/-- A result without events. -/
def ofResult (result : Except Error α) : Traced α := ⟨[], result⟩

def pure (a : α) : Traced α := ofResult (.ok a)

def fail (error : Error) : Traced α := ofResult (.error error)

/-- An event by itself. -/
def report (event : Event) : Traced Unit := ⟨[event], .ok ()⟩

/-- Goes on with the value of a part that succeeded, and adds the events of the rest. -/
def bind (x : Traced α) (f : α → Traced β) : Traced β :=
  match x.result with
  | .ok a => ⟨x.events ++ (f a).events, (f a).result⟩
  | .error e => ⟨x.events, .error e⟩

instance : Monad Traced where
  pure := pure
  bind := bind

@[simp] theorem result_ofResult (r : Except Error α) : (ofResult r).result = r := rfl

@[simp] theorem result_pure (a : α) : (Pure.pure a : Traced α).result = .ok a := rfl

@[simp] theorem events_pure (a : α) : (Pure.pure a : Traced α).events = [] := rfl

@[simp] theorem result_fail (e : Error) : (fail e : Traced α).result = .error e := rfl

/-- The result of a sequence is the sequence of the results. -/
@[simp] theorem result_bind (x : Traced α) (f : α → Traced β) :
    (x >>= f).result = x.result >>= fun a => (f a).result := by
  show (bind x f).result = _
  unfold bind
  cases x.result <;> rfl

theorem events_bind_of_ok {x : Traced α} {a : α} (h : x.result = .ok a) (f : α → Traced β) :
    (x >>= f).events = x.events ++ (f a).events := by
  show (bind x f).events = _
  unfold bind
  rw [h]

theorem events_bind_of_error {x : Traced α} {e : Error} (h : x.result = .error e)
    (f : α → Traced β) : (x >>= f).events = x.events := by
  show (bind x f).events = _
  unfold bind
  rw [h]

end Traced
end WhereClause
