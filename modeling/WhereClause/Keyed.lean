/-!
# Keyed lists

Pairs of a text key and a value, kept in ascending order of key with no key
twice. Ascending means by code point, which is also the order of the keys' UTF-8
bytes. Object fields and mapping entries are such lists; `find?` is their view,
and `find?_insert` says what an insertion does to it.
-/
namespace WhereClause.Keyed

variable {α : Type}

/-- The value kept under a key. -/
def find? : List (String × α) → String → Option α
  | [], _ => none
  | (k, v) :: rest, key => if k = key then some v else find? rest key

/-- Puts a value under a key, in place of the one that was there. -/
def insert (key : String) (value : α) : List (String × α) → List (String × α)
  | [] => [(key, value)]
  | (k, v) :: rest =>
    if key < k then (key, value) :: (k, v) :: rest
    else if key = k then (key, value) :: rest
    else (k, v) :: insert key value rest

/-- The keyed list of some pairs; a repeated key keeps its last value. -/
def ofList (pairs : List (String × α)) : List (String × α) :=
  pairs.foldl (fun kept (key, value) => insert key value kept) []

/-- Every key comes strictly after the one before it. -/
def Ascending : List (String × α) → Prop
  | [] => True
  | (k, _) :: rest => (∀ p ∈ rest, k < p.1) ∧ Ascending rest

/-- An insertion puts the value under its key and touches no other key. -/
theorem find?_insert (key : String) (value : α) (entries : List (String × α)) (other : String) :
    find? (insert key value entries) other
      = if key = other then some value else find? entries other := by
  induction entries with
  | nil => simp [insert, find?]
  | cons head rest ih =>
    obtain ⟨k, v⟩ := head
    unfold insert
    split
    · simp [find?]
    · split
      · next heq => subst heq; simp only [find?]; split <;> rfl
      · next hne =>
        simp only [find?, ih]
        split
        · next hk => subst hk; rw [if_neg hne]
        · rfl

theorem mem_of_find? {entries : List (String × α)} {key : String} {value : α}
    (h : find? entries key = some value) : (key, value) ∈ entries := by
  induction entries with
  | nil => cases h
  | cons head rest ih =>
    obtain ⟨k, v⟩ := head
    rw [find?] at h
    split at h
    · next hk =>
      cases h
      rw [hk]
      exact List.mem_cons_self
    · exact List.mem_cons_of_mem _ (ih h)

theorem mem_insert {key : String} {value : α} {entries : List (String × α)} {p : String × α}
    (h : p ∈ insert key value entries) : p = (key, value) ∨ p ∈ entries := by
  induction entries with
  | nil => simpa [insert] using h
  | cons head rest ih =>
    obtain ⟨k, v⟩ := head
    unfold insert at h
    split at h
    · simpa using h
    · split at h
      · rcases List.mem_cons.mp h with h | h
        · exact Or.inl h
        · exact Or.inr (List.mem_cons_of_mem _ h)
      · rcases List.mem_cons.mp h with h | h
        · exact Or.inr (h ▸ List.mem_cons_self)
        · exact (ih h).imp_right (List.mem_cons_of_mem _)

theorem ascending_iff_pairwise {entries : List (String × α)} :
    Ascending entries ↔ entries.Pairwise fun p q => p.1 < q.1 := by
  induction entries with
  | nil => simp [Ascending]
  | cons head rest ih => rw [Ascending, List.pairwise_cons, ih]

theorem find?_eq_none_of_forall_lt {entries : List (String × α)} {key : String}
    (h : ∀ p ∈ entries, key < p.1) : find? entries key = none := by
  cases found : find? entries key with
  | none => rfl
  | some value => exact absurd (h _ (mem_of_find? found)) Std.lt_irrefl

/-- An entry of a list that ascends is the one found under its key. -/
theorem Ascending.find?_eq_some_iff {entries : List (String × α)} (h : Ascending entries)
    {key : String} {value : α} : find? entries key = some value ↔ (key, value) ∈ entries := by
  refine ⟨mem_of_find?, fun member => ?_⟩
  induction entries with
  | nil => cases member
  | cons head rest ih =>
    obtain ⟨k, v⟩ := head
    obtain ⟨first, hrest⟩ := h
    rcases List.mem_cons.1 member with same | member
    · cases same
      exact if_pos rfl
    · have other : k ≠ key := fun same => Std.lt_irrefl (same ▸ first _ member)
      rw [find?, if_neg other]
      exact ih hrest member

/-- Lists that ascend are told apart by what is found in them. -/
theorem Ascending.eq_of_find?_eq {entries entries' : List (String × α)} (h : Ascending entries)
    (h' : Ascending entries') (same : ∀ key, find? entries key = find? entries' key) :
    entries = entries' := by
  induction entries generalizing entries' with
  | nil =>
    cases entries' with
    | nil => rfl
    | cons head rest => simpa [find?] using same head.1
  | cons head rest ih =>
    obtain ⟨k, v⟩ := head
    cases entries' with
    | nil => simpa [find?] using same k
    | cons head' rest' =>
      obtain ⟨k', v'⟩ := head'
      -- The smallest key of either list is a key of the other one.
      have reaches : find? ((k', v') :: rest') k = some v := (same k).symm.trans (if_pos rfl)
      have reached : find? ((k, v) :: rest) k' = some v' := (same k').trans (if_pos rfl)
      obtain ⟨first, hrest⟩ := h
      obtain ⟨first', hrest'⟩ := h'
      obtain rfl : k = k' := by
        rcases List.mem_cons.1 (mem_of_find? reaches) with eq | member
        · exact congrArg Prod.fst eq
        · rcases List.mem_cons.1 (mem_of_find? reached) with eq | member'
          · exact (congrArg Prod.fst eq).symm
          · exact absurd (String.lt_trans (first' _ member) (first _ member')) Std.lt_irrefl
      obtain rfl : v = v' := by simpa [find?] using reaches.symm
      have tails : rest = rest' := ih hrest hrest' fun key => by
        by_cases other : k = key
        · subst other
          rw [find?_eq_none_of_forall_lt first, find?_eq_none_of_forall_lt first']
        · simpa [find?, other] using same key
      rw [tails]

/-- An insertion keeps the order. -/
theorem Ascending.insert {key : String} {value : α} {entries : List (String × α)}
    (h : Ascending entries) : Ascending (insert key value entries) := by
  induction entries with
  | nil => simp [Keyed.insert, Ascending]
  | cons head rest ih =>
    obtain ⟨k, v⟩ := head
    obtain ⟨hk, hrest⟩ := h
    unfold Keyed.insert
    split
    · next hlt =>
      refine ⟨fun p hp => ?_, hk, hrest⟩
      rcases List.mem_cons.mp hp with rfl | hp
      · exact hlt
      · exact String.lt_trans hlt (hk p hp)
    · split
      · next heq => exact ⟨fun p hp => heq ▸ hk p hp, hrest⟩
      · next hnlt hne =>
        refine ⟨fun p hp => ?_, ih hrest⟩
        rcases mem_insert hp with rfl | hp
        · exact Std.lt_of_le_of_ne (Std.not_lt.mp hnlt) (Ne.symm hne)
        · exact hk p hp

theorem ascending_append_iff {front back : List (String × α)} :
    Ascending (front ++ back)
      ↔ Ascending front ∧ Ascending back ∧ ∀ p ∈ front, ∀ q ∈ back, p.1 < q.1 := by
  induction front with
  | nil => simp [Ascending]
  | cons head front ih =>
    simp only [List.cons_append, Ascending, ih, List.mem_append, List.mem_cons]
    constructor
    · rintro ⟨first, hfront, hback, across⟩
      refine ⟨⟨fun p hp => first p (.inl hp), hfront⟩, hback, ?_⟩
      rintro p (rfl | hp) q hq
      · exact first q (.inr hq)
      · exact across p hp q hq
    · rintro ⟨⟨first, hfront⟩, hback, across⟩
      refine ⟨?_, hfront, hback, fun p hp => across p (.inr hp)⟩
      rintro p (hp | hp)
      · exact first p hp
      · exact across head (.inl rfl) p hp

/-- A key after all others comes last. -/
theorem insert_of_forall_lt {key : String} (value : α) {entries : List (String × α)}
    (h : ∀ p ∈ entries, p.1 < key) : insert key value entries = entries ++ [(key, value)] := by
  induction entries with
  | nil => rfl
  | cons head rest ih =>
    obtain ⟨k, v⟩ := head
    have before : k < key := h (k, v) List.mem_cons_self
    have notAfter : ¬ key < k := Std.not_lt.mpr (Std.le_of_lt before)
    have other : key ≠ k := fun same => Std.lt_irrefl (same ▸ before)
    rw [insert, if_neg notAfter, if_neg other, ih fun p hp => h p (List.mem_cons_of_mem _ hp)]
    rfl

/-- A list that ascends is kept as it is. -/
theorem ofList_of_ascending {entries : List (String × α)} (h : Ascending entries) :
    ofList entries = entries := by
  have onto (kept entries : List (String × α)) (h : Ascending (kept ++ entries)) :
      entries.foldl (fun kept (key, value) => insert key value kept) kept = kept ++ entries := by
    induction entries generalizing kept with
    | nil => exact (List.append_nil kept).symm
    | cons head rest ih =>
      obtain ⟨k, v⟩ := head
      obtain ⟨-, -, across⟩ := ascending_append_iff.1 h
      have last : insert k v kept = kept ++ [(k, v)] :=
        insert_of_forall_lt v fun p hp => across p hp (k, v) List.mem_cons_self
      rw [List.append_cons] at h
      simp only [List.foldl_cons, last]
      rw [ih _ h, ← List.append_cons]
  exact onto [] entries h

end WhereClause.Keyed
