import Mathlib
import WhereClause.Expr.Document
import WhereClause.Proofs.Trees

/-!
# Documents with their entries in another order

The entries of an object say the same in any order and among others that nobody knows. One step
rearranges one object of a document, at any depth, and keeps the expression that is decoded
(`Expr.ofWrittenWithin?_of_rearranged`); a document that is rearranged step after step keeps it
as long as it nests no deeper than a document may (`Expr.ofDocument?_of_rearranged`).
-/
namespace WhereClause

namespace Json.Written

section Entries

variable {members members' before after : List (String × Written)} {name other : String}
  {names : List String} {item : Written}

theorem mem_under_iff : item ∈ under name members ↔ (name, item) ∈ members := by
  simp [under]

theorem under_append (name : String) (before after : List (String × Written)) :
    under name (before ++ after) = under name before ++ under name after := by
  simp [under]

theorem under_cons_self (name : String) (item : Written) (members : List (String × Written)) :
    under name ((name, item) :: members) = item :: under name members := by
  simp [under]

theorem under_cons_of_ne (h : other ≠ name) (item : Written)
    (members : List (String × Written)) :
    under name ((other, item) :: members) = under name members := by
  simp [under, h]

theorem entry?_eq_of_under_eq (h : under name members = under name members') :
    entry? members name = entry? members' name := by
  unfold entry?
  rw [h]

theorem entry?_eq_some_some_iff :
    entry? members name = some (some item) ↔ under name members = [item] := by
  unfold entry?
  split <;> simp_all

/-- The entry of a name does not depend on the order of the members. -/
theorem entry?_perm (h : members.Perm members') (name : String) :
    entry? members name = entry? members' name := by
  have same : (under name members).Perm (under name members') := (h.filter _).map _
  unfold entry?
  generalize under name members = items at same
  generalize under name members' = items' at same
  match items with
  | [] => rw [same.nil_eq]
  | [item] => rw [List.singleton_perm.1 same]
  | first :: second :: rest =>
    match items', same.length_eq with
    | _ :: _ :: _, _ => rfl

/-- The entry of another name does not depend on an item. -/
theorem entry?_replace_of_ne (h : other ≠ name) (item item' : Written) :
    entry? (before ++ (other, item) :: after) name
      = entry? (before ++ (other, item') :: after) name := by
  apply entry?_eq_of_under_eq
  rw [under_append, under_append, under_cons_of_ne h, under_cons_of_ne h]

/-- An item whose name stands nowhere else is the entry of the name, and any other one in its
place would be. -/
theorem entry?_replace {entry : Option Written}
    (h : entry? (before ++ (name, item) :: after) name = some entry) :
    entry = some item ∧
      ∀ item', entry? (before ++ (name, item') :: after) name = some (some item') := by
  have own (item : Written) : under name (before ++ (name, item) :: after)
      = under name before ++ item :: under name after := by
    rw [under_append, under_cons_self]
  unfold entry? at h
  rw [own] at h
  -- A name that is repeated has no entry, so it stands neither before nor after.
  cases front : under name before with
  | cons first rest => cases rest <;> simp [front] at h
  | nil =>
    cases back : under name after with
    | cons first rest => simp [front, back] at h
    | nil =>
      rw [front, back] at h
      refine ⟨(Option.some.inj h).symm, fun item' => ?_⟩
      rw [entry?_eq_some_some_iff, own, front, back]
      rfl

theorem objectEntries?_congr (h : ∀ name ∈ names, entry? members name = entry? members' name) :
    objectEntries? names members = objectEntries? names members' := by
  induction names with
  | nil => rfl
  | cons name names ih =>
    obtain ⟨first, rest⟩ := List.forall_mem_cons.1 h
    rw [objectEntries?, objectEntries?, first, ih rest]

/-- Another item in the place of one that is an entry is the entry instead, and the others stay. -/
theorem objectEntries?_replace {i : Nat} {entries : List (Option Written)}
    (distinct : names.Nodup) (hname : names[i]? = some name)
    (h : objectEntries? names (before ++ (name, item) :: after) = some entries) :
    entries[i]? = some (some item) ∧ ∀ item',
      objectEntries? names (before ++ (name, item') :: after)
        = some (entries.set i (some item')) := by
  induction names generalizing i entries with
  | nil => simp at hname
  | cons n names ih =>
    obtain ⟨fresh, distinct⟩ := List.nodup_cons.1 distinct
    simp only [objectEntries?, Option.bind_eq_bind, Option.bind_eq_some_iff] at h
    obtain ⟨entry, hentry, rest, hrest, same⟩ := h
    cases same
    cases i with
    | zero =>
      obtain rfl : n = name := by simpa using hname
      obtain ⟨rfl, replaced⟩ := entry?_replace hentry
      refine ⟨rfl, fun item' => ?_⟩
      have others : objectEntries? names (before ++ (n, item) :: after)
          = objectEntries? names (before ++ (n, item') :: after) :=
        objectEntries?_congr fun other hother =>
          entry?_replace_of_ne (by rintro rfl; exact fresh hother) item item'
      rw [objectEntries?, replaced, ← others, hrest]
      rfl
    | succ j =>
      have hname : names[j]? = some name := by simpa using hname
      have differs : name ≠ n := fun same => fresh (same ▸ List.mem_of_getElem? hname)
      obtain ⟨found, replaced⟩ := ih distinct hname hrest
      refine ⟨by simpa using found, fun item' => ?_⟩
      rw [objectEntries?, ← entry?_replace_of_ne differs item item', hentry, replaced]
      rfl

theorem arrayEntries?_replace {before after : List Written} {entries : List (Option Written)}
    (h : arrayEntries? names (before ++ item :: after) = some entries) :
    entries[before.length]? = some (some item) ∧ ∀ item',
      arrayEntries? names (before ++ item' :: after)
        = some (entries.set before.length (some item')) := by
  induction before generalizing names entries with
  | nil =>
    cases names with
    | nil => cases h
    | cons name names =>
      obtain ⟨rest, hrest, rfl⟩ := Option.map_eq_some_iff.1 h
      exact ⟨rfl, fun item' => Option.map_eq_some_iff.2 ⟨rest, hrest, rfl⟩⟩
  | cons first before ih =>
    cases names with
    | nil => cases h
    | cons name names =>
      obtain ⟨rest, hrest, rfl⟩ := Option.map_eq_some_iff.1 h
      obtain ⟨found, replaced⟩ := ih hrest
      refine ⟨by simpa using found, fun item' => ?_⟩
      exact Option.map_eq_some_iff.2 ⟨_, replaced item', rfl⟩

end Entries

section Named

variable {members members' : List (Option String × Written)} {named : List (String × Written)}

theorem named?_eq_some_iff :
    named? members = some named ↔ named.map (Prod.map some id) = members := by
  induction members generalizing named with
  | nil =>
    rw [named?, Option.some.injEq, List.map_eq_nil_iff]
    exact eq_comm
  | cons member members ih =>
    obtain ⟨name, item⟩ := member
    simp only [named?, Option.bind_eq_bind, Option.bind_eq_some_iff, ih, List.map_eq_cons_iff]
    constructor
    · rintro ⟨text, rfl, rest, rfl, same⟩
      exact ⟨(text, item), rest, (Option.some.inj same).symm, rfl, rfl⟩
    · rintro ⟨⟨text, _⟩, rest, rfl, same, rfl⟩
      cases same
      exact ⟨text, rfl, rest, rfl, rfl⟩

theorem named?_perm (h : members.Perm members') (hnamed : named? members = some named) :
    ∃ named', named? members' = some named' ∧ named.Perm named' := by
  rw [named?_eq_some_iff] at hnamed
  subst hnamed
  have back : ∃ named' : List (String × Written),
      members' = named'.map (Prod.map some id) ∧ named'.Perm named :=
    (congrFun₂ (List.eq_map_comp_perm (Prod.map some id)) members' named).mpr h.symm
  obtain ⟨named', rfl, same⟩ := back
  exact ⟨named', named?_eq_some_iff.2 rfl, same.symm⟩

end Named

end Json.Written

open Json (Written)

theorem Shape.nodup_entries (s : Shape) : s.entries.Nodup := by
  cases s <;> decide

theorem Shape.shapeTag_not_mem_entries (s : Shape) : Expr.shapeTag ∉ s.entries := by
  cases s <;> decide

/-- How an expression stands in an entry: as all of it, or as one of the items of an array. -/
inductive Slot where
  | whole
  | item (before after : List Written)

def Slot.put (w : Written) : Slot → Written
  | whole => w
  | item before after => .array (before ++ w :: after)

theorem Slot.valid_put {slot : Slot} {w w' : Written} (h : (slot.put w).Valid)
    (same : w.Valid → w'.Valid) : (slot.put w').Valid := by
  cases slot with
  | whole => exact same h
  | item before after =>
    simp only [put, Written.valid_array_iff, List.forall_mem_append,
      List.forall_mem_cons] at h ⊢
    exact ⟨h.1, same h.2.1, h.2.2⟩

/-- An expression of the shape holds another one in the slot of its entry with the index. -/
inductive Shape.Holds : Shape → Nat → Slot → Prop
  | body : Holds .lambda 0 .whole
  | operand : Holds .convert 0 .whole
  | owner : Holds .member 0 .whole
  | left : Holds .binary 1 .whole
  | right : Holds .binary 2 .whole
  | receiver : Holds .call 1 .whole
  | arg (before after : List Written) : Holds .call 2 (.item before after)

/-- The tree of an expression without what stands in a slot of one of its entries. -/
inductive Setting where
  | object (before : List (Option String × Written)) (name : String) (slot : Slot)
      (after : List (Option String × Written))
  | array (tag : Written) (before : List Written) (slot : Slot) (after : List Written)

def Setting.put (w : Written) : Setting → Written
  | object before name slot after => .object (before ++ (some name, slot.put w) :: after)
  | array tag before slot after => .array (tag :: (before ++ slot.put w :: after))

theorem Setting.put_ne_null (w : Written) (setting : Setting) : setting.put w ≠ .null := by
  cases setting <;> exact nofun

theorem Setting.valid_put {setting : Setting} {w w' : Written} (h : (setting.put w).Valid)
    (same : w.Valid → w'.Valid) : (setting.put w').Valid := by
  cases setting with
  | object before name slot after =>
    simp only [put, Written.valid_object_iff, List.forall_mem_append,
      List.forall_mem_cons] at h ⊢
    obtain ⟨names, valid, hslot, rest⟩ := h
    exact ⟨names, valid, Slot.valid_put hslot same, rest⟩
  | array tag before slot after =>
    simp only [put, Written.valid_array_iff, List.forall_mem_append,
      List.forall_mem_cons] at h ⊢
    obtain ⟨htag, valid, hslot, rest⟩ := h
    exact ⟨htag, valid, Slot.valid_put hslot same, rest⟩

namespace Expr

variable {nested : Bool} {shape : Shape} {members members' : List (Option String × Written)}
  {entries : List (Option Written)}

/-- Among the members is a tag that names the shape. -/
def Says (nested : Bool) (members : List (Option String × Written)) (shape : Shape) : Prop :=
  ∃ tag, (some shapeTag, tag) ∈ members ∧ Shape.ofTag? nested tag = some shape

/-- An expression stands in the setting. -/
inductive Surrounds (nested : Bool) : Setting → Prop
  | object {before after : List (Option String × Written)} {name : String} {slot : Slot}
      {shape : Shape} {i : Nat} (tagged : Says nested (before ++ after) shape)
      (entry : shape.entries[i]? = some name) (holds : shape.Holds i slot) :
      Surrounds nested (.object before name slot after)
  | array {tag : Written} {before after : List Written} {slot : Slot} {shape : Shape}
      (tagged : Shape.ofTag? nested tag = some shape) (holds : shape.Holds before.length slot) :
      Surrounds nested (.array tag before slot after)

/-- One object of a document, that of the whole expression or of one inside, has its members in
another order, or one more that its shape does not know. -/
inductive Rearranged : Bool → Written → Written → Prop
  | order {nested : Bool} {members members' : List (Option String × Written)}
      (h : members.Perm members') : Rearranged nested (.object members) (.object members')
  | unknown {nested : Bool} {members : List (Option String × Written)} {shape : Shape}
      {name : String} {w : Written} (tagged : Says nested members shape)
      (unknown : name ∉ shapeTag :: shape.entries) (valid : w.Valid) :
      Rearranged nested (.object members) (.object (members ++ [(some name, w)]))
  | inside {nested : Bool} {setting : Setting} {w w' : Written}
      (surrounds : Surrounds nested setting) (h : Rearranged true w w') :
      Rearranged nested (setting.put w) (setting.put w')

theorem tagged?_object_eq_some_iff : tagged? nested (.object members) = some (shape, entries) ↔
    ∃ named tag, Written.named? members = some named ∧
      Written.entry? named shapeTag = some (some tag) ∧ Shape.ofTag? nested tag = some shape ∧
      Written.objectEntries? shape.entries named = some entries := by
  simp only [tagged?, Option.bind_eq_bind, Option.bind_eq_some_iff, Option.some.injEq,
    Prod.mk.injEq]
  constructor
  · rintro ⟨named, hnamed, _, hentry, _, ⟨tag, rfl, tagged⟩, _, hread, rfl, rfl⟩
    exact ⟨named, tag, hnamed, hentry, tagged, hread⟩
  · rintro ⟨named, tag, hnamed, hentry, tagged, hread⟩
    exact ⟨named, hnamed, some tag, hentry, shape, ⟨tag, rfl, tagged⟩, entries, hread, rfl, rfl⟩

theorem tagged?_array_eq_some_iff {tag : Written} {items : List Written} :
    tagged? nested (.array (tag :: items)) = some (shape, entries) ↔
      Shape.ofTag? nested tag = some shape ∧
        Written.arrayEntries? shape.entries items = some entries := by
  simp only [tagged?, Option.bind_eq_bind, Option.bind_eq_some_iff, Option.some.injEq,
    Prod.mk.injEq]
  constructor
  · rintro ⟨s, tagged, read, hread, rfl, rfl⟩
    exact ⟨tagged, hread⟩
  · rintro ⟨tagged, hread⟩
    exact ⟨shape, tagged, entries, hread, rfl, rfl⟩

/-- What the members say is the shape that is read. -/
theorem Says.eq {said : Shape} (h : Says nested members said) (within : members ⊆ members')
    (read : tagged? nested (.object members') = some (shape, entries)) : said = shape := by
  obtain ⟨tag, member, hsaid⟩ := h
  obtain ⟨named, tag', hnamed, hentry, hshape, -⟩ := tagged?_object_eq_some_iff.1 read
  rw [Written.named?_eq_some_iff] at hnamed
  have among : (shapeTag, tag) ∈ named := by
    have found := within member
    rw [← hnamed] at found
    obtain ⟨⟨name, item⟩, hpair, same⟩ := List.mem_map.1 found
    cases same
    exact hpair
  have only := Written.mem_under_iff.2 among
  rw [Written.entry?_eq_some_some_iff.1 hentry, List.mem_singleton] at only
  rw [only, hshape] at hsaid
  exact (Option.some.inj hsaid).symm

/-- The order of the members does not show in what is read. -/
theorem tagged?_perm (h : members.Perm members')
    (read : tagged? nested (.object members) = some (shape, entries)) :
    tagged? nested (.object members') = some (shape, entries) := by
  obtain ⟨named, tag, hnamed, hentry, tagged, hread⟩ := tagged?_object_eq_some_iff.1 read
  obtain ⟨named', hnamed', same⟩ := Written.named?_perm h hnamed
  refine tagged?_object_eq_some_iff.2 ⟨named', tag, hnamed', ?_, tagged, ?_⟩
  · rw [← Written.entry?_perm same, hentry]
  · rw [← Written.objectEntries?_congr fun name _ => Written.entry?_perm same name, hread]

/-- A member that the shape does not know is not read. -/
theorem tagged?_append_unknown {name : String} {w : Written}
    (unknown : name ∉ shapeTag :: shape.entries)
    (read : tagged? nested (.object members) = some (shape, entries)) :
    tagged? nested (.object (members ++ [(some name, w)])) = some (shape, entries) := by
  obtain ⟨named, tag, hnamed, hentry, tagged, hread⟩ := tagged?_object_eq_some_iff.1 read
  have named_more : Written.named? (members ++ [(some name, w)]) = some (named ++ [(name, w)]) := by
    rw [Written.named?_eq_some_iff, List.map_append, Written.named?_eq_some_iff.1 hnamed]
    rfl
  have known (other : String) (h : other ∈ shapeTag :: shape.entries) :
      Written.entry? (named ++ [(name, w)]) other = Written.entry? named other := by
    have differs : name ≠ other := fun same => unknown (by rwa [same])
    apply Written.entry?_eq_of_under_eq
    rw [Written.under_append, Written.under_cons_of_ne differs]
    exact List.append_nil _
  refine tagged?_object_eq_some_iff.2 ⟨_, tag, named_more, ?_, tagged, ?_⟩
  · rw [known shapeTag List.mem_cons_self, hentry]
  · rw [Written.objectEntries?_congr fun other h => known other (List.mem_cons_of_mem _ h), hread]

/-- What stands in a setting is in the slot of one of the entries that are read, and anything else
in its place would be. -/
theorem tagged?_put {setting : Setting} (surrounds : Surrounds nested setting) {w : Written}
    (read : tagged? nested (setting.put w) = some (shape, entries)) :
    ∃ i slot, shape.Holds i slot ∧ entries[i]? = some (some (slot.put w)) ∧
      ∀ w', tagged? nested (setting.put w')
        = some (shape, entries.set i (some (slot.put w'))) := by
  cases surrounds with
  | @object before after name slot said i tagged entry holds =>
    obtain rfl : said = shape := tagged.eq (by simp) read
    obtain ⟨named, tag, hnamed, hentry, hshape, hread⟩ := tagged?_object_eq_some_iff.1 read
    rw [Written.named?_eq_some_iff, List.map_eq_append_iff] at hnamed
    obtain ⟨front, rest, rfl, rfl, hrest⟩ := hnamed
    obtain ⟨⟨text, item⟩, back, rfl, same, rfl⟩ := List.map_eq_cons_iff.1 hrest
    obtain ⟨rfl, rfl⟩ : text = name ∧ item = slot.put w := by simpa using same
    have differs : text ≠ shapeTag := fun same =>
      said.shapeTag_not_mem_entries (same ▸ List.mem_of_getElem? entry)
    obtain ⟨found, replaced⟩ := Written.objectEntries?_replace said.nodup_entries entry hread
    refine ⟨i, slot, holds, found, fun w' => tagged?_object_eq_some_iff.2
      ⟨front ++ (text, slot.put w') :: back, tag, ?_, ?_, hshape, replaced _⟩⟩
    · rw [Written.named?_eq_some_iff, List.map_append, List.map_cons]
      rfl
    · rw [← Written.entry?_replace_of_ne differs (slot.put w), hentry]
  | @array tag before after slot said tagged holds =>
    obtain ⟨hshape, hread⟩ := tagged?_array_eq_some_iff.1 read
    obtain rfl : said = shape := Option.some.inj (tagged.symm.trans hshape)
    obtain ⟨found, replaced⟩ := Written.arrayEntries?_replace hread
    exact ⟨before.length, slot, holds, found, fun w' =>
      tagged?_array_eq_some_iff.2 ⟨hshape, replaced _⟩⟩

/-- The receiver in an entry that may be absent, or null. -/
def receiver? (depth : Nat) : Option Written → Option (Option Expr)
  | none | some .null => some none
  | some w => (ofWrittenWithin? depth true w).map some

/-- The arguments in an entry that may be absent. -/
def args? (depth : Nat) : Option Written → Option (List Expr)
  | none => some []
  | some w => w.list? (ofWrittenWithin? depth true)

/-- The entries of a shape say an expression. -/
inductive Decoded (depth : Nat) : Shape → List (Option Written) → Expr → Prop
  | constant {value : Written} {kind : Option Written} {v : Json} {k : Kind}
      (hvalue : value.value? Json.greatestNesting = some v) (hkind : kind? kind = some k) :
      Decoded depth .constant [some value, kind] (.constant v k)
  | subject : Decoded depth .subject [] .subject
  | lambda {w : Written} {body : Expr} (hbody : ofWrittenWithin? depth true w = some body) :
      Decoded depth .lambda [some w] (.lambda body)
  | convert {w : Written} {operand : Expr}
      (hoperand : ofWrittenWithin? depth true w = some operand) :
      Decoded depth .convert [some w] (.convert operand)
  | member {w name : Written} {kind : Option Written} {receiver : Expr} {text : String} {k : Kind}
      (hreceiver : ofWrittenWithin? depth true w = some receiver) (hname : name.text? = some text)
      (hkind : kind? kind = some k) :
      Decoded depth .member [some w, some name, kind] (.member receiver text k)
  | binary {op w w' : Written} {operator : BinaryOperator} {left right : Expr}
      (hop : operator? op = some operator) (hleft : ofWrittenWithin? depth true w = some left)
      (hright : ofWrittenWithin? depth true w' = some right) :
      Decoded depth .binary [some op, some w, some w'] (.binary operator left right)
  | call {w : Written} {wr wa : Option Written} {method : Method} {receiver : Option Expr}
      {args : List Expr} (hmethod : method? w = some method)
      (hreceiver : receiver? depth wr = some receiver) (hargs : args? depth wa = some args) :
      Decoded depth .call [some w, wr, wa] (.call method receiver args)

/-- A call is decoded from its receiver, its arguments and its method. -/
theorem ofWrittenWithin?_call {depth : Nat} {w method : Written} {receiver args : Option Written}
    (read : tagged? nested w = some (.call, [some method, receiver, args])) :
    ofWrittenWithin? (depth + 1) nested w =
      (receiver? depth receiver).bind fun receiver => (args? depth args).bind fun args =>
        (method? method).bind fun method => some (.call method receiver args) := by
  rw [ofWrittenWithin?, read]
  rcases receiver with _ | _ | _ | _ | _ | _ | _ <;> rcases args with _ | _ <;> rfl

theorem ofWrittenWithin?_succ_eq_some_iff {depth : Nat} {w : Written} {e : Expr} :
    ofWrittenWithin? (depth + 1) nested w = some e ↔
      ∃ shape entries, tagged? nested w = some (shape, entries) ∧
        Decoded depth shape entries e := by
  constructor
  · intro found
    have h := found
    rw [ofWrittenWithin?] at h
    obtain ⟨⟨shape, entries⟩, read, h⟩ := Option.bind_eq_some_iff.1 h
    refine ⟨shape, entries, read, ?_⟩
    split at h
    case h_1 same =>
      cases same
      obtain ⟨v, hvalue, h⟩ := Option.bind_eq_some_iff.1 h
      obtain ⟨k, hkind, h⟩ := Option.bind_eq_some_iff.1 h
      cases h
      exact .constant hvalue hkind
    case h_2 same =>
      cases same
      cases h
      exact .subject
    case h_3 same =>
      cases same
      obtain ⟨body, hbody, h⟩ := Option.bind_eq_some_iff.1 h
      cases h
      exact .lambda hbody
    case h_4 same =>
      cases same
      obtain ⟨operand, hoperand, h⟩ := Option.bind_eq_some_iff.1 h
      cases h
      exact .convert hoperand
    case h_5 same =>
      cases same
      obtain ⟨receiver, hreceiver, h⟩ := Option.bind_eq_some_iff.1 h
      obtain ⟨text, hname, h⟩ := Option.bind_eq_some_iff.1 h
      obtain ⟨k, hkind, h⟩ := Option.bind_eq_some_iff.1 h
      cases h
      exact .member hreceiver hname hkind
    case h_6 same =>
      cases same
      obtain ⟨operator, hop, h⟩ := Option.bind_eq_some_iff.1 h
      obtain ⟨left, hleft, h⟩ := Option.bind_eq_some_iff.1 h
      obtain ⟨right, hright, h⟩ := Option.bind_eq_some_iff.1 h
      cases h
      exact .binary hop hleft hright
    case h_7 same =>
      cases same
      rw [ofWrittenWithin?_call read] at found
      obtain ⟨receiver, hreceiver, found⟩ := Option.bind_eq_some_iff.1 found
      obtain ⟨args, hargs, found⟩ := Option.bind_eq_some_iff.1 found
      obtain ⟨method, hmethod, found⟩ := Option.bind_eq_some_iff.1 found
      cases found
      exact .call hmethod hreceiver hargs
    case h_8 => cases h
  · rintro ⟨shape, entries, read, decoded⟩
    cases decoded with
    | constant hvalue hkind => simp [ofWrittenWithin?, read, hvalue, hkind]
    | subject => simp [ofWrittenWithin?, read]
    | lambda hbody => simp [ofWrittenWithin?, read, hbody]
    | convert hoperand => simp [ofWrittenWithin?, read, hoperand]
    | member hreceiver hname hkind => simp [ofWrittenWithin?, read, hreceiver, hname, hkind]
    | binary hop hleft hright => simp [ofWrittenWithin?, read, hop, hleft, hright]
    | call hmethod hreceiver hargs => simp [ofWrittenWithin?_call read, hmethod, hreceiver, hargs]

/-- A tree says an expression if its shape and entries are read, and those say it. -/
theorem ofWrittenWithin?_eq_some_iff {depth : Nat} {w : Written} {e : Expr} :
    ofWrittenWithin? depth nested w = some e ↔
      ∃ below shape entries, depth = below + 1 ∧ tagged? nested w = some (shape, entries) ∧
        Decoded below shape entries e := by
  cases depth with
  | zero => exact ⟨nofun, nofun⟩
  | succ below => simp [ofWrittenWithin?_succ_eq_some_iff]

theorem Rearranged.ne_null {w w' : Written} (h : Rearranged nested w w') :
    w ≠ .null ∧ w' ≠ .null := by
  cases h with
  | order | unknown => exact ⟨nofun, nofun⟩
  | inside => exact ⟨Setting.put_ne_null _ _, Setting.put_ne_null _ _⟩

theorem receiver?_some {depth : Nat} {w : Written} (h : w ≠ .null) :
    receiver? depth (some w) = (ofWrittenWithin? depth true w).map some := by
  cases w with
  | null => exact absurd rfl h
  | _ => rfl

/-- The items of an array are read one by one, whatever stands around them. -/
theorem mapM_put {α β : Type} {read? : α → Option β} {before after : List α} {a a' : α}
    {bs : List β} (h : (before ++ a :: after).mapM read? = some bs)
    (same : ∀ b, read? a = some b → read? a' = some b) :
    (before ++ a' :: after).mapM read? = some bs := by
  simp only [List.mapM_append, List.mapM_cons, Option.bind_eq_bind, Option.bind_eq_some_iff] at h ⊢
  obtain ⟨front, hfront, back, ⟨b, hb, rest⟩, hbs⟩ := h
  exact ⟨front, hfront, back, ⟨b, same b hb, rest⟩, hbs⟩

/-- What stands in a slot may become anything that is decoded to the same expression. -/
theorem Decoded.put {depth i : Nat} {slot : Slot} {e : Expr} {w w' : Written}
    (decoded : Decoded depth shape entries e) (holds : shape.Holds i slot)
    (found : entries[i]? = some (some (slot.put w))) (null : w ≠ .null) (null' : w' ≠ .null)
    (same : ∀ e, ofWrittenWithin? depth true w = some e → ofWrittenWithin? depth true w' = some e) :
    Decoded depth shape (entries.set i (some (slot.put w'))) e := by
  cases holds with
  | body =>
    cases decoded with | lambda hbody =>
    cases found
    exact .lambda (same _ hbody)
  | operand =>
    cases decoded with | convert hoperand =>
    cases found
    exact .convert (same _ hoperand)
  | owner =>
    cases decoded with | member hreceiver hname hkind =>
    cases found
    exact .member (same _ hreceiver) hname hkind
  | left =>
    cases decoded with | binary hop hleft hright =>
    cases found
    exact .binary hop (same _ hleft) hright
  | right =>
    cases decoded with | binary hop hleft hright =>
    cases found
    exact .binary hop hleft (same _ hright)
  | receiver =>
    cases decoded with | call hmethod hreceiver hargs =>
    cases found
    -- Null would be no receiver instead of one that cannot be decoded.
    rw [Slot.put, receiver?_some null] at hreceiver
    obtain ⟨receiver, decodes, rfl⟩ := Option.map_eq_some_iff.1 hreceiver
    refine .call hmethod ?_ hargs
    rw [Slot.put, receiver?_some null', same receiver decodes]
    rfl
  | arg before after =>
    cases decoded with | call hmethod hreceiver hargs =>
    cases found
    exact .call hmethod hreceiver (mapM_put hargs same)

/-- A step keeps the expression that is decoded. -/
theorem ofWrittenWithin?_of_rearranged {w w' : Written} (h : Rearranged nested w w') :
    ∀ {depth : Nat} {e : Expr}, ofWrittenWithin? depth nested w = some e →
      ofWrittenWithin? depth nested w' = some e := by
  -- The depth stays open: what stands inside is decoded with less of it.
  induction h with
  | order same =>
    intro depth e decodes
    obtain ⟨below, shape, entries, rfl, read, decoded⟩ := ofWrittenWithin?_eq_some_iff.1 decodes
    exact ofWrittenWithin?_succ_eq_some_iff.2 ⟨shape, entries, tagged?_perm same read, decoded⟩
  | unknown tagged unknown _ =>
    intro depth e decodes
    obtain ⟨below, shape, entries, rfl, read, decoded⟩ := ofWrittenWithin?_eq_some_iff.1 decodes
    obtain rfl := tagged.eq (List.Subset.refl _) read
    exact ofWrittenWithin?_succ_eq_some_iff.2
      ⟨_, entries, tagged?_append_unknown unknown read, decoded⟩
  | @inside nested setting v v' surrounds step ih =>
    intro depth e decodes
    obtain ⟨below, shape, entries, rfl, read, decoded⟩ := ofWrittenWithin?_eq_some_iff.1 decodes
    obtain ⟨i, slot, holds, found, replaced⟩ := tagged?_put surrounds read
    obtain ⟨null, null'⟩ := step.ne_null
    exact ofWrittenWithin?_succ_eq_some_iff.2
      ⟨shape, _, replaced v', decoded.put holds found null null' fun _ => ih⟩

/-- A step makes nothing invalid. -/
theorem Rearranged.valid {w w' : Written} (h : Rearranged nested w w') (hw : w.Valid) :
    w'.Valid := by
  induction h with
  | order same =>
    rw [Written.valid_object_iff] at hw ⊢
    exact ⟨fun member h => hw.1 member (same.mem_iff.2 h),
      fun member h => hw.2 member (same.mem_iff.2 h)⟩
  | unknown tagged unknown valid =>
    rw [Written.valid_object_iff] at hw ⊢
    simp only [List.forall_mem_append, List.forall_mem_singleton]
    exact ⟨⟨hw.1, _, rfl⟩, hw.2, valid⟩
  | inside surrounds step ih => exact Setting.valid_put hw ih

open Relation (ReflTransGen)

/-- What stands in a setting may be rearranged step after step. -/
theorem rearranged_inside {setting : Setting} {w w' : Written}
    (surrounds : Surrounds nested setting) (h : ReflTransGen (Rearranged true) w w') :
    ReflTransGen (Rearranged nested) (setting.put w) (setting.put w') :=
  h.lift setting.put fun _ _ => .inside surrounds

/-- Steps, one after another, keep the expression that is decoded, and what is valid. -/
theorem rearranged_steps {w w' : Written} (h : ReflTransGen (Rearranged nested) w w')
    {depth : Nat} {e : Expr} (decodes : ofWrittenWithin? depth nested w = some e)
    (valid : w.Valid) : ofWrittenWithin? depth nested w' = some e ∧ w'.Valid := by
  induction h with
  | refl => exact ⟨decodes, valid⟩
  | tail _ step ih => exact ⟨ofWrittenWithin?_of_rearranged step ih.1, step.valid ih.2⟩

/-- A document keeps its expression when its objects are rearranged, as long as it nests no deeper
than a document may. -/
theorem ofDocument?_of_rearranged {document document' : String} {w w' : Written} {e : Expr}
    (decodes : ofDocument? document = some e) (read : Json.read? document = some w)
    (rearranged : ReflTransGen (Rearranged false) w w')
    (tokens' : Json.tokens? document'.toList = some w'.tokens)
    (nests : w'.nesting ≤ Json.greatestNesting) : ofDocument? document' = some e := by
  rw [ofDocument?, read, Option.bind_some, ofWritten?, Option.ite_none_right_eq_some,
    Written.hasValue_iff] at decodes
  obtain ⟨⟨valid, -⟩, decodes⟩ := decodes
  obtain ⟨decodes', valid'⟩ := rearranged_steps rearranged decodes valid
  rw [ofDocument?, Json.read?_of_tokens tokens', Option.bind_some, ofWritten?,
    if_pos (Written.hasValue_iff.2 ⟨valid', nests⟩), decodes']

/-- A condition in a lambda, every shape first. -/
def shapesFirst : String :=
  "\x7b\"shape\":\"lambda\",\"body\":\x7b\"shape\":\"call\",\"method\":\"Contains\"," ++
    "\"args\":[\x7b\"shape\":1\x7d]\x7d\x7d"

def treeOfFirst : Written :=
  .object [(some "shape", .text (some "lambda")),
    (some "body", .object [(some "shape", .text (some "call")),
      (some "method", .text (some "Contains")),
      (some "args", .array [.object [(some "shape", .number (.int 1))]])])]

/-- The same with every shape last, and with entries that belong to other shapes. -/
def shapesLast : String :=
  "\x7b \"operand\": [], \"operand\": 7, \"body\": \x7b \"args\": [\x7b \"left\": null, " ++
    "\"shape\": 1 \x7d], \"method\": \"Contains\", \"shape\": \"call\" \x7d, " ++
    "\"shape\": \"lambda\" \x7d"

def treeOfLast : Written :=
  .object [(some "operand", .array []), (some "operand", .number (.int 7)),
    (some "body", .object [
      (some "args", .array [.object [(some "left", .null), (some "shape", .number (.int 1))]]),
      (some "method", .text (some "Contains")), (some "shape", .text (some "call"))]),
    (some "shape", .text (some "lambda"))]

theorem treeOfLast_rearranged : ReflTransGen (Rearranged false) treeOfFirst treeOfLast := by
  have item : ReflTransGen (Rearranged true) (.object [(some "shape", .number (.int 1))])
      (.object [(some "left", .null), (some "shape", .number (.int 1))]) :=
    .tail (.single (.unknown ⟨_, List.mem_cons_self, rfl⟩ (by decide) .null))
      (.order (List.reverse_perm _).symm)
  have inCall : Surrounds true (.object [(some "shape", .text (some "call")),
      (some "method", .text (some "Contains"))] "args" (.item [] []) []) :=
    .object ⟨_, List.mem_cons_self, rfl⟩ rfl (.arg [] [])
  have body := (rearranged_inside inCall item).tail (.order (List.reverse_perm _).symm)
  have inLambda : Surrounds false (.object [(some "shape", .text (some "lambda"))] "body"
      .whole []) :=
    .object ⟨_, List.mem_cons_self, rfl⟩ rfl .body
  have foreign : "operand" ∉ shapeTag :: Shape.lambda.entries := by decide
  have empty : (Written.array []).Valid := .array nofun
  have once := (rearranged_inside inLambda body).tail
    (.unknown ⟨_, List.mem_cons_self, rfl⟩ foreign (.int 7))
  have twice := once.tail (.unknown ⟨_, List.mem_cons_self, rfl⟩ foreign empty)
  exact twice.tail (.order (List.reverse_perm _).symm)

theorem shapesLast_decoded :
    ofDocument? shapesFirst = some (.lambda (.call .contains none [.subject])) ∧
    Json.read? shapesFirst = some treeOfFirst ∧
    ReflTransGen (Rearranged false) treeOfFirst treeOfLast ∧
    Json.tokens? shapesLast.toList = some treeOfLast.tokens ∧
    treeOfLast.nesting ≤ Json.greatestNesting ∧
    ofDocument? shapesLast = some (.lambda (.call .contains none [.subject])) := by
  have read : Json.read? shapesFirst = some treeOfFirst := Json.read?_of_tokens (by cbv)
  have decodes : ofDocument? shapesFirst = some (.lambda (.call .contains none [.subject])) := by
    rw [ofDocument?, read]
    rfl
  have tokens' : Json.tokens? shapesLast.toList = some treeOfLast.tokens := by cbv
  have nests : treeOfLast.nesting ≤ Json.greatestNesting := by decide
  exact ⟨decodes, read, treeOfLast_rearranged, tokens', nests,
    ofDocument?_of_rearranged decodes read treeOfLast_rearranged tokens' nests⟩

end Expr
end WhereClause
