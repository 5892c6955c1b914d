import Mathlib.Data.List.Basic

/-!
# JSON values, schemas, and what Python does with the values

A JSON value as `json.load` reads it, the part of JSON Schema that is about types, members and
items, and the operations of Python on such values, which raise a `KeyError` or a `TypeError` where
they do not apply.

A schema is the conjunction of its keywords. A keyword that is about objects or arrays says nothing
about other values, as JSON Schema has it: `Schema.object` and `Schema.array` ask for the type too.
-/

namespace LioProject

/-! ### Values -/

/-- A JSON value. -/
inductive Json where
  | null
  | bool (b : Bool)
  /-- A number, as it is written. -/
  | num (literal : String)
  | str (s : String)
  | arr (items : List Json)
  /-- The members of an object, in their order. The first with a key counts. -/
  | obj (members : List (String × Json))

namespace Json

/-- The member of an object with the given key. -/
def member : Json → String → Option Json
  | obj members, key => members.lookup key
  | _, _ => none

theorem member_obj (members : List (String × Json)) (key : String) :
    (obj members).member key = members.lookup key := rfl

/-- A dictionary with the value for a key replaced or added. -/
def insert (members : List (String × Json)) (key : String) (v : Json) : List (String × Json) :=
  if members.any fun kv => kv.1 = key then
    members.map fun kv => if kv.1 = key then (key, v) else kv
  else members ++ [(key, v)]

theorem lookup_map_of_ne {members : List (String × Json)} {key key' : String} {v : Json}
    (h : key' ≠ key) :
    (members.map fun kv => if kv.1 = key then (key, v) else kv).lookup key'
      = members.lookup key' := by
  induction members with
  | nil => rfl
  | cons kv members ih =>
    obtain ⟨k, w⟩ := kv
    by_cases hk : k = key
    · subst hk
      have hbeq : (key' == k) = false := beq_eq_false_iff_ne.mpr h
      simp [List.lookup_cons, hbeq, ih]
    · simp [List.lookup_cons, hk, ih]

theorem lookup_insert_self (members : List (String × Json)) (key : String) (v : Json) :
    (insert members key v).lookup key = some v := by
  rw [insert]
  split
  · rename_i hany
    induction members with
    | nil => exact absurd hany (by simp)
    | cons kv members ih =>
      obtain ⟨k, w⟩ := kv
      by_cases hk : k = key
      · simp [hk]
      · have hbeq : (key == k) = false := beq_eq_false_iff_ne.mpr fun heq => hk heq.symm
        simp only [List.any_cons, hk, decide_false, Bool.false_or] at hany
        simp only [List.map_cons, hk, if_false, List.lookup_cons, hbeq]
        exact ih hany
  · rename_i hany
    have hnone : members.lookup key = none := by
      rw [List.lookup_eq_none_iff]
      intro kv hkv
      rw [bne_iff_ne]
      rintro rfl
      exact hany (List.any_eq_true.mpr ⟨kv, hkv, by simp⟩)
    rw [List.lookup_append, hnone]
    simp

/-- Other members stay as they are. -/
theorem lookup_insert_of_ne {members : List (String × Json)} {key key' : String} {v : Json}
    (h : key' ≠ key) : (insert members key v).lookup key' = members.lookup key' := by
  rw [insert]
  split
  · exact lookup_map_of_ne h
  · have hbeq : (key' == key) = false := beq_eq_false_iff_ne.mpr h
    rw [List.lookup_append]
    simp [List.lookup_cons, hbeq]

end Json

/-! ### Schemas -/

/-- The types that are asked for. -/
inductive JsonType where
  | object
  | array
  | string
  deriving DecidableEq, Repr

/-- Whether a value has a type. -/
def Json.hasType : Json → JsonType → Bool
  | .obj _, .object => true
  | .arr _, .array => true
  | .str _, .string => true
  | _, _ => false

section Types

variable {v : Json}

theorem Json.exists_obj (h : v.hasType .object = true) : ∃ members, v = .obj members := by
  cases v with
  | obj members => exact ⟨members, rfl⟩
  | null => exact absurd h Bool.false_ne_true
  | bool b => exact absurd h Bool.false_ne_true
  | num n => exact absurd h Bool.false_ne_true
  | str s => exact absurd h Bool.false_ne_true
  | arr l => exact absurd h Bool.false_ne_true

theorem Json.exists_arr (h : v.hasType .array = true) : ∃ l, v = .arr l := by
  cases v with
  | arr l => exact ⟨l, rfl⟩
  | null => exact absurd h Bool.false_ne_true
  | bool b => exact absurd h Bool.false_ne_true
  | num n => exact absurd h Bool.false_ne_true
  | str s => exact absurd h Bool.false_ne_true
  | obj members => exact absurd h Bool.false_ne_true

theorem Json.exists_str (h : v.hasType .string = true) : ∃ s, v = .str s := by
  cases v with
  | str s => exact ⟨s, rfl⟩
  | null => exact absurd h Bool.false_ne_true
  | bool b => exact absurd h Bool.false_ne_true
  | num n => exact absurd h Bool.false_ne_true
  | arr l => exact absurd h Bool.false_ne_true
  | obj members => exact absurd h Bool.false_ne_true

end Types

/-- A schema. -/
inductive Schema where
  /-- Nothing is asked for. -/
  | any
  /-- `"type"`. -/
  | type (t : JsonType)
  /-- An entry of `"properties"`. -/
  | property (key : String) (s : Schema)
  /-- An entry of `"required"`. -/
  | required (key : String)
  /-- `"items"`. -/
  | items (s : Schema)
  /-- Two keywords. -/
  | both (s s' : Schema)

namespace Schema

/-- Whether a value is accepted. -/
def valid : Schema → Json → Bool
  | .any, _ => true
  | .type t, v => v.hasType t
  | .property key s, v =>
    match v.member key with
    | none => true
    | some w => s.valid w
  | .required key, .obj members => (members.lookup key).isSome
  | .required _, _ => true
  | .items s, .arr l => l.all s.valid
  | .items _, _ => true
  | .both s s', v => s.valid v && s'.valid v

/-- All of several keywords. -/
def all (l : List Schema) : Schema := l.foldr .both .any

/-- An object with the given properties and the given required keys. -/
def object (properties : List (String × Schema)) (keys : List String) : Schema :=
  .both (.type .object)
    (.both (all (properties.map fun ks => .property ks.1 ks.2)) (all (keys.map .required)))

/-- An array of the given items. -/
def array (s : Schema) : Schema := .both (.type .array) (.items s)

/-- A string. -/
def string : Schema := .type .string

section Cases

variable (t : JsonType) (key : String) (s s' : Schema) (v : Json)

theorem valid_type : (type t).valid v = v.hasType t := rfl

theorem valid_property : (property key s).valid v
    = match v.member key with
      | none => true
      | some w => s.valid w := rfl

theorem valid_required (members : List (String × Json)) :
    (required key).valid (.obj members) = (members.lookup key).isSome := rfl

theorem valid_items (l : List Json) : (items s).valid (.arr l) = l.all s.valid := rfl

theorem valid_both : (both s s').valid v = (s.valid v && s'.valid v) := rfl

end Cases

theorem valid_all {l : List Schema} {v : Json} :
    (all l).valid v = true ↔ ∀ s ∈ l, s.valid v = true := by
  induction l with
  | nil => exact iff_of_true rfl (List.forall_mem_nil _)
  | cons s l ih =>
    have hcons : all (s :: l) = .both s (all l) := rfl
    rw [hcons, valid_both, Bool.and_eq_true, ih, List.forall_mem_cons]

theorem valid_string {v : Json} : string.valid v = true ↔ ∃ s, v = .str s := by
  rw [string, valid_type]
  constructor
  · exact Json.exists_str
  · rintro ⟨s, rfl⟩
    rfl

theorem valid_array {s : Schema} {v : Json} :
    (array s).valid v = true ↔ ∃ l, v = .arr l ∧ ∀ w ∈ l, s.valid w = true := by
  rw [array, valid_both, valid_type, Bool.and_eq_true]
  constructor
  · rintro ⟨htype, hitems⟩
    obtain ⟨l, rfl⟩ := Json.exists_arr htype
    rw [valid_items, List.all_eq_true] at hitems
    exact ⟨l, rfl, hitems⟩
  · rintro ⟨l, rfl, hitems⟩
    rw [valid_items, List.all_eq_true]
    exact ⟨rfl, hitems⟩

/-- What an object schema accepts. -/
theorem valid_object {properties : List (String × Schema)} {keys : List String} {v : Json} :
    (object properties keys).valid v = true ↔ ∃ members, v = .obj members ∧
      (∀ ks ∈ properties, ∀ w, members.lookup ks.1 = some w → ks.2.valid w = true) ∧
      ∀ key ∈ keys, ∃ w, members.lookup key = some w := by
  rw [object, valid_both, valid_both, valid_type, Bool.and_eq_true, Bool.and_eq_true, valid_all,
    valid_all]
  constructor
  · rintro ⟨htype, hproperties, hkeys⟩
    obtain ⟨members, rfl⟩ := Json.exists_obj htype
    refine ⟨members, rfl, fun ks hks w hw => ?_, fun key hkey => ?_⟩
    · have hvalid := hproperties _ (List.mem_map_of_mem hks)
      rwa [valid_property, Json.member_obj, hw] at hvalid
    · have hvalid := hkeys _ (List.mem_map_of_mem hkey)
      rw [valid_required] at hvalid
      exact Option.isSome_iff_exists.mp hvalid
  · rintro ⟨members, rfl, hproperties, hkeys⟩
    refine ⟨rfl, fun s hs => ?_, fun s hs => ?_⟩
    · obtain ⟨ks, hks, rfl⟩ := List.mem_map.mp hs
      rw [valid_property, Json.member_obj]
      cases hlookup : members.lookup ks.1 with
      | none => rfl
      | some w => exact hproperties ks hks w hlookup
    · obtain ⟨key, hkey, rfl⟩ := List.mem_map.mp hs
      rw [valid_required]
      exact Option.isSome_iff_exists.mpr (hkeys key hkey)

end Schema

/-! ### Values in Python -/

/-- What an operation raises. -/
inductive PyError where
  | keyError (key : String)
  | typeError
  deriving DecidableEq, Repr

/-- The operation does not raise. -/
def Returns {α : Type*} (x : Except PyError α) : Prop := ∃ a, x = .ok a

theorem returns_ok {α : Type*} (a : α) : Returns (.ok a) := ⟨a, rfl⟩

theorem returns_pure {α : Type*} (a : α) : Returns (pure a) := ⟨a, rfl⟩

theorem not_returns_error {α : Type*} (e : PyError) :
    ¬ Returns (.error e : Except PyError α) := by
  rintro ⟨a, h⟩
  exact absurd h (by simp)

theorem ok_bind {α β : Type} (a : α) (f : α → Except PyError β) : (Except.ok a >>= f) = f a := rfl

/-- Operations one after the other. -/
theorem returns_bind {α β : Type} {x : Except PyError α} {f : α → Except PyError β} :
    Returns (x >>= f) ↔ ∃ a, x = .ok a ∧ Returns (f a) := by
  cases x with
  | error e =>
    refine iff_of_false (not_returns_error e) ?_
    rintro ⟨a, ha, -⟩
    exact absurd ha (by simp)
  | ok a =>
    constructor
    · exact fun h => ⟨a, rfl, h⟩
    · rintro ⟨b, hb, h⟩
      rw [← Except.ok.inj hb] at h
      exact h

namespace Json

/-- `v[key]`. -/
def getItem : Json → String → Except PyError Json
  | obj members, key =>
    match members.lookup key with
    | some v => .ok v
    | none => .error (.keyError key)
  | _, _ => .error .typeError

/-- `v[key] = w`. -/
def setItem : Json → String → Json → Except PyError Json
  | obj members, key, w => .ok (obj (insert members key w))
  | _, _, _ => .error .typeError

/-- What `for item in v` goes through: the items of an array, the keys of an object, the characters
of a string. -/
def iter : Json → Except PyError (List Json)
  | arr items => .ok items
  | obj members => .ok (members.map fun kv => str kv.1)
  | str s => .ok (s.toList.map fun c => str (String.ofList [c]))
  | _ => .error .typeError

/-- `text + v`. -/
def concat (text : String) : Json → Except PyError String
  | str s => .ok (text ++ s)
  | _ => .error .typeError

/-- `v == w`, where one of them is a string. -/
def sameStr : Json → Json → Bool
  | str s, str s' => s = s'
  | _, _ => false

theorem getItem_eq {members : List (String × Json)} {key : String} {v : Json}
    (h : members.lookup key = some v) : (obj members).getItem key = .ok v := by
  rw [getItem, h]

/-- Only members of objects can be read. -/
theorem returns_getItem {v : Json} {key : String} :
    Returns (v.getItem key) ↔ ∃ w, v.member key = some w := by
  rw [Returns]
  cases v with
  | obj members =>
    rw [getItem, member]
    cases members.lookup key <;> simp
  | null => simp [getItem, member]
  | bool b => simp [getItem, member]
  | num n => simp [getItem, member]
  | str s => simp [getItem, member]
  | arr l => simp [getItem, member]

end Json

end LioProject
