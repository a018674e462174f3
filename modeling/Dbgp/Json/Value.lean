import Dbgp.Number.Shortest

/-!
# JSON values

A value is null, a truth value, a number, a text, a list or an object. Integers that fit a word and
other numbers are kept apart, since only the former are ever read as integers. An object is a list
of members in strictly increasing order of their keys, which is how `Json.object` builds it; of two
members with one key the later counts.
-/

namespace Dbgp

open Number

/-- A JSON value. An `obj` that `object` builds has its keys in order. -/
inductive Json where
  | null
  | bool (b : Bool)
  | int (n : Int)
  | double (x : Binary64)
  | str (s : String)
  | arr (items : List Json)
  | obj (members : List (String × Json))
  deriving Repr, Inhabited

namespace Json

/-- Puts a member in its place among `members` ordered by key, over one that has the same key. -/
def insert (key : String) (value : Json) : List (String × Json) → List (String × Json)
  | [] => [(key, value)]
  | (k, v) :: rest =>
    if key < k then (key, value) :: (k, v) :: rest
    else if key = k then (key, value) :: rest
    else (k, v) :: insert key value rest

/-- The object with the given members, each put in by `insert`: later ones go over earlier ones. -/
def object (members : List (String × Json)) : Json :=
  .obj (members.foldl (fun acc m => insert m.1 m.2 acc) [])

/-- The value of a key among the `members` of an object. -/
def lookup (key : String) (members : List (String × Json)) : Option Json :=
  (members.find? fun m => m.1 = key).map (·.2)

/-- The value of a key, when the value is an `obj` that has it. -/
def get? (key : String) : Json → Option Json
  | .obj members => lookup key members
  | _ => none

/-- `insert` changes what `lookup` finds for its own key only. -/
theorem lookup_insert (key k : String) (value : Json) (members : List (String × Json)) :
    lookup key (insert k value members) = if k = key then some value else lookup key members := by
  induction members with
  | nil =>
    by_cases hk : k = key <;> simp [insert, lookup, hk]
  | cons m rest ih =>
    rw [insert]
    split
    · by_cases hk : k = key <;> simp [lookup, hk]
    · split
      · next hm =>
        rw [hm]
        by_cases hk : m.1 = key <;> simp [lookup, hk]
      · next hm =>
        by_cases hkey : m.1 = key
        · have hk : k ≠ key := fun h => hm (h.trans hkey.symm)
          simp [lookup, hkey, hk]
        · rw [lookup, List.find?_cons_of_neg (by simpa using hkey), ← lookup, ih, lookup, lookup,
            List.find?_cons_of_neg (by simpa using hkey)]

/-- Of the members with one key the last one counts, so `get?` looks through them from the end. -/
theorem get?_object (key : String) (members : List (String × Json)) :
    (object members).get? key = lookup key members.reverse := by
  have hfold : ∀ acc, lookup key (members.foldl (fun acc m => insert m.1 m.2 acc) acc) =
      (lookup key members.reverse).or (lookup key acc) := by
    induction members with
    | nil => exact fun acc => rfl
    | cons m rest ih =>
      intro acc
      rw [List.foldl_cons, ih, lookup_insert, List.reverse_cons]
      by_cases hm : m.1 = key <;>
        cases hrest : rest.reverse.find? fun m => m.1 = key <;> simp [lookup, hm, hrest]
  exact (hfold []).trans (Option.or_none)

mutual

/-- How deep `arr` and `obj` nest in a value. -/
def depth : Json → Nat
  | .arr items => depthItems items + 1
  | .obj members => depthMembers members + 1
  | _ => 0

/-- How deep `arr` and `obj` nest in the items of a list. -/
def depthItems : List Json → Nat
  | [] => 0
  | v :: rest => max (depth v) (depthItems rest)

/-- How deep `arr` and `obj` nest in the members of an object. -/
def depthMembers : List (String × Json) → Nat
  | [] => 0
  | (_, v) :: rest => max (depth v) (depthMembers rest)

end

/-- A natural number, as `int`. -/
def nat (n : Nat) : Json := .int n

/-- The value, by `f`, or `null` for none. -/
def option (f : α → Json) : Option α → Json
  | none => .null
  | some a => f a

/-- A text, or `null` for none. -/
def optionStr (s : Option String) : Json := option .str s

end Json

end Dbgp
