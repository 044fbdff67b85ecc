/-!
Tables with text keys, in the order in which the keys were first stored.
-/

namespace ScriptLang

/-- A finite map from names, as a list of its entries. -/
abbrev Table (α : Type) := List (String × α)

namespace Table

variable {α : Type}

/-- The entry under a key. -/
def lookup? : Table α → String → Option α
  | [], _ => none
  | (k, v) :: rest, key => if k == key then some v else lookup? rest key

/-- Whether a key has an entry. -/
def has (t : Table α) (key : String) : Bool :=
  (lookup? t key).isSome

/-- Stores an entry: in place of an older one under the same key, else at the end. -/
def put : Table α → String → α → Table α
  | [], key, value => [(key, value)]
  | (k, v) :: rest, key, value =>
    if k == key then (k, value) :: rest else (k, v) :: put rest key value

@[simp] theorem lookup?_nil (key : String) : lookup? ([] : Table α) key = none := rfl

/-- A look-up after storing finds what was stored, and all else as before. -/
theorem lookup?_put (t : Table α) (key key' : String) (value : α) :
    lookup? (put t key value) key' = if key = key' then some value else lookup? t key' := by
  induction t with
  | nil => simp [put, lookup?]
  | cons entry rest ih =>
    obtain ⟨k, v⟩ := entry
    by_cases hk : k = key
    · subst hk
      by_cases h : k = key' <;> simp [put, lookup?, h]
    · by_cases h : k = key'
      · subst h
        simp [put, lookup?, hk, Ne.symm hk]
      · simp [put, lookup?, hk, h, ih]

end Table

end ScriptLang
