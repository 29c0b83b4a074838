import Interchange.Schema

/-!
# Registries

A registry keeps schemas under names, one for each name. The names are exactly those that
were given: upper and lower case differ.
-/

namespace Interchange.Catalog

/-- Schemas by name. -/
structure Registry where
  entries : List (String × Schema) := []

namespace Registry

/-- The schema with a name. -/
def get? (r : Registry) (name : String) : Option Schema := r.entries.lookup name

/-- Whether there is a schema with a name. -/
def contains (r : Registry) (name : String) : Bool := (r.get? name).isSome

/-- The registry without the schema with a name. -/
def erase (r : Registry) (name : String) : Registry :=
  ⟨r.entries.filter (·.1 != name)⟩

/-- The registry with a schema under a name, in place of an earlier one. -/
def register (r : Registry) (name : String) (schema : Schema) : Registry :=
  ⟨(name, schema) :: (r.erase name).entries⟩

/-- How many schemas there are. -/
def size (r : Registry) : Nat := r.entries.length

/-- Whether there is no schema. -/
def isEmpty (r : Registry) : Bool := r.entries.isEmpty

/-! ### Looking up -/

theorem lookup_filter_ne {name other : String} (h : name ≠ other)
    (entries : List (String × Schema)) :
    (entries.filter (·.1 != other)).lookup name = entries.lookup name := by
  induction entries with
  | nil => rfl
  | cons e rest ih =>
    obtain ⟨key, schema⟩ := e
    by_cases he : key = other
    · have hk : (name == key) = false := by simp [he, h]
      simp [he, ih, List.lookup_cons, he ▸ hk]
    · simp [he, ih, List.lookup_cons]

/-- A name gives what was last registered under it. -/
theorem get?_register_self (r : Registry) (name : String) (s : Schema) :
    (r.register name s).get? name = some s := by
  simp [get?, register]

/-- Registering leaves every other name alone. -/
theorem get?_register_of_ne (r : Registry) {name other : String} (s : Schema)
    (h : name ≠ other) : (r.register other s).get? name = r.get? name := by
  have hb : (name == other) = false := by simpa using h
  simp [get?, register, erase, List.lookup_cons, hb, lookup_filter_ne h]

theorem get?_erase_self (r : Registry) (name : String) : (r.erase name).get? name = none := by
  rw [get?, List.lookup_eq_none_iff]
  intro entry hentry
  rw [bne_comm]
  exact (List.mem_filter.1 hentry).2

/-- Erasing leaves every other name alone. -/
theorem get?_erase_of_ne (r : Registry) {name other : String} (h : name ≠ other) :
    (r.erase other).get? name = r.get? name :=
  lookup_filter_ne h r.entries

end Registry

end Interchange.Catalog
