/-!
# Sorted lists without repetition

Sets and maps whose order can be seen are kept as lists sorted by a comparison. Putting
in an element that compares equal to one already there replaces it, so for pairs that
are compared by their first half the last value given to a key wins.
-/

namespace Interchange.Sorted

variable {α : Type}

/-- Put an element into its place. -/
def insert (cmp : α → α → Ordering) (a : α) : List α → List α
  | [] => [a]
  | b :: rest =>
      match cmp a b with
      | .lt => a :: b :: rest
      | .eq => a :: rest
      | .gt => b :: insert cmp a rest

/-- The sorted list of the given elements, later ones replacing equal earlier ones. -/
def ofList (cmp : α → α → Ordering) (as : List α) : List α :=
  as.foldl (fun sorted a => insert cmp a sorted) []

/-- Only the inserted element is new. -/
theorem mem_of_mem_insert (cmp : α → α → Ordering) {a x : α} {as : List α}
    (h : x ∈ insert cmp a as) : x = a ∨ x ∈ as := by
  induction as with
  | nil => simpa [insert] using h
  | cons b rest ih =>
    unfold insert at h
    split at h
    · simpa using h
    · rcases List.mem_cons.1 h with h | h
      · exact .inl h
      · exact .inr (List.mem_cons_of_mem _ h)
    · rcases List.mem_cons.1 h with h | h
      · exact .inr (h ▸ List.mem_cons_self)
      · exact (ih h).imp_right (List.mem_cons_of_mem _)

/-- The inserted element is there afterwards. -/
theorem mem_insert_self (cmp : α → α → Ordering) (a : α) (as : List α) :
    a ∈ insert cmp a as := by
  induction as with
  | nil => simp [insert]
  | cons b rest ih => unfold insert; split <;> simp [ih]

variable {cmp : α → α → Ordering} [Std.LawfulEqCmp cmp] {a x : α} {as : List α}

/-- Where only equal elements compare equal, the others stay. -/
theorem mem_insert : x ∈ insert cmp a as ↔ x = a ∨ x ∈ as := by
  refine ⟨mem_of_mem_insert cmp, ?_⟩
  rintro (rfl | hx)
  · exact mem_insert_self cmp x as
  induction as with
  | nil => cases hx
  | cons b rest ih =>
    unfold insert
    split
    · exact List.mem_cons_of_mem _ hx
    · rename_i heq
      rwa [Std.LawfulEqCmp.eq_of_compare heq]
    · rcases List.mem_cons.1 hx with rfl | hx
      · exact List.mem_cons_self
      · exact List.mem_cons_of_mem _ (ih hx)

theorem mem_ofList : x ∈ ofList cmp as ↔ x ∈ as := by
  have hfold (sorted : List α) :
      x ∈ as.foldl (fun sorted a => insert cmp a sorted) sorted ↔ x ∈ as ∨ x ∈ sorted := by
    induction as generalizing sorted with
    | nil => simp
    | cons a rest ih => rw [List.foldl_cons, ih, mem_insert, List.mem_cons, or_left_comm, or_assoc]
  exact (hfold []).trans (by simp)

end Interchange.Sorted
