/-!
# Parts of a text by byte offsets

A part of a text can be named by the offsets of its first byte and of the byte behind its last one.
Not all offsets name a part: an offset beyond the end of the text, or inside a character of several
bytes, is no place to cut at, and there is no part then.
-/

namespace Interchange.Text

/-- The number of bytes of a text. -/
def byteLength (cs : List Char) : Nat := cs.foldr (fun c n => c.utf8Size + n) 0

/-- What stands in front of a byte offset, and what stands behind it. -/
def cut? : List Char → (offset : Nat) → Option (List Char × List Char)
  | cs, 0 => some ([], cs)
  | [], _ + 1 => none
  | c :: cs, n + 1 =>
      if c.utf8Size ≤ n + 1 then
        (cut? cs (n + 1 - c.utf8Size)).map fun (front, rest) => (c :: front, rest)
      else none

/-- The part of a text from one byte offset up to another. -/
def slice? (cs : List Char) (start stop : Nat) : Option (List Char) := do
  let (front, _) ← cut? cs stop
  let (_, part) ← cut? front start
  return part

/-- The part of a text from a byte offset on. -/
def sliceFrom? (cs : List Char) (start : Nat) : Option (List Char) := do
  let (_, part) ← cut? cs start
  return part

theorem byteLength_cons (c : Char) (cs : List Char) :
    byteLength (c :: cs) = c.utf8Size + byteLength cs := rfl

/-- A text can be cut behind each of its fronts. -/
theorem cut?_append (front rest : List Char) :
    cut? (front ++ rest) (byteLength front) = some (front, rest) := by
  induction front with
  | nil => rw [List.nil_append, byteLength, List.foldr_nil, cut?]
  | cons c front ih =>
      have hpos := c.utf8Size_pos
      have hsucc : byteLength (c :: front) = c.utf8Size - 1 + byteLength front + 1 := by
        rw [byteLength_cons]
        omega
      have hrest : c.utf8Size - 1 + byteLength front + 1 - c.utf8Size = byteLength front := by omega
      rw [hsucc, List.cons_append, cut?, if_pos (by omega), hrest, ih]
      rfl

/-- There is no other cut: where no front has so many bytes, a text cannot be cut. -/
theorem cut?_eq_some_iff {cs front rest : List Char} {n : Nat} :
    cut? cs n = some (front, rest) ↔ cs = front ++ rest ∧ byteLength front = n := by
  constructor
  · intro h
    fun_induction cut? cs n generalizing front with
    | case1 cs =>
        cases h
        exact ⟨rfl, rfl⟩
    | case2 => cases h
    | case3 n c cs hle ih =>
        obtain ⟨⟨front', rest'⟩, hcut, heq⟩ := Option.map_eq_some_iff.1 h
        cases heq
        obtain ⟨rfl, hlength⟩ := ih hcut
        refine ⟨rfl, ?_⟩
        rw [byteLength_cons, hlength]
        omega
    | case4 => cases h
  · rintro ⟨rfl, rfl⟩
    exact cut?_append front rest

example : cut? ['é', '1'] 1 = none ∧ cut? ['é', '1'] 2 = some (['é'], ['1']) ∧
    cut? ['é', '1'] 4 = none := by decide

/-- A part of a text is where its own offsets are. -/
theorem slice?_append (front part rest : List Char) :
    slice? (front ++ part ++ rest) (byteLength front) (byteLength (front ++ part)) = some part := by
  rw [slice?, cut?_append]
  simp [cut?_append]

theorem sliceFrom?_append (front rest : List Char) :
    sliceFrom? (front ++ rest) (byteLength front) = some rest := by
  rw [sliceFrom?, cut?_append]
  rfl

end Interchange.Text
