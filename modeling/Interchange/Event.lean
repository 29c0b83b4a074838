import Interchange.Position

/-!
# Stream events

A document reaches the validator as a stream of events: the interchange opens, each
segment opens, delivers its values and closes, and the interchange closes. `Event`
is that vocabulary, and `Event.ofSegment` produces the events of one segment from
the text of its elements.
-/

namespace Interchange

/-- One value as it stood in the stream. -/
structure ElementValue where
  position : Position
  /-- Which repetition of the element this belongs to, from 0. -/
  repetition : Nat := 0
  /-- The text itself; empty text carries no data. -/
  value : String
  deriving DecidableEq, Repr

namespace ElementValue

/-- Whether the value carries no data. -/
def isEmpty (v : ElementValue) : Bool := v.value == ""

end ElementValue

/-- One step of a document stream. -/
inductive Event where
  /-- The interchange opens; its header may declare the document version. -/
  | interchangeStart (version : Option String)
  /-- A segment opens. -/
  | segmentStart (tag : String)
  /-- A composite element opens. -/
  | compositeStart (position : Position) (repetition : Nat)
  /-- A simple element or a component was read. -/
  | element (value : ElementValue)
  /-- A composite element closes. -/
  | compositeEnd (position : Position) (repetition : Nat)
  /-- The open segment closes. -/
  | segmentEnd
  /-- The interchange closes. -/
  | interchangeEnd
  deriving DecidableEq, Repr

namespace Event

/-- What an event is called in messages. -/
def name : Event → String
  | interchangeStart _ => "interchange start"
  | segmentStart _ => "segment start"
  | compositeStart _ _ => "composite start"
  | element _ => "element"
  | compositeEnd _ _ => "composite end"
  | segmentEnd => "segment end"
  | interchangeEnd => "interchange end"

end Event

/-! ### Text of a segment -/

namespace Separator

/-- What stands between the components of a composite. -/
def component : Char := ':'

/-- What stands between the repetitions of an element. -/
def repetition : Char := '^'

/-- The pieces of `cs` between the separators `sep`; never the empty list. -/
def split (sep : Char) : List Char → List (List Char)
  | [] => [[]]
  | c :: rest =>
      if c = sep then [] :: split sep rest
      else
        match split sep rest with
        | [] => [[c]]
        | piece :: pieces => (c :: piece) :: pieces

/-- The pieces put together again, with `sep` between them. -/
def join (sep : Char) : List (List Char) → List Char
  | [] => []
  | [piece] => piece
  | piece :: pieces => piece ++ sep :: join sep pieces

theorem split_ne_nil (sep : Char) (cs : List Char) : split sep cs ≠ [] := by
  cases cs with
  | nil => simp [split]
  | cons c rest =>
    by_cases h : c = sep
    · simp [split, h]
    · cases hs : split sep rest <;> simp [split, h, hs]

/-- There is one piece more than there are separators. -/
theorem length_split (sep : Char) (cs : List Char) :
    (split sep cs).length = cs.count sep + 1 := by
  induction cs with
  | nil => rfl
  | cons c rest ih =>
    by_cases h : c = sep
    · simp [split, h, ih]
    · cases hs : split sep rest with
      | nil => exact absurd hs (split_ne_nil sep rest)
      | cons p ps => simp_all [split]

/-- What stands in a piece stands in the text and is no separator. -/
theorem mem_of_mem_split {sep c : Char} {cs piece : List Char} (hp : piece ∈ split sep cs)
    (hc : c ∈ piece) : c ∈ cs ∧ c ≠ sep := by
  induction cs generalizing piece with
  | nil => simp_all [split]
  | cons a rest ih =>
    by_cases h : a = sep
    · simp only [split, h, if_true, List.mem_cons] at hp
      rcases hp with rfl | hp
      · cases hc
      · exact ⟨List.mem_cons_of_mem a (ih hp hc).1, (ih hp hc).2⟩
    · cases hs : split sep rest with
      | nil => exact absurd hs (split_ne_nil sep rest)
      | cons p ps =>
        rw [hs] at ih
        simp only [split, h, if_false, hs, List.mem_cons] at hp
        rcases hp with rfl | hp
        · rcases List.mem_cons.1 hc with rfl | hc
          · exact ⟨List.mem_cons_self, h⟩
          · have hrest := ih List.mem_cons_self hc
            exact ⟨List.mem_cons_of_mem a hrest.1, hrest.2⟩
        · have hrest := ih (List.mem_cons_of_mem p hp) hc
          exact ⟨List.mem_cons_of_mem a hrest.1, hrest.2⟩

/-- Splitting loses nothing. -/
theorem join_split (sep : Char) (cs : List Char) : join sep (split sep cs) = cs := by
  induction cs with
  | nil => rfl
  | cons c rest ih =>
    by_cases h : c = sep
    · cases hs : split sep rest with
      | nil => exact absurd hs (split_ne_nil sep rest)
      | cons p ps => simp_all [split, join]
    · cases hs : split sep rest with
      | nil => exact absurd hs (split_ne_nil sep rest)
      | cons p ps => cases ps <;> simp_all [split, join]

end Separator

namespace Event

/-- The values of a composite's components, numbered from `next`. -/
def ofComponents (element repetition : Nat) : (next : Nat) → List (List Char) → List Event
  | _, [] => []
  | next, piece :: pieces =>
      .element ⟨⟨element, some next⟩, repetition, String.ofList piece⟩ ::
        ofComponents element repetition (next + 1) pieces

/-- The events of one repetition of an element: text with a component separator is a
composite, any other text a simple element. -/
def ofRepetition (element repetition : Nat) (text : List Char) : List Event :=
  if Separator.component ∈ text then
    .compositeStart ⟨element, none⟩ repetition ::
      ofComponents element repetition 1 (Separator.split Separator.component text) ++
        [.compositeEnd ⟨element, none⟩ repetition]
  else [.element ⟨⟨element, none⟩, repetition, String.ofList text⟩]

/-- The events of the repetitions of an element, numbered from `next`. -/
def ofRepetitions (element : Nat) : (next : Nat) → List (List Char) → List Event
  | _, [] => []
  | next, text :: texts =>
      ofRepetition element next text ++ ofRepetitions element (next + 1) texts

/-- The events of the elements of a segment, numbered from `next`. -/
def ofElements : (next : Nat) → List String → List Event
  | _, [] => []
  | next, text :: texts =>
      ofRepetitions next 0 (Separator.split Separator.repetition text.toList) ++
        ofElements (next + 1) texts

/-- The events of one segment. Each text is an element, in which the repetition
separator splits repetitions and the component separator splits components. -/
def ofSegment (tag : String) (elements : List String) : List Event :=
  .segmentStart tag :: ofElements 1 elements ++ [.segmentEnd]

end Event

end Interchange
