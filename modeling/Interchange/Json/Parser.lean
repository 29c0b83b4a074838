import Interchange.Json.Token

/-!
# Reading JSON

The tokens of a text drive a small machine: `State` says what may come next, and the
lists and records still open are kept as a stack of `Frame`s. A text is JSON when the
machine has seen exactly one whole value at its end. The machine moves over the tokens
once, so nothing bounds the depth of nesting.
-/

namespace Interchange.Json

/-- A list or record that waits for a value, with what it holds so far in reverse. -/
inductive Frame where
  /-- A list that waits for an item. -/
  | list (items : List Datum)
  /-- A record that waits for the value of the field `name`. -/
  | field (fields : List (Datum × Datum)) (name : Datum)

/-- What the reader expects. -/
inductive State where
  /-- A value. -/
  | value (stack : List Frame)
  /-- The first item of a list, or its end. -/
  | firstItem (stack : List Frame)
  /-- The first field of a record, or its end. -/
  | firstField (stack : List Frame)
  /-- Another field name. -/
  | fieldName (fields : List (Datum × Datum)) (stack : List Frame)
  /-- The colon after a field name. -/
  | colon (fields : List (Datum × Datum)) (name : Datum) (stack : List Frame)
  /-- A comma or the end of a list. -/
  | nextItem (items : List Datum) (stack : List Frame)
  /-- A comma or the end of a record. -/
  | nextField (fields : List (Datum × Datum)) (stack : List Frame)
  /-- Nothing: the value is whole. -/
  | done (value : Datum)

/-- A record of its fields. A field whose name is no text leaves the record unreadable. -/
def recordOf (fields : List (Datum × Datum)) : Datum :=
  match fields.mapM (fun (name, value) => name.text?.map (·, value)) with
  | some fields => .record fields
  | none => .unreadable

/-- What is expected after a whole value. -/
def State.after (value : Datum) : List Frame → State
  | [] => .done value
  | .list items :: stack => .nextItem (value :: items) stack
  | .field fields name :: stack => .nextField ((name, value) :: fields) stack

/-- What is expected after the first token of a value. -/
def State.begin? (stack : List Frame) : Token → Option State
  | .openList => some (.firstItem stack)
  | .openRecord => some (.firstField stack)
  | .scalar d => some (.after d stack)
  | _ => none

/-- A token in the place of a field name: any string will do, also one without a text. -/
def fieldName? : Token → Option Datum
  | .scalar (.text name) => some (.text name)
  | .scalar .unreadable => some .unreadable
  | _ => none

/-- One token further. -/
def State.step? : State → Token → Option State
  | value stack, token => begin? stack token
  | firstItem stack, .closeList => some (after (.list []) stack)
  | firstItem stack, token => begin? (.list [] :: stack) token
  | firstField stack, .closeRecord => some (after (.record []) stack)
  | firstField stack, token => (fieldName? token).map (.colon [] · stack)
  | fieldName fields stack, token => (fieldName? token).map (.colon fields · stack)
  | .colon fields name stack, .colon => some (.value (.field fields name :: stack))
  | nextItem items stack, .comma => some (.value (.list items :: stack))
  | nextItem items stack, .closeList => some (after (.list items.reverse) stack)
  | nextField fields stack, .comma => some (.fieldName fields stack)
  | nextField fields stack, .closeRecord => some (after (recordOf fields.reverse) stack)
  | _, _ => none

/-- The value that a text denotes, `none` when the text is no JSON. -/
def parse? (text : String) : Option Datum := do
  let tokens ← Token.all? text.toList
  match ← tokens.foldlM State.step? (.value []) with
  | .done value => some value
  | _ => none

end Interchange.Json
