import Interchange.Yaml.Token

/-!
# Reading YAML

The tokens of a text are read by recursive descent. A scalar in quotes is a text, any other
scalar is plain, and what is left out is a plain scalar without characters. A mapping is a
record when its keys are scalars.

A text is one document, which marks may surround. A text of blanks and comments is a document
that leaves its value out.
-/

namespace Interchange.Yaml

/-- What is left out. -/
def nothing : Datum := .plain ""

/-- A mapping of its entries. A key that is no scalar leaves the mapping unreadable. -/
def mappingOf (entries : List (Datum × Datum)) : Datum :=
  match entries.mapM (fun (key, value) => key.text?.map (·, value)) with
  | some fields => .record fields
  | none => .unreadable

mutual

/-- A value. `block` admits lists and mappings given by indentation, and `dashes` admits a
list whose dashes stand at the column of the mapping around it. Every call for a part of a
value has taken a token before, or takes one next, so twice as much `fuel` as there are
tokens is enough. -/
def node? (fuel : Nat) (block dashes : Bool) (ts : List Token) : Option (Datum × List Token) :=
  match fuel with
  | 0 => none
  | fuel + 1 =>
      match ts with
      | .scalar d :: ts => some (d, ts)
      | .openList :: ts => (flowItems? fuel true ts).map fun (ds, ts) => (.list ds, ts)
      | .openMapping :: ts => (flowEntries? fuel true ts).map fun (es, ts) => (mappingOf es, ts)
      | .blockList :: ts =>
          if block then (blockItems? fuel ts).map fun (ds, ts) => (.list ds, ts) else none
      | .blockMapping :: ts =>
          if block then (blockEntries? fuel ts).map fun (es, ts) => (mappingOf es, ts) else none
      | .dash :: _ =>
          if dashes then (dashItems? fuel ts).map fun (ds, ts) => (.list ds, ts) else none
      | _ => none

/-- The items of a list given by indentation. -/
def blockItems? (fuel : Nat) (ts : List Token) : Option (List Datum × List Token) :=
  match fuel with
  | 0 => none
  | fuel + 1 =>
      match ts with
      | .blockEnd :: ts => some ([], ts)
      | .dash :: ts => do
          let (d, ts) ←
            match ts with
            | .dash :: _ | .blockEnd :: _ => some (nothing, ts)
            | _ => node? fuel true false ts
          let (ds, ts) ← blockItems? fuel ts
          some (d :: ds, ts)
      | _ => none

/-- The items of a list whose dashes stand at the column of the mapping around it. -/
def dashItems? (fuel : Nat) (ts : List Token) : Option (List Datum × List Token) :=
  match fuel with
  | 0 => none
  | fuel + 1 =>
      match ts with
      | .dash :: ts => do
          let (d, ts) ←
            match ts with
            | .dash :: _ | .key :: _ | .value :: _ | .blockEnd :: _ => some (nothing, ts)
            | _ => node? fuel true false ts
          let (ds, ts) ← dashItems? fuel ts
          some (d :: ds, ts)
      | _ => some ([], ts)

/-- The entries of a mapping given by indentation. -/
def blockEntries? (fuel : Nat) (ts : List Token) : Option (List (Datum × Datum) × List Token) :=
  match fuel with
  | 0 => none
  | fuel + 1 =>
      match ts with
      | .blockEnd :: ts => some ([], ts)
      | .key :: ts => do
          let (key, ts) ←
            match ts with
            | .key :: _ | .value :: _ | .blockEnd :: _ => some (nothing, ts)
            | _ => node? fuel true true ts
          let (value, ts) ←
            match ts with
            | .value :: .key :: _ | .value :: .value :: _ | .value :: .blockEnd :: _ =>
                some (nothing, ts.tail)
            | .value :: ts => node? fuel true true ts
            | _ => some (nothing, ts)
          let (entries, ts) ← blockEntries? fuel ts
          some ((key, value) :: entries, ts)
      | _ => none

/-- The items of a list in brackets; an item with a colon is a mapping of one entry. A
question mark without a key takes the mark after it for the key. -/
def flowItems? (fuel : Nat) (first : Bool) (ts : List Token) : Option (List Datum × List Token) :=
  match fuel with
  | 0 => none
  | fuel + 1 => do
      let ts ←
        match first, ts with
        | true, _ | false, .closeList :: _ => some ts
        | false, .comma :: ts => some ts
        | false, _ => none
      match ts with
      | .closeList :: ts => some ([], ts)
      | .key :: ts => do
          let (key, ts) ←
            match ts with
            | .value :: ts | .comma :: ts | .closeList :: ts => some (nothing, ts)
            | _ => node? fuel false false ts
          let (value, ts) ←
            match ts with
            | .value :: .comma :: _ | .value :: .closeList :: _ => some (nothing, ts.tail)
            | .value :: ts => node? fuel false false ts
            | _ => some (nothing, ts)
          let (ds, ts) ← flowItems? fuel false ts
          some (mappingOf [(key, value)] :: ds, ts)
      | _ => do
          let (d, ts) ← node? fuel false false ts
          let (ds, ts) ← flowItems? fuel false ts
          some (d :: ds, ts)

/-- The entries of a mapping in brackets; a key may stand alone. -/
def flowEntries? (fuel : Nat) (first : Bool) (ts : List Token) :
    Option (List (Datum × Datum) × List Token) :=
  match fuel with
  | 0 => none
  | fuel + 1 => do
      let ts ←
        match first, ts with
        | true, _ | false, .closeMapping :: _ => some ts
        | false, .comma :: ts => some ts
        | false, _ => none
      match ts with
      | .closeMapping :: ts => some ([], ts)
      | .key :: ts => do
          let (key, ts) ←
            match ts with
            | .value :: _ | .comma :: _ | .closeMapping :: _ => some (nothing, ts)
            | _ => node? fuel false false ts
          let (value, ts) ←
            match ts with
            | .value :: .comma :: _ | .value :: .closeMapping :: _ => some (nothing, ts.tail)
            | .value :: ts => node? fuel false false ts
            | _ => some (nothing, ts)
          let (entries, ts) ← flowEntries? fuel false ts
          some ((key, value) :: entries, ts)
      | _ => do
          let (key, ts) ← node? fuel false false ts
          let (entries, ts) ← flowEntries? fuel false ts
          some ((key, nothing) :: entries, ts)

end

/-- The document that all tokens make up. -/
def document? (ts : List Token) : Option Datum := do
  let fuel := 2 * ts.length + 2
  let (d, ts) ←
    match ts with
    | [] => some (nothing, [])
    | .documentStart :: [] | .documentStart :: .documentEnd :: _ => some (nothing, ts.tail)
    | .documentStart :: ts => node? fuel true false ts
    | ts => node? fuel true false ts
  if ts.all (fun | .documentEnd => true | _ => false) then some d else none

/-- The value that a text denotes, `none` when the text is no document. -/
def parse? (text : String) : Option Datum := (tokens? text).bind document?

end Interchange.Yaml
