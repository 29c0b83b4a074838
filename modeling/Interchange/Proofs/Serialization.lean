import Interchange.Serial
import Mathlib.Logic.Relation

/-!
# Reading what has been written

Events, values, locations and violations are written as structured data and read again. What is
written gives back the value itself as long as its numbers are counts of 64 bits, and whatever is
read has such numbers. So each accepted input has one canonical form, which is what is written for
its value.

A reader does not see everything. `Datum.Layout` says of a type what its reader looks at, and
`Datum.Varies` which single differences it does not see: another order of the fields, a field that
nobody knows, a null in place of a field that may be left out, and any of these inside. Inputs that
differ by any number of them are read alike: see `serialized_faithfully`. What a record gives to one
name is all that a field is read from, and `Datum.Varies.valuesOf_cases` says how it can differ.
-/

namespace Interchange

namespace Datum

/-! ### Differences that make no difference -/

/-- What the reader of a type looks at. -/
inductive Layout where
  /-- A value that is read as a whole. -/
  | whole
  /-- A value that may be null, and in a record may be left out. -/
  | nullable (value : Layout)
  /-- A record with these fields. -/
  | record (known : List (String × Layout))
  /-- A record of one field, which has one of these names. -/
  | tagged (alternatives : List (String × Layout))

/-- One difference between two trees that the reader of a type does not see. -/
inductive Varies : Layout → Datum → Datum → Prop
  /-- The fields of a record come in another order. -/
  | order {known : List (String × Layout)} {fields fields' : List (String × Datum)}
      (h : fields.Perm fields') : Varies (.record known) (.record fields) (.record fields')
  /-- A record has one more field, which is not known. -/
  | unknown {known : List (String × Layout)} {fields : List (String × Datum)} {name : String}
      {d : Datum} (h : known.lookup name = none) :
      Varies (.record known) (.record fields) (.record ((name, d) :: fields))
  /-- A field that was left out is given as null. -/
  | omitted {known : List (String × Layout)} {fields : List (String × Datum)} {name : String}
      {layout : Layout} (hknown : known.lookup name = some (.nullable layout))
      (h : name ∉ fields.map (·.1)) :
      Varies (.record known) (.record fields) (.record ((name, .null) :: fields))
  /-- The value of a field differs. -/
  | inside {known : List (String × Layout)} {before after : List (String × Datum)} {name : String}
      {layout : Layout} {d d' : Datum} (hknown : known.lookup name = some layout)
      (h : Varies layout d d') :
      Varies (.record known) (.record (before ++ (name, d) :: after))
        (.record (before ++ (name, d') :: after))
  /-- A value that may be null and is not differs. -/
  | present {layout : Layout} {d d' : Datum} (h : Varies layout d d') :
      Varies (.nullable layout) d d'
  /-- The data of a name differ. -/
  | tagged {alternatives : List (String × Layout)} {name : String} {layout : Layout} {d d' : Datum}
      (hknown : alternatives.lookup name = some layout) (h : Varies layout d d') :
      Varies (.tagged alternatives) (.record [(name, d)]) (.record [(name, d')])

/-- A reader does not see a difference. -/
def Blind {α : Type} (layout : Layout) (read : Datum → Option α) : Prop :=
  ∀ ⦃d d'⦄, Varies layout d d' → read d = read d'

variable {α : Type} {layout : Layout} {known : List (String × Layout)}
  {fields fields' : List (String × Datum)} {name : String} {d d' : Datum}
  {read : Datum → Option α} {write : α → Datum} {a : α} {n : Nat}

/-- Scalars are read as a whole. -/
theorem blind_whole (read : Datum → Option α) : Blind .whole read := nofun

/-- Only records differ without being seen. -/
theorem Varies.isNull (h : Varies layout d d') : d.isNull = false ∧ d'.isNull = false := by
  induction h with
  | order | unknown | omitted | inside | tagged => exact ⟨rfl, rfl⟩
  | present _ ih => exact ih

theorem Blind.optional? (h : Blind layout read) : Blind (.nullable layout) (optional? read) := by
  intro d d' hd
  cases hd with
  | present hd => simp only [Datum.optional?, hd.isNull.1, hd.isNull.2, h hd]

/-! ### Fields of a record -/

/-- What two records that differ without being seen give to a name that is known: the same, or the
same but for a value that differs without being seen, or nothing and null. -/
theorem Varies.valuesOf_cases (h : Varies (.record known) (.record fields) (.record fields'))
    (hname : known.lookup name = some layout) :
    (valuesOf fields name).Perm (valuesOf fields' name) ∨
      (∃ before after d d', Varies layout d d' ∧ valuesOf fields name = before ++ d :: after ∧
        valuesOf fields' name = before ++ d' :: after) ∨
      (∃ value, layout = .nullable value ∧ valuesOf fields name = [] ∧
        valuesOf fields' name = [.null]) := by
  cases h with
  | order h => exact .inl ((h.filter _).map _)
  | @unknown _ _ other d h =>
      have hne : other ≠ name := by
        rintro rfl
        rw [h] at hname
        cases hname
      refine .inl ?_
      simp [valuesOf, hne]
  | @omitted _ _ other value hvalue h =>
      by_cases heq : other = name
      · subst heq
        have hnone : valuesOf fields other = [] := by
          rw [valuesOf, List.map_eq_nil_iff, List.filter_eq_nil_iff]
          intro entry hentry hother
          exact h (List.mem_map.2 ⟨entry, hentry, by simpa using hother⟩)
        have hnull :
            valuesOf ((other, .null) :: fields) other = .null :: valuesOf fields other := by
          simp [valuesOf]
        rw [hvalue, Option.some.injEq] at hname
        exact .inr (.inr ⟨value, hname.symm, hnone, by rw [hnull, hnone]⟩)
      · refine .inl ?_
        simp [valuesOf, heq]
  | @inside _ before after other layout' d d' hlayout' h =>
      by_cases heq : other = name
      · subst heq
        rw [hlayout', Option.some.injEq] at hname
        rw [hname] at h
        refine .inr (.inl ⟨valuesOf before other, valuesOf after other, d, d', h, ?_, ?_⟩) <;>
          simp [valuesOf]
      · refine .inl ?_
        simp [valuesOf, heq]

/-- What a reader makes of the values that a record gives to one name: it has an answer when there
is none, and takes one, but not several. -/
def single (absent : Option α) (read : Datum → Option α) : List Datum → Option α
  | [] => absent
  | [d] => read d
  | _ => none

theorem single_perm {ds ds' : List Datum} (absent : Option α) (read : Datum → Option α)
    (h : ds.Perm ds') : single absent read ds = single absent read ds' := by
  have hlength := h.length_eq
  match ds, ds' with
  | [], [] => rfl
  | [d], ds' => rw [List.singleton_perm.1 h]
  | _ :: _ :: _, _ :: _ :: _ => rfl

/-- A name that is known is read alike. -/
theorem Varies.single_eq (h : Varies (.record known) (.record fields) (.record fields'))
    (hname : known.lookup name = some layout)
    (hread : Blind layout read) {absent : Option α}
    (habsent : ∀ value, layout = .nullable value → read .null = absent) :
    single absent read (valuesOf fields name) = single absent read (valuesOf fields' name) := by
  rcases h.valuesOf_cases hname with
    hperm | ⟨before, after, d, d', hd, hf, hf'⟩ | ⟨value, hvalue, hf, hf'⟩
  · exact single_perm absent read hperm
  · rw [hf, hf']
    -- Two values for one name are refused, whatever they are.
    match before, after with
    | [], [] => exact hread hd
    | [], _ :: _ => rfl
    | [_], _ => rfl
    | _ :: _ :: _, _ => rfl
  · rw [hf, hf']
    exact (habsent value hvalue).symm

/-- A field that has to be there is read alike. -/
theorem Varies.field?_eq (h : Varies (.record known) (.record fields) (.record fields'))
    (hname : known.lookup name = some layout)
    (hlayout : ∀ value, layout ≠ .nullable value) (hread : Blind layout read) :
    field? fields name read = field? fields' name read := by
  have hfield (fields : List (String × Datum)) :
      field? fields name read = single none read (valuesOf fields name) := by
    unfold field?
    generalize valuesOf fields name = ds
    match ds with
    | [] | [_] | _ :: _ :: _ => rfl
  rw [hfield, hfield]
  exact h.single_eq hname hread fun value hvalue => absurd hvalue (hlayout value)

/-- A field that may be left out is read alike. -/
theorem Varies.optionalField?_eq (h : Varies (.record known) (.record fields) (.record fields'))
    (hname : known.lookup name = some (.nullable layout))
    (hread : Blind layout read) :
    optionalField? fields name read = optionalField? fields' name read :=
  h.single_eq hname hread.optional? fun _ _ => rfl

/-- Where a record is read, only records differ. -/
theorem Varies.records (h : Varies (.record known) d d') :
    ∃ fields fields', d = .record fields ∧ d' = .record fields' := by
  cases h <;> exact ⟨_, _, rfl, rfl⟩

/-- The reader of a record sees no more than the reader of its fields. -/
theorem blind_record {read : List (String × Datum) → Option α}
    (h : ∀ ⦃fields fields'⦄, Varies (.record known) (.record fields) (.record fields') →
      read fields = read fields') :
    Blind (.record known) fun d => d.record?.bind read := by
  intro d d' hd
  obtain ⟨fields, fields', rfl, rfl⟩ := hd.records
  exact h hd

/-! ### Reading what has been written -/

/-- What has been written is read as the value itself when it fits, and is refused otherwise. -/
def Returns {α : Type} (Fits : α → Prop) (write : α → Datum) (read : Datum → Option α) : Prop :=
  ∀ a b, read (write a) = some b ↔ Fits a ∧ a = b

/-- Whatever is read fits. -/
def Admits {α : Type} (Fits : α → Prop) (read : Datum → Option α) : Prop :=
  ∀ d a, read d = some a → Fits a

variable {Fits : α → Prop} {o : Option α}

theorem returns_count : Returns (· ≤ largestCount) natural count? := by
  intro n m
  simp only [count?, natural?, Option.filter_eq_some_iff, Option.some.injEq, decide_eq_true_eq]
  constructor
  · rintro ⟨rfl, h⟩
    exact ⟨h, rfl⟩
  · rintro ⟨h, rfl⟩
    exact ⟨rfl, h⟩

theorem admits_count : Admits (· ≤ largestCount) count? := by
  intro d n h
  unfold count? natural? at h
  simpa using (Option.filter_eq_some_iff.1 h).2

theorem returns_text : Returns (fun _ => True) text text? := by
  intro s t
  simp [text?]

/-- A step of reading that reads what has been written. -/
theorem Returns.bind {β : Type} (h : Returns Fits write read) {next : α → Option β} {b : β} :
    (read (write a)).bind next = some b ↔ Fits a ∧ next a = some b := by
  rw [Option.bind_eq_some_iff]
  constructor
  · rintro ⟨c, hc, hnext⟩
    obtain ⟨hfits, rfl⟩ := (h a c).1 hc
    exact ⟨hfits, hnext⟩
  · rintro ⟨hfits, hnext⟩
    exact ⟨a, (h a a).2 ⟨hfits, rfl⟩, hnext⟩

theorem Returns.map {β : Type} (h : Returns Fits write read) {f : α → β} {b : β} :
    (read (write a)).map f = some b ↔ Fits a ∧ f a = b := by
  rw [Option.map_eq_bind, h.bind, Function.comp_apply, Option.some.injEq]

/-- A value that may be missing is written as null when it is. -/
theorem Returns.optional? (h : Returns Fits write read) (hwrite : ∀ a, (write a).isNull = false) :
    Returns (fun o => ∀ a ∈ o, Fits a) (ofOption write) (optional? read) := by
  intro o o'
  cases o with
  | none => simp [ofOption, Datum.optional?, isNull]
  | some a =>
      have hread (b : α) : read (write a) = some b ↔ Fits a ∧ a = b := h a b
      simp [ofOption, Datum.optional?, hwrite, hread, and_assoc]

theorem Admits.field? (h : Admits Fits read) (hfield : field? fields name read = some a) :
    Fits a := by
  unfold Datum.field? at hfield
  split at hfield
  · exact h _ a hfield
  · cases hfield

theorem Admits.optionalField? (h : Admits Fits read)
    (hfield : optionalField? fields name read = some o) : ∀ a ∈ o, Fits a := by
  intro a ha
  cases ha
  unfold Datum.optionalField? fieldOr? at hfield
  split at hfield
  · cases hfield
  · unfold Datum.optional? at hfield
    split at hfield
    · cases hfield
    · obtain ⟨b, hb, hsome⟩ := Option.map_eq_some_iff.1 hfield
      cases hsome
      exact h _ _ hb
  · cases hfield

end Datum

open Datum

/-- Writing and reading a type agree. -/
structure Faithful {α : Type} (layout : Layout) (Fits : α → Prop) (write : α → Datum)
    (read : Datum → Option α) : Prop where
  returns : Returns Fits write read
  admits : Admits Fits read
  blind : Blind layout read

/-! ### Positions and locations -/

namespace Position

/-- The numbers are counts. -/
def Fits (p : Position) : Prop :=
  p.element ≤ largestCount ∧ ∀ c ∈ p.component, c ≤ largestCount

/-- The fields of a position. -/
def layout : Layout := .record [("element", .whole), ("component", .nullable .whole)]

theorem faithful : Faithful layout Fits toDatum ofDatum? where
  returns := by
    intro p q
    -- Each name is looked up among those written, and the reader takes what its writer gave.
    simp only [ofDatum?, toDatum, record?, Option.bind_eq_bind, Option.bind_some]
    simp only [Datum.field?, Datum.optionalField?, fieldOr?, valuesOf]
    simp [returns_count.bind, (returns_count.optional? fun _ => rfl).bind, Fits, and_assoc]
  admits := by
    intro d p h
    obtain ⟨fields, -, h⟩ := Option.bind_eq_some_iff.1 h
    obtain ⟨element, helement, h⟩ := Option.bind_eq_some_iff.1 h
    obtain ⟨component, hcomponent, h⟩ := Option.bind_eq_some_iff.1 h
    cases h
    exact ⟨admits_count.field? helement, admits_count.optionalField? hcomponent⟩
  blind := by
    refine blind_record fun fields fields' h => ?_
    rw [h.field?_eq rfl (by nofun) (blind_whole _), h.optionalField?_eq rfl (blind_whole _)]

end Position

namespace Location

/-- The numbers are counts. -/
def Fits (l : Location) : Prop :=
  l.segmentIndex ≤ largestCount ∧ (∀ p ∈ l.position, p.Fits) ∧
    ∀ n ∈ l.repetition, n ≤ largestCount

/-- The fields of a location. -/
def layout : Layout :=
  .record [("segment_index", .whole), ("segment_tag", .nullable .whole),
    ("position", .nullable Position.layout), ("repetition", .nullable .whole),
    ("schema_path", .whole)]

theorem faithful : Faithful layout Fits toDatum ofDatum? where
  returns := by
    intro l l'
    simp only [ofDatum?, toDatum, record?, Option.bind_eq_bind, Option.bind_some]
    simp only [Datum.field?, Datum.optionalField?, fieldOr?, valuesOf]
    simp [returns_count.bind, (returns_count.optional? fun _ => rfl).bind, returns_text.bind,
      (returns_text.optional? fun _ => rfl).bind,
      (Position.faithful.returns.optional? fun _ => rfl).bind, Fits, and_assoc]
  admits := by
    intro d l h
    obtain ⟨fields, -, h⟩ := Option.bind_eq_some_iff.1 h
    obtain ⟨index, hindex, h⟩ := Option.bind_eq_some_iff.1 h
    obtain ⟨tag, -, h⟩ := Option.bind_eq_some_iff.1 h
    obtain ⟨position, hposition, h⟩ := Option.bind_eq_some_iff.1 h
    obtain ⟨repetition, hrepetition, h⟩ := Option.bind_eq_some_iff.1 h
    obtain ⟨path, -, h⟩ := Option.bind_eq_some_iff.1 h
    cases h
    exact ⟨admits_count.field? hindex, Position.faithful.admits.optionalField? hposition,
      admits_count.optionalField? hrepetition⟩
  blind := by
    refine blind_record fun fields fields' h => ?_
    rw [h.field?_eq rfl (by nofun) (blind_whole _), h.optionalField?_eq rfl (blind_whole _),
      h.optionalField?_eq rfl Position.faithful.blind, h.optionalField?_eq rfl (blind_whole _),
      h.field?_eq rfl (by nofun) (blind_whole _)]

end Location

/-! ### Violations -/

/-- A type whose values are written by name. -/
theorem returns_of_total {α : Type} {write : α → Datum} {read : Datum → Option α}
    (h : ∀ a, read (write a) = some a) : Returns (fun _ => True) write read := by
  intro a b
  simp [h]

namespace Violation

theorem Kind.returns : Returns (fun _ => True) Kind.toDatum Kind.ofDatum? :=
  returns_of_total fun k => by cases k <;> rfl

theorem Severity.returns : Returns (fun _ => True) Severity.toDatum Severity.ofDatum? :=
  returns_of_total fun s => by cases s <;> rfl

/-- The numbers are counts. -/
def Fits (v : Violation) : Prop := v.location.Fits

/-- The fields of a violation. -/
def layout : Layout :=
  .record [("kind", .whole), ("severity", .whole), ("location", Location.layout),
    ("value", .nullable .whole), ("message", .whole)]

theorem faithful : Faithful layout Fits toDatum ofDatum? where
  returns := by
    intro v v'
    simp only [ofDatum?, toDatum, record?, Option.bind_eq_bind, Option.bind_some]
    simp only [Datum.field?, Datum.optionalField?, fieldOr?, valuesOf]
    simp [Kind.returns.bind, Severity.returns.bind, Location.faithful.returns.bind,
      (returns_text.optional? fun _ => rfl).bind, returns_text.bind, Fits]
  admits := by
    intro d v h
    obtain ⟨fields, -, h⟩ := Option.bind_eq_some_iff.1 h
    obtain ⟨kind, -, h⟩ := Option.bind_eq_some_iff.1 h
    obtain ⟨severity, -, h⟩ := Option.bind_eq_some_iff.1 h
    obtain ⟨location, hlocation, h⟩ := Option.bind_eq_some_iff.1 h
    obtain ⟨value, -, h⟩ := Option.bind_eq_some_iff.1 h
    obtain ⟨message, -, h⟩ := Option.bind_eq_some_iff.1 h
    cases h
    exact Location.faithful.admits.field? hlocation
  blind := by
    refine blind_record fun fields fields' h => ?_
    rw [h.field?_eq rfl (by nofun) (blind_whole _), h.field?_eq rfl (by nofun) (blind_whole _),
      h.field?_eq rfl (by nofun) Location.faithful.blind, h.optionalField?_eq rfl (blind_whole _),
      h.field?_eq rfl (by nofun) (blind_whole _)]

end Violation

/-! ### Values and events -/

namespace ElementValue

/-- The numbers are counts. -/
def Fits (v : ElementValue) : Prop := v.position.Fits ∧ v.repetition ≤ largestCount

/-- The fields of a value. -/
def layout : Layout :=
  .record [("position", Position.layout), ("repetition", .whole), ("value", .whole)]

theorem faithful : Faithful layout Fits toDatum ofDatum? where
  returns := by
    intro v v'
    simp only [ofDatum?, toDatum, record?, Option.bind_eq_bind, Option.bind_some]
    simp only [Datum.field?, valuesOf]
    simp [Position.faithful.returns.bind, returns_count.bind, returns_text.bind, Fits, and_assoc]
  admits := by
    intro d v h
    obtain ⟨fields, -, h⟩ := Option.bind_eq_some_iff.1 h
    obtain ⟨position, hposition, h⟩ := Option.bind_eq_some_iff.1 h
    obtain ⟨repetition, hrepetition, h⟩ := Option.bind_eq_some_iff.1 h
    obtain ⟨value, -, h⟩ := Option.bind_eq_some_iff.1 h
    cases h
    exact ⟨Position.faithful.admits.field? hposition, admits_count.field? hrepetition⟩
  blind := by
    refine blind_record fun fields fields' h => ?_
    rw [h.field?_eq rfl (by nofun) Position.faithful.blind,
      h.field?_eq rfl (by nofun) (blind_whole _), h.field?_eq rfl (by nofun) (blind_whole _)]

end ElementValue

namespace Event

/-- The numbers are counts. -/
def CompositeFits (composite : Position × Nat) : Prop :=
  composite.1.Fits ∧ composite.2 ≤ largestCount

/-- The fields of a composite's opening or closing. -/
def compositeLayout : Layout := .record [("position", Position.layout), ("repetition", .whole)]

theorem composite_faithful :
    Faithful compositeLayout CompositeFits (fun c => compositeToDatum c.1 c.2)
      compositeOfDatum? where
  returns := by
    intro c c'
    simp only [compositeOfDatum?, compositeToDatum, record?, Option.bind_eq_bind, Option.bind_some]
    simp only [Datum.field?, valuesOf]
    simp [Position.faithful.returns.bind, returns_count.bind, CompositeFits, and_assoc]
  admits := by
    intro d c h
    obtain ⟨fields, -, h⟩ := Option.bind_eq_some_iff.1 h
    obtain ⟨position, hposition, h⟩ := Option.bind_eq_some_iff.1 h
    obtain ⟨repetition, hrepetition, h⟩ := Option.bind_eq_some_iff.1 h
    cases h
    exact ⟨Position.faithful.admits.field? hposition, admits_count.field? hrepetition⟩
  blind := by
    refine blind_record fun fields fields' h => ?_
    rw [h.field?_eq rfl (by nofun) Position.faithful.blind,
      h.field?_eq rfl (by nofun) (blind_whole _)]

/-- The numbers are counts. -/
def Fits : Event → Prop
  | interchangeStart _ | segmentStart _ | segmentEnd | interchangeEnd => True
  | compositeStart position repetition | compositeEnd position repetition =>
      CompositeFits (position, repetition)
  | element value => value.Fits

/-- The fields of the events that have some, by name. -/
def parts : List (String × Layout) :=
  [("InterchangeStart", .record [("version", .nullable .whole)]),
    ("SegmentStart", .record [("tag", .whole)]), ("CompositeStart", compositeLayout),
    ("Element", ElementValue.layout), ("CompositeEnd", compositeLayout)]

/-- An event that has fields is a record of one field, and any other a text. -/
def layout : Layout := .tagged parts

/-- Data under a name are read by that name. -/
theorem ofDatum?_record (name : String) (fields : List (String × Datum)) :
    ofDatum? (.record [(name, .record fields)]) = ofField? name (.record fields) := rfl

theorem ofName?_fits {name : String} {e : Event} (h : ofName? name = some e) : e.Fits := by
  unfold ofName? at h
  split at h <;> cases h <;> trivial

theorem ofField?_fits {name : String} {d : Datum} {e : Event} (h : ofField? name d = some e) :
    e.Fits := by
  unfold ofField? at h
  split at h
  · obtain ⟨fields, -, h⟩ := Option.bind_eq_some_iff.1 h
    obtain ⟨version, -, h⟩ := Option.bind_eq_some_iff.1 h
    cases h
    trivial
  · obtain ⟨fields, -, h⟩ := Option.bind_eq_some_iff.1 h
    obtain ⟨tag, -, h⟩ := Option.bind_eq_some_iff.1 h
    cases h
    trivial
  · obtain ⟨c, hc, h⟩ := Option.map_eq_some_iff.1 h
    cases h
    exact composite_faithful.admits d c hc
  · obtain ⟨v, hv, h⟩ := Option.map_eq_some_iff.1 h
    cases h
    exact ElementValue.faithful.admits d v hv
  · obtain ⟨c, hc, h⟩ := Option.map_eq_some_iff.1 h
    cases h
    exact composite_faithful.admits d c hc
  · cases h

/-- Every event that has data has fields. -/
theorem record_of_mem_parts {name : String} {part : Layout} (h : (name, part) ∈ parts) :
    ∃ known, part = .record known := by
  simp only [parts, List.mem_cons, List.not_mem_nil, or_false, Prod.mk.injEq] at h
  rcases h with ⟨-, rfl⟩ | ⟨-, rfl⟩ | ⟨-, rfl⟩ | ⟨-, rfl⟩ | ⟨-, rfl⟩ <;> exact ⟨_, rfl⟩

/-- What stands under one name is read without seeing the differences there. -/
theorem blind_ofField? {name : String} {part : Layout} (h : (name, part) ∈ parts) :
    Blind part (ofField? name) := by
  simp only [parts, List.mem_cons, List.not_mem_nil, or_false, Prod.mk.injEq] at h
  rcases h with ⟨rfl, rfl⟩ | ⟨rfl, rfl⟩ | ⟨rfl, rfl⟩ | ⟨rfl, rfl⟩ | ⟨rfl, rfl⟩
  · refine blind_record fun fields fields' h => ?_
    rw [h.optionalField?_eq rfl (blind_whole _)]
  · refine blind_record fun fields fields' h => ?_
    rw [h.field?_eq rfl (by nofun) (blind_whole _)]
  · intro d d' hd
    exact congrArg (Option.map _) (composite_faithful.blind hd)
  · intro d d' hd
    exact congrArg (Option.map _) (ElementValue.faithful.blind hd)
  · intro d d' hd
    exact congrArg (Option.map _) (composite_faithful.blind hd)

theorem faithful : Faithful layout Fits toDatum ofDatum? where
  returns := by
    intro e e'
    cases e with
    | interchangeStart version =>
        rw [toDatum, ofDatum?_record, ofField?]
        simp only [record?, Datum.optionalField?, fieldOr?, valuesOf]
        simp [(returns_text.optional? fun _ => rfl).bind, Fits]
    | segmentStart tag =>
        rw [toDatum, ofDatum?_record, ofField?]
        simp only [record?, Datum.field?, valuesOf]
        simp [returns_text.bind, Fits]
    | compositeStart position repetition =>
        change ((compositeOfDatum? (compositeToDatum position repetition)).map
          fun c => compositeStart c.1 c.2) = some e' ↔ _
        exact composite_faithful.returns.map (a := (position, repetition))
    | element value =>
        change (ElementValue.ofDatum? value.toDatum).map element = some e' ↔ _
        exact ElementValue.faithful.returns.map
    | compositeEnd position repetition =>
        change ((compositeOfDatum? (compositeToDatum position repetition)).map
          fun c => compositeEnd c.1 c.2) = some e' ↔ _
        exact composite_faithful.returns.map (a := (position, repetition))
    | segmentEnd => simp [toDatum, ofDatum?, text?, ofName?, Fits]
    | interchangeEnd => simp [toDatum, ofDatum?, text?, ofName?, Fits]
  admits := by
    intro d e h
    unfold ofDatum? at h
    split at h
    · exact ofName?_fits h
    · exact ofField?_fits h
    · obtain ⟨name, -, h⟩ := Option.bind_eq_some_iff.1 h
      exact ofName?_fits h
  blind := by
    intro d d' h
    cases h with
    | tagged hname h =>
        -- Null would be read as a name alone, but the data of a known name are a record.
        obtain ⟨before, after, hparts, -⟩ := List.lookup_eq_some_iff.1 hname
        have hmem := hparts ▸ List.mem_append_right before List.mem_cons_self
        obtain ⟨known, rfl⟩ := record_of_mem_parts hmem
        obtain ⟨fields, fields', rfl, rfl⟩ := h.records
        rw [ofDatum?_record, ofDatum?_record, blind_ofField? hmem h]

end Event

/-! ### The canonical form -/

/-- Reading and writing a type: what is written for a value with counts of 64 bits is read as that
value, what is read has such counts, so that it is its own canonical form, and what differs only
where nobody looks is read as the same. -/
structure Canonical {α : Type} (layout : Layout) (Fits : α → Prop) (write : α → Datum)
    (read : Datum → Option α) : Prop where
  decodes : ∀ a, Fits a → read (write a) = some a
  stable : ∀ d, ∀ a ∈ read d, read (write a) = some a
  alike : ∀ d d', Relation.EqvGen (Varies layout) d d' →
    read d = read d' ∧ (read d).map write = (read d').map write

variable {α : Type} {layout : Layout} {Fits : α → Prop} {write : α → Datum}
  {read : Datum → Option α}

/-- Any number of differences is no more seen than one. -/
theorem Datum.Blind.eqvGen (h : Blind layout read) {d d' : Datum}
    (hd : Relation.EqvGen (Varies layout) d d') : read d = read d' := by
  induction hd with
  | rel d d' hd => exact h hd
  | refl d => rfl
  | symm d d' _ ih => exact ih.symm
  | trans d d' d'' _ _ ih ih' => exact ih.trans ih'

theorem Faithful.canonical (h : Faithful layout Fits write read) :
    Canonical layout Fits write read where
  decodes a ha := (h.returns a a).2 ⟨ha, rfl⟩
  stable d a ha := (h.returns a a).2 ⟨h.admits d a ha, rfl⟩
  alike d d' hd := by
    have hread := h.blind.eqvGen hd
    exact ⟨hread, by rw [hread]⟩

/-- Events, values, locations and violations are read as what was written, and inputs that differ
only in the order of fields, in fields that nobody knows and in optional fields given as null have
the same canonical form. -/
theorem serialized_faithfully :
    Canonical Event.layout Event.Fits Event.toDatum Event.ofDatum? ∧
      Canonical ElementValue.layout ElementValue.Fits ElementValue.toDatum
        ElementValue.ofDatum? ∧
      Canonical Location.layout Location.Fits Location.toDatum Location.ofDatum? ∧
      Canonical Violation.layout Violation.Fits Violation.toDatum Violation.ofDatum? :=
  ⟨Event.faithful.canonical, ElementValue.faithful.canonical, Location.faithful.canonical,
    Violation.faithful.canonical⟩

/-- A value written in another order, with a field that nobody knows and without the number of a
component, is read as the value itself. -/
theorem serialized_faithfully_reordered :
    let e : Event := .element ⟨⟨1, none⟩, 0, "X"⟩
    let d : Datum := .record [("Element", .record [("value", .text "X"), ("seen", .bool true),
      ("repetition", .natural 0), ("position", .record [("element", .natural 1)])])]
    Relation.EqvGen (Varies Event.layout) d e.toDatum ∧ Event.ofDatum? d = some e := by
  intro e d
  have homitted : Varies Position.layout (.record [("element", .natural 1)])
      (.record [("component", .null), ("element", .natural 1)]) := .omitted rfl (by simp)
  have hposition : Varies Position.layout (.record [("component", .null), ("element", .natural 1)])
      (Position.toDatum ⟨1, none⟩) := .order (.swap _ _ [])
  have hd : Relation.EqvGen (Varies Event.layout) d e.toDatum := by
    refine .trans _ _ _ (.rel _ _ (.tagged rfl (.order (List.Perm.swap _ _ _)))) ?_
    refine .trans _ _ _ (.symm _ _ (.rel _ _ (.tagged rfl (.unknown rfl)))) ?_
    refine .trans _ _ _ (.rel _ _ (.tagged rfl (.order (List.reverse_perm _).symm))) ?_
    refine .trans _ _ _ (.rel _ _ (.tagged rfl (@Varies.inside _ [] _ _ _ _ _ rfl homitted))) ?_
    exact .rel _ _ (.tagged rfl (@Varies.inside _ [] _ _ _ _ _ rfl hposition))
  have hfits : e.Fits := ⟨⟨by decide, nofun⟩, by decide⟩
  exact ⟨hd, (serialized_faithfully.1.alike d e.toDatum hd).1.trans
    (serialized_faithfully.1.decodes e hfits)⟩

end Interchange
