import Interchange.Schema
import Interchange.Schema.Description

/-!
# Resolving descriptions

A description becomes a structure tree by replacing every id with what it names,
beginning at the root loop. Definitions are taken in the order of their parts, and the
first error met is the answer.

How a definition is put together from its parts does not depend on how the parts are
found. `Composite.assemble`, `Segment.assemble` and `Loop.assemble` say it once, for any
monad with errors; `resolveType`, `resolveComposite`, `resolveSegment` and `resolveLoop`
supply a way to find the parts that keeps every finished definition and uses it again
(`once`). A definition that is asked for while it is being put together contains itself:
`inProgress` holds the ids of the segments and loops that are being put together. The
definitions with other ids become fewer on the way down, which is why resolving ends.
-/

namespace Interchange.Schema

namespace Description

/-! ### Ids -/

/-- The first id that stands in a list for the second time. -/
def repeated? : (seen : List String) → List String → Option String
  | _, [] => none
  | seen, id :: rest => if id ∈ seen then some id else repeated? (id :: seen) rest

/-- The first id that stands in both lists. -/
def shared? (ids others : List String) : Option String := ids.find? (others.contains ·)

/-- What is wrong with the ids of the definitions. Ids are unique for each kind; segments
and loops share one space of ids, and so do elements and composites. -/
def idFault? (d : Description) : Option Fault :=
  let elements := d.elements.map (·.id)
  let composites := d.composites.map (·.id)
  let segments := d.segments.map (·.id)
  let loops := d.loops.map (·.id)
  ((repeated? [] elements).map .duplicateId) <|>
  ((repeated? [] composites).map .duplicateId) <|>
  ((repeated? [] segments).map .duplicateId) <|>
  ((repeated? [] loops).map .duplicateId) <|>
  ((shared? segments loops).map .segmentAndLoop) <|>
  ((shared? elements composites).map .elementAndComposite)

/-! ### Values -/

/-- The override of a type that an element definition describes. -/
def Override.resolve (o : Override) : Except Fault SimpleType.Override :=
  match VersionRange.between o.minVersion o.maxVersion with
  | .error fault => .error (.versionRange fault)
  | .ok range =>
      .ok { range, minLength := o.minLength, maxLength := o.maxLength, codes := o.codes }

/-- The type that an element definition describes. -/
def Element.resolve (e : Element) : Except Fault SimpleType := do
  let overrides ← e.overrides.mapM Override.resolve
  SimpleType.checked
    { id := e.id, kind := e.kind, scale := e.scale, minLength := e.minLength,
      maxLength := e.maxLength, codes := e.codes, overrides, title := e.title }

/-- The discriminator of an implementation. -/
def Discriminator.resolve (d : Discriminator) : Except Fault Interchange.Discriminator :=
  match Position.checked d.element d.component with
  | .ok position => .ok (.ofValues position d.values)
  | .error fault => .error (.discriminatorPosition fault)

/-- The largest number of occurrences: one where nothing is said, any number where the
word `unbounded` stands, in letters of either case. -/
def maximum : Option Maximum → Except Error MaxOccurs
  | none => .ok (.bounded 1)
  | some (.count max) => .ok (.bounded max)
  | some (.word word) =>
      if word.toList.map Char.toLower = "unbounded".toList then .ok .unbounded
      else .error (.unknownMaximum word)

/-- The bounds of a child's occurrences. -/
def Child.bounds (c : Child) : Except Error (Nat × MaxOccurs) := do
  match ← maximum c.maxOccurs with
  | .unbounded => return (c.minOccurs, .unbounded)
  | .bounded max =>
      if max < c.minOccurs then throw (.invalid (.reversedOccurs c.target c.minOccurs max))
      return (c.minOccurs, .bounded max)

/-! ### Putting definitions together -/

section Assembly

variable {m : Type → Type} [Monad m] [MonadLiftT (Except Error) m]

/-- The composite of a definition. Types are found by `typeOf`. -/
def Composite.assemble (typeOf : String → m SimpleType) (c : Composite) :
    m Interchange.Composite := do
  let components ← c.components.mapM fun u => do
    let simpleType ← typeOf u.target
    return { simpleType, required := 0 < u.minOccurs : Component }
  return ⟨c.id, components⟩

/-- The segment of a definition. What its elements hold is found by `contentOf`, segments by
`segmentOf`. -/
def Segment.assemble (contentOf : String → m Content)
    (segmentOf : String → m Interchange.Segment) (s : Segment) : m Interchange.Segment := do
  let elements ← s.elements.mapM fun e => do
    let content ← contentOf e.target
    return { content, required := 0 < e.minOccurs, maxOccurs := max e.maxOccurs 1 :
      Interchange.Element }
  let implementations ← s.implementations.mapM fun i => do
    let body ← segmentOf i.segment
    let discriminator ← liftM (i.discriminator.resolve.mapError Error.invalid)
    return { id := i.id, discriminator, body : Implementation Interchange.Segment }
  return ⟨s.id, s.tag.getD s.id, elements, implementations⟩

/-- A child of a loop. What it names is found by `targetOf`. -/
def Child.assemble (targetOf : String → m (Target Interchange.Loop)) (c : Child) :
    m Interchange.Child := do
  let target ← targetOf c.target
  let (minOccurs, maxOccurs) ← liftM c.bounds
  return ⟨target, minOccurs, maxOccurs⟩

/-- The loop of a definition. What its children name is found by `targetOf`. -/
def Loop.assemble (targetOf : String → m (Target Interchange.Loop)) (l : Loop) :
    m Interchange.Loop := do
  let children ← l.children.mapM (Child.assemble targetOf)
  let implementations ← l.implementations.mapM fun i => do
    let body ← i.children.mapM (Child.assemble targetOf)
    let discriminator ← liftM (i.discriminator.resolve.mapError Error.invalid)
    return { id := i.id, discriminator, body : Implementation (List Interchange.Child) }
  return ⟨l.id, children, implementations⟩

end Assembly

/-! ### Finding definitions -/

/-- The definition of an element type with an id. -/
def element? (d : Description) (id : String) : Option Element := d.elements.find? (·.id == id)

/-- The definition of a composite with an id. -/
def composite? (d : Description) (id : String) : Option Composite :=
  d.composites.find? (·.id == id)

/-- The definition of a segment with an id. -/
def segment? (d : Description) (id : String) : Option Segment := d.segments.find? (·.id == id)

/-- The definition of a loop with an id. -/
def loop? (d : Description) (id : String) : Option Loop := d.loops.find? (·.id == id)

/-- What a reference leads to, which may be nothing. -/
def named {δ : Type} (kind : DefinitionKind) (id : String) : Option δ → Except Error δ
  | some definition => .ok definition
  | none => .error (.invalid (.unknownReference kind id))

/-- The type with an id. -/
def typeOf (d : Description) (id : String) : Except Error SimpleType := do
  let element ← named .element id (d.element? id)
  element.resolve.mapError Error.invalid

section Finding

variable {m : Type → Type} [Monad m]

/-- What an element holds: a composite where there is one of that id, a type otherwise. -/
def contentOf (d : Description) (typeOf : String → m SimpleType)
    (compositeOf : String → m Interchange.Composite) (id : String) : m Content :=
  match d.composite? id with
  | some _ => Content.composite <$> compositeOf id
  | none => Content.simple <$> typeOf id

/-- What a child of a loop names: a loop where there is one of that id, a segment otherwise. -/
def targetOf (d : Description) (segmentOf : String → m Interchange.Segment)
    (loopOf : String → m Interchange.Loop) (id : String) : m (Target Interchange.Loop) :=
  match d.loop? id with
  | some _ => Target.loop <$> loopOf id
  | none => Target.segment <$> segmentOf id

end Finding

/-- How many definitions are not being put together. -/
def idle {δ : Type} (idOf : δ → String) (inProgress : List String) (xs : List δ) : Nat :=
  xs.countP (idOf · ∉ inProgress)

theorem idle_cons_lt {δ : Type} {idOf : δ → String} {inProgress : List String} {id : String}
    {xs : List δ} {x : δ} (h : xs.find? (idOf · == id) = some x) (hid : id ∉ inProgress) :
    idle idOf (id :: inProgress) xs < idle idOf inProgress xs := by
  obtain ⟨hx, before, after, rfl, -⟩ := List.find?_eq_some_iff_append.1 h
  obtain rfl := eq_of_beq hx
  have hle (ys : List δ) :
      ys.countP (idOf · ∉ idOf x :: inProgress) ≤ ys.countP (idOf · ∉ inProgress) :=
    List.countP_mono_left fun y _ hy => by simp_all
  have hbefore := hle before
  have hafter := hle after
  simp only [idle, List.countP_append, List.countP_cons, List.mem_cons, true_or, not_true_eq_false,
    hid, not_false_eq_true, decide_true, decide_false, if_true, Bool.false_eq_true, if_false] at *
  omega

/-! ### Resolving -/

/-- The definitions that are finished, by id. -/
structure Finished where
  types : List (String × SimpleType) := []
  composites : List (String × Interchange.Composite) := []
  segments : List (String × Interchange.Segment) := []
  loops : List (String × Interchange.Loop) := []

/-- Resolving keeps what is finished and stops at the first error. -/
abbrev Resolve := StateT Finished (Except Error)

/-- Where the finished definitions of one kind are kept. -/
structure Shelf (β : Type) where
  get : Finished → List (String × β)
  add : String → β → Finished → Finished

namespace Shelf

def types : Shelf SimpleType := ⟨(·.types), fun id x f => { f with types := (id, x) :: f.types }⟩

def composites : Shelf Interchange.Composite :=
  ⟨(·.composites), fun id x f => { f with composites := (id, x) :: f.composites }⟩

def segments : Shelf Interchange.Segment :=
  ⟨(·.segments), fun id x f => { f with segments := (id, x) :: f.segments }⟩

def loops : Shelf Interchange.Loop :=
  ⟨(·.loops), fun id x f => { f with loops := (id, x) :: f.loops }⟩

end Shelf

/-- Build what belongs to an id and keep it, unless it is finished already. -/
def once {β : Type} (shelf : Shelf β) (id : String) (build : Resolve β) : Resolve β := do
  match (shelf.get (← get)).lookup id with
  | some x => return x
  | none =>
      let x ← build
      modify (shelf.add id x)
      return x

/-- The type with an id. -/
def resolveType (d : Description) (id : String) : Resolve SimpleType :=
  once .types id (liftM (d.typeOf id))

/-- The composite with an id. -/
def resolveComposite (d : Description) (id : String) : Resolve Interchange.Composite :=
  once .composites id do
    let composite ← liftM (named .composite id (d.composite? id))
    composite.assemble d.resolveType

/-- The segment with an id, while those in `inProgress` are being put together. -/
def resolveSegment (d : Description) (inProgress : List String) (id : String) :
    Resolve Interchange.Segment :=
  once .segments id <|
    match h : d.segment? id with
    | none => throw (.invalid (.unknownReference .segment id))
    | some segment =>
        if hid : id ∈ inProgress then throw (.invalid (.circularReference id))
        else
          have := idle_cons_lt h hid
          segment.assemble (d.contentOf d.resolveType d.resolveComposite)
            (d.resolveSegment (id :: inProgress))
termination_by idle (·.id) inProgress d.segments

/-- The loop with an id, while those in `inProgress` are being put together. -/
def resolveLoop (d : Description) (inProgress : List String) (id : String) :
    Resolve Interchange.Loop :=
  once .loops id <|
    match h : d.loop? id with
    | none => throw (.invalid (.unknownReference .loop id))
    | some loop =>
        if hid : id ∈ inProgress then throw (.invalid (.circularReference id))
        else
          have := idle_cons_lt h hid
          loop.assemble
            (d.targetOf (d.resolveSegment (id :: inProgress)) (d.resolveLoop (id :: inProgress)))
termination_by idle (·.id) inProgress d.loops

/-- The structure tree that a description stands for. -/
def resolve (d : Description) : Except Error Interchange.Loop :=
  match d.idFault? with
  | some fault => .error (.invalid fault)
  | none => (d.resolveLoop [] d.root).run' {}

/-- The schema that a description stands for. -/
def toSchema (d : Description) : Except Error Schema := do
  Schema.bindDefinitions d.name (← d.resolve)

end Description

end Interchange.Schema
