import Interchange.Proofs.Selection
import Interchange.Proofs.Run

/-!
# Reading a segment

The values of a segment arrive one by one. While a discriminator is undecided they are only
kept; when it is decided all that have come are checked, and from then on each is checked as it
comes. `decideAll` makes the decision for a list of values, and `effects_body` says that the
reports of the whole segment are those of the decision, followed by those of one check of all
values against the definition that has been decided on, followed by what is missing from it.

What a decision does is said through the selection that it waits for (`awaited`): the loop it
settles and the reports it makes (`Decides`).
-/

namespace Interchange.Validator

variable {frames frames' : List Frame} {s t : OpenSegment} {values rest : List ElementValue}
  {report : List Violation} {complete : Bool} {version : Option String} {codes : Bool}

/-! ### Checking values -/

namespace OpenSegment

/-- The segment with more values. -/
def pushAll (s : OpenSegment) (values : List ElementValue) : OpenSegment :=
  { s with read := values.reverse ++ s.read, unchecked := values.reverse ++ s.unchecked }

@[simp] theorem pushAll_nil (s : OpenSegment) : s.pushAll [] = s := rfl

@[simp] theorem pushAll_push (s : OpenSegment) (x : ElementValue) (values : List ElementValue) :
    (s.push x).pushAll values = s.pushAll (x :: values) := by
  simp [pushAll, push]

theorem pushAll_append (s : OpenSegment) (values rest : List ElementValue) :
    (s.pushAll values).pushAll rest = s.pushAll (values ++ rest) := by
  simp [pushAll]

@[simp] theorem values_pushAll (s : OpenSegment) (values : List ElementValue) :
    (s.pushAll values).values = s.values ++ values := by
  simp [pushAll, OpenSegment.values]

theorem checkValue_of_isEmpty (d : Segment) (location : Location) (flagged : List (Nat × Nat))
    {x : ElementValue} (hx : x.isEmpty = true) :
    checkValue d version codes location flagged x = ([], flagged) := by
  unfold checkValue
  rw [if_pos hx]

/-- Values that are checked in two parts share the elements reported as a whole. -/
theorem checkValues_append {definition : Segment} {location : Location}
    {flagged : List (Nat × Nat)} :
    checkValues definition version codes location flagged (values ++ rest) =
      let first := checkValues definition version codes location flagged values
      let others := checkValues definition version codes location first.2 rest
      (first.1 ++ others.1, others.2) := by
  induction values generalizing flagged with
  | nil => rfl
  | cons x values ih =>
      simp only [List.cons_append, checkValues]
      rw [ih]
      simp [List.append_assoc]

/-- Checking what has come and then the rest ends as checking all of it. -/
theorem checkNew_pushAll_fst :
    (((s.checkNew version codes).1.pushAll values).checkNew version codes).1 =
      ((s.pushAll values).checkNew version codes).1 := by
  cases hd : s.definition with
  | none => simp [checkNew, pushAll, hd]
  | some d => simp [checkNew, pushAll, hd, checkValues_append, location]

/-- Checking what has come and then the rest reports what checking all of it reports. -/
theorem checkNew_pushAll_snd :
    (s.checkNew version codes).2 ++
        (((s.checkNew version codes).1.pushAll values).checkNew version codes).2 =
      ((s.pushAll values).checkNew version codes).2 := by
  cases hd : s.definition with
  | none => simp [checkNew, pushAll, hd]
  | some d => simp [checkNew, pushAll, hd, checkValues_append, location]

@[simp] theorem undecided_checkNew :
    (s.checkNew version codes).1.undecided = s.undecided := by
  unfold checkNew
  cases s.definition <;> rfl

theorem presentRepetitions_filter (values : List ElementValue) (number : Nat)
    (element : Element) :
    presentRepetitions (values.filter (!·.isEmpty)) number element =
      presentRepetitions values number element := by
  unfold presentRepetitions
  rw [List.filter_filter]
  congr 3
  funext x
  cases x.isEmpty <;> simp

theorem hasData_filter (values : List ElementValue) (position : Position) (repetition : Nat) :
    hasData (values.filter (!·.isEmpty)) position repetition =
      hasData values position repetition := by
  unfold hasData
  rw [List.any_filter]
  congr 1
  funext x
  cases x.isEmpty <;> simp

/-- Only values that carry data make a difference to what is missing. -/
theorem missingFrom_congr
    (hread : s.read.filter (!·.isEmpty) = t.read.filter (!·.isEmpty))
    (hlocation : s.location = t.location) (number : Nat) (elements : List Element) :
    s.missingFrom number elements = t.missingFrom number elements := by
  have hmissing (position : Position) (repetition : Nat) (message : String) :
      s.missing position repetition message = t.missing position repetition message := by
    unfold missing
    rw [hlocation]
  have hpresent (number : Nat) (element : Element) :
      presentRepetitions s.read number element = presentRepetitions t.read number element := by
    rw [← presentRepetitions_filter, hread, presentRepetitions_filter]
  have hdata (position : Position) (repetition : Nat) :
      hasData s.read position repetition = hasData t.read position repetition := by
    rw [← hasData_filter, hread, hasData_filter]
  have hcomponents (number repetition place : Nat) (components : List Component) :
      s.missingComponents number repetition place components =
        t.missingComponents number repetition place components := by
    induction components generalizing place with
    | nil => rfl
    | cons c rest ih => simp only [missingComponents, hdata, hmissing, ih]
  induction elements generalizing number with
  | nil => rfl
  | cons element rest ih => simp only [missingFrom, missingIn, hpresent, hmissing, hcomponents, ih]

/-- What is missing does not depend on what has been checked. -/
@[simp] theorem missingElements_checkNew :
    (s.checkNew version codes).1.missingElements = s.missingElements := by
  have hdefinition : (s.checkNew version codes).1.definition = s.definition := by
    unfold checkNew
    cases s.definition <;> rfl
  unfold missingElements
  rw [hdefinition]
  cases hd : s.definition with
  | none => rfl
  | some d =>
      refine missingFrom_congr ?_ ?_ 1 d.elements
      · simp only [checkNew, hd]
      · simp only [checkNew, hd, location]

@[simp] theorem missingElements_checkNew_pushAll :
    ((s.checkNew version codes).1.pushAll values).missingElements =
      (s.pushAll values).missingElements := by
  rw [← missingElements_checkNew, checkNew_pushAll_fst, missingElements_checkNew]

end OpenSegment

/-! ### Decisions -/

/-- A segment waits for a selection among some implementations. -/
inductive Awaits (frames : List Frame) (s : OpenSegment) :
    {β : Type} → List (Implementation β) → Prop
  | loop {f : Frame} {outer : List Frame} (hu : s.undecided = some .loop)
      (hf : frames = f :: outer) : Awaits frames s f.loop.implementations
  | segment {d : Segment} (hu : s.undecided = some .segment) (hd : s.definition = some d) :
      Awaits frames s d.implementations

/-- The answer to the selection that a segment waits for, when it waits for one. -/
def awaited (frames : List Frame) (s : OpenSegment)
    (choose : {β : Type} → List (Implementation β) → Selection) : Option Selection :=
  match s.undecided with
  | none => none
  | some .segment => s.definition.map fun d => choose d.implementations
  | some .loop => frames.head?.map fun f => choose f.loop.implementations

/-- A frame whose implementation has been selected. -/
def Frame.settled (f : Frame) (choice : Selection) : Frame :=
  match choice with
  | .resolved index =>
      match f.loop.implementations[index]? with
      | some i =>
          { f with active := .implementation index, path := f.path ++ "[" ++ i.id ++ "]"
                   counts := opened i.body, cursor := 0 }
      | none => f
  | .noMatch | .unresolved => { f with active := .base }

/-- The frames after the selection that a segment waits for. -/
def settledFrames (frames : List Frame) (s : OpenSegment)
    (choose : {β : Type} → List (Implementation β) → Selection) : List Frame :=
  match s.undecided, frames with
  | some .loop, f :: outer => f.settled (choose f.loop.implementations) :: outer
  | _, frames => frames

variable {choose choose' : {β : Type} → List (Implementation β) → Selection}

theorem settledFrames_eq_self (h : s.undecided ≠ some .loop) :
    settledFrames frames s choose = frames := by
  unfold settledFrames
  split
  · rename_i hu
    exact absurd hu h
  · rfl

theorem Awaits.awaited_eq {β : Type} {is : List (Implementation β)} (h : Awaits frames s is)
    (choose : {β : Type} → List (Implementation β) → Selection) :
    awaited frames s choose = some (choose is) := by
  cases h with
  | loop hu hf => simp [awaited, hu, hf]
  | segment hu hd => simp [awaited, hu, hd]

theorem Awaits.congr {β : Type} {is : List (Implementation β)} (h : Awaits frames s is)
    (hu : t.undecided = s.undecided) (hd : t.definition = s.definition) : Awaits frames t is := by
  cases h with
  | loop hs hf => exact .loop (hu.trans hs) hf
  | segment hs hds => exact .segment (hu.trans hs) (hd.trans hds)

theorem awaited_congr
    (h : ∀ {β : Type} {is : List (Implementation β)}, Awaits frames s is →
      choose is = choose' is) : awaited frames s choose = awaited frames s choose' := by
  unfold awaited
  rcases hu : s.undecided with _ | _ | _
  · rfl
  · cases frames with
    | nil => rfl
    | cons f outer => simp only [List.head?_cons, Option.map_some, h (.loop hu rfl)]
  · cases hd : s.definition with
    | none => rfl
    | some d => simp only [Option.map_some, h (.segment hu hd)]

theorem settledFrames_congr
    (h : ∀ {β : Type} {is : List (Implementation β)}, Awaits frames s is →
      choose is = choose' is) : settledFrames frames s choose = settledFrames frames s choose' := by
  unfold settledFrames
  split
  · rename_i hu
    simp only [h (.loop hu rfl)]
  · rfl

/-- What a decision finds and does when it is made. -/
structure Decides (frames : List Frame) (s : OpenSegment)
    (choose : {β : Type} → List (Implementation β) → Selection) (frames' : List Frame)
    (t : OpenSegment) (report : List Violation) : Prop where
  /-- It changes the definition and the path of the segment, ... -/
  segment_eq : t = { s with path := t.path, definition := t.definition, undecided := none }
  /-- ... and the innermost loop, when it is a decision about the loop. -/
  frames_eq : frames' = settledFrames frames s choose
  /-- It reports when no implementation matches. -/
  kinds_eq : report.map (·.kind) =
    if awaited frames s choose = some .noMatch then [.unresolvedImplementation] else []

theorem Decides.congr (h : Decides frames s choose frames' t report)
    (hchoose : ∀ {β : Type} {is : List (Implementation β)}, Awaits frames s is →
      choose is = choose' is) : Decides frames s choose' frames' t report where
  segment_eq := h.segment_eq
  frames_eq := by rw [h.frames_eq, settledFrames_congr hchoose]
  kinds_eq := by rw [h.kinds_eq, awaited_congr hchoose]

/-- What is decided stays decided when more values are kept. -/
theorem Decides.pushAll (h : Decides frames s choose frames' t report)
    (values : List ElementValue) :
    Decides frames (s.pushAll values) choose frames' (t.pushAll values) report where
  segment_eq := by
    rw [h.segment_eq]
    rfl
  frames_eq := h.frames_eq
  kinds_eq := h.kinds_eq

/-- A decision is open as long as the selection is. -/
theorem decide?_eq_none : decide? frames s complete = none ↔
    awaited frames s (Implementation.select · s.values complete) = some .unresolved := by
  unfold decide? awaited
  rcases s.undecided with _ | _ | _
  · simp
  · cases frames with
    | nil => simp
    | cons f outer =>
        simp only [Option.map_eq_none_iff, List.head?_cons, Option.map_some, Option.some.injEq]
        unfold Frame.resolve?
        split <;> simp_all
        split <;> simp
  · simp only [Option.map_eq_none_iff]
    unfold OpenSegment.resolve?
    cases s.definition with
    | none => simp
    | some d =>
        simp only [Option.map_some, Option.some.injEq]
        split <;> simp_all
        split <;> simp

theorem Frame.resolve?_eq_some {f g : Frame} (h : f.resolve? s complete = some (g, t, report)) :
    t = { s with path := t.path, definition := t.definition } ∧
      g = f.settled (Implementation.select f.loop.implementations s.values complete) ∧
      report.map (·.kind) =
        if Implementation.select f.loop.implementations s.values complete = .noMatch then
          [.unresolvedImplementation] else [] := by
  unfold Frame.resolve? at h
  split at h
  · cases h
  · rename_i hchoice
    cases h
    rw [hchoice]
    exact ⟨rfl, rfl, rfl⟩
  · rename_i index hchoice
    -- An index that is selected is in the list, so the frame does change.
    obtain ⟨i, hi⟩ := Implementation.select_resolved hchoice
    rw [hi] at h
    cases h
    rw [hchoice]
    refine ⟨?_, ?_, rfl⟩
    · split <;> rfl
    · simp [Frame.settled, hi]

theorem OpenSegment.resolve?_eq_some (h : s.resolve? complete = some (t, report)) :
    t = { s with path := t.path, definition := t.definition } ∧
      report.map (·.kind) =
        if s.definition.map (fun d => Implementation.select d.implementations s.values complete) =
          some .noMatch then [.unresolvedImplementation] else [] := by
  unfold OpenSegment.resolve? at h
  cases hd : s.definition with
  | none =>
      rw [hd] at h
      cases h
      exact ⟨rfl, rfl⟩
  | some d =>
      rw [hd] at h
      dsimp only at h
      split at h
      · cases h
      · rename_i index hchoice
        obtain ⟨i, hi⟩ := Implementation.select_resolved hchoice
        rw [hi] at h
        cases h
        exact ⟨rfl, by simp [hchoice]⟩
      · rename_i hchoice
        cases h
        exact ⟨rfl, by simp [hchoice, OpenSegment.unresolved]⟩

/-- A decision is that of the selection. -/
theorem decides_of_decide? (h : decide? frames s complete = some (frames', t, report)) :
    Decides frames s (Implementation.select · s.values complete) frames' t report := by
  unfold decide? at h
  rcases hu : s.undecided with _ | _ | _
  · rw [hu] at h
    cases h
    exact ⟨by rw [← hu], by simp [settledFrames, hu], by simp [awaited, hu]⟩
  · rw [hu] at h
    cases frames with
    | nil =>
        cases h
        exact ⟨rfl, by simp [settledFrames], by simp [awaited, hu]⟩
    | cons f outer =>
        obtain ⟨⟨g, u, found⟩, hr, h⟩ := Option.map_eq_some_iff.1 h
        cases h
        obtain ⟨hsegment, hframe, hkinds⟩ := Frame.resolve?_eq_some hr
        refine ⟨?_, by simp [settledFrames, hu, hframe], by simp [awaited, hu, hkinds]⟩
        rw [hsegment]
  · rw [hu] at h
    obtain ⟨⟨u, found⟩, hr, h⟩ := Option.map_eq_some_iff.1 h
    cases h
    obtain ⟨hsegment, hkinds⟩ := OpenSegment.resolve?_eq_some hr
    refine ⟨?_, by simp [settledFrames, hu], by simp [awaited, hu, hkinds]⟩
    rw [hsegment]

/-! ### Segments that decide alike -/

/-- A change of a segment that does not meddle with what a decision changes. -/
structure OpenSegment.Transparent (change : OpenSegment → OpenSegment) : Prop where
  path_eq : ∀ s, (change s).path = s.path
  definition_eq : ∀ s, (change s).definition = s.definition
  undecided_eq : ∀ s, (change s).undecided = s.undecided
  define : ∀ s path definition,
    change { s with path, definition } = { change s with path, definition }
  decided : ∀ s, change { s with undecided := none } = { change s with undecided := none }

section Change

variable {change : OpenSegment → OpenSegment} {shift : Violation → Violation} {complete' : Bool}

theorem OpenSegment.resolve?_change (h : Transparent change)
    (hselect : ∀ d, s.definition = some d →
      Implementation.select d.implementations (change s).values complete' =
        Implementation.select d.implementations s.values complete)
    (hreport : ∀ d, s.definition = some d →
      (change s).unresolved d.implementations s.path =
        shift (s.unresolved d.implementations s.path)) :
    (change s).resolve? complete' =
      (s.resolve? complete).map fun r => (change r.1, r.2.map shift) := by
  unfold OpenSegment.resolve?
  rw [h.definition_eq, h.path_eq]
  cases hd : s.definition with
  | none => rfl
  | some d =>
      dsimp only
      rw [hselect d hd, hreport d hd]
      cases Implementation.select d.implementations s.values complete with
      | unresolved => rfl
      | noMatch => rfl
      | resolved index =>
          dsimp only
          cases d.implementations[index]? with
          | none => rfl
          | some i => exact congrArg (fun t => some (t, [])) (h.define s _ _).symm

theorem Frame.resolve?_change {f : Frame} (h : OpenSegment.Transparent change)
    (hselect : Implementation.select f.loop.implementations (change s).values complete' =
      Implementation.select f.loop.implementations s.values complete)
    (hreport : (change s).unresolved f.loop.implementations f.path =
      shift (s.unresolved f.loop.implementations f.path)) :
    f.resolve? (change s) complete' =
      (f.resolve? s complete).map fun r => (r.1, change r.2.1, r.2.2.map shift) := by
  unfold Frame.resolve?
  rw [hselect, hreport]
  cases Implementation.select f.loop.implementations s.values complete with
  | unresolved => rfl
  | noMatch => rfl
  | resolved index =>
      dsimp only
      cases f.loop.implementations[index]? with
      | none => rfl
      | some i =>
          dsimp only
          cases Loop.leadingSegmentOf? i.body with
          | none => rfl
          | some leading => exact congrArg (fun t => some (_, t, [])) (h.define s _ _).symm

/-- A changed segment decides as it did before when its values select the same and its report on a
selection that fails is changed alike. -/
theorem decide?_change (h : OpenSegment.Transparent change)
    (hselect : ∀ {β : Type} {is : List (Implementation β)}, Awaits frames s is →
      Implementation.select is (change s).values complete' =
        Implementation.select is s.values complete)
    (hreport : ∀ {β : Type} {is : List (Implementation β)}, Awaits frames s is → ∀ owner,
      (change s).unresolved is owner = shift (s.unresolved is owner)) :
    decide? frames (change s) complete' =
      (decide? frames s complete).map fun r => (r.1, change r.2.1, r.2.2.map shift) := by
  unfold decide?
  rw [h.undecided_eq]
  rcases hu : s.undecided with _ | _ | _
  · rfl
  · cases frames with
    | nil =>
        dsimp only
        rw [Option.map_some, h.decided]
        rfl
    | cons f outer =>
        dsimp only
        rw [Frame.resolve?_change h (hselect (.loop hu rfl)) (hreport (.loop hu rfl) f.path)]
        simp only [Option.map_map]
        refine congrArg (Option.map · (f.resolve? s complete)) (funext fun r => ?_)
        simp only [Function.comp_apply, h.decided]
  · dsimp only
    rw [OpenSegment.resolve?_change h (fun d hd => hselect (.segment hu hd))
      fun d hd => hreport (.segment hu hd) s.path]
    simp only [Option.map_map]
    refine congrArg (Option.map · (s.resolve? complete)) (funext fun r => ?_)
    simp only [Function.comp_apply, h.decided]

end Change

theorem OpenSegment.transparent_pushAll (values : List ElementValue) :
    OpenSegment.Transparent (·.pushAll values) :=
  ⟨fun _ => rfl, fun _ => rfl, fun _ => rfl, fun _ _ _ => rfl, fun _ => rfl⟩

/-! ### Deciding while values arrive -/

/-- The decision that is made when the values of a segment arrive one by one: as soon as it can
be, at the latest when the segment is complete. The values that come later are kept. -/
def decideAll (frames : List Frame) (s : OpenSegment) :
    List ElementValue → List Frame × OpenSegment × List Violation
  | [] => (decide? frames s true).getD (frames, s, [])
  | x :: rest =>
      match decide? frames (s.push x) false with
      | none => decideAll frames (s.push x) rest
      | some (frames, t, report) => (frames, t.pushAll rest, report)

/-- Once the segment is complete the decision is made. -/
theorem decide?_complete (frames : List Frame) (s : OpenSegment) :
    ∃ frames' t report, decide? frames s true = some (frames', t, report) := by
  cases h : decide? frames s true with
  | some d => exact ⟨d.1, d.2.1, d.2.2, rfl⟩
  | none =>
      rw [decide?_eq_none] at h
      unfold awaited at h
      split at h
      · cases h
      · obtain ⟨d, -, hd⟩ := Option.map_eq_some_iff.1 h
        exact absurd hd Implementation.select_complete
      · obtain ⟨f, -, hf⟩ := Option.map_eq_some_iff.1 h
        exact absurd hf Implementation.select_complete

/-- A decision that settles while values arrive is made at one point: when some of them have
come, or when all have and the segment is complete. -/
theorem decideAll_at (h : decideAll frames s values = (frames', t, report)) :
    ∃ first rest complete u, values = first ++ rest ∧
      decide? frames (s.pushAll first) complete = some (frames', u, report) ∧
      t = u.pushAll rest ∧
      ∀ {β : Type} {is : List (Implementation β)}, Awaits frames s is →
        Implementation.settleFrom is s.values values =
          Implementation.select is (s.pushAll first).values complete := by
  induction values generalizing s with
  | nil =>
      obtain ⟨frames₁, t₁, report₁, hd⟩ := decide?_complete frames s
      rw [decideAll, hd, Option.getD_some] at h
      cases h
      exact ⟨[], [], true, t, rfl, hd, rfl, fun _ => rfl⟩
  | cons x rest ih =>
      rw [decideAll] at h
      cases hd : decide? frames (s.push x) false with
      | none =>
          rw [hd] at h
          obtain ⟨first, others, complete, u, rfl, hdecide, rfl, hsettle⟩ := ih h
          rw [OpenSegment.pushAll_push] at hdecide hsettle
          refine ⟨x :: first, others, complete, u, rfl, hdecide, rfl, fun {β is} ha => ?_⟩
          have ha : Awaits frames (s.push x) is := ha.congr rfl rfl
          have hopen := decide?_eq_none.1 hd
          rw [ha.awaited_eq, Option.some.injEq, OpenSegment.values_push] at hopen
          rw [← hsettle ha, Implementation.settleFrom, hopen, OpenSegment.values_push]
      | some d =>
          obtain ⟨frames₁, t₁, report₁⟩ := d
          rw [hd] at h
          cases h
          refine ⟨[x], rest, false, t₁, rfl, hd, rfl, fun {β is} ha => ?_⟩
          have ha : Awaits frames (s.push x) is := ha.congr rfl rfl
          have hdecided : Implementation.select is (s.push x).values false ≠ .unresolved := by
            intro hopen
            rw [decide?_eq_none.2 (by rw [ha.awaited_eq, hopen])] at hd
            cases hd
          rw [← OpenSegment.pushAll_push, OpenSegment.pushAll_nil]
          rw [OpenSegment.values_push] at hdecided ⊢
          rw [Implementation.settleFrom]
          split
          · rename_i hopen
            exact absurd hopen hdecided
          · rfl

/-- The decision is that of the selection that settles while the values arrive. -/
theorem decideAll_decides (h : decideAll frames s values = (frames', t, report)) :
    Decides frames (s.pushAll values) (Implementation.settleFrom · s.values values) frames' t
      report := by
  obtain ⟨first, rest, complete, u, rfl, hdecide, rfl, hsettle⟩ := decideAll_at h
  -- What comes after the decision is kept and does not change it.
  have hdecides := (decides_of_decide? hdecide).pushAll rest
  rw [OpenSegment.pushAll_append] at hdecides
  refine hdecides.congr fun {β is} ha => ?_
  have ha : Awaits frames s is := ha.congr rfl rfl
  exact (hsettle ha).symm

/-! ### Deciding early

A decision that is made before all values have come is the one that all of them make, when they
come in the order of the stream and the implementations look at one position. -/

section Early

variable {β : Type} {is : List (Implementation β)}

/-- The report of an early decision shows the value that all of them show. -/
theorem OpenSegment.unresolved_pushAll (hp : Implementation.SamePosition is)
    (ho : InStreamOrder (s.values ++ rest))
    (hdecided : Implementation.select is s.values false ≠ .unresolved) (owner : String) :
    (s.pushAll rest).unresolved is owner = s.unresolved is owner := by
  unfold OpenSegment.unresolved
  cases is with
  | nil => rfl
  | cons a others =>
      obtain ⟨value, hv⟩ := Implementation.valueIn?_of_decided hp hdecided List.mem_cons_self
      have hread : a.discriminator.valueIn? s.values true = some value := by
        rw [← List.append_nil s.values]
        refine Discriminator.valueIn?_append hv ?_
        rw [List.append_nil]
        exact (List.pairwise_append.1 ho).1
      have hall := Discriminator.valueIn?_append hv ho
      rw [← OpenSegment.values_pushAll] at hall
      simp only [List.head?_cons, Option.map_some, Option.bind_some, hread, hall]
      rfl

theorem OpenSegment.select_pushAll (hp : Implementation.SamePosition is)
    (ho : InStreamOrder (s.values ++ rest))
    (hdecided : Implementation.select is s.values false ≠ .unresolved) :
    Implementation.select is (s.pushAll rest).values true =
      Implementation.select is s.values false := by
  rw [OpenSegment.values_pushAll]
  exact Implementation.select_append hp ho hdecided

end Early

/-- An early decision is the one that all values make. -/
theorem decide?_pushAll
    (hp : ∀ {β : Type} {is : List (Implementation β)}, Awaits frames s is →
      Implementation.SamePosition is)
    (ho : InStreamOrder (s.values ++ rest))
    (h : decide? frames s false = some (frames', t, report)) :
    decide? frames (s.pushAll rest) true = some (frames', t.pushAll rest, report) := by
  have hdecided {β : Type} {is : List (Implementation β)} (ha : Awaits frames s is) :
      Implementation.select is s.values false ≠ .unresolved := by
    intro hopen
    rw [decide?_eq_none.2 (by rw [ha.awaited_eq, hopen])] at h
    cases h
  have hall : decide? frames (s.pushAll rest) true =
      (decide? frames s false).map fun r => (r.1, r.2.1.pushAll rest, r.2.2.map id) :=
    decide?_change (OpenSegment.transparent_pushAll rest)
      (fun ha => OpenSegment.select_pushAll (hp ha) ho (hdecided ha))
      fun ha => OpenSegment.unresolved_pushAll (hp ha) ho (hdecided ha)
  rw [hall, h, Option.map_some, List.map_id]

/-- Values in the order of the stream are decided on one by one as all at once. -/
theorem decideAll_eq_decide?
    (hp : ∀ {β : Type} {is : List (Implementation β)}, Awaits frames s is →
      Implementation.SamePosition is)
    (ho : InStreamOrder (s.values ++ values)) :
    decide? frames (s.pushAll values) true = some (decideAll frames s values) := by
  induction values generalizing s with
  | nil =>
      obtain ⟨frames', t, report, h⟩ := decide?_complete frames s
      rw [decideAll, OpenSegment.pushAll_nil, h]
      rfl
  | cons x rest ih =>
      have ho' : InStreamOrder ((s.push x).values ++ rest) := by simpa using ho
      have hp' {β : Type} {is : List (Implementation β)} (ha : Awaits frames (s.push x) is) :
          Implementation.SamePosition is := hp (ha.congr rfl rfl)
      rw [decideAll, ← OpenSegment.pushAll_push]
      cases hd : decide? frames (s.push x) false with
      | none => exact ih hp' ho'
      | some d => exact decide?_pushAll hp' ho' hd

/-! ### The run of a segment -/

variable {v : Validator}

/-- While a decision is open the values are kept. -/
theorem advance_of_none (h : decide? v.frames s complete = none) :
    v.advance s complete = (v.frames, s, []) := by
  simp [advance, h]

/-- When it is made the values that have been kept are checked. -/
theorem advance_of_some (h : decide? v.frames s complete = some (frames, t, report)) :
    v.advance s complete = (frames, (t.checkNew v.version v.config.validateCodeValues).1,
      report ++ (t.checkNew v.version v.config.validateCodeValues).2) := by
  simp [advance, h]

theorem decide?_of_decided (hu : s.undecided = none) :
    decide? frames s complete = some (frames, s, []) := by
  simp [decide?, hu]

theorem effects_segmentEnd (ho : v.IsOpen) (hs : v.segment = some s)
    (h : decide? v.frames s true = some (frames, t, report)) :
    Effects v [.segmentEnd] { v with frames, segment := none }
      (report ++ (t.checkNew v.version v.config.validateCodeValues).2 ++ t.missingElements) := by
  have hclose := Effects.cons (.close ho hs (advance_of_some h)) (.nil _)
  rw [List.append_nil, OpenSegment.missingElements_checkNew] at hclose
  exact hclose

/-- Values that come after the decision are checked as they come. -/
theorem effects_body_of_decided {body : List Event} (ho : v.IsOpen) (hs : v.segment = some s)
    (hu : s.undecided = none) (hbody : ∀ e ∈ body, e.isInside = true) :
    Effects v (body ++ [.segmentEnd]) { v with segment := none }
      (((s.pushAll (body.filterMap Event.value?)).checkNew v.version
          v.config.validateCodeValues).2 ++
        (s.pushAll (body.filterMap Event.value?)).missingElements) := by
  induction body generalizing v s with
  | nil => exact effects_segmentEnd ho hs (decide?_of_decided hu)
  | cons e rest ih =>
      have hrest := fun e' he' => hbody e' (List.mem_cons_of_mem _ he')
      cases he : e.value? with
      | none =>
          rw [List.filterMap_cons_none he]
          exact .cons_quiet (.mark ho hs (hbody e List.mem_cons_self) he) (ih ho hs hu hrest)
      | some x =>
          obtain rfl := Event.eq_element_of_value? he
          rw [List.filterMap_cons_some he, ← OpenSegment.pushAll_push,
            ← OpenSegment.checkNew_pushAll_snd, List.append_assoc]
          have hpush : (s.push x).undecided = none := hu
          have hmore := ih (v := { v with
              segment := some ((s.push x).checkNew v.version v.config.validateCodeValues).1 })
            ho rfl (by rw [OpenSegment.undecided_checkNew, hpush]) hrest
          rw [OpenSegment.missingElements_checkNew_pushAll] at hmore
          exact .cons (.value ho hs (advance_of_some (decide?_of_decided hpush))) hmore

/-- The run of a segment: the decision, one check of all values, and what is missing. -/
theorem effects_body {body : List Event} (ho : v.IsOpen) (hs : v.segment = some s)
    (hbody : ∀ e ∈ body, e.isInside = true)
    (hd : decideAll v.frames s (body.filterMap Event.value?) = (frames, t, report)) :
    Effects v (body ++ [.segmentEnd]) { v with frames, segment := none }
      (report ++ (t.checkNew v.version v.config.validateCodeValues).2 ++ t.missingElements) := by
  induction body generalizing v s with
  | nil =>
      obtain ⟨frames₁, t₁, report₁, hdecide⟩ := decide?_complete v.frames s
      rw [List.filterMap_nil, decideAll, hdecide, Option.getD_some] at hd
      cases hd
      exact effects_segmentEnd ho hs hdecide
  | cons e rest ih =>
      have hrest := fun e' he' => hbody e' (List.mem_cons_of_mem _ he')
      cases he : e.value? with
      | none =>
          rw [List.filterMap_cons_none he] at hd
          exact .cons_quiet (.mark ho hs (hbody e List.mem_cons_self) he) (ih ho hs hrest hd)
      | some x =>
          obtain rfl := Event.eq_element_of_value? he
          rw [List.filterMap_cons_some he, decideAll] at hd
          cases hdecide : decide? v.frames (s.push x) false with
          | none =>
              rw [hdecide] at hd
              have hmore := ih (v := { v with segment := some (s.push x) }) ho rfl hrest hd
              exact .cons_quiet (.value ho hs (advance_of_none hdecide)) hmore
          | some d =>
              -- From here on nothing is undecided, and each value is checked as it comes.
              obtain ⟨frames₁, t₁, report₁⟩ := d
              rw [hdecide] at hd
              cases hd
              have hu : t₁.undecided = none := by
                rw [(decides_of_decide? hdecide).segment_eq]
              have hmore := effects_body_of_decided (v := { v with
                  frames
                  segment := some (t₁.checkNew v.version v.config.validateCodeValues).1 }) ho rfl
                (by rw [OpenSegment.undecided_checkNew, hu]) hrest
              rw [OpenSegment.missingElements_checkNew_pushAll] at hmore
              rw [← OpenSegment.checkNew_pushAll_snd, ← List.append_assoc, List.append_assoc]
              exact .cons (.value ho hs (advance_of_some hdecide)) hmore

end Interchange.Validator
