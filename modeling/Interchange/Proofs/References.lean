import Mathlib.Data.List.Nodup
import Mathlib.Logic.Relation
import Interchange.Schema.Resolver

/-!
# References between definitions

The definitions of a description refer to each other by id (`Refers`). Those that are reached from
the root loop are the ones that a description uses (`Uses`), and resolving depends on nothing else:
neither on the order in which definitions are listed nor on those that are not used
(`Alike.resolve_eq`, `alike_of_perm`).

A definition is put together in the same way whatever monad its parts come from, so a relation
between computations of two monads carries over from the parts to the whole (`Correspondence`). With
equality as that relation, this is the step by which `Alike.resolveLoop_eq` goes down the tree.
-/

namespace Interchange.Schema

/-! ### Complaints about circles -/

/-- Whether the complaint is that a definition contains itself. -/
def Fault.isCircular : Fault → Bool
  | circularReference _ => true
  | _ => false

/-- Whether the complaint is that a definition contains itself. -/
def Error.isCircular : Error → Bool
  | invalid fault => fault.isCircular
  | _ => false

/-- An answer that is not a complaint of a given sort. -/
def Avoids {ε α : Type} (sort : ε → Bool) (x : Except ε α) : Prop :=
  ∀ err, x = .error err → sort err = false

namespace Avoids

variable {ε α β : Type} {sort : ε → Bool} {x : Except ε α} {f : α → Except ε β}

theorem ok (a : α) : Avoids sort (.ok a) := nofun

theorem error {err : ε} (h : sort err = false) : Avoids (α := α) sort (.error err) := by
  intro err' herr
  cases herr
  exact h

theorem bind (hx : Avoids sort x) (hf : ∀ a, Avoids sort (f a)) : Avoids sort (x >>= f) := by
  cases x with
  | ok a => exact hf a
  | error err => exact error (hx err rfl)

theorem mapM (hf : ∀ a, Avoids sort (f a)) (xs : List α) : Avoids sort (xs.mapM f) := by
  induction xs with
  | nil => exact ok []
  | cons a rest ih =>
      rw [List.mapM_cons]
      exact (hf a).bind fun b => ih.bind fun bs => ok (b :: bs)

theorem mapError {x : Except Fault α} (hx : Avoids Fault.isCircular x) :
    Avoids Error.isCircular (x.mapError Error.invalid) := by
  cases x with
  | ok a => exact ok a
  | error fault => exact error (hx fault rfl)

end Avoids

namespace Description

theorem Element.resolve_avoids (e : Element) : Avoids Fault.isCircular e.resolve := by
  have hoverride (o : Override) : Avoids Fault.isCircular o.resolve := by
    unfold Override.resolve
    cases VersionRange.between o.minVersion o.maxVersion with
    | error fault => exact .error rfl
    | ok range => exact .ok _
  refine (Avoids.mapM hoverride e.overrides).bind fun overrides => ?_
  unfold SimpleType.checked
  cases hfault : SimpleType.lengthFault? _ with
  | none => exact .ok _
  | some fault =>
      refine .error ?_
      unfold SimpleType.lengthFault? at hfault
      split at hfault
      · cases hfault
        rfl
      · obtain ⟨o, -, ho⟩ := List.exists_of_findSome?_eq_some hfault
        dsimp only at ho
        split at ho <;> cases ho
        rfl

theorem Discriminator.resolve_avoids (d : Discriminator) : Avoids Fault.isCircular d.resolve := by
  unfold Discriminator.resolve
  cases Position.checked d.element d.component with
  | ok position => exact .ok _
  | error fault => exact .error rfl

theorem Child.bounds_avoids (c : Child) : Avoids Error.isCircular c.bounds := by
  have hmax : Avoids Error.isCircular (maximum c.maxOccurs) := by
    unfold maximum
    split
    · exact .ok _
    · exact .ok _
    · split
      · exact .ok _
      · exact .error rfl
  refine hmax.bind fun max => ?_
  cases max with
  | unbounded => exact .ok _
  | bounded max =>
      dsimp only
      split
      · exact .error rfl
      · exact .ok _

theorem named_avoids {δ : Type} (kind : DefinitionKind) (id : String) (found : Option δ) :
    Avoids Error.isCircular (named kind id found) := by
  cases found with
  | none => exact .error rfl
  | some definition => exact .ok definition

theorem typeOf_avoids (d : Description) (id : String) : Avoids Error.isCircular (d.typeOf id) :=
  (named_avoids .element id _).bind fun element => element.resolve_avoids.mapError

end Description

/-! ### Putting definitions together -/

namespace Description

/-- The ids that a loop names, for its own list of children and for those of its
implementations. -/
def Loop.targets (l : Loop) : List String :=
  (l.children ++ l.implementations.flatMap (·.children)).map (·.target)

end Description

/-- A relation between computations of two monads that is kept by everything out of which
definitions are put together. -/
structure Correspondence (m m' : Type → Type) [Monad m] [Monad m'] [MonadLiftT (Except Error) m]
    [MonadLiftT (Except Error) m'] where
  rel : {α : Type} → m α → m' α → Prop
  pure {α : Type} (a : α) : rel (pure a) (pure a)
  lift {α : Type} {x : Except Error α} (hx : Avoids Error.isCircular x) : rel (liftM x) (liftM x)
  bind {α β : Type} {x : m α} {y : m' α} {f : α → m β} {g : α → m' β} (hx : rel x y)
    (hf : ∀ a, rel (f a) (g a)) : rel (x >>= f) (y >>= g)

namespace Correspondence

variable {m m' : Type → Type} [Monad m] [Monad m'] [LawfulMonad m] [LawfulMonad m']
  [MonadLiftT (Except Error) m] [MonadLiftT (Except Error) m'] (R : Correspondence m m')

theorem map {α β : Type} (f : α → β) {x : m α} {y : m' α} (h : R.rel x y) :
    R.rel (f <$> x) (f <$> y) := by
  rw [map_eq_pure_bind, map_eq_pure_bind]
  exact R.bind h fun a => R.pure (f a)

theorem mapM {α β : Type} {f : α → m β} {g : α → m' β} {xs : List α}
    (h : ∀ x ∈ xs, R.rel (f x) (g x)) : R.rel (xs.mapM f) (xs.mapM g) := by
  induction xs with
  | nil => exact R.pure []
  | cons x rest ih =>
      rw [List.mapM_cons, List.mapM_cons]
      obtain ⟨hx, hrest⟩ := List.forall_mem_cons.1 h
      exact R.bind hx fun y => R.bind (ih hrest) fun ys => R.pure (y :: ys)

theorem assembleComposite {typeOf : String → m SimpleType} {typeOf' : String → m' SimpleType}
    (c : Description.Composite)
    (h : ∀ u ∈ c.components, R.rel (typeOf u.target) (typeOf' u.target)) :
    R.rel (c.assemble typeOf) (c.assemble typeOf') :=
  R.bind (R.mapM fun u hu => R.bind (h u hu) fun _ => R.pure _) fun _ => R.pure _

theorem assembleSegment {contentOf : String → m Content} {contentOf' : String → m' Content}
    {segmentOf : String → m Segment} {segmentOf' : String → m' Segment}
    (s : Description.Segment)
    (hcontent : ∀ e ∈ s.elements, R.rel (contentOf e.target) (contentOf' e.target))
    (hsegment : ∀ i ∈ s.implementations, R.rel (segmentOf i.segment) (segmentOf' i.segment)) :
    R.rel (s.assemble contentOf segmentOf) (s.assemble contentOf' segmentOf') := by
  refine R.bind (R.mapM fun e he => R.bind (hcontent e he) fun _ => R.pure _) fun elements => ?_
  refine R.bind (R.mapM fun i hi => R.bind (hsegment i hi) fun body => ?_) fun _ => R.pure _
  exact R.bind (R.lift i.discriminator.resolve_avoids.mapError) fun _ => R.pure _

theorem assembleLoop {targetOf : String → m (Target Loop)} {targetOf' : String → m' (Target Loop)}
    (l : Description.Loop) (h : ∀ id ∈ l.targets, R.rel (targetOf id) (targetOf' id)) :
    R.rel (l.assemble targetOf) (l.assemble targetOf') := by
  have hchild (c : Description.Child)
      (hc : c ∈ l.children ++ l.implementations.flatMap (·.children)) :
      R.rel (c.assemble targetOf) (c.assemble targetOf') :=
    R.bind (h c.target (List.mem_map_of_mem hc)) fun target =>
      R.bind (R.lift c.bounds_avoids) fun _ => R.pure _
  refine R.bind (R.mapM fun c hc => hchild c (List.mem_append_left _ hc)) fun children => ?_
  refine R.bind (R.mapM fun i hi => R.bind (R.mapM fun c hc => hchild c ?_) fun body => ?_)
    fun _ => R.pure _
  · exact List.mem_append_right _ (List.mem_flatMap.2 ⟨i, hi, hc⟩)
  · exact R.bind (R.lift i.discriminator.resolve_avoids.mapError) fun _ => R.pure _

theorem contentOf {typeOf : String → m SimpleType} {typeOf' : String → m' SimpleType}
    {compositeOf : String → m Composite} {compositeOf' : String → m' Composite}
    (d : Description) {id : String} (htype : R.rel (typeOf id) (typeOf' id))
    (hcomposite : R.rel (compositeOf id) (compositeOf' id)) :
    R.rel (d.contentOf typeOf compositeOf id) (d.contentOf typeOf' compositeOf' id) := by
  unfold Description.contentOf
  cases d.composite? id with
  | none => exact R.map _ htype
  | some c => exact R.map _ hcomposite

theorem targetOf {segmentOf : String → m Segment} {segmentOf' : String → m' Segment}
    {loopOf : String → m Loop} {loopOf' : String → m' Loop} (d : Description) {id : String}
    (hsegment : d.loop? id = none → R.rel (segmentOf id) (segmentOf' id))
    (hloop : R.rel (loopOf id) (loopOf' id)) :
    R.rel (d.targetOf segmentOf loopOf id) (d.targetOf segmentOf' loopOf' id) := by
  unfold Description.targetOf
  cases h : d.loop? id with
  | none => exact R.map _ (hsegment h)
  | some l => exact R.map _ hloop

end Correspondence

namespace Description

variable {d d' : Description}

/-! ### Distinct ids -/

/-- Ids are unique for each kind of definition. Segments and loops share no id, and neither do
elements and composites. -/
structure Distinct (d : Description) : Prop where
  elements : (d.elements.map (·.id)).Nodup
  composites : (d.composites.map (·.id)).Nodup
  segments : (d.segments.map (·.id)).Nodup
  loops : (d.loops.map (·.id)).Nodup
  segment_ne_loop : ∀ s ∈ d.segments, ∀ l ∈ d.loops, s.id ≠ l.id
  element_ne_composite : ∀ e ∈ d.elements, ∀ c ∈ d.composites, e.id ≠ c.id

theorem repeated?_eq_none {seen ids : List String} :
    repeated? seen ids = none ↔ ids.Nodup ∧ ∀ id ∈ ids, id ∉ seen := by
  induction ids generalizing seen with
  | nil => simp [repeated?]
  | cons id rest ih =>
      rw [repeated?, List.nodup_cons, List.forall_mem_cons]
      by_cases hid : id ∈ seen
      · simp [hid]
      · rw [if_neg hid, ih]
        constructor
        · intro ⟨hrest, hnew⟩
          have hnotin : id ∉ rest := fun hmem => hnew id hmem List.mem_cons_self
          exact ⟨⟨hnotin, hrest⟩, hid, fun other hother hseen =>
            hnew other hother (List.mem_cons_of_mem _ hseen)⟩
        · intro ⟨⟨hnotin, hrest⟩, _, hnew⟩
          refine ⟨hrest, fun other hother hmem => ?_⟩
          rcases List.mem_cons.1 hmem with rfl | hseen
          · exact hnotin hother
          · exact hnew other hother hseen

theorem repeated?_nil {ids : List String} : repeated? [] ids = none ↔ ids.Nodup :=
  repeated?_eq_none.trans (and_iff_left fun _ _ => List.not_mem_nil)

theorem shared?_map_eq_none {δ δ' : Type} {idOf : δ → String} {idOf' : δ' → String} {xs : List δ}
    {ys : List δ'} :
    shared? (xs.map idOf) (ys.map idOf') = none ↔ ∀ x ∈ xs, ∀ y ∈ ys, idOf x ≠ idOf' y := by
  unfold shared?
  rw [List.find?_eq_none]
  constructor
  · intro h x hx y hy heq
    refine h (idOf x) (List.mem_map_of_mem hx) (List.contains_iff_mem.2 ?_)
    rw [heq]
    exact List.mem_map_of_mem hy
  · intro h id hid hshared
    obtain ⟨x, hx, rfl⟩ := List.mem_map.1 hid
    obtain ⟨y, hy, heq⟩ := List.mem_map.1 (List.contains_iff_mem.1 hshared)
    exact h x hx y hy heq.symm

/-- A description is refused for its ids unless they are distinct. -/
theorem idFault?_eq_none : d.idFault? = none ↔ d.Distinct := by
  unfold idFault?
  simp only [Option.orElse_eq_orElse, Option.orElse_eq_or, Option.or_eq_none_iff,
    Option.map_eq_none_iff, repeated?_nil, shared?_map_eq_none]
  exact ⟨fun ⟨he, hc, hs, hl, hsl, hec⟩ => ⟨he, hc, hs, hl, hsl, hec⟩,
    fun ⟨he, hc, hs, hl, hsl, hec⟩ => ⟨he, hc, hs, hl, hsl, hec⟩⟩

theorem find?_eq_some_iff_of_nodup {δ : Type} {idOf : δ → String} {xs : List δ} {id : String}
    {x : δ} (h : (xs.map idOf).Nodup) :
    xs.find? (idOf · == id) = some x ↔ x ∈ xs ∧ idOf x = id := by
  refine ⟨fun hx => ⟨List.mem_of_find?_eq_some hx, by simpa using List.find?_some hx⟩, ?_⟩
  rintro ⟨hx, rfl⟩
  cases hfind : xs.find? (idOf · == idOf x) with
  | none => exact absurd (List.find?_eq_none.1 hfind x hx) (by simp)
  | some y =>
      have hy : idOf y = idOf x := by simpa using List.find?_some hfind
      rw [List.inj_on_of_nodup_map h (List.mem_of_find?_eq_some hfind) hx hy]

theorem id_of_find? {δ : Type} {idOf : δ → String} {xs : List δ} {id : String} {x : δ}
    (h : xs.find? (idOf · == id) = some x) : idOf x = id := by
  simpa using List.find?_some h

theorem Distinct.segment?_of_has (hd : d.Distinct) {s : Segment} (h : s ∈ d.segments) :
    d.segment? s.id = some s :=
  (find?_eq_some_iff_of_nodup hd.segments).2 ⟨h, rfl⟩

theorem Distinct.loop?_of_has (hd : d.Distinct) {l : Loop} (h : l ∈ d.loops) :
    d.loop? l.id = some l :=
  (find?_eq_some_iff_of_nodup hd.loops).2 ⟨h, rfl⟩

/-- No segment shares its id with a loop. -/
theorem Distinct.loop?_eq_none (hd : d.Distinct) {id : String} {s : Segment}
    (hs : d.segment? id = some s) : d.loop? id = none :=
  List.find?_eq_none.2 fun l hl heq => hd.segment_ne_loop s (List.mem_of_find?_eq_some hs) l hl
    ((id_of_find? hs).trans (eq_of_beq heq).symm)

/-! ### References -/

/-- A definition of any kind. -/
inductive Definition where
  | element (e : Element)
  | composite (c : Composite)
  | segment (s : Segment)
  | loop (l : Loop)

/-- The id of a definition. -/
def Definition.id : Definition → String
  | element e => e.id
  | composite c => c.id
  | segment s => s.id
  | loop l => l.id

/-- The references between loops and segments: a definition names another one that is put together
inside it. -/
inductive Contains (d : Description) : Definition → Definition → Prop
  | loop {l inner : Loop} {id : String} (hid : id ∈ l.targets) (h : d.loop? id = some inner) :
      Contains d (.loop l) (.loop inner)
  | segment {l : Loop} {s : Segment} {id : String} (hid : id ∈ l.targets)
      (hl : d.loop? id = none) (h : d.segment? id = some s) : Contains d (.loop l) (.segment s)
  | implementation {s body : Segment} {i : SegmentImplementation} (hi : i ∈ s.implementations)
      (h : d.segment? i.segment = some body) : Contains d (.segment s) (.segment body)

/-- All references, those to elements and composites included. -/
inductive Refers (d : Description) : Definition → Definition → Prop
  | contains {x y : Definition} (h : d.Contains x y) : Refers d x y
  | composite {s : Segment} {e : ElementUse} {c : Composite} (he : e ∈ s.elements)
      (h : d.composite? e.target = some c) : Refers d (.segment s) (.composite c)
  | element {s : Segment} {e : ElementUse} {t : Element} (he : e ∈ s.elements)
      (hc : d.composite? e.target = none) (h : d.element? e.target = some t) :
      Refers d (.segment s) (.element t)
  | component {c : Composite} {u : ComponentUse} {t : Element} (hu : u ∈ c.components)
      (h : d.element? u.target = some t) : Refers d (.composite c) (.element t)

/-- The definition is reached from the root loop. -/
def Uses (d : Description) (x : Definition) : Prop :=
  ∃ root, d.loop? d.root = some root ∧ Relation.ReflTransGen d.Refers (.loop root) x

/-- The definition contains itself. -/
def OnCycle (d : Description) (x : Definition) : Prop := Relation.TransGen d.Contains x x

/-- A definition that is reached from the root loop contains itself. -/
def Cyclic (d : Description) : Prop := ∃ x, d.Uses x ∧ d.OnCycle x

/-- The definition is one of the description. -/
def Has (d : Description) : Definition → Prop
  | .element e => e ∈ d.elements
  | .composite c => c ∈ d.composites
  | .segment s => s ∈ d.segments
  | .loop l => l ∈ d.loops

theorem Refers.has {x y : Definition} (h : d.Refers x y) : d.Has y := by
  cases h with
  | contains h =>
      cases h with
      | loop _ h => exact List.mem_of_find?_eq_some h
      | segment _ _ h => exact List.mem_of_find?_eq_some h
      | implementation _ h => exact List.mem_of_find?_eq_some h
  | composite _ h => exact List.mem_of_find?_eq_some h
  | element _ _ h => exact List.mem_of_find?_eq_some h
  | component _ h => exact List.mem_of_find?_eq_some h

theorem has_of_contains {x y : Definition} (h : Relation.TransGen d.Contains x y) : d.Has y := by
  cases h with
  | single h => exact (Refers.contains h).has
  | tail _ h => exact (Refers.contains h).has

theorem Uses.has {x : Definition} (h : d.Uses x) : d.Has x := by
  obtain ⟨root, hroot, hreach⟩ := h
  cases hreach with
  | refl => exact List.mem_of_find?_eq_some hroot
  | tail _ h => exact h.has

theorem Uses.step {x y : Definition} (hx : d.Uses x) (h : d.Refers x y) : d.Uses y :=
  let ⟨root, hroot, hreach⟩ := hx
  ⟨root, hroot, hreach.tail h⟩

/-! ### Resolving one definition -/

section Resolving

variable {inProgress : List String} {id : String} {s : Segment} {l : Loop}

theorem resolveSegment_of_none (h : d.segment? id = none) :
    d.resolveSegment inProgress id =
      once .segments id (throw (.invalid (.unknownReference .segment id))) := by
  rw [resolveSegment]
  congr 1
  split
  · rfl
  · simp_all

theorem resolveSegment_of_mem (h : d.segment? id = some s) (hid : id ∈ inProgress) :
    d.resolveSegment inProgress id =
      once .segments id (throw (.invalid (.circularReference id))) := by
  rw [resolveSegment]
  congr 1
  split
  · simp_all
  · rw [dif_pos hid]

theorem resolveSegment_of_not_mem (h : d.segment? id = some s) (hid : id ∉ inProgress) :
    d.resolveSegment inProgress id =
      once .segments id (s.assemble (d.contentOf d.resolveType d.resolveComposite)
        (d.resolveSegment (id :: inProgress))) := by
  rw [resolveSegment]
  congr 1
  split
  · simp_all
  · rename_i s' h'
    obtain rfl := Option.some.inj (h.symm.trans h')
    rw [dif_neg hid]

theorem resolveLoop_of_none (h : d.loop? id = none) :
    d.resolveLoop inProgress id =
      once .loops id (throw (.invalid (.unknownReference .loop id))) := by
  rw [resolveLoop]
  congr 1
  split
  · rfl
  · simp_all

theorem resolveLoop_of_mem (h : d.loop? id = some l) (hid : id ∈ inProgress) :
    d.resolveLoop inProgress id =
      once .loops id (throw (.invalid (.circularReference id))) := by
  rw [resolveLoop]
  congr 1
  split
  · simp_all
  · rw [dif_pos hid]

theorem resolveLoop_of_not_mem (h : d.loop? id = some l) (hid : id ∉ inProgress) :
    d.resolveLoop inProgress id =
      once .loops id (l.assemble (d.targetOf (d.resolveSegment (id :: inProgress))
        (d.resolveLoop (id :: inProgress)))) := by
  rw [resolveLoop]
  congr 1
  split
  · simp_all
  · rename_i l' h'
    obtain rfl := Option.some.inj (h.symm.trans h')
    rw [dif_neg hid]

end Resolving

/-! ### What resolving depends on -/

/-- Equal computations. -/
def equality (m : Type → Type) [Monad m] [MonadLiftT (Except Error) m] : Correspondence m m where
  rel x y := x = y
  pure _ := rfl
  lift _ := rfl
  bind hx hf := by rw [hx, funext hf]

theorem find?_congr {δ : Type} {idOf : δ → String} {xs ys : List δ} {id : String}
    (hxs : (xs.map idOf).Nodup) (hys : (ys.map idOf).Nodup)
    (hx : ∀ x, xs.find? (idOf · == id) = some x → x ∈ ys)
    (hy : ∀ y, ys.find? (idOf · == id) = some y → y ∈ xs) :
    ys.find? (idOf · == id) = xs.find? (idOf · == id) := by
  refine Option.ext fun x => ⟨fun h => ?_, fun h => ?_⟩
  · exact (find?_eq_some_iff_of_nodup hxs).2 ⟨hy x h, ((find?_eq_some_iff_of_nodup hys).1 h).2⟩
  · exact (find?_eq_some_iff_of_nodup hys).2 ⟨hx x h, ((find?_eq_some_iff_of_nodup hxs).1 h).2⟩

/-- Two descriptions with distinct ids that use the same definitions. -/
structure Alike (d d' : Description) : Prop where
  distinct : d.Distinct
  distinct' : d'.Distinct
  root_eq : d'.root = d.root
  uses_iff (x : Definition) : d'.Uses x ↔ d.Uses x

namespace Alike

variable {id : String} {s : Segment} {c : Composite} {l : Loop}

theorem element?_eq (h : d.Alike d') (hu : ∀ e, d.element? id = some e → d.Uses (.element e))
    (hu' : ∀ e, d'.element? id = some e → d'.Uses (.element e)) :
    d'.element? id = d.element? id :=
  find?_congr h.distinct.elements h.distinct'.elements
    (fun e he => ((h.uses_iff _).2 (hu e he)).has) (fun e he => ((h.uses_iff _).1 (hu' e he)).has)

theorem composite?_eq (h : d.Alike d')
    (hu : ∀ c, d.composite? id = some c → d.Uses (.composite c))
    (hu' : ∀ c, d'.composite? id = some c → d'.Uses (.composite c)) :
    d'.composite? id = d.composite? id :=
  find?_congr h.distinct.composites h.distinct'.composites
    (fun c hc => ((h.uses_iff _).2 (hu c hc)).has) (fun c hc => ((h.uses_iff _).1 (hu' c hc)).has)

theorem segment?_eq (h : d.Alike d') (hu : ∀ s, d.segment? id = some s → d.Uses (.segment s))
    (hu' : ∀ s, d'.segment? id = some s → d'.Uses (.segment s)) :
    d'.segment? id = d.segment? id :=
  find?_congr h.distinct.segments h.distinct'.segments
    (fun s hs => ((h.uses_iff _).2 (hu s hs)).has) (fun s hs => ((h.uses_iff _).1 (hu' s hs)).has)

theorem loop?_eq (h : d.Alike d') (hu : ∀ l, d.loop? id = some l → d.Uses (.loop l))
    (hu' : ∀ l, d'.loop? id = some l → d'.Uses (.loop l)) : d'.loop? id = d.loop? id :=
  find?_congr h.distinct.loops h.distinct'.loops
    (fun l hl => ((h.uses_iff _).2 (hu l hl)).has) (fun l hl => ((h.uses_iff _).1 (hu' l hl)).has)

theorem resolveType_eq (he : d'.element? id = d.element? id) :
    d'.resolveType id = d.resolveType id := by
  unfold resolveType typeOf
  rw [he]

theorem resolveComposite_eq (h : d.Alike d') (hc : d'.composite? id = d.composite? id)
    (hu : ∀ c, d.composite? id = some c → d.Uses (.composite c)) :
    d'.resolveComposite id = d.resolveComposite id := by
  unfold resolveComposite
  rw [hc]
  cases hfound : d.composite? id with
  | none => rfl
  | some c =>
      have hused := hu c hfound
      refine congrArg (once .composites id) ?_
      change c.assemble d'.resolveType = c.assemble d.resolveType
      refine (equality Resolve).assembleComposite c fun u hmem => resolveType_eq ?_
      exact h.element?_eq (fun e he => hused.step (.component hmem he))
        fun e he => ((h.uses_iff _).2 hused).step (.component hmem he)

theorem contentOf_eq (h : d.Alike d') (hs : d.Uses (.segment s)) {e : ElementUse}
    (he : e ∈ s.elements) :
    d'.contentOf d'.resolveType d'.resolveComposite e.target =
      d.contentOf d.resolveType d.resolveComposite e.target := by
  have hs' := (h.uses_iff _).2 hs
  have hc : d'.composite? e.target = d.composite? e.target :=
    h.composite?_eq (fun c hc => hs.step (.composite he hc))
      fun c hc => hs'.step (.composite he hc)
  unfold contentOf
  cases hfound : d.composite? e.target with
  | some c =>
      rw [hc, hfound]
      dsimp only
      rw [h.resolveComposite_eq hc fun c hc => hs.step (.composite he hc)]
  | none =>
      rw [hc, hfound]
      dsimp only
      rw [resolveType_eq (h.element?_eq (fun t ht => hs.step (.element he hfound ht))
        fun t ht => hs'.step (.element he (hc.trans hfound) ht))]

/-- What is found for the id of a segment, if anything is, is used by both. -/
theorem resolveSegment_eq (h : d.Alike d') (inProgress : List String) (id : String)
    (hu : ∀ s, d.segment? id = some s → d.Uses (.segment s))
    (hu' : ∀ s, d'.segment? id = some s → d'.Uses (.segment s)) :
    d'.resolveSegment inProgress id = d.resolveSegment inProgress id := by
  induction inProgress, id using resolveSegment.induct d with
  | case1 inProgress id ih =>
      have hs := h.segment?_eq hu hu'
      cases hfound : d.segment? id with
      | none => rw [resolveSegment_of_none hfound, resolveSegment_of_none (hs.trans hfound)]
      | some s =>
          have hused := hu s hfound
          have hused' := (h.uses_iff _).2 hused
          by_cases hid : id ∈ inProgress
          · rw [resolveSegment_of_mem hfound hid, resolveSegment_of_mem (hs.trans hfound) hid]
          · rw [resolveSegment_of_not_mem hfound hid,
              resolveSegment_of_not_mem (hs.trans hfound) hid]
            refine congrArg (once .segments id) ?_
            refine (equality Resolve).assembleSegment s (fun e he => h.contentOf_eq hused he) ?_
            intro i hi
            exact ih s hfound hid i.segment
              (fun body hbody => hused.step (.contains (.implementation hi hbody)))
              fun body hbody => hused'.step (.contains (.implementation hi hbody))

/-- What is found for the id of a loop, if anything is, is used by both. -/
theorem resolveLoop_eq (h : d.Alike d') (inProgress : List String) (id : String)
    (hu : ∀ l, d.loop? id = some l → d.Uses (.loop l))
    (hu' : ∀ l, d'.loop? id = some l → d'.Uses (.loop l)) :
    d'.resolveLoop inProgress id = d.resolveLoop inProgress id := by
  induction inProgress, id using resolveLoop.induct d with
  | case1 inProgress id ih =>
      have hl := h.loop?_eq hu hu'
      cases hfound : d.loop? id with
      | none => rw [resolveLoop_of_none hfound, resolveLoop_of_none (hl.trans hfound)]
      | some l =>
          have hused := hu l hfound
          have hused' := (h.uses_iff _).2 hused
          by_cases hid : id ∈ inProgress
          · rw [resolveLoop_of_mem hfound hid, resolveLoop_of_mem (hl.trans hfound) hid]
          · rw [resolveLoop_of_not_mem hfound hid, resolveLoop_of_not_mem (hl.trans hfound) hid]
            refine congrArg (once .loops id) ?_
            refine (equality Resolve).assembleLoop l fun target htarget => ?_
            have hinner : d'.loop? target = d.loop? target :=
              h.loop?_eq (fun inner hinner => hused.step (.contains (.loop htarget hinner)))
                fun inner hinner => hused'.step (.contains (.loop htarget hinner))
            change d'.targetOf _ _ target = d.targetOf _ _ target
            unfold targetOf
            rw [hinner]
            cases hfound' : d.loop? target with
            | some inner =>
                dsimp only
                rw [ih l hfound hid target
                  (fun inner hinner => hused.step (.contains (.loop htarget hinner)))
                  fun inner hinner => hused'.step (.contains (.loop htarget hinner))]
            | none =>
                dsimp only
                rw [h.resolveSegment_eq (id :: inProgress) target
                  (fun s hs => hused.step (.contains (.segment htarget hfound' hs)))
                  fun s hs => hused'.step
                    (.contains (.segment htarget (hinner.trans hfound') hs))]

end Alike

/-- Resolving depends on the definitions that are used alone. -/
theorem Alike.resolve_eq (h : d.Alike d') : d'.resolve = d.resolve := by
  unfold resolve
  rw [idFault?_eq_none.2 h.distinct, idFault?_eq_none.2 h.distinct', h.root_eq]
  dsimp only
  rw [h.resolveLoop_eq [] d.root]
  · exact fun l hl => ⟨l, hl, .refl⟩
  · exact fun l hl => ⟨l, by rw [h.root_eq]; exact hl, .refl⟩

/-! ### The order of definitions -/

theorem Contains.congr {x y : Definition} (hs : d'.segment? = d.segment?)
    (hl : d'.loop? = d.loop?) (h : d.Contains x y) : d'.Contains x y := by
  cases h with
  | loop hid h => exact .loop hid (by rwa [hl])
  | segment hid hnone h => exact .segment hid (by rwa [hl]) (by rwa [hs])
  | implementation hi h => exact .implementation hi (by rwa [hs])

theorem Refers.congr {x y : Definition} (he : d'.element? = d.element?)
    (hc : d'.composite? = d.composite?) (hs : d'.segment? = d.segment?)
    (hl : d'.loop? = d.loop?) (h : d.Refers x y) : d'.Refers x y := by
  cases h with
  | contains h => exact .contains (h.congr hs hl)
  | composite hmem h => exact .composite hmem (by rwa [hc])
  | element hmem hnone h => exact .element hmem (by rwa [hc]) (by rwa [he])
  | component hmem h => exact .component hmem (by rwa [he])

theorem Uses.congr {x : Definition} (he : d'.element? = d.element?)
    (hc : d'.composite? = d.composite?) (hs : d'.segment? = d.segment?)
    (hl : d'.loop? = d.loop?) (hroot : d'.root = d.root) (h : d.Uses x) : d'.Uses x := by
  obtain ⟨root, hfound, hreach⟩ := h
  refine ⟨root, by rwa [hl, hroot], ?_⟩
  exact Relation.ReflTransGen.mono (fun _ _ h => h.congr he hc hs hl) _ _ hreach

/-- Descriptions that list the same definitions in different orders are alike. -/
theorem alike_of_perm (h : d.Distinct) (hroot : d'.root = d.root)
    (he : d'.elements.Perm d.elements) (hc : d'.composites.Perm d.composites)
    (hs : d'.segments.Perm d.segments) (hl : d'.loops.Perm d.loops) : d.Alike d' := by
  have h' : d'.Distinct :=
    { elements := (he.map (·.id)).nodup_iff.2 h.elements
      composites := (hc.map (·.id)).nodup_iff.2 h.composites
      segments := (hs.map (·.id)).nodup_iff.2 h.segments
      loops := (hl.map (·.id)).nodup_iff.2 h.loops
      segment_ne_loop := fun s hmem l hmem' =>
        h.segment_ne_loop s (hs.mem_iff.1 hmem) l (hl.mem_iff.1 hmem')
      element_ne_composite := fun e hmem c hmem' =>
        h.element_ne_composite e (he.mem_iff.1 hmem) c (hc.mem_iff.1 hmem') }
  have hfind {δ : Type} {idOf : δ → String} {xs ys : List δ} (hxs : (xs.map idOf).Nodup)
      (hys : (ys.map idOf).Nodup) (hperm : ys.Perm xs) (id : String) :
      ys.find? (idOf · == id) = xs.find? (idOf · == id) :=
    find?_congr hxs hys (fun x hx => hperm.mem_iff.2 (List.mem_of_find?_eq_some hx))
      fun y hy => hperm.mem_iff.1 (List.mem_of_find?_eq_some hy)
  have helement : d'.element? = d.element? := funext (hfind h.elements h'.elements he)
  have hcomposite : d'.composite? = d.composite? := funext (hfind h.composites h'.composites hc)
  have hsegment : d'.segment? = d.segment? := funext (hfind h.segments h'.segments hs)
  have hloop : d'.loop? = d.loop? := funext (hfind h.loops h'.loops hl)
  exact ⟨h, h', hroot, fun x =>
    ⟨Uses.congr helement.symm hcomposite.symm hsegment.symm hloop.symm hroot.symm,
      Uses.congr helement hcomposite hsegment hloop hroot⟩⟩

end Description

end Interchange.Schema
