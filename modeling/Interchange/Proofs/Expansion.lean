import Interchange.Proofs.References

/-!
# Plain expansion

Plain expansion looks an id up and puts its definition together again wherever the id stands. It
keeps nothing and does not look for circles, so it need not end: there is an answer if some depth is
enough for it (`Expands`).

Resolving gives the answers of plain expansion, and where expansion does not end it complains about
a definition that contains itself (`resolve_expansion`). Every computation of the resolver is held
against the one of plain expansion (`Follows`):

* what is kept is what expansion gives (`Finished.Sound`);
* the definitions in progress contain the one that is asked for (`SegmentPath`, `LoopPath`), so to
  meet one of them again is to have found a circle;
* an expansion that needs itself first ends at no depth (`Follows.enter`).

That there is no tree where definitions contain themselves is read off the tree, which would be
inside itself (`not_hasTree`).
-/

namespace Interchange.Schema.Description

/-! ### Expanding -/

/-- Expanding goes down to a limited depth. Where that is not enough there is no answer. -/
abbrev Expand := ExceptT Error Option

/-- The type with an id. -/
def expandType (d : Description) (id : String) : Expand SimpleType := liftM (d.typeOf id)

/-- The composite with an id, expanded. -/
def expandComposite (d : Description) (id : String) : Expand Interchange.Composite := do
  let composite ← liftM (named .composite id (d.composite? id))
  composite.assemble d.expandType

/-- The segment with an id, expanded. -/
def expandSegment (d : Description) : (depth : Nat) → (id : String) → Expand Interchange.Segment
  | 0, _ => ExceptT.mk none
  | depth + 1, id => do
      let segment ← liftM (named .segment id (d.segment? id))
      segment.assemble (d.contentOf d.expandType d.expandComposite) (d.expandSegment depth)

/-- The loop with an id, expanded. -/
def expandLoop (d : Description) : (depth : Nat) → (id : String) → Expand Interchange.Loop
  | 0, _ => ExceptT.mk none
  | depth + 1, id => do
      let loop ← liftM (named .loop id (d.loop? id))
      loop.assemble (d.targetOf (d.expandSegment depth) (d.expandLoop depth))

/-- Expanding the root loop ends with an answer. -/
def Expands (d : Description) (answer : Except Error Interchange.Loop) : Prop :=
  ∃ depth, (d.expandLoop depth d.root).run = some answer

variable {d : Description} {α β : Type}

/-! ### Depth -/

theorem run_bind (x : Expand α) (f : α → Expand β) :
    (x >>= f).run = match x.run with
      | none => none
      | some (.error err) => some (.error err)
      | some (.ok a) => (f a).run := by
  cases x with
  | none => rfl
  | some r => cases r <;> rfl

theorem run_map_eq_none {x : Expand α} {f : α → β} : (f <$> x).run = none ↔ x.run = none := by
  rw [map_eq_pure_bind, run_bind]
  split <;> simp_all

/-- The computations of the right answer wherever those on the left do. -/
def deeper : Correspondence Expand Expand where
  rel x y := ∀ r, x.run = some r → y.run = some r
  pure _ _ h := h
  lift _ _ h := h
  bind {α β x y f g} hx hf r h := by
    rw [run_bind] at h ⊢
    cases hrun : x.run with
    | none => rw [hrun] at h; cases h
    | some answer =>
        rw [hrun] at h
        rw [hx answer hrun]
        cases answer with
        | error err => exact h
        | ok a => exact hf a r h

theorem expandSegment_succ (d : Description) (depth : Nat) (id : String) :
    deeper.rel (d.expandSegment depth id) (d.expandSegment (depth + 1) id) := by
  induction depth generalizing id with
  | zero => exact nofun
  | succ depth ih =>
      refine deeper.bind (deeper.lift (named_avoids _ _ _)) fun segment => ?_
      exact deeper.assembleSegment segment (fun _ _ _ h => h) fun i _ => ih i.segment

theorem expandLoop_succ (d : Description) (depth : Nat) (id : String) :
    deeper.rel (d.expandLoop depth id) (d.expandLoop (depth + 1) id) := by
  induction depth generalizing id with
  | zero => exact nofun
  | succ depth ih =>
      refine deeper.bind (deeper.lift (named_avoids _ _ _)) fun loop => ?_
      exact deeper.assembleLoop loop fun id _ =>
        deeper.targetOf d (fun _ => d.expandSegment_succ depth id) (ih id)

/-- An answer stays the same when the depth grows. -/
def Grows (q : ReaderT Nat Expand α) : Prop := ∀ n, deeper.rel (q.run n) (q.run (n + 1))

theorem Grows.mono {q : ReaderT Nat Expand α} (h : Grows q) {n m : Nat} (hle : n ≤ m) :
    deeper.rel (q.run n) (q.run m) := by
  induction hle with
  | refl => exact fun _ h => h
  | step _ ih => exact fun r hr => h _ r (ih r hr)

theorem Grows.unique {q : ReaderT Nat Expand α} (h : Grows q) {n m : Nat} {r r' : Except Error α}
    (hr : (q.run n).run = some r) (hr' : (q.run m).run = some r') : r = r' := by
  rcases Nat.le_total n m with hle | hle
  · exact Option.some.inj ((h.mono hle r hr).symm.trans hr')
  · exact Option.some.inj (hr.symm.trans (h.mono hle r' hr'))

theorem grows_expandSegment (d : Description) (id : String) :
    Grows (fun depth => d.expandSegment depth id) :=
  fun depth => d.expandSegment_succ depth id

theorem grows_expandLoop (d : Description) (id : String) :
    Grows (fun depth => d.expandLoop depth id) :=
  fun depth => d.expandLoop_succ depth id

/-- Computations at every depth, read at one of them. -/
def atDepth (depth : Nat) : Correspondence (ReaderT Nat Expand) Expand where
  rel x y := x.run depth = y
  pure _ := rfl
  lift _ := rfl
  bind {α β x y f g} hx hf := by
    rw [ReaderT.run_bind, hx, funext hf]

variable {id : String} {s : Segment} {l : Loop} {inProgress : List String}

/-- What a child of a loop names, expanded. -/
def expandTarget (d : Description) (depth : Nat) : String → Expand (Target Interchange.Loop) :=
  d.targetOf (d.expandSegment depth) (d.expandLoop depth)

theorem expandTarget_succ (d : Description) (depth : Nat) (id : String) :
    deeper.rel (d.expandTarget depth id) (d.expandTarget (depth + 1) id) :=
  deeper.targetOf d (fun _ => d.expandSegment_succ depth id) (d.expandLoop_succ depth id)

theorem expandTarget_of_segment (h : d.loop? id = none) (depth : Nat) :
    d.expandTarget depth id = Target.segment <$> d.expandSegment depth id := by
  unfold expandTarget targetOf
  rw [h]

theorem expandTarget_of_loop (h : d.loop? id = some l) (depth : Nat) :
    d.expandTarget depth id = Target.loop <$> d.expandLoop depth id := by
  unfold expandTarget targetOf
  rw [h]

theorem expandSegment_of_some (h : d.segment? id = some s) (depth : Nat) :
    d.expandSegment (depth + 1) id =
      s.assemble (d.contentOf d.expandType d.expandComposite) (d.expandSegment depth) := by
  rw [expandSegment, h]
  rfl

theorem expandLoop_of_some (h : d.loop? id = some l) (depth : Nat) :
    d.expandLoop (depth + 1) id = l.assemble (d.expandTarget depth) := by
  rw [expandLoop, h]
  rfl

/-! ### Resolving follows expanding -/

/-- What is finished is what expanding gives. -/
structure Finished.Sound (d : Description) (f : Finished) : Prop where
  types : ∀ id x, f.types.lookup id = some x → (d.expandType id).run = some (.ok x)
  composites : ∀ id x, f.composites.lookup id = some x → (d.expandComposite id).run = some (.ok x)
  segments : ∀ id x, f.segments.lookup id = some x →
    ∃ depth, (d.expandSegment depth id).run = some (.ok x)
  loops : ∀ id x, f.loops.lookup id = some x → ∃ depth, (d.expandLoop depth id).run = some (.ok x)

/-- The answer of the resolver, next to what plain expansion does at every depth. -/
inductive Answer (d : Description) (inProgress : List String) (q : ReaderT Nat Expand α) :
    Except Error (α × Finished) → Prop
  /-- Both give the same. -/
  | ok {a : α} {f : Finished} {n : Nat} (h : (q.run n).run = some (.ok a))
      (hf : f.Sound d) : Answer d inProgress q (.ok (a, f))
  /-- Both meet the same error first. -/
  | error {err : Error} {n : Nat} (h : (q.run n).run = some (.error err))
      (herr : err.isCircular = false) : Answer d inProgress q (.error err)
  /-- The resolver has met a definition that contains itself. Expanding does not end, or not
  before that definition is expanded, if it is one of those that are being put together. -/
  | circular {x : Definition} (hused : d.Uses x) (hcycle : d.OnCycle x)
      (hopen : (∀ depth, (q.run depth).run = none) ∨ x.id ∈ inProgress ∧
        ∀ depth, (d.expandTarget depth x.id).run = none → (q.run depth).run = none) :
      Answer d inProgress q (.error (.invalid (.circularReference x.id)))

/-- A computation of the resolver follows plain expansion. -/
structure Follows (d : Description) (inProgress : List String) (p : Resolve α)
    (q : ReaderT Nat Expand α) : Prop where
  grows : Grows q
  answer : ∀ f, f.Sound d → Answer d inProgress q (p.run f)

theorem Follows.bind {p : Resolve α} {q : ReaderT Nat Expand α} {f : α → Resolve β}
    {g : α → ReaderT Nat Expand β} (hp : Follows d inProgress p q)
    (hf : ∀ a, Follows d inProgress (f a) (g a)) : Follows d inProgress (p >>= f) (q >>= g) where
  grows n := deeper.bind (hp.grows n) fun a => (hf a).grows n
  answer finished hfinished := by
    have hbind (n : Nat) : ((q >>= g).run n).run = match (q.run n).run with
        | none => none
        | some (.error err) => some (.error err)
        | some (.ok a) => ((g a).run n).run := run_bind _ _
    have hfirst := hp.answer finished hfinished
    change Answer d inProgress (q >>= g) (p.run finished >>= fun r => (f r.1).run r.2)
    generalize p.run finished = first at hfirst ⊢
    cases hfirst with
    | error h herr => exact .error (by rw [hbind, h]) herr
    | circular hused hcycle hopen =>
        have hnone (n : Nat) (h : (q.run n).run = none) : ((q >>= g).run n).run = none := by
          rw [hbind, h]
        exact .circular hused hcycle (hopen.imp (fun h n => hnone n (h n))
          (And.imp_right fun h n hn => hnone n (h n hn)))
    | @ok a between n h hbetween =>
        have hrest := (hf a).answer between hbetween
        change Answer d inProgress (q >>= g) ((f a).run between)
        generalize (f a).run between = rest at hrest ⊢
        cases hrest with
        | @ok b last m h' hlast =>
            refine .ok (n := max n m) ?_ hlast
            rw [hbind, hp.grows.mono (Nat.le_max_left _ _) _ h]
            exact (hf a).grows.mono (Nat.le_max_right _ _) _ h'
        | @error err m h' herr =>
            refine .error (n := max n m) ?_ herr
            rw [hbind, hp.grows.mono (Nat.le_max_left _ _) _ h]
            exact (hf a).grows.mono (Nat.le_max_right _ _) _ h'
        | circular hused hcycle hopen =>
            -- Where the first part answers at all, it answers as the resolver has.
            have hnone (n : Nat) (hn : ((g a).run n).run = none) :
                ((q >>= g).run n).run = none := by
              rw [hbind]
              cases hrun : (q.run n).run with
              | none => rfl
              | some r =>
                  rw [hp.grows.unique hrun h]
                  exact hn
            exact .circular hused hcycle (hopen.imp (fun h n => hnone n (h n))
              (And.imp_right fun h n hn => hnone n (h n hn)))

/-- Computations of the resolver that follow plain expansion. -/
def following (d : Description) (inProgress : List String) :
    Correspondence Resolve (ReaderT Nat Expand) where
  rel := Follows d inProgress
  pure a := ⟨fun _ _ h => h, fun _ hf => .ok (n := 0) rfl hf⟩
  lift {α x} hx := by
    refine ⟨fun _ _ h => h, fun f hf => ?_⟩
    cases x with
    | ok a => exact .ok (n := 0) rfl hf
    | error err => exact .error (n := 0) rfl (hx err rfl)
  bind := Follows.bind

theorem once_run (shelf : Shelf α) (id : String) (build : Resolve α) (f : Finished) :
    (once shelf id build).run f = match (shelf.get f).lookup id with
      | some x => .ok (x, f)
      | none => build.run f >>= fun r => .ok (r.1, shelf.add id r.1 r.2) := by
  change (match (shelf.get f).lookup id with
    | some x => (pure x : Resolve α)
    | none => build >>= fun x => modify (shelf.add id x) >>= fun _ => pure x).run f = _
  cases (shelf.get f).lookup id <;> rfl

theorem Follows.once {shelf : Shelf α} {build : Resolve α} {q : ReaderT Nat Expand α}
    (h : Follows d inProgress build q)
    (hget : ∀ f x, f.Sound d → (shelf.get f).lookup id = some x →
      ∃ n, (q.run n).run = some (.ok x))
    (hadd : ∀ f x n, f.Sound d → (q.run n).run = some (.ok x) → (shelf.add id x f).Sound d) :
    Follows d inProgress (once shelf id build) q where
  grows := h.grows
  answer f hf := by
    rw [once_run]
    cases hlookup : (shelf.get f).lookup id with
    | some x =>
        obtain ⟨n, hn⟩ := hget f x hf hlookup
        exact .ok hn hf
    | none =>
        have hbuild := h.answer f hf
        dsimp only
        generalize build.run f = answer at hbuild ⊢
        cases hbuild with
        | @ok x last n hn hlast => exact .ok hn (hadd last x n hlast hn)
        | error hn herr => exact .error hn herr
        | circular hused hcycle hopen => exact .circular hused hcycle hopen

theorem lookup_cons {P : String → α → Prop} {entries : List (String × α)} {key : String} {y : α}
    (h : ∀ id x, entries.lookup id = some x → P id x) (hy : P key y) :
    ∀ id x, ((key, y) :: entries).lookup id = some x → P id x := by
  intro id x hlookup
  rw [List.lookup_cons] at hlookup
  split at hlookup
  · rename_i heq
    obtain rfl := eq_of_beq heq
    cases hlookup
    exact hy
  · exact h id x hlookup

theorem follows_type (d : Description) (inProgress : List String) (id : String) :
    Follows d inProgress (d.resolveType id) fun _ => d.expandType id := by
  refine ((following d inProgress).lift (d.typeOf_avoids id)).once ?_ ?_
  · exact fun f x hf h => ⟨0, hf.types id x h⟩
  · exact fun f x _ hf h => { hf with types := lookup_cons hf.types h }

theorem Follows.congr {p : Resolve α} {q r : ReaderT Nat Expand α}
    (h : Follows d inProgress p q) (hr : ∀ n, q.run n = r.run n) : Follows d inProgress p r := by
  rwa [← show q = r from funext hr]

theorem follows_composite (d : Description) (inProgress : List String) (id : String) :
    Follows d inProgress (d.resolveComposite id) fun _ => d.expandComposite id := by
  have hassemble (c : Composite) : Follows d inProgress (c.assemble d.resolveType)
      (c.assemble fun id => (fun _ => d.expandType id : ReaderT Nat Expand SimpleType)) :=
    (following d inProgress).assembleComposite c fun u _ => d.follows_type inProgress u.target
  have hnamed := (following d inProgress).lift (named_avoids .composite id (d.composite? id))
  have hbuild := (hnamed.bind hassemble).congr (r := fun _ => d.expandComposite id) fun n =>
    (atDepth n).bind rfl fun c => (atDepth n).assembleComposite c fun _ _ => rfl
  exact hbuild.once (fun f x hf h => ⟨0, hf.composites id x h⟩)
    fun f x _ hf h => { hf with composites := lookup_cons hf.composites h }

theorem follows_content (d : Description) (inProgress : List String) (id : String) :
    Follows d inProgress (d.contentOf d.resolveType d.resolveComposite id)
      fun _ => d.contentOf d.expandType d.expandComposite id := by
  have hcontent : Follows d inProgress (d.contentOf d.resolveType d.resolveComposite id)
      (d.contentOf (fun id => (fun _ => d.expandType id : ReaderT Nat Expand SimpleType))
        (fun id => (fun _ => d.expandComposite id : ReaderT Nat Expand Interchange.Composite))
        id) :=
    (following d inProgress).contentOf d (d.follows_type inProgress id)
      (d.follows_composite inProgress id)
  exact hcontent.congr fun n => (atDepth n).contentOf d rfl rfl

theorem follows_target {segmentOf : String → Resolve Interchange.Segment}
    {loopOf : String → Resolve Interchange.Loop}
    (hsegment : d.loop? id = none → Follows d inProgress (segmentOf id)
      fun n => d.expandSegment n id)
    (hloop : Follows d inProgress (loopOf id) fun n => d.expandLoop n id) :
    Follows d inProgress (d.targetOf segmentOf loopOf id) fun n => d.expandTarget n id := by
  have htarget : Follows d inProgress (d.targetOf segmentOf loopOf id)
      (d.targetOf
        (fun id => (fun n => d.expandSegment n id : ReaderT Nat Expand Interchange.Segment))
        (fun id => (fun n => d.expandLoop n id : ReaderT Nat Expand Interchange.Loop)) id) :=
    (following d inProgress).targetOf d hsegment hloop
  exact htarget.congr fun n => (atDepth n).targetOf d (fun _ => rfl) rfl

theorem follows_assembleSegment {segmentOf : String → Resolve Interchange.Segment} (s : Segment)
    (h : ∀ i ∈ s.implementations, Follows d inProgress (segmentOf i.segment)
      fun n => d.expandSegment n i.segment) :
    Follows d inProgress (s.assemble (d.contentOf d.resolveType d.resolveComposite) segmentOf)
      fun n => s.assemble (d.contentOf d.expandType d.expandComposite) (d.expandSegment n) := by
  have hassemble : Follows d inProgress
      (s.assemble (d.contentOf d.resolveType d.resolveComposite) segmentOf)
      (s.assemble (fun id => (fun _ => d.contentOf d.expandType d.expandComposite id :
          ReaderT Nat Expand Content))
        (fun id => (fun n => d.expandSegment n id : ReaderT Nat Expand Interchange.Segment))) :=
    (following d inProgress).assembleSegment s (fun e _ => d.follows_content inProgress e.target) h
  exact hassemble.congr fun n => (atDepth n).assembleSegment s (fun _ _ => rfl) fun _ _ => rfl

theorem follows_assembleLoop {targetOf : String → Resolve (Target Interchange.Loop)} (l : Loop)
    (h : ∀ id ∈ l.targets, Follows d inProgress (targetOf id) fun n => d.expandTarget n id) :
    Follows d inProgress (l.assemble targetOf) fun n => l.assemble (d.expandTarget n) := by
  have hassemble : Follows d inProgress (l.assemble targetOf)
      (l.assemble fun id =>
        (fun n => d.expandTarget n id : ReaderT Nat Expand (Target Interchange.Loop))) :=
    (following d inProgress).assembleLoop l h
  exact hassemble.congr fun n => (atDepth n).assembleLoop l fun _ _ => rfl

/-- A definition is put together while its id is in progress. -/
theorem Follows.enter {p : Resolve α} {q inner : ReaderT Nat Expand α}
    (h : Follows d (id :: inProgress) p inner) (hgrows : Grows q)
    (hzero : (q.run 0).run = none) (hsucc : ∀ n, q.run (n + 1) = inner.run n)
    (hself : ∀ n, (q.run n).run = none → (d.expandTarget n id).run = none) :
    Follows d inProgress p q where
  grows := hgrows
  answer f hf := by
    have hanswer := h.answer f hf
    generalize p.run f = answer at hanswer ⊢
    cases hanswer with
    | @ok a last n hn hlast => exact .ok (n := n + 1) (by rw [hsucc, hn]) hlast
    | @error err n hn herr => exact .error (n := n + 1) (by rw [hsucc, hn]) herr
    | @circular x hused hcycle hopen =>
        refine .circular hused hcycle ?_
        rcases hopen with hnever | ⟨hid, hinner⟩
        · refine .inl fun n => ?_
          cases n with
          | zero => exact hzero
          | succ n => rw [hsucc, hnever]
        · by_cases hx : x.id = id
          · -- To expand the definition one has to expand it first.
            refine .inl fun n => ?_
            induction n with
            | zero => exact hzero
            | succ n ih => rw [hsucc, hinner n (hx ▸ hself n ih)]
          · refine .inr ⟨List.mem_of_ne_of_mem hx hid, fun n hn => ?_⟩
            cases n with
            | zero => exact hzero
            | succ n =>
                rw [hsucc]
                refine hinner n ?_
                cases hrun : (d.expandTarget n x.id).run with
                | none => rfl
                | some r =>
                    rw [d.expandTarget_succ n x.id r hrun] at hn
                    cases hn

/-- The id of a segment is asked for while the definitions in `inProgress` are being put together.
The segments among them contain the one that is asked for. -/
structure SegmentPath (d : Description) (inProgress : List String) (id : String) : Prop where
  used : ∀ s, d.segment? id = some s → d.Uses (.segment s)
  inside : ∀ s x, d.segment? id = some s → d.segment? x.id = some x → x.id ∈ inProgress →
    Relation.TransGen d.Contains (.segment x) (.segment s)

/-- The id of a loop is asked for while the definitions in `inProgress` are being put together, all
of which are loops and contain the one that is asked for. -/
structure LoopPath (d : Description) (inProgress : List String) (id : String) : Prop where
  used : ∀ l, d.loop? id = some l → d.Uses (.loop l)
  loops : ∀ other ∈ inProgress, ∃ x, d.loop? other = some x
  inside : ∀ l x, d.loop? id = some l → d.loop? x.id = some x → x.id ∈ inProgress →
    Relation.TransGen d.Contains (.loop x) (.loop l)

theorem SegmentPath.implementation (h : d.SegmentPath inProgress id) (hs : d.segment? id = some s)
    {i : SegmentImplementation} (hi : i ∈ s.implementations) :
    d.SegmentPath (id :: inProgress) i.segment where
  used body hbody := (h.used s hs).step (.contains (.implementation hi hbody))
  inside body x hbody hx hmem := by
    have hstep := Contains.implementation hi hbody
    rcases List.mem_cons.1 hmem with hid | hmem
    · rw [hid, hs] at hx
      cases hx
      exact .single hstep
    · exact (h.inside s x hs hx hmem).tail hstep

theorem LoopPath.loop (h : d.LoopPath inProgress id) (hl : d.loop? id = some l) {target : String}
    (ht : target ∈ l.targets) : d.LoopPath (id :: inProgress) target where
  used inner hinner := (h.used l hl).step (.contains (.loop ht hinner))
  loops := List.forall_mem_cons.2 ⟨⟨l, hl⟩, h.loops⟩
  inside inner x hinner hx hmem := by
    have hstep := Contains.loop ht hinner
    rcases List.mem_cons.1 hmem with hid | hmem
    · rw [hid, hl] at hx
      cases hx
      exact .single hstep
    · exact (h.inside l x hl hx hmem).tail hstep

theorem LoopPath.segment (h : d.LoopPath inProgress id) (hd : d.Distinct)
    (hl : d.loop? id = some l) {target : String} (ht : target ∈ l.targets)
    (hnone : d.loop? target = none) : d.SegmentPath (id :: inProgress) target where
  used s hs := (h.used l hl).step (.contains (.segment ht hnone hs))
  inside s x _ hx hmem := by
    -- No segment is in progress, since no segment shares its id with a loop.
    obtain ⟨y, hy⟩ : ∃ y, d.loop? x.id = some y := by
      rcases List.mem_cons.1 hmem with hid | hmem
      · exact ⟨l, hid ▸ hl⟩
      · exact h.loops x.id hmem
    rw [hd.loop?_eq_none hx] at hy
    cases hy

/-- Resolving a segment follows expanding it. -/
theorem follows_segment (hd : d.Distinct) (h : d.SegmentPath inProgress id) :
    Follows d inProgress (d.resolveSegment inProgress id) fun n => d.expandSegment n id := by
  induction inProgress, id using resolveSegment.induct d with
  | case1 inProgress id ih =>
      have hgrows := d.grows_expandSegment id
      have hkept {p : Resolve Interchange.Segment}
          (hp : Follows d inProgress p fun n => d.expandSegment n id) :
          Follows d inProgress (once .segments id p) fun n => d.expandSegment n id :=
        hp.once (fun f x hf => hf.segments id x)
          fun f x n hf hx => { hf with segments := lookup_cons hf.segments ⟨n, hx⟩ }
      cases hfound : d.segment? id with
      | none =>
          rw [resolveSegment_of_none hfound]
          refine hkept ⟨hgrows, fun f hf => .error (n := 1) ?_ rfl⟩
          change (d.expandSegment 1 id).run = _
          rw [expandSegment, hfound]
          rfl
      | some s =>
          have hid : s.id = id := id_of_find? hfound
          have hself (n : Nat) :
              (d.expandTarget n id).run = none ↔ (d.expandSegment n id).run = none := by
            rw [expandTarget_of_segment (hd.loop?_eq_none hfound)]
            exact run_map_eq_none
          by_cases hmem : id ∈ inProgress
          · rw [resolveSegment_of_mem hfound hmem]
            subst hid
            exact hkept ⟨hgrows, fun f hf => .circular (h.used s hfound)
              (h.inside s s hfound hfound hmem) (.inr ⟨hmem, fun n => (hself n).1⟩)⟩
          · rw [resolveSegment_of_not_mem hfound hmem]
            have hinner := follows_assembleSegment s fun i hi =>
              ih s hfound hmem i.segment (h.implementation hfound hi)
            exact hkept (hinner.enter hgrows rfl (expandSegment_of_some hfound)
              fun n => (hself n).2)

/-- Resolving a loop follows expanding it. -/
theorem follows_loop (hd : d.Distinct) (h : d.LoopPath inProgress id) :
    Follows d inProgress (d.resolveLoop inProgress id) fun n => d.expandLoop n id := by
  induction inProgress, id using resolveLoop.induct d with
  | case1 inProgress id ih =>
      have hgrows := d.grows_expandLoop id
      have hkept {p : Resolve Interchange.Loop}
          (hp : Follows d inProgress p fun n => d.expandLoop n id) :
          Follows d inProgress (once .loops id p) fun n => d.expandLoop n id :=
        hp.once (fun f x hf => hf.loops id x)
          fun f x n hf hx => { hf with loops := lookup_cons hf.loops ⟨n, hx⟩ }
      cases hfound : d.loop? id with
      | none =>
          rw [resolveLoop_of_none hfound]
          refine hkept ⟨hgrows, fun f hf => .error (n := 1) ?_ rfl⟩
          change (d.expandLoop 1 id).run = _
          rw [expandLoop, hfound]
          rfl
      | some l =>
          have hid : l.id = id := id_of_find? hfound
          have hself (n : Nat) :
              (d.expandTarget n id).run = none ↔ (d.expandLoop n id).run = none := by
            rw [expandTarget_of_loop hfound]
            exact run_map_eq_none
          by_cases hmem : id ∈ inProgress
          · rw [resolveLoop_of_mem hfound hmem]
            subst hid
            exact hkept ⟨hgrows, fun f hf => .circular (h.used l hfound)
              (h.inside l l hfound hfound hmem) (.inr ⟨hmem, fun n => (hself n).1⟩)⟩
          · rw [resolveLoop_of_not_mem hfound hmem]
            have htarget (target : String) (ht : target ∈ l.targets) :
                Follows d (id :: inProgress) (d.targetOf (d.resolveSegment (id :: inProgress))
                  (d.resolveLoop (id :: inProgress)) target) fun n => d.expandTarget n target :=
              follows_target
                (fun hnone => follows_segment hd (h.segment hd hfound ht hnone))
                (ih l hfound hmem target (h.loop hfound ht))
            exact hkept ((follows_assembleLoop l htarget).enter hgrows rfl
              (expandLoop_of_some hfound) fun n => (hself n).2)

theorem finished_sound (d : Description) : Finished.Sound d {} where
  types _ _ h := by cases h
  composites _ _ h := by cases h
  segments _ _ h := by cases h
  loops _ _ h := by cases h

/-- Either expanding ends and resolving gives the same answer, which is no complaint about a circle,
or expanding does not end and resolving meets a definition that contains itself. -/
theorem resolve_cases (hd : d.Distinct) :
    (d.Expands d.resolve ∧ Avoids Error.isCircular d.resolve) ∨
      (∀ r, ¬ d.Expands r) ∧ ∃ x, d.Uses x ∧ d.OnCycle x ∧
        d.resolve = .error (.invalid (.circularReference x.id)) := by
  have hpath : d.LoopPath [] d.root :=
    ⟨fun l hl => ⟨l, hl, .refl⟩, by simp, fun _ _ _ _ hmem => absurd hmem List.not_mem_nil⟩
  have hanswer := (follows_loop hd hpath).answer {} d.finished_sound
  have hresolve : d.resolve = ((d.resolveLoop [] d.root).run {}).map (·.1) := by
    unfold resolve
    rw [idFault?_eq_none.2 hd]
    rfl
  generalize (d.resolveLoop [] d.root).run {} = answer at hanswer hresolve
  rw [hresolve]
  cases hanswer with
  | ok h _ => exact .inl ⟨⟨_, h⟩, .ok _⟩
  | error h herr => exact .inl ⟨⟨_, h⟩, .error herr⟩
  | circular hused hcycle hopen =>
      rcases hopen with hnever | ⟨hmem, -⟩
      · refine .inr ⟨fun r ⟨n, hn⟩ => ?_, _, hused, hcycle, rfl⟩
        have hnone := hnever n
        change (d.expandLoop n d.root).run = none at hnone
        rw [hnone] at hn
        cases hn
      · exact absurd hmem List.not_mem_nil

/-! ### Trees -/

theorem ok_of_bind {x : Expand α} {f : α → Expand β} {b : β}
    (h : (x >>= f).run = some (.ok b)) : ∃ a, x.run = some (.ok a) ∧ (f a).run = some (.ok b) := by
  rw [run_bind] at h
  cases hrun : x.run with
  | none => rw [hrun] at h; cases h
  | some answer =>
      rw [hrun] at h
      cases answer with
      | error err => cases h
      | ok a => exact ⟨a, rfl, h⟩

theorem ok_of_mapM {f : α → Expand β} {xs : List α} {ys : List β}
    (h : (xs.mapM f).run = some (.ok ys)) : ∀ x ∈ xs, ∃ y, (f x).run = some (.ok y) := by
  induction xs generalizing ys with
  | nil => exact fun x hx => absurd hx List.not_mem_nil
  | cons x rest ih =>
      rw [List.mapM_cons] at h
      obtain ⟨y, hy, h⟩ := ok_of_bind h
      obtain ⟨ys, hys, -⟩ := ok_of_bind h
      exact List.forall_mem_cons.2 ⟨⟨y, hy⟩, ih hys⟩

theorem ok_of_map {x : Expand α} {f : α → β} {b : β} (h : (f <$> x).run = some (.ok b)) :
    ∃ a, x.run = some (.ok a) ∧ f a = b := by
  rw [map_eq_pure_bind] at h
  obtain ⟨a, ha, h⟩ := ok_of_bind h
  cases h
  exact ⟨a, ha, rfl⟩

/-- A segment has a tree only if all of its implementations have one. -/
theorem ok_of_assembleSegment {contentOf : String → Expand Content}
    {segmentOf : String → Expand Interchange.Segment} {x : Interchange.Segment}
    (h : (s.assemble contentOf segmentOf).run = some (.ok x)) :
    ∀ i ∈ s.implementations, ∃ y, (segmentOf i.segment).run = some (.ok y) := by
  intro i hi
  obtain ⟨elements, -, h⟩ := ok_of_bind h
  obtain ⟨implementations, h, -⟩ := ok_of_bind h
  obtain ⟨implementation, h⟩ := ok_of_mapM h i hi
  obtain ⟨body, hbody, -⟩ := ok_of_bind h
  exact ⟨body, hbody⟩

/-- A loop has a tree only if everything it names has one. -/
theorem ok_of_assembleLoop {targetOf : String → Expand (Target Interchange.Loop)}
    {x : Interchange.Loop} (h : (l.assemble targetOf).run = some (.ok x)) :
    ∀ id ∈ l.targets, ∃ y, (targetOf id).run = some (.ok y) := by
  have hchild {c : Child} {y : Interchange.Child}
      (hc : (c.assemble targetOf).run = some (.ok y)) :
      ∃ target, (targetOf c.target).run = some (.ok target) := by
    obtain ⟨target, htarget, -⟩ := ok_of_bind hc
    exact ⟨target, htarget⟩
  obtain ⟨children, hchildren, h⟩ := ok_of_bind h
  obtain ⟨implementations, himplementations, -⟩ := ok_of_bind h
  intro id hid
  obtain ⟨c, hc, rfl⟩ := List.mem_map.1 hid
  rcases List.mem_append.1 hc with hc | hc
  · obtain ⟨y, hy⟩ := ok_of_mapM hchildren c hc
    exact hchild hy
  · obtain ⟨i, hi, hc⟩ := List.mem_flatMap.1 hc
    obtain ⟨implementation, h⟩ := ok_of_mapM himplementations i hi
    obtain ⟨body, hbody, -⟩ := ok_of_bind h
    obtain ⟨y, hy⟩ := ok_of_mapM hbody c hc
    exact hchild hy

/-- A segment or loop has a tree of limited depth. -/
def HasTree (d : Description) (depth : Nat) : Definition → Prop
  | .segment s => ∃ x, (d.expandSegment depth s.id).run = some (.ok x)
  | .loop l => ∃ x, (d.expandLoop depth l.id).run = some (.ok x)
  | .element _ | .composite _ => False

theorem HasTree.contains (hd : d.Distinct) {x y : Definition} {depth : Nat}
    (h : d.HasTree depth x) (hx : d.Has x) (hy : d.Contains x y) :
    ∃ less < depth, d.HasTree less y := by
  cases depth with
  | zero => cases hy <;> obtain ⟨tree, htree⟩ := h <;> cases htree
  | succ depth =>
      refine ⟨depth, Nat.lt_succ_self depth, ?_⟩
      cases hy with
      | @loop l inner id hid hinner =>
          obtain ⟨tree, htree⟩ := h
          rw [expandLoop_of_some (hd.loop?_of_has hx)] at htree
          obtain ⟨target, htarget⟩ := ok_of_assembleLoop htree id hid
          rw [expandTarget_of_loop hinner, ← (id_of_find? hinner : inner.id = id)] at htarget
          obtain ⟨tree, htree, -⟩ := ok_of_map htarget
          exact ⟨tree, htree⟩
      | @segment l s id hid hnone hs =>
          obtain ⟨tree, htree⟩ := h
          rw [expandLoop_of_some (hd.loop?_of_has hx)] at htree
          obtain ⟨target, htarget⟩ := ok_of_assembleLoop htree id hid
          rw [expandTarget_of_segment hnone, ← (id_of_find? hs : s.id = id)] at htarget
          obtain ⟨tree, htree, -⟩ := ok_of_map htarget
          exact ⟨tree, htree⟩
      | @implementation s body i hi hbody =>
          obtain ⟨tree, htree⟩ := h
          rw [expandSegment_of_some (hd.segment?_of_has hx)] at htree
          have htree := ok_of_assembleSegment htree i hi
          rw [← (id_of_find? hbody : body.id = i.segment)] at htree
          exact htree

/-- What contains itself has no tree, because the tree would be inside itself. -/
theorem not_hasTree (hd : d.Distinct) {x : Definition} (hx : d.OnCycle x) (depth : Nat) :
    ¬ d.HasTree depth x := by
  induction depth using Nat.strongRecOn with
  | ind depth ih =>
      intro htree
      have hless {y : Definition} (hy : Relation.TransGen d.Contains x y) :
          ∃ less < depth, d.HasTree less y := by
        induction hy with
        | single hy => exact htree.contains hd (has_of_contains hx) hy
        | tail hxy hyz ih' =>
            obtain ⟨n, hn, hy⟩ := ih'
            obtain ⟨m, hm, hz⟩ := hy.contains hd (has_of_contains hxy) hyz
            exact ⟨m, Nat.lt_trans hm hn, hz⟩
      obtain ⟨less, hlt, h⟩ := hless hx
      exact ih less hlt h

/-- With the root loop everything that it contains has a tree. -/
theorem Uses.hasTree (hd : d.Distinct) {tree : Interchange.Loop} (htree : d.Expands (.ok tree))
    {x y : Definition} (hx : d.Uses x) (hy : d.Contains x y) : ∃ depth, d.HasTree depth x := by
  obtain ⟨root, hroot, hreach⟩ := hx
  induction hreach generalizing y with
  | refl =>
      obtain ⟨depth, h⟩ := htree
      rw [← (id_of_find? hroot : root.id = d.root)] at h
      exact ⟨depth, tree, h⟩
  | tail hreach hstep ih =>
      cases hstep with
      | contains hstep =>
          obtain ⟨depth, h⟩ := ih hstep
          obtain ⟨less, -, hless⟩ := h.contains hd (Uses.has ⟨root, hroot, hreach⟩) hstep
          exact ⟨less, hless⟩
      | composite | element | component => cases hy

/-- Where definitions contain themselves there is no tree. -/
theorem not_expands_tree (hd : d.Distinct) (hcyclic : d.Cyclic) (tree : Interchange.Loop) :
    ¬ d.Expands (.ok tree) := by
  intro htree
  obtain ⟨x, hused, hcycle⟩ := hcyclic
  obtain ⟨y, hy, -⟩ := Relation.TransGen.head'_iff.1 hcycle
  obtain ⟨depth, h⟩ := hused.hasTree hd htree hy
  exact not_hasTree hd hcycle depth h

theorem Expands.unique {r r' : Except Error Interchange.Loop} (h : d.Expands r)
    (h' : d.Expands r') : r = r' := by
  obtain ⟨n, hn⟩ := h
  obtain ⟨m, hm⟩ := h'
  exact (d.grows_expandLoop d.root).unique hn hm

/-! ### Resolving -/

theorem Expands.resolve_eq {r : Except Error Interchange.Loop} (h : d.Expands r)
    (hd : d.Distinct) : d.resolve = r := by
  rcases resolve_cases hd with ⟨hexpands, -⟩ | ⟨hnever, -⟩
  · exact hexpands.unique h
  · exact absurd h (hnever r)

/-- Where plain expansion ends, resolving gives the same tree or the same error. Expansion ends
unless a definition that is used contains itself, so a definition that stands in several places is
no circle. Where a definition does contain itself there is no tree: both meet the same other error
first, or else expansion does not end and the resolver names a definition that contains itself.
The answer depends on the definitions that are used alone, and not on the order of the lists. -/
theorem resolve_expansion (hd : d.Distinct) :
    (∀ r, d.Expands r → d.resolve = r) ∧
    (¬ d.Cyclic → d.Expands d.resolve ∧
      ∀ id, d.resolve ≠ .error (.invalid (.circularReference id))) ∧
    (d.Cyclic → (∃ err, d.Expands (.error err) ∧ d.resolve = .error err ∧
        ∀ id, err ≠ .invalid (.circularReference id)) ∨
      (∀ r, ¬ d.Expands r) ∧ ∃ x, d.Uses x ∧ d.OnCycle x ∧
        d.resolve = .error (.invalid (.circularReference x.id))) ∧
    (∀ d' : Description, d'.Distinct → d'.root = d.root → (∀ x, d'.Uses x ↔ d.Uses x) →
      d'.resolve = d.resolve) ∧
    ∀ d' : Description, d'.root = d.root → d'.elements.Perm d.elements →
      d'.composites.Perm d.composites → d'.segments.Perm d.segments → d'.loops.Perm d.loops →
      d'.resolve = d.resolve := by
  refine ⟨fun r hr => hr.resolve_eq hd, fun hcyclic => ?_, fun hcyclic => ?_, ?_, ?_⟩
  · rcases resolve_cases hd with ⟨hexpands, havoids⟩ | ⟨-, x, hused, hcycle, -⟩
    · exact ⟨hexpands, fun id h => Bool.noConfusion (havoids _ h)⟩
    · exact absurd ⟨x, hused, hcycle⟩ hcyclic
  · rcases resolve_cases hd with ⟨hexpands, havoids⟩ | hcircular
    · refine .inl ?_
      cases hresolve : d.resolve with
      | error err =>
          refine ⟨err, hresolve ▸ hexpands, rfl, fun id h => ?_⟩
          exact Bool.noConfusion (havoids _ (hresolve.trans (congrArg Except.error h)))
      | ok tree => exact absurd (hresolve ▸ hexpands) (not_expands_tree hd hcyclic tree)
    · exact .inr hcircular
  · exact fun d' hd' hroot huses => Alike.resolve_eq ⟨hd, hd', hroot, huses⟩
  · exact fun d' hroot he hc hs hl => (alike_of_perm hd hroot he hc hs hl).resolve_eq

/-- Two loops start with the same segment. -/
def sharingDescription : Description where
  name := "SHARING"
  root := "R"
  segments := [{ id := "S" }]
  loops := [{ id := "R", children := [{ target := "L" }, { target := "M" }] },
    { id := "L", children := [{ target := "S" }] }, { id := "M", children := [{ target := "S" }] }]

/-- A loop that contains itself. -/
def circularDescription : Description where
  name := "CIRCULAR"
  root := "R"
  loops := [{ id := "R", children := [{ target := "R" }] }]

theorem circularDescription_distinct : circularDescription.Distinct :=
  ⟨by decide, by decide, by decide, by decide, by decide, by decide⟩

/-- To expand the loop one has to expand it first. -/
theorem not_expands_circularDescription (r : Except Error Interchange.Loop) :
    ¬ circularDescription.Expands r := by
  have hroot : circularDescription.loop? "R" = some ⟨"R", [{ target := "R" }], []⟩ := rfl
  have hnever (n : Nat) : (circularDescription.expandLoop n "R").run = none := by
    induction n with
    | zero => rfl
    | succ n ih =>
        have htarget : (circularDescription.expandTarget n "R").run = none := by
          rw [expandTarget_of_loop hroot]
          exact run_map_eq_none.2 ih
        rw [expandLoop_of_some hroot]
        simp only [Loop.assemble, Child.assemble, List.mapM_cons, run_bind, htarget]
  intro ⟨n, hn⟩
  exact absurd ((hnever n).symm.trans hn) (by simp)

theorem circularDescription_cyclic : circularDescription.Cyclic := by
  have hroot : circularDescription.loop? "R" = some ⟨"R", [{ target := "R" }], []⟩ := rfl
  exact ⟨_, ⟨_, hroot, .refl⟩, .single (.loop (List.mem_singleton_self _) hroot)⟩

/-- A segment in two loops is no circle, and a loop in itself is one. -/
theorem resolve_expansion_sharing :
    sharingDescription.Distinct ∧ circularDescription.Distinct ∧
      (∃ tree, sharingDescription.Expands (.ok tree) ∧ sharingDescription.resolve = .ok tree) ∧
      circularDescription.resolve = .error (.invalid (.circularReference "R")) := by
  have hsharing : sharingDescription.Distinct :=
    ⟨by decide, by decide, by decide, by decide, by decide, by decide⟩
  obtain ⟨tree, htree⟩ : ∃ tree, sharingDescription.Expands (.ok tree) := ⟨_, 3, rfl⟩
  refine ⟨hsharing, circularDescription_distinct, ⟨tree, htree, ?_⟩, ?_⟩
  · exact (resolve_expansion hsharing).1 _ htree
  · obtain ⟨-, -, hcyclic, -⟩ := resolve_expansion circularDescription_distinct
    rcases hcyclic circularDescription_cyclic with ⟨err, herr, -⟩ | ⟨-, x, hx, -, hresolve⟩
    · exact absurd herr (not_expands_circularDescription _)
    · have hhas := hx.has
      cases x with
      | loop l =>
          obtain rfl := List.mem_singleton.1 hhas
          exact hresolve
      | element | composite | segment => exact absurd hhas List.not_mem_nil

end Interchange.Schema.Description
