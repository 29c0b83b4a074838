import Interchange.Proofs.Decisions
import Interchange.Proofs.Stack

/-!
# The invariant of a validator

What holds of a validator after any use of it: events that are accepted or refused, in any
order, and resets (`invariant_of_calls`).

The open loops are a stack, and the open segment is an occurrence of the child at which the
innermost loop stands (`Stands`), also while the implementation of that loop, and with it the
list of its children, is undecided. `Phase` is the form of this that every effect keeps
(`Effect.phase`).
-/

namespace Interchange.Validator

variable {schema : Schema} {config : Config} {root : Loop} {v w : Validator} {e : Event}
  {frames frames' outer : List Frame} {f g : Frame} {c : Child} {m : Match} {d : Segment}
  {s t : OpenSegment} {tag : String} {found raw report : List Violation} {complete : Bool}

/-! ### Uses of a validator -/

/-- A use of a validator. -/
inductive Call where
  | event (e : Event)
  | reset

/-- The validator after a call. An event that is refused changes nothing. -/
def call (v : Validator) : Call → Validator
  | .event e =>
      match v.handle e with
      | .ok (w, _) => w
      | .error _ => v
  | .reset => v.reset

/-- The validator after some calls. -/
def calls (v : Validator) (cs : List Call) : Validator := cs.foldl call v

theorem Reachable.calls (h : Reachable schema config v) (cs : List Call) :
    Reachable schema config (v.calls cs) := by
  induction cs generalizing v with
  | nil => exact h
  | cons c cs ih =>
      refine ih ?_
      cases c with
      | reset => exact h.reset
      | event e =>
          unfold call
          dsimp only
          cases hhandle : v.handle e with
          | error _ => exact h
          | ok r => exact h.handle hhandle

/-! ### The open segment -/

/-- The definition and the path of the open segment: an occurrence of the child at which the
innermost loop stands, or one that is skipped. -/
inductive Defined (f : Frame) (s : OpenSegment) : Prop
  | skipped (hd : s.definition = none) (hu : s.undecided = none) (hp : s.path = f.path)
  | base {c : Child} {d : Segment} (hc : f.children[f.cursor]? = some c)
      (ht : c.target = .segment d) (htag : d.tag = s.tag) (hd : s.definition = some d)
      (hp : s.path = f.path ++ "/" ++ d.id)
  | implementation {c : Child} {d : Segment} {i : Implementation Segment}
      (hc : f.children[f.cursor]? = some c) (ht : c.target = .segment d) (htag : d.tag = s.tag)
      (hi : i ∈ d.implementations) (hbody : i.body.tag = s.tag) (hd : s.definition = some i.body)
      (hu : s.undecided = none) (hp : s.path = f.path ++ "/" ++ d.id ++ "[" ++ i.id ++ "]")

/-- The open segment stands in the innermost loop. -/
structure Stands (f : Frame) (s : OpenSegment) : Prop where
  /-- It waits for the implementation of that loop, or nothing does. -/
  waiting : f.active = .pending ↔ s.undecided = some .loop
  /-- In that case it has just opened the loop. -/
  opening : s.undecided = some .loop → f.cursor = 0
  /-- It waits for its own implementation only when it has some. -/
  choosing : s.undecided = some .segment →
    ∃ d, s.definition = some d ∧ d.isPolymorphic = true
  defined : Defined f s

/-- As long as something is undecided the segment has the definition of its child. -/
theorem Defined.base_of_undecided (h : Defined f s) (hu : s.undecided ≠ none) :
    ∃ c d, f.children[f.cursor]? = some c ∧ c.target = .segment d ∧ d.tag = s.tag ∧
      s.definition = some d ∧ s.path = f.path ++ "/" ++ d.id := by
  cases h with
  | skipped _ hn => exact absurd hn hu
  | base hc ht htag hd hp => exact ⟨_, _, hc, ht, htag, hd, hp⟩
  | implementation _ _ _ _ _ _ hn => exact absurd hn hu

/-- A segment that waits for the implementation of the loop has its leading tag. -/
theorem Stands.leadingTag (h : Stands f s) (hu : s.undecided = some .loop) :
    f.loop.leadingTag? = some s.tag := by
  obtain ⟨c, d, hc, ht, htag, -, -⟩ := h.defined.base_of_undecided (by simp [hu])
  rw [Frame.children_of_pending (h.waiting.2 hu), h.opening hu, ← List.head?_eq_getElem?,
    List.head?_eq_some_iff] at hc
  obtain ⟨rest, hlist⟩ := hc
  rw [Loop.leadingTag?, Loop.leadingSegment?, hlist, Loop.leadingSegmentOf?_cons ht, ← htag]
  rfl

/-- Only the definition, the path, the tag and what is undecided say where a segment stands. -/
theorem Stands.congr (h : Stands f s) (hd : t.definition = s.definition) (hp : t.path = s.path)
    (htag : t.tag = s.tag) (hu : t.undecided = s.undecided) : Stands f t where
  waiting := by rw [hu, h.waiting]
  opening := by rw [hu]; exact h.opening
  choosing := by rw [hu, hd]; exact h.choosing
  defined := by
    cases h.defined with
    | skipped hds hus hps => exact .skipped (hd.trans hds) (hu.trans hus) (hp.trans hps)
    | base hc ht hts hds hps =>
        exact .base hc ht (hts.trans htag.symm) (hd.trans hds) (hp.trans hps)
    | implementation hc ht hts hi hbody hds hus hps =>
        exact .implementation hc ht (hts.trans htag.symm) hi (hbody.trans htag.symm)
          (hd.trans hds) (hu.trans hus) (hp.trans hps)

theorem OpenSegment.checkNew_fst (s : OpenSegment) (version : Option String) (codes : Bool) :
    ∃ flagged, (s.checkNew version codes).1 = { s with unchecked := [], flagged } := by
  unfold checkNew
  cases s.definition with
  | none => exact ⟨s.flagged, rfl⟩
  | some d => exact ⟨_, rfl⟩

/-- The open loops and the open segment. -/
inductive Inside (root : Loop) : List Frame → OpenSegment → Prop
  | mk {f : Frame} {outer : List Frame} {s : OpenSegment} (hf : Stack root (f :: outer))
      (ho : ∀ g ∈ outer, g.active ≠ .pending) (hs : Stands f s) : Inside root (f :: outer) s

namespace Inside

theorem congr (h : Inside root frames s) (hd : t.definition = s.definition)
    (hp : t.path = s.path) (htag : t.tag = s.tag) (hu : t.undecided = s.undecided) :
    Inside root frames t := by
  cases h with
  | mk hf ho hs => exact .mk hf ho (hs.congr hd hp htag hu)

theorem stack (h : Inside root frames s) : Stack root frames := by
  cases h with
  | mk hf _ _ => exact hf

theorem stands (h : Inside root frames s) : ∃ f, frames.head? = some f ∧ Stands f s := by
  cases h with
  | mk _ _ hs => exact ⟨_, rfl, hs⟩

/-- Only the innermost loop can be undecided, and then the segment waits for it. -/
theorem pending_iff (h : Inside root frames s) {n : Nat} (hf : frames[n]? = some f) :
    f.active = .pending ↔ n = 0 ∧ s.undecided = some .loop := by
  cases h with
  | mk _ ho hs =>
      cases n with
      | zero =>
          cases hf
          rw [hs.waiting]
          exact ⟨fun hu => ⟨rfl, hu⟩, fun hu => hu.2⟩
      | succ n =>
          have hactive := ho f (List.mem_of_getElem? hf)
          exact ⟨fun hp => absurd hp hactive, fun hn => absurd hn.1 (Nat.succ_ne_zero n)⟩

/-- When nothing is undecided no loop is. -/
theorem not_pending (h : Inside root frames s) (hu : s.undecided = none) :
    ∀ f ∈ frames, f.active ≠ .pending := by
  intro f hf hp
  obtain ⟨n, hn⟩ := List.mem_iff_getElem?.1 hf
  have hloop := ((h.pending_iff hn).1 hp).2
  rw [hu] at hloop
  cases hloop

/-- A segment that no loop can take. -/
theorem skipped (hf : Stack root frames) (hn : ∀ f ∈ frames, f.active ≠ .pending)
    (hv : v.frames = frames) : Inside root frames (v.skipped tag) := by
  obtain ⟨f, outer, rfl⟩ := List.exists_cons_of_ne_nil hf.ne_nil
  obtain ⟨hactive, houter⟩ := List.forall_mem_cons.1 hn
  refine .mk hf houter ⟨?_, fun hu => ?_, fun hu => ?_, .skipped rfl rfl ?_⟩
  · exact ⟨fun hp => absurd hp hactive, fun hu => nomatch hu⟩
  · cases hu
  · cases hu
  · simp [Validator.skipped, hv]

/-- A segment or a loop that is opened at the child at which the innermost loop stands. -/
theorem of_openChild {index : Nat} (h : Stack root (f :: outer)) (ha : root.Audited)
    (hn : ∀ g ∈ f :: outer, g.active ≠ .pending) (hc : f.children[f.cursor]? = some c)
    (htag : c.startsWith tag = true) (hopen : openChild f outer c index tag = (frames, s)) :
    Inside root frames s := by
  have htag : c.leadingTag? = some tag := by simpa [Reference.startsWith] using htag
  unfold openChild at hopen
  split at hopen
  · rename_i d ht
    cases hopen
    obtain ⟨hactive, houter⟩ := List.forall_mem_cons.1 hn
    have htag : some d.tag = some tag := by rwa [Reference.leadingTag?, ht] at htag
    refine .mk h houter ⟨⟨fun hp => absurd hp hactive, fun hu => ?_⟩, fun hu => ?_,
      fun hu => ⟨d, rfl, ?_⟩, .base hc ht (Option.some.inj htag) rfl rfl⟩
    · simp at hu
    · simp at hu
    · simpa using hu
  · rename_i l ht
    cases hopen
    obtain ⟨leading, d, rest, hlist, htarget, hd⟩ :=
      ha.childrenBy (h.within f List.mem_cons_self).holds (List.mem_of_getElem? hc) ht .noMatch
    have hlist : l.children = leading :: rest := hlist
    have hleading : l.leadingSegment? = some d := by
      rw [Loop.leadingSegment?, hlist]
      exact Loop.leadingSegmentOf?_cons htarget
    have hchild : (Frame.ofLoop l (f.path ++ "/" ++ l.id)).children[0]? = some leading := by
      rw [(Frame.opening_ofLoop l _).children_eq, hlist]
      rfl
    have htag : l.leadingTag? = some tag := by rwa [Reference.leadingTag?, ht] at htag
    rw [hd] at htag
    refine .mk (h.opened ha hc ht) hn ⟨?_, fun _ => rfl, fun hu => ?_,
      .base hchild htarget (Option.some.inj htag) hleading ?_⟩
    · rw [Frame.ofLoop_active]
      cases l.isPolymorphic <;> simp
    · simp at hu
    · simp [hleading, Frame.ofLoop]

/-- A decision that is made is one of the cases. -/
theorem decision (h : Inside root (f :: outer) s) (ha : root.Audited)
    (hd : decide? (f :: outer) s complete = some (frames, t, report)) :
    ∃ g, frames = g :: outer ∧ Decision complete f s g t report := by
  cases h with
  | mk hf ho hs =>
      refine decision_of_decide? (fun hu => ?_) (fun hu i hi => ?_) hd
      · obtain ⟨d, hd, -⟩ := hs.choosing hu
        exact ⟨d, hd⟩
      · obtain ⟨leading, hl, -⟩ := hf.leading_body ha (hs.waiting.2 hu) hi
        exact ⟨leading, hl⟩

/-- When it is made the loops are a stack, and the segment stands in the innermost one. -/
theorem decide (h : Inside root (f :: outer) s) (ha : root.Audited)
    (hd : Decision complete f s g t report) :
    Inside root (g :: outer) t ∧ t.undecided = none := by
  obtain ⟨hf, ho, hs⟩ := h
  -- When the segment decides among its own implementations the loop is decided.
  have hactive (hu : s.undecided = some .segment) : f.active ≠ .pending := fun hp => by
    rw [hs.waiting.1 hp] at hu
    cases hu
  cases hd with
  | settled hu => exact ⟨.mk hf ho hs, hu⟩
  | segment hu hd _ hi =>
      obtain ⟨c, d, hc, ht, htag, hd', hp⟩ := hs.defined.base_of_undecided (by simp [hu])
      rw [hd] at hd'
      cases hd'
      have hmem := List.mem_of_getElem? hi
      have hbody := (ha.segmentBody (hf.within f List.mem_cons_self).holds
        (List.mem_of_getElem? hc) ht hmem).1
      exact ⟨.mk hf ho ⟨⟨fun hp => absurd hp (hactive hu), nofun⟩, nofun, nofun,
        .implementation hc ht htag hmem (hbody.trans htag) rfl rfl (by rw [hp])⟩, rfl⟩
  | noSegment hu =>
      obtain ⟨c, d, hc, ht, htag, hd, hp⟩ := hs.defined.base_of_undecided (by simp [hu])
      exact ⟨.mk hf ho ⟨⟨fun hp => absurd hp (hactive hu), nofun⟩, nofun, nofun,
        .base hc ht htag hd hp⟩, rfl⟩
  | @loop n i leading hu _ hi hl =>
      have hp := hs.waiting.2 hu
      obtain ⟨c, rest, hbody, ht⟩ := Loop.eq_cons_of_leadingSegmentOf? hl
      have hleading : i.body[0]? = some c := by
        rw [hbody]
        rfl
      have htag : leading.tag = s.tag := by
        obtain ⟨d, hd, htag⟩ := hf.leading_body ha hp (List.mem_of_getElem? hi)
        rw [hl] at hd
        cases hd
        rw [hs.leadingTag hu] at htag
        exact (Option.some.inj htag).symm
      refine ⟨.mk (hf.select hp hi hleading) ho ⟨⟨nofun, nofun⟩, nofun, nofun,
        .base ?_ ht htag rfl rfl⟩, rfl⟩
      rw [(Frame.opening_implementation hi _).children_eq]
      exact hleading
  | noLoop hu =>
      have hp := hs.waiting.2 hu
      obtain ⟨c, d, hc, ht, htag, hd, hpath⟩ := hs.defined.base_of_undecided (by simp [hu])
      refine ⟨.mk (hf.keep hp) ho ⟨⟨nofun, nofun⟩, nofun, nofun, .base ?_ ht htag hd hpath⟩, rfl⟩
      rw [Frame.children_of_pending hp] at hc
      exact hc

/-- What is decided leaves a stack, with the segment standing in the innermost loop. -/
theorem decided (h : Inside root frames s) (ha : root.Audited)
    (hd : decide? frames s complete = some (frames', t, report)) :
    Inside root frames' t ∧ t.undecided = none ∧ frames'.length = frames.length := by
  obtain ⟨f, outer, rfl⟩ := List.exists_cons_of_ne_nil h.stack.ne_nil
  obtain ⟨g, rfl, hdecision⟩ := h.decision ha hd
  obtain ⟨hinside, hu⟩ := h.decide ha hdecision
  exact ⟨hinside, hu, rfl⟩

end Inside

/-! ### Every effect keeps the stack -/

/-- What the open segment keeps of the stream. -/
structure Kept (v : Validator) (s : OpenSegment) : Prop where
  index_eq : s.index = v.segmentCount
  lastTag : v.lastTag = some s.tag
  /-- As long as something is undecided no value is checked. -/
  unchecked : s.undecided ≠ none → s.unchecked = s.read

theorem Kept.push (h : Kept v s) (x : ElementValue) : Kept v (s.push x) where
  index_eq := h.index_eq
  lastTag := h.lastTag
  unchecked hu := congrArg (x :: ·) (h.unchecked hu)

/-- Where a validator is in a document. -/
inductive Phase (v : Validator) : Prop
  /-- Outside of the interchange. -/
  | outside (ho : ¬ v.IsOpen) (hf : v.frames = []) (hs : v.segment = none)
  /-- Between two segments. -/
  | between (ho : v.state = stateOf v.frames) (hf : Stack v.schema.root v.frames)
      (hn : ∀ f ∈ v.frames, f.active ≠ .pending) (hs : v.segment = none)
  /-- Inside a segment. -/
  | inside {s : OpenSegment} (ho : v.state = stateOf v.frames) (hs : v.segment = some s)
      (hi : Inside v.schema.root v.frames s) (hk : Kept v s)
      (hc : s.undecided = none → s.unchecked = [])

namespace Phase

theorem between_of (h : Phase v) (ho : v.IsOpen) (hs : v.segment = none) :
    Stack v.schema.root v.frames ∧ ∀ f ∈ v.frames, f.active ≠ .pending := by
  cases h with
  | outside hn => exact absurd ho hn
  | between _ hf hn => exact ⟨hf, hn⟩
  | inside _ hs' =>
      rw [hs] at hs'
      cases hs'

theorem inside_of (h : Phase v) (hs : v.segment = some s) :
    v.state = stateOf v.frames ∧ Inside v.schema.root v.frames s ∧ Kept v s ∧
      (s.undecided = none → s.unchecked = []) := by
  cases h with
  | outside _ _ hn => rw [hs] at hn; cases hn
  | between _ _ _ hn => rw [hs] at hn; cases hn
  | inside ho hs' hi hk hc =>
      rw [hs] at hs'
      cases hs'
      exact ⟨ho, hi, hk, hc⟩

theorem segment_of_awaiting (h : Phase v) (hv : v.state = .awaitingInterchange) :
    v.segment = none := by
  cases h with
  | outside _ _ hs => exact hs
  | between ho => exact absurd (ho.symm.trans hv) (stateOf_started _)
  | inside ho => exact absurd (ho.symm.trans hv) (stateOf_started _)

end Phase

theorem openChild_numbered {index : Nat}
    (h : openChild f outer c index tag = (frames, s)) : s.index = index ∧ s.tag = tag := by
  unfold openChild at h
  split at h <;> cases h <;> exact ⟨rfl, rfl⟩

/-- A tag that is taken. -/
theorem Phase.take (h : Phase v) (ha : v.schema.root.Audited) (ho : v.IsOpen)
    (hs : v.segment = none) (hm : locate? tag v.frames = some m)
    (ht : m.take (v.counting tag).here (v.segmentCount + 1) tag = ((frames, s), found)) :
    Phase { v.counting tag with frames, segment := some s, state := stateOf frames } := by
  obtain ⟨hstack, hn⟩ := h.between_of ho hs
  have hm := locate?_eq_some.1 hm
  obtain ⟨hstart, hchild, hstarts, -⟩ := Frame.childFrom?_eq_some.1 hm.found
  rw [hm.frames_eq] at hstack hn
  have hopen : openChild (m.frame.enter m.index) m.outer m.child (v.segmentCount + 1) tag =
      (frames, s) := (Prod.mk.inj ht).1
  have hactive : ∀ g ∈ m.frame.enter m.index :: m.outer, g.active ≠ .pending := by
    obtain ⟨hframe, houter⟩ := List.forall_mem_cons.1 (List.forall_mem_append.1 hn).2
    exact List.forall_mem_cons.2 ⟨hframe, houter⟩
  have hinside := Inside.of_openChild (hstack.of_append.enter hstart hchild) ha hactive hchild
    hstarts hopen
  obtain ⟨hindex, htag⟩ := openChild_numbered hopen
  have hfresh := (Match.take_eq ht).1.fresh
  exact .inside rfl rfl hinside
    ⟨hindex, congrArg some htag.symm, fun _ => hfresh.unchecked.trans hfresh.read.symm⟩
    fun _ => hfresh.unchecked

/-- Reading on inside a segment. -/
theorem Inside.advance (h : Inside root v.frames s) (ha : root.Audited) (hk : Kept w s)
    (had : v.advance s complete = (frames, t, found)) :
    Inside root frames t ∧ Kept w t ∧ (t.undecided = none → t.unchecked = []) ∧
      frames.length = v.frames.length := by
  cases hd : decide? v.frames s complete with
  | none =>
      rw [advance_of_none hd] at had
      cases had
      refine ⟨h, hk, fun hnone => ?_, rfl⟩
      unfold decide? at hd
      rw [hnone] at hd
      cases hd
  | some d =>
      obtain ⟨frames₁, u, report⟩ := d
      rw [advance_of_some hd] at had
      cases had
      obtain ⟨hinside, hnone, hlength⟩ := h.decided ha hd
      have hu := (decides_of_decide? hd).segment_eq
      obtain ⟨flagged, hchecked⟩ := u.checkNew_fst v.version v.config.validateCodeValues
      rw [hchecked]
      refine ⟨hinside.congr rfl rfl rfl rfl, ⟨?_, ?_, absurd hnone⟩, fun _ => rfl, hlength⟩
      · rw [hu]
        exact hk.index_eq
      · rw [hu]
        exact hk.lastTag

/-- When the segment is complete no loop is undecided. -/
theorem Inside.advance_complete (h : Inside root v.frames s) (ha : root.Audited)
    (had : v.advance s true = (frames, t, found)) :
    Stack root frames ∧ (∀ f ∈ frames, f.active ≠ .pending) ∧
      frames.length = v.frames.length := by
  obtain ⟨frames₁, u, report, hd⟩ := decide?_complete v.frames s
  rw [advance_of_some hd] at had
  cases had
  obtain ⟨hinside, hnone, hlength⟩ := h.decided ha hd
  exact ⟨hinside.stack, hinside.not_pending hnone, hlength⟩

theorem stateOf_congr (h : frames.length = frames'.length) : stateOf frames = stateOf frames' := by
  unfold stateOf
  rw [h]

theorem Effect.phase (h : Effect v e w raw) (ha : v.schema.root.Audited) (hv : Phase v) :
    Phase w := by
  cases h with
  | start hw =>
      refine .between rfl (.ofRoot _) (fun f hf hp => ?_) (hv.segment_of_awaiting hw)
      obtain rfl := List.mem_singleton.1 hf
      cases hp
  | take ho hs hm ht => exact hv.take ha ho hs hm ht
  | skip ho hs hm =>
      obtain ⟨hstack, hn⟩ := hv.between_of ho hs
      exact .inside rfl rfl (.skipped hstack hn rfl) ⟨rfl, rfl, fun _ => rfl⟩ fun _ => rfl
  | mark => exact hv
  | @value x _ s _ _ _ hs had =>
      obtain ⟨hopen, hi, hk, -⟩ := hv.inside_of hs
      have hi : Inside v.schema.root v.frames (s.push x) := hi.congr rfl rfl rfl rfl
      obtain ⟨hi, ⟨hindex, htag, hu⟩, hc, hlength⟩ := hi.advance ha (hk.push x) had
      exact .inside (hopen.trans (stateOf_congr hlength.symm)) rfl hi ⟨hindex, htag, hu⟩ hc
  | close _ hs had =>
      obtain ⟨hopen, hi, -, -⟩ := hv.inside_of hs
      obtain ⟨hstack, hn, hlength⟩ := hi.advance_complete ha had
      exact .between (hopen.trans (stateOf_congr hlength.symm)) hstack hn rfl
  | finish _ hs => exact .outside (by rintro (h | h) <;> cases h) rfl hs

theorem Reachable.phase (h : Reachable schema config v) (ha : schema.root.Audited) : Phase v := by
  refine (h.induction (motive := fun v => v.schema = schema ∧ Phase v) ⟨rfl, ?_⟩ ?_ ?_ ?_ ?_).2
  · exact .outside (by rintro (h | h) <;> cases h) rfl rfl
  · rintro v w e raw ⟨rfl, hv⟩ he
    exact ⟨he.schema_eq, he.phase ha hv⟩
  · rintro v errors ⟨rfl, hv⟩
    refine ⟨rfl, ?_⟩
    cases hv with
    | outside ho hf hs => exact .outside ho hf hs
    | between ho hf hn hs => exact .between ho hf hn hs
    | inside ho hs hi hk hc => exact .inside ho hs hi ⟨hk.index_eq, hk.lastTag, hk.unchecked⟩ hc
  · rintro v errors ⟨rfl, -⟩
    exact ⟨rfl, .outside (by rintro (h | h) <;> cases h) rfl rfl⟩
  · rintro v ⟨rfl, -⟩
    exact ⟨rfl, .outside (by rintro (h | h) <;> cases h) rfl rfl⟩

/-! ### The invariant -/

/-- What holds of a validator between two calls. -/
structure Invariant (root : Loop) (v : Validator) : Prop where
  /-- Nothing is open before the start, after the end and after a failure. -/
  idle : ¬ v.IsOpen → v.frames = [] ∧ v.segment = none
  inInterchange : v.state = .inInterchange ↔ v.depth = 1
  inStructure : v.state = .inStructure ↔ 2 ≤ v.depth
  /-- The last of the open loops is the root loop. -/
  last : v.IsOpen → ∃ f, v.frames.getLast? = some f ∧ f.loop = root ∧ f.path = root.id ∧
    f.active = .base
  /-- Counts and cursor fit the list of children in effect. -/
  sound : ∀ f ∈ v.frames, f.Sound
  /-- Every other loop is an occurrence of the child at which the next one stands. -/
  nested : ∀ {n f g}, v.frames[n]? = some f → v.frames[n + 1]? = some g → f.On g
  /-- Only the innermost loop is undecided, and only while the open segment waits for it. -/
  pending : ∀ {n f}, v.frames[n]? = some f →
    (f.active = .pending ↔ n = 0 ∧ ∃ s, v.segment = some s ∧ s.undecided = some .loop)
  /-- The open segment stands in the innermost loop, ... -/
  segment : ∀ {s}, v.segment = some s →
    v.IsOpen ∧ Kept v s ∧ ∃ f, v.frames.head? = some f ∧ Stands f s
  /-- ... and its values are checked unless something is undecided. -/
  checked : ∀ {s}, v.segment = some s → s.undecided = none → s.unchecked = []
  /-- A tag is taken by a child that is there and is counted, at the cursor or ahead of it. -/
  located : ∀ {tag m}, locate? tag v.frames = some m →
    v.frames = m.closed ++ m.frame :: m.outer ∧ m.frame.cursor ≤ m.index ∧
      m.frame.children[m.index]? = some m.child ∧ m.index < m.frame.counts.length

theorem Stack.located (h : Stack root frames) (hm : locate? tag frames = some m) :
    frames = m.closed ++ m.frame :: m.outer ∧ m.frame.cursor ≤ m.index ∧
      m.frame.children[m.index]? = some m.child ∧ m.index < m.frame.counts.length := by
  have hm := locate?_eq_some.1 hm
  have hchild := (Frame.childFrom?_eq_some.1 hm.found).2.1
  refine ⟨hm.frames_eq, hm.cursor_le, hchild, ?_⟩
  rw [(h.sound m.frame (by simp [hm.frames_eq])).counted]
  exact (List.getElem?_eq_some_iff.1 hchild).1

/-- When loops are open, the rest of the invariant is about the open segment. -/
theorem Stack.invariant (h : Stack root v.frames) (hv : v.state = stateOf v.frames)
    (hpending : ∀ {n f}, v.frames[n]? = some f →
      (f.active = .pending ↔ n = 0 ∧ ∃ s, v.segment = some s ∧ s.undecided = some .loop))
    (hsegment : ∀ {s}, v.segment = some s →
      Kept v s ∧ (∃ f, v.frames.head? = some f ∧ Stands f s) ∧
        (s.undecided = none → s.unchecked = [])) : Invariant root v := by
  have ho := isOpen_stateOf v _ hv
  have hdepth : 0 < v.depth := List.length_pos_iff.2 h.ne_nil
  have hstate : v.state = if 1 < v.depth then .inStructure else .inInterchange := hv
  exact {
    idle := fun hn => absurd ho hn
    inInterchange := by
      rw [hstate]
      split <;> simp <;> omega
    inStructure := by
      rw [hstate]
      split <;> simp <;> omega
    last := fun _ => h.getLast?
    sound := h.sound
    nested := h.on_of_getElem?
    pending := hpending
    segment := fun hs => ⟨ho, (hsegment hs).1, (hsegment hs).2.1⟩
    checked := fun hs => (hsegment hs).2.2
    located := h.located }

theorem Phase.invariant (h : Phase v) : Invariant v.schema.root v := by
  cases h with
  | outside ho hf hs =>
      have hdepth : v.depth = 0 := congrArg List.length hf
      exact {
        idle := fun _ => ⟨hf, hs⟩
        inInterchange := ⟨fun h => absurd (.inl h) ho, fun h => by omega⟩
        inStructure := ⟨fun h => absurd (.inr h) ho, fun h => by omega⟩
        last := fun h => absurd h ho
        sound := by simp [hf]
        nested := by simp [hf]
        pending := by simp [hf]
        segment := by simp [hs]
        checked := by simp [hs]
        located := by simp [hf, locate?] }
  | between ho hf hn hs =>
      refine hf.invariant ho (fun hg => ?_) (by simp [hs])
      simp [hs, hn _ (List.mem_of_getElem? hg)]
  | inside ho hs hi hk hc =>
      refine hi.stack.invariant ho (fun hg => ?_) fun hs' => ?_
      · rw [hi.pending_iff hg]
        simp [hs]
      · rw [hs] at hs'
        cases hs'
        exact ⟨hk, hi.stands, hc⟩

/-- After any calls the open loops are a stack: the root loop, and above it occurrences of the
child at which the loop below stands. The open segment stands in the innermost one, and the
state is that of the stack. -/
theorem invariant_of_calls (hb : schema.Bound) (cs : List Call) :
    Invariant schema.root (({ schema, config } : Validator).calls cs) := by
  have hr : Reachable schema config _ := Reachable.new.calls cs
  have hinvariant := (hr.phase hb.audited).invariant
  rwa [hr.within.1] at hinvariant

/-- A segment with one element of any text. -/
def singleSegment (tag : String) : Segment := ⟨tag, tag, [textElement], []⟩

/-- A schema with a loop of `A` and `B`, or of `A` alone where its element says so. -/
def shrinkingSchema : Schema where
  name := "SHRINKING"
  root := ⟨"ROOT", [⟨.loop ⟨"L",
    [⟨.segment (singleSegment "A"), 1, .bounded 1⟩, ⟨.segment (singleSegment "B"), 1, .bounded 1⟩],
    [⟨"X", ⟨⟨1, none⟩, ["x"]⟩, [⟨.segment (singleSegment "A"), 1, .bounded 1⟩]⟩]⟩,
    0, .unbounded⟩], []⟩
  tags := ["A", "B", "A"]

/-- The implementation is selected between two events that are refused. -/
theorem invariant_of_calls_shrinking :
    let v := ({ schema := shrinkingSchema, config := {} } : Validator).calls
      [.event (.interchangeStart none), .event (.segmentStart "A"), .event .interchangeEnd,
        .event (.element ⟨⟨1, none⟩, 0, "x"⟩), .event (.segmentStart "B")]
    shrinkingSchema.Bound ∧ Invariant shrinkingSchema.root v ∧
      v.frames.map (·.path) = ["ROOT/L[X]", "ROOT"] ∧ v.frames.map (·.counts) = [[1], [1]] := by
  have hb : shrinkingSchema.Bound :=
    .tree (show Schema.bind "SHRINKING" shrinkingSchema.root = .ok shrinkingSchema from rfl)
  exact ⟨hb, invariant_of_calls hb _, rfl, rfl⟩

end Interchange.Validator
