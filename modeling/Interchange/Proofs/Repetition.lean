import Interchange.Proofs.Matching
import Interchange.Proofs.Recovery

/-!
# Repeated loops

The leading segment of an open loop is never matched again inside the loop, and still its tag always
has a place: the loop around stands at the child of which the open one is an occurrence, and takes
the tag there as the start of the next occurrence (`Stack.next_found`). Only a loop further inside
can take it before, by a child that is not its first (`located_inside_or_at`).

So the tag that starts an open loop is never reported as misplaced, also where that loop has gone
past it and is still waiting for something else (`repeated_loop_taken`).
-/

namespace Interchange.Validator

variable {schema : Schema} {config : Config} {v : Validator} {root : Loop} {f g : Frame}
  {frames inside inner outer : List Frame} {c : Child} {m : Match} {tag : String} {index : Nat}

/-! ### What opens a loop -/

/-- The list in effect is one that a selection puts in effect. -/
theorem Frame.exists_childrenBy (f : Frame) :
    ∃ selection, f.children = f.loop.childrenBy selection := by
  unfold Frame.children
  cases f.active with
  | pending => exact ⟨.noMatch, rfl⟩
  | base => exact ⟨.noMatch, rfl⟩
  | implementation index =>
      refine ⟨.resolved index, ?_⟩
      unfold Loop.childrenBy
      dsimp only
      cases f.loop.implementations[index]? <;> rfl

/-- Whatever list is in effect, it starts with a segment of the tag that announces the loop. -/
theorem Frame.On.leading_child (h : f.On g) (ha : root.Audited) (hg : root.Holds g.children) :
    ∃ leading s rest, f.children = leading :: rest ∧ leading.target = .segment s ∧
      f.loop.leadingTag? = some s.tag := by
  obtain ⟨c, hc, ht⟩ := h.child
  obtain ⟨selection, hlist⟩ := f.exists_childrenBy
  rw [hlist]
  exact ha.childrenBy hg (List.mem_of_getElem? hc) ht selection

namespace Stack

/-- A loop with another one open inside is searched from the child on at which it stands. -/
theorem startOf_eq_cursor (h : Stack root (f :: g :: outer)) (ha : root.Audited) :
    startOf g outer = g.cursor := by
  cases h with
  | nested _ hn ho =>
      obtain ⟨c, hc, ht⟩ := hn.child
      cases ho with
      | root => rfl
      | nested _ hg hrest =>
          -- It does not stand at its first child, which is a segment.
          obtain ⟨leading, s, rest, hlist, hsegment, -⟩ :=
            hg.leading_child ha (hrest.within _ List.mem_cons_self).holds
          have hpos : g.cursor ≠ 0 := by
            intro hzero
            rw [hzero, hlist] at hc
            cases hc
            rw [hsegment] at ht
            cases ht
          rw [startOf, if_neg (by simp)]
          omega

/-- The loop around an open one takes the leading tag where it stands. -/
theorem next_found (h : Stack root (f :: g :: outer)) (ha : root.Audited)
    (htag : f.loop.leadingTag? = some tag) :
    ∃ c, c.target = .loop f.loop ∧
      g.childFrom? tag (startOf g outer) = some (g.cursor, c) := by
  rw [h.startOf_eq_cursor ha]
  obtain ⟨c, hc, ht⟩ := (h.on_of_getElem? (n := 0) rfl rfl).child
  have hstarts : c.startsWith tag = true := by
    simp [Reference.startsWith, Reference.leadingTag?, ht, htag]
  refine ⟨c, ht, Frame.childFrom?_eq_some.2 ⟨Nat.le_refl _, hc, hstarts, ?_⟩⟩
  exact fun k _ hk hlt => absurd hlt (Nat.not_lt_of_le hk)

end Stack

/-! ### Where its tag is taken -/

/-- The first child of a nested loop is never entered again. -/
theorem Located.index_pos (h : Located tag frames m) (ho : m.outer ≠ []) : 1 ≤ m.index := by
  obtain ⟨hstart, -⟩ := Frame.childFrom?_eq_some.1 h.found
  rw [startOf, if_neg (by simpa using ho)] at hstart
  omega

/-- A tag that one open loop can take is taken there, or further inside. -/
theorem located_inside_or_at (hg : g.childFrom? tag (startOf g outer) = some (index, c))
    (inside : List Frame) :
    ∃ m, Located tag (inside ++ g :: outer) m ∧
      ((∃ between, inside = m.closed ++ m.frame :: between ∧ m.outer = between ++ g :: outer) ∨
        m = ⟨inside, g, outer, index, c⟩) := by
  induction inside with
  | nil => exact ⟨_, (located_of_found hg).2 rfl, .inr rfl⟩
  | cons e inside ih =>
      cases he : e.childFrom? tag (startOf e (inside ++ g :: outer)) with
      | some entry => exact ⟨_, (located_of_found he).2 rfl, .inl ⟨inside, rfl, rfl⟩⟩
      | none =>
          obtain ⟨m, hm, hwhere⟩ := ih
          refine ⟨_, (located_of_not_found he).2 ⟨m, hm, rfl⟩, ?_⟩
          rcases hwhere with ⟨between, rfl, houter⟩ | rfl
          · exact .inl ⟨between, rfl, houter⟩
          · exact .inr rfl

/-- Where the leading tag of an open loop `f` is taken, which is inside of `g` with the loops
`inner` open inside of it. -/
inductive Match.Repeats (m : Match) (inner : List Frame) (f g : Frame) (outer : List Frame) : Prop
  /-- By a child of the loop itself or of one inside of it, other than the first child. -/
  | inside {between : List Frame} (hframes : inner ++ [f] = m.closed ++ m.frame :: between)
      (houter : m.outer = between ++ g :: outer) (hindex : 1 ≤ m.index)
  /-- By the child at which the loop around stands, as the next occurrence of the same loop. -/
  | next (hclosed : m.closed = inner ++ [f]) (hframe : m.frame = g) (houter : m.outer = outer)
      (hindex : m.index = g.cursor) (hchild : m.child.target = .loop f.loop)

theorem Stack.repeats (h : Stack root (inner ++ f :: g :: outer)) (ha : root.Audited)
    (htag : f.loop.leadingTag? = some tag) :
    ∃ m, Located tag (inner ++ f :: g :: outer) m ∧ m.Repeats inner f g outer := by
  obtain ⟨c, ht, hfound⟩ := h.of_append.next_found ha htag
  obtain ⟨m, hm, hwhere⟩ := located_inside_or_at hfound (inner ++ [f])
  rw [List.append_assoc, List.singleton_append] at hm
  refine ⟨m, hm, ?_⟩
  rcases hwhere with ⟨between, hframes, houter⟩ | rfl
  · exact .inside hframes houter (hm.index_pos (by simp [houter]))
  · exact .next rfl rfl rfl rfl ht

/-- The frames after the next occurrence of the loop has been opened. -/
theorem Match.Repeats.frames_of_next (h : m.Repeats inner f g outer)
    (hclosed : m.closed = inner ++ [f]) (index : Nat) (tag : String) :
    (openChild (m.frame.enter m.index) m.outer m.child index tag).1 =
      Frame.ofLoop f.loop (g.path ++ "/" ++ f.loop.id) :: g.enter g.cursor :: outer := by
  cases h with
  | inside hframes =>
      have hlength := congrArg List.length hframes
      rw [hclosed] at hlength
      simp at hlength
  | next _ hframe houter hindex hchild =>
      rw [hframe, houter, hindex, openChild, hchild]
      rfl

/-- Between two segments, some loops are open only while the interchange is. -/
theorem Phase.between_of_frames (h : Phase v) (hs : v.segment = none) (hf : v.frames ≠ []) :
    v.IsOpen ∧ Stack v.schema.root v.frames := by
  cases h with
  | outside _ hnone => exact absurd hnone hf
  | between hstate hstack => exact ⟨isOpen_stateOf v _ hstate, hstack⟩
  | inside _ hsome =>
      rw [hs] at hsome
      cases hsome

/-- In every state that can be reached between two segments, the tag that starts an open loop, also
in the list of the implementation that has been selected, is taken, and it is not reported as out of
sequence or unknown. It is taken inside of the loop by another child than the first, or else by the
loop around at the child where that one stands, as the next occurrence of the same loop. No nested
loop takes it by its first child. -/
theorem repeated_loop_taken (hb : schema.Bound) (hr : Reachable schema config v)
    (hs : v.segment = none) (hframes : v.frames = inner ++ f :: g :: outer) :
    ∃ tag m w found, f.loop.leadingTag? = some tag ∧
      (Loop.leadingSegmentOf? f.children).map (·.tag) = some tag ∧
      locate? tag v.frames = some m ∧ m.Repeats inner f g outer ∧
      (m.outer ≠ [] → 1 ≤ m.index) ∧
      v.handle (.segmentStart tag) = .ok (w, found) ∧
      (∀ x ∈ found, x.kind ≠ .unexpectedSegment ∧ x.kind ≠ .segmentNotInSchema) ∧
      (w.state ≠ .failed →
        w.frames = (openChild (m.frame.enter m.index) m.outer m.child (v.segmentCount + 1) tag).1 ∧
          (m.closed = inner ++ [f] →
            w.frames =
              Frame.ofLoop f.loop (g.path ++ "/" ++ f.loop.id) :: g.enter g.cursor :: outer)) := by
  have ha : schema.root.Audited := hb.audited
  obtain ⟨hopen, hstack⟩ := (hr.phase ha).between_of_frames hs (by simp [hframes])
  rw [hr.within.1] at hstack
  rw [hframes] at hstack
  have houtside : Stack schema.root (f :: g :: outer) := hstack.of_append
  obtain ⟨leading, s, rest, hlist, hsegment, htag⟩ :=
    (houtside.on_of_getElem? (n := 0) rfl rfl).leading_child ha
      (houtside.within g (by simp)).holds
  obtain ⟨m, hlocated, hrepeats⟩ := hstack.repeats ha htag
  have hm : locate? s.tag v.frames = some m := by
    rw [hframes]
    exact locate?_eq_some.2 hlocated
  obtain ⟨w, found, hhandle, hjudged⟩ := (Effect.take hopen hs hm rfl).handle
  refine ⟨s.tag, m, w, found, htag, ?_, hm, hrepeats, hlocated.index_pos, hhandle, ?_, ?_⟩
  · rw [hlist, Loop.leadingSegmentOf?_cons hsegment]
    rfl
  · intro x hx
    have hplaced : x.kind.isMisplacement ≠ true := fun hkind => by
      rw [locate?_of_misplaced hhandle ⟨x, hx, hkind⟩] at hm
      cases hm
    exact ⟨fun hkind => hplaced (by rw [hkind]; rfl), fun hkind => hplaced (by rw [hkind]; rfl)⟩
  · intro hw
    have hafter : w.frames =
        (openChild (m.frame.enter m.index) m.outer m.child (v.segmentCount + 1) s.tag).1 := by
      rw [hjudged.eq_of_not_failed hw]
      rfl
    exact ⟨hafter, fun hclosed => hafter.trans (hrepeats.frames_of_next hclosed _ _)⟩

/-- An open loop that waits for its `C` has gone past its `A`. The next `A` starts the loop again,
and only the `C` is reported. -/
theorem repeated_loop_taken_returning :
    let v := ({ schema := returningSchema, config := {} } : Validator).calls
      [.event (.interchangeStart none), .event (.segmentStart "A"),
        .event (.element ⟨⟨1, none⟩, 0, "x"⟩), .event .segmentEnd, .event (.segmentStart "B"),
        .event .segmentEnd]
    ∃ f g w found, returningSchema.Bound ∧ Reachable returningSchema {} v ∧ v.segment = none ∧
      v.frames = [f, g] ∧ f.isOutOfSequence "A" = true ∧
      v.handle (.segmentStart "A") = .ok (w, found) ∧
      found.map (·.kind) = [.requiredSegmentMissing] ∧
      w.frames.map (·.path) = ["ROOT/L", "ROOT"] ∧ w.frames.map (·.counts) = [[1], [2]] := by
  intro v
  have hb : returningSchema.Bound :=
    .tree (show Schema.bind "RETURNING" returningSchema.root = .ok returningSchema from rfl)
  have hr : Reachable returningSchema {} v := Reachable.new.calls _
  obtain ⟨f, g, hframes, hlate, hleading⟩ : ∃ f g, v.frames = [] ++ f :: g :: [] ∧
      f.isOutOfSequence "A" = true ∧ f.loop.leadingTag? = some "A" :=
    ⟨_, _, rfl, rfl, rfl⟩
  obtain ⟨tag, m, w, found, htag, -, -, -, -, hhandle, -, -⟩ :=
    repeated_loop_taken hb hr rfl hframes
  obtain rfl : "A" = tag := Option.some.inj (hleading.symm.trans htag)
  obtain ⟨w', found', hhandle', hkinds, hpaths, hcounts⟩ : ∃ w' found',
      v.handle (.segmentStart "A") = .ok (w', found') ∧
        found'.map (·.kind) = [.requiredSegmentMissing] ∧
        w'.frames.map (·.path) = ["ROOT/L", "ROOT"] ∧ w'.frames.map (·.counts) = [[1], [2]] :=
    ⟨_, _, rfl, rfl, rfl, rfl⟩
  obtain ⟨rfl, rfl⟩ := Prod.mk.inj (Except.ok.inj (hhandle.symm.trans hhandle'))
  exact ⟨f, g, w, found, hb, hr, rfl, hframes, hlate, hhandle, hkinds, hpaths, hcounts⟩

end Interchange.Validator
