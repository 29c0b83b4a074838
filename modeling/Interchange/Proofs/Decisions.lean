import Interchange.Proofs.Streaming

/-!
# Decisions

While a segment is open a discriminator can be undecided, that of the loop which the segment
has opened or that of the segment itself. `Decision` says once what the decision does: which
list of children and which definition it puts in effect, and what it reports. Facts about
decisions are read off its cases, and `decide?` is not opened again
(`decision_of_decide?`).
-/

namespace Interchange.Validator

variable {frames outer : List Frame} {f g : Frame} {s t : OpenSegment}
  {report : List Violation} {complete : Bool}

/-- What a decision does to the innermost loop and to the open segment, and what it reports. -/
inductive Decision (complete : Bool) (f : Frame) (s : OpenSegment) :
    Frame → OpenSegment → List Violation → Prop
  /-- Nothing is undecided. -/
  | settled (hu : s.undecided = none) : Decision complete f s f s []
  /-- An implementation of the segment is selected. -/
  | segment {d : Segment} {n : Nat} {i : Implementation Segment}
      (hu : s.undecided = some .segment) (hd : s.definition = some d)
      (hc : Implementation.select d.implementations s.values complete = .resolved n)
      (hi : d.implementations[n]? = some i) :
      Decision complete f s f
        { s with path := s.path ++ "[" ++ i.id ++ "]", definition := some i.body
                 undecided := none } []
  /-- None is, and the segment keeps its definition. -/
  | noSegment {d : Segment} (hu : s.undecided = some .segment) (hd : s.definition = some d)
      (hc : Implementation.select d.implementations s.values complete = .noMatch) :
      Decision complete f s f { s with undecided := none }
        [s.unresolved d.implementations s.path]
  /-- An implementation of the loop is selected, whose leading segment is the open one. -/
  | loop {n : Nat} {i : Implementation (List Child)} {leading : Segment}
      (hu : s.undecided = some .loop)
      (hc : Implementation.select f.loop.implementations s.values complete = .resolved n)
      (hi : f.loop.implementations[n]? = some i)
      (hl : Loop.leadingSegmentOf? i.body = some leading) :
      Decision complete f s
        { f with active := .implementation n, path := f.path ++ "[" ++ i.id ++ "]"
                 counts := Frame.opened i.body, cursor := 0 }
        { s with path := f.path ++ "[" ++ i.id ++ "]" ++ "/" ++ leading.id
                 definition := some leading, undecided := none } []
  /-- None is, and the loop keeps its own list. -/
  | noLoop (hu : s.undecided = some .loop)
      (hc : Implementation.select f.loop.implementations s.values complete = .noMatch) :
      Decision complete f s { f with active := .base } { s with undecided := none }
        [s.unresolved f.loop.implementations f.path]

/-- What is decided when every part of the tree that a decision can need is there. -/
theorem decision_of_decide? (hd : s.undecided = some .segment → ∃ d, s.definition = some d)
    (hl : s.undecided = some .loop → ∀ i ∈ f.loop.implementations,
      ∃ leading, Loop.leadingSegmentOf? i.body = some leading)
    (h : decide? (f :: outer) s complete = some (frames, t, report)) :
    ∃ g, frames = g :: outer ∧ Decision complete f s g t report := by
  unfold decide? at h
  rcases hu : s.undecided with _ | _ | _
  · rw [hu] at h
    cases h
    exact ⟨f, rfl, .settled hu⟩
  · rw [hu] at h
    obtain ⟨⟨g, u, found⟩, hr, h⟩ := Option.map_eq_some_iff.1 h
    cases h
    unfold Frame.resolve? at hr
    split at hr
    · cases hr
    · rename_i hc
      cases hr
      exact ⟨_, rfl, .noLoop hu hc⟩
    · rename_i n hc
      obtain ⟨i, hi⟩ := Implementation.select_resolved hc
      obtain ⟨leading, hleading⟩ := hl hu i (List.mem_of_getElem? hi)
      rw [hi] at hr
      simp only [hleading] at hr
      cases hr
      exact ⟨_, rfl, .loop hu hc hi hleading⟩
  · rw [hu] at h
    obtain ⟨⟨u, found⟩, hr, h⟩ := Option.map_eq_some_iff.1 h
    cases h
    obtain ⟨d, hd⟩ := hd hu
    unfold OpenSegment.resolve? at hr
    rw [hd] at hr
    dsimp only at hr
    split at hr
    · cases hr
    · rename_i n hc
      obtain ⟨i, hi⟩ := Implementation.select_resolved hc
      rw [hi] at hr
      cases hr
      exact ⟨f, rfl, .segment hu hd hc hi⟩
    · rename_i hc
      cases hr
      exact ⟨f, rfl, .noSegment hu hd hc⟩

end Interchange.Validator
