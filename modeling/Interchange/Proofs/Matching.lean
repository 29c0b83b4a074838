import Interchange.Proofs.Invariant

/-!
# Where a tag is taken

An open loop takes a tag by the first child, from its cursor on, that the tag starts. This is the
only reading that leaves nothing out: to take the tag by a later child would be to skip one that is
required and has not occurred (`later_match_skips_required`).

The audit gives a required child between any two that one tag starts, once for the whole tree. That
it has not occurred is a fact about the run: nothing ahead of a cursor has (`Frame.Tidy`).
-/

namespace Interchange.Validator

variable {schema : Schema} {config : Config} {v : Validator} {f : Frame} {m : Match}
  {c d e : Child} {tag : String} {i j k start stop : Nat} {here : Location}

namespace Frame

/-- A child in a range that has not occurred often enough is reported. -/
theorem shortage_mem_missing (hstart : start ≤ k) (hstop : k < stop)
    (he : f.children[k]? = some e) (hshort : f.count k < e.minOccurs) :
    f.shortage here (e, k) ∈ f.missing start stop here := by
  unfold missing
  refine List.mem_map_of_mem (List.mem_filter.2 ⟨mem_indexed_range.2 ⟨hstart, hstop, he⟩, ?_⟩)
  simpa [isShort] using hshort

/-- Between two children ahead that one tag starts, one is outstanding. -/
theorem outstanding_between (hf : f.Tidy) (hu : Unambiguous f.children) (hcursor : f.cursor ≤ i)
    (hij : i < j) (hc : f.children[i]? = some c) (hd : f.children[j]? = some d)
    (hctag : c.startsWith tag = true) (hdtag : d.startsWith tag = true) :
    ∃ k e, i < k ∧ k < j ∧ f.children[k]? = some e ∧ f.count k < e.minOccurs := by
  obtain ⟨k, e, hik, hkj, he, hmin⟩ :=
    hu hij hc hd (by simpa [Reference.startsWith] using hctag)
      (by simpa [Reference.startsWith] using hdtag)
  refine ⟨k, e, hik, hkj, he, ?_⟩
  rw [hf.ahead k (Nat.lt_of_le_of_lt hcursor hik)]
  exact hmin

end Frame

/-- The child by which a tag is taken comes before every other one that the tag could start, and
to take the tag by that one would be to report a child in between. -/
theorem Located.skips_required (hm : Located tag v.frames m) (hf : m.frame.Tidy)
    (hu : Unambiguous m.frame.children) (hj : startOf m.frame m.outer ≤ j)
    (hc : m.frame.children[j]? = some c) (htag : c.startsWith tag = true) (hne : j ≠ m.index)
    (index : Nat) :
    m.index < j ∧ ∃ k e, m.index < k ∧ k < j ∧ m.frame.children[k]? = some e ∧
      m.frame.count k < e.minOccurs ∧
      m.frame.shortage here (e, k) ∈ ({ m with index := j, child := c }.take here index tag).2 := by
  obtain ⟨hstart, hchild, hchildTag, hfirst⟩ := Frame.childFrom?_eq_some.1 hm.found
  have hcursor : m.frame.cursor ≤ m.index :=
    Nat.le_trans (cursor_le_startOf m.frame m.outer) hstart
  have hlt : m.index < j := by
    -- A child before it would have been found first.
    by_cases hbefore : j < m.index
    · have hnot := hfirst j c hj hbefore hc
      rw [htag] at hnot
      cases hnot
    · omega
  obtain ⟨k, e, hik, hkj, he, hshort⟩ :=
    Frame.outstanding_between hf hu hcursor hlt hchild hc hchildTag htag
  refine ⟨hlt, k, e, hik, hkj, he, hshort, ?_⟩
  have hmissing : m.frame.shortage here (e, k) ∈ m.frame.missing m.frame.cursor j here :=
    Frame.shortage_mem_missing (Nat.le_trans hcursor (Nat.le_of_lt hik)) hkj he hshort
  exact List.mem_append_left _ (List.mem_append_right _ hmissing)

/-- In every state that can be reached, the child by which a tag is taken is the only one in its
loop that the tag can start without skipping a required child that is outstanding: any other one,
from the place on at which the loop is searched, comes later, and a report on a child in between
would come with it. -/
theorem later_match_skips_required (hb : schema.Bound) (hr : Reachable schema config v)
    (hm : locate? tag v.frames = some m) (hj : startOf m.frame m.outer ≤ j)
    (hc : m.frame.children[j]? = some c) (htag : c.startsWith tag = true) (hne : j ≠ m.index) :
    m.index < j ∧ ∃ k e, m.index < k ∧ k < j ∧ m.frame.children[k]? = some e ∧
      m.frame.count k < e.minOccurs ∧
      ∃ x ∈ ({ m with index := j, child := c }.take (v.counting tag).here
          (v.segmentCount + 1) tag).2,
        x.kind = (if e.isLoop then .requiredLoopMissing else .requiredSegmentMissing) ∧
          x.location.schemaPath = m.frame.path ++ "/" ++ e.id := by
  have hlocated := locate?_eq_some.1 hm
  have hframe : m.frame ∈ v.frames := by
    rw [hlocated.frames_eq]
    exact List.mem_append_right _ List.mem_cons_self
  have hsound : m.frame.Sound := (hr.phase hb.audited).invariant.sound m.frame hframe
  have hunambiguous : Unambiguous m.frame.children :=
    hb.audited.unambiguous (hr.within.2.2 m.frame hframe).holds
  obtain ⟨hlt, k, e, hik, hkj, he, hshort, hmem⟩ :=
    hlocated.skips_required hsound.toTidy hunambiguous hj hc htag hne (v.segmentCount + 1)
  exact ⟨hlt, k, e, hik, hkj, he, hshort, _, hmem, rfl, rfl⟩

/-- A schema with a loop of `A` alone, or of `A`, `B`, `C` and `B` again where the element of `A`
says so. -/
def returningSchema : Schema where
  name := "RETURNING"
  root := ⟨"ROOT", [⟨.loop ⟨"L", [⟨.segment (singleSegment "A"), 1, .bounded 1⟩],
    [⟨"X", ⟨⟨1, none⟩, ["x"]⟩, [⟨.segment (singleSegment "A"), 1, .bounded 1⟩,
      ⟨.segment (singleSegment "B"), 0, .bounded 1⟩,
      ⟨.segment (singleSegment "C"), 1, .bounded 1⟩,
      ⟨.segment (singleSegment "B"), 0, .bounded 1⟩]⟩]⟩, 0, .unbounded⟩], []⟩
  tags := ["A", "A", "B", "C", "B"]

/-- In the implementation a `B` is the one before the `C`, which would be missing otherwise. -/
theorem later_match_skips_required_returning :
    let v := ({ schema := returningSchema, config := {} } : Validator).calls
      [.event (.interchangeStart none), .event (.segmentStart "A"),
        .event (.element ⟨⟨1, none⟩, 0, "x"⟩), .event .segmentEnd]
    ∃ m c, returningSchema.Bound ∧ Reachable returningSchema {} v ∧
      locate? "B" v.frames = some m ∧ m.frame.path = "ROOT/L[X]" ∧ m.index = 1 ∧
      m.frame.children[3]? = some c ∧ c.startsWith "B" = true ∧
      ∃ k e, 1 < k ∧ k < 3 ∧ m.frame.children[k]? = some e ∧ m.frame.count k < e.minOccurs := by
  intro v
  have hb : returningSchema.Bound :=
    .tree (show Schema.bind "RETURNING" returningSchema.root = .ok returningSchema from rfl)
  have hr : Reachable returningSchema {} v := Reachable.new.calls _
  obtain ⟨m, hm, hpath, hindex, hstart, c, hc, htag⟩ : ∃ m, locate? "B" v.frames = some m ∧
      m.frame.path = "ROOT/L[X]" ∧ m.index = 1 ∧ startOf m.frame m.outer = 1 ∧
        ∃ c, m.frame.children[3]? = some c ∧ c.startsWith "B" = true :=
    ⟨_, rfl, rfl, rfl, rfl, _, rfl, rfl⟩
  obtain ⟨-, k, e, hik, hkj, he, hshort, -⟩ :=
    later_match_skips_required hb hr hm (by omega) hc htag (by omega)
  rw [hindex] at hik
  exact ⟨m, c, hb, hr, hm, hpath, hindex, hc, htag, k, e, hik, hkj, he, hshort⟩

end Interchange.Validator
