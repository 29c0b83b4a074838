import Interchange.Proofs.Binding
import Interchange.Proofs.Matching

/-!
# The tags of a schema

The tags that a schema defines are collected while its tree is audited, by a walk that may enter
only the first of several loops with one id. They are the tags of all segments in the tree all the
same: every segment has its check and no check looks at anything else (`Covers.definesTag_iff`).

Validation looks for a tag in the lists of children that are in effect, which depend on the values
of the document. All of these lists belong to the tree, so a tag that is not defined has a place in
none of them (`locate?_eq_none_of_undefined`). It is reported as unknown, wherever it comes, and it
changes nothing that is open (`definesTag_exact`).
-/

namespace Interchange

/-- Some segment in the tree of a root loop has the tag. -/
def Loop.Defines (root : Loop) (tag : String) : Prop :=
  ∃ cs c s, root.Holds cs ∧ c ∈ cs ∧ c.target = .segment s ∧ s.tag = tag

namespace Schema

variable {schema : Schema} {name tag : String} {root : Loop} {checks : List Check}

/-! ### Collecting tags -/

theorem tags_of_bindChecked (h : bindChecked name root checks = .ok schema) :
    schema.tags = checks.filterMap Check.tag? := by
  unfold bindChecked at h
  split at h
  · cases h
  · split at h
    · cases h
    · split at h
      · cases h
        rfl
      · cases h

theorem Check.tag?_eq_some {check : Check} :
    check.tag? = some tag ↔ ∃ path s, check = .segment path s ∧ s.tag = tag := by
  cases check with
  | segment path s =>
      constructor
      · exact fun h => ⟨path, s, rfl, Option.some.inj h⟩
      · rintro ⟨_, _, heq, htag⟩
        cases heq
        exact congrArg some htag
  | _ => simp [tag?]

/-- Checks of all parts of a tree, and of nothing else, collect the tags of its segments. -/
theorem Covers.definesTag_iff (hcovers : Covers checks root)
    (hconcern : ∀ check ∈ checks, check.Concerns root)
    (h : bindChecked name root checks = .ok schema) :
    schema.definesTag tag = true ↔ schema.root.Defines tag := by
  rw [definesTag, tags_of_bindChecked h, (of_bindChecked h).2, List.contains_iff_mem,
    List.mem_filterMap]
  constructor
  · rintro ⟨check, hmem, hsome⟩
    obtain ⟨path, s, rfl, htag⟩ := Check.tag?_eq_some.1 hsome
    obtain ⟨cs, c, hcs, hc, ht⟩ := hconcern _ hmem
    exact ⟨cs, c, s, hcs, hc, ht, htag⟩
  · rintro ⟨cs, c, s, hcs, hc, ht, htag⟩
    obtain ⟨path, hmem⟩ := hcovers.segment hcs hc ht
    exact ⟨_, hmem, Check.tag?_eq_some.2 ⟨path, s, rfl, htag⟩⟩

theorem Bound.definesTag_iff (hb : schema.Bound) :
    schema.definesTag tag = true ↔ schema.root.Defines tag := by
  cases hb with
  | tree h => exact (checks_covers _).definesTag_iff (checks_concern _) h
  | @definitions _ root _ hroot h =>
      refine (definitionChecks_covers hroot).definesTag_iff (fun check hcheck => ?_) h
      exact checks_concern root check
        ((visitLoop_sublist root.id root [root.id]).subset hcheck)

end Schema

/-- A tag that starts a child of a list in the tree is defined there. -/
theorem Loop.Holds.defines {root : Loop} {cs : List Child} {c : Child} {tag : String}
    (h : root.Holds cs) (hc : c ∈ cs) (htag : c.startsWith tag = true) : root.Defines tag := by
  have htag : c.leadingTag? = some tag := by simpa [Reference.startsWith] using htag
  cases ht : c.target with
  | segment s =>
      rw [Reference.leadingTag?, ht] at htag
      exact ⟨cs, c, s, h, hc, ht, Option.some.inj htag⟩
  | loop l =>
      -- The tag is that of the leading segment, which is in the list of the loop itself.
      rw [Reference.leadingTag?, ht] at htag
      obtain ⟨s, hs, htag⟩ := Option.map_eq_some_iff.1 htag
      obtain ⟨leading, rest, hlist, htarget⟩ := Loop.eq_cons_of_leadingSegmentOf? hs
      refine ⟨l.children, leading, s, h.inside hc ht l.children_mem_lists, ?_, htarget, htag⟩
      rw [hlist]
      exact List.mem_cons_self

namespace Validator

variable {schema : Schema} {root : Loop} {frames : List Frame} {f : Frame} {tag : String}

/-! ### Unknown tags -/

/-- An unknown tag starts no child of an open loop. -/
theorem Frame.Within.startsWith_eq_false (h : f.Within root) (htag : ¬ root.Defines tag)
    {c : Child} (hc : c ∈ f.children) : c.startsWith tag = false :=
  eq_false_of_ne_true fun hstarts => htag (h.holds.defines hc hstarts)

/-- So no open loop can take it. -/
theorem locate?_eq_none_of_undefined (h : ∀ f ∈ frames, f.Within root)
    (htag : ¬ root.Defines tag) : locate? tag frames = none := by
  cases hm : locate? tag frames with
  | none => rfl
  | some m =>
      have hlocated := locate?_eq_some.1 hm
      obtain ⟨hframe, -, hchild⟩ := hlocated.within h
      obtain ⟨-, -, hstarts, -⟩ := Frame.childFrom?_eq_some.1 hlocated.found
      rw [hframe.startsWith_eq_false htag hchild] at hstarts
      cases hstarts

/-- It cannot be out of sequence either. -/
theorem Frame.Within.isOutOfSequence_eq_false (h : f.Within root) (htag : ¬ root.Defines tag) :
    f.isOutOfSequence tag = false := by
  have hpassed : (f.children.take f.cursor).any (·.startsWith tag) = false := by
    rw [List.any_eq_false]
    intro c hc
    rw [h.startsWith_eq_false htag (List.mem_of_mem_take hc)]
    exact Bool.false_ne_true
  rw [Frame.isOutOfSequence, hpassed, Bool.false_and]

/-- The tags that a bound schema defines are those of the segments in its tree, in the lists of its
loops and of all their implementations. In every state that can be reached between two segments, any
other tag is reported once, as unknown, at the innermost open loop, and unless that ends validation
it leaves the open loops as they are. -/
theorem definesTag_exact (hb : schema.Bound) :
    (∀ tag, schema.definesTag tag = true ↔ schema.root.Defines tag) ∧
      ∀ {config : Config} {v : Validator}, Reachable schema config v → v.IsOpen →
        v.segment = none → ∀ tag, schema.definesTag tag = false →
          ∃ w x f, v.handle (.segmentStart tag) = .ok (w, [x]) ∧ x.kind = .segmentNotInSchema ∧
            x.value = some tag ∧ v.frames.head? = some f ∧ x.location.schemaPath = f.path ∧
            (w.state ≠ .failed → w.frames = v.frames) := by
  refine ⟨fun tag => hb.definesTag_iff, fun {config v} hr ho hs tag htag => ?_⟩
  have hundefined : ¬ schema.root.Defines tag := fun hdefined => by
    rw [hb.definesTag_iff.2 hdefined] at htag
    cases htag
  obtain ⟨hschema, -, hwithin⟩ := hr.within
  have hm : locate? tag v.frames = none := locate?_eq_none_of_undefined hwithin hundefined
  obtain ⟨hstack, -⟩ := (hr.phase hb.audited).between_of ho hs
  obtain ⟨f, outer, hframes⟩ := List.exists_cons_of_ne_nil hstack.ne_nil
  have hlate : f.isOutOfSequence tag = false :=
    (hwithin f (by simp [hframes])).isOutOfSequence_eq_false hundefined
  obtain ⟨w, found, hhandle, hjudged⟩ := (Effect.skip ho hs hm).handle
  obtain rfl := hjudged.1
  refine ⟨w, _, f, hhandle, ?_, rfl, by rw [hframes]; rfl, ?_, fun hw => ?_⟩
  · simp [Config.judge, misplaced, hframes, hlate]
  · simp [Config.judge, misplaced, Location.ofSegment, hframes]
  · rw [hjudged.eq_of_not_failed hw]
    rfl

/-- A tag that only an implementation has is defined. One that no list has is unknown also where the
implementation is in effect. -/
theorem definesTag_exact_returning :
    let v := ({ schema := returningSchema, config := {} } : Validator).calls
      [.event (.interchangeStart none), .event (.segmentStart "A"),
        .event (.element ⟨⟨1, none⟩, 0, "x"⟩), .event .segmentEnd]
    returningSchema.Bound ∧ Reachable returningSchema {} v ∧ v.IsOpen ∧ v.segment = none ∧
      returningSchema.root.Defines "C" ∧ returningSchema.definesTag "Z" = false ∧
      ∃ w x, v.handle (.segmentStart "Z") = .ok (w, [x]) ∧ x.kind = .segmentNotInSchema ∧
        x.location.schemaPath = "ROOT/L[X]" := by
  intro v
  have hb : returningSchema.Bound :=
    .tree (show Schema.bind "RETURNING" returningSchema.root = .ok returningSchema from rfl)
  have hr : Reachable returningSchema {} v := Reachable.new.calls _
  obtain ⟨hexact, hunknown⟩ := definesTag_exact hb
  obtain ⟨w, x, f, hhandle, hkind, -, hf, hpath, -⟩ :=
    hunknown hr (.inr rfl) rfl "Z" rfl
  obtain ⟨f', hf', hfpath⟩ : ∃ f', v.frames.head? = some f' ∧ f'.path = "ROOT/L[X]" :=
    ⟨_, rfl, rfl⟩
  obtain rfl : f = f' := Option.some.inj (hf.symm.trans hf')
  exact ⟨hb, hr, .inr rfl, rfl, (hexact "C").1 rfl, rfl, w, x, hhandle, hkind,
    hpath.trans hfpath⟩

end Validator

end Interchange
