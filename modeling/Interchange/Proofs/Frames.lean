import Interchange.Validator

/-!
# Facts about open loops

What the functions on frames find, said through the places of the children: the first child
that a tag starts (`childFrom?_eq_some`), the children that have not occurred often enough
(`missing_eq_nil`), and the innermost loop that can take a tag (`locate?_eq_some`). Proofs
about runs use these and do not open the functions.
-/

namespace Interchange

theorem findChild?_eq_some {cs : List Child} {tag : String} {start j : Nat} :
    findChild? cs tag start = some j ↔
      start ≤ j ∧ (∃ c, cs[j]? = some c ∧ c.startsWith tag = true) ∧
        ∀ k d, start ≤ k → k < j → cs[k]? = some d → d.startsWith tag = false := by
  unfold findChild?
  rw [Option.map_eq_some_iff]
  constructor
  · rintro ⟨i, hi, rfl⟩
    obtain ⟨hlt, hstart, hfirst⟩ := List.findIdx?_eq_some_iff_getElem.1 hi
    refine ⟨by omega, ⟨_, ?_, hstart⟩, fun k d hk hlt' hd => ?_⟩
    · rw [← List.getElem?_drop, List.getElem?_eq_getElem hlt]
    · have hfirst := hfirst (k - start) (by omega)
      rw [List.getElem_drop] at hfirst
      simp only [show start + (k - start) = k by omega] at hfirst
      rw [List.getElem?_eq_some_iff] at hd
      obtain ⟨_, rfl⟩ := hd
      simpa using hfirst
  · rintro ⟨hle, ⟨c, hc, hstart⟩, hfirst⟩
    obtain ⟨hlt, rfl⟩ := List.getElem?_eq_some_iff.1 hc
    refine ⟨j - start, List.findIdx?_eq_some_iff_getElem.2 ⟨?_, ?_, fun k hk => ?_⟩, by omega⟩
    · rw [List.length_drop]
      omega
    · simpa only [List.getElem_drop, show start + (j - start) = j by omega] using hstart
    · have hk' : start + k < cs.length := by omega
      simpa using hfirst (start + k) cs[start + k] (by omega) (by omega)
        (List.getElem?_eq_getElem hk')

theorem findChild?_eq_none {cs : List Child} {tag : String} {start : Nat} :
    findChild? cs tag start = none ↔
      ∀ k d, start ≤ k → cs[k]? = some d → d.startsWith tag = false := by
  unfold findChild?
  rw [Option.map_eq_none_iff, List.findIdx?_eq_none_iff]
  constructor
  · intro h k d hk hd
    refine h d (List.mem_of_getElem? (i := k - start) ?_)
    rw [List.getElem?_drop, show start + (k - start) = k by omega, hd]
  · intro h d hd
    obtain ⟨k, hk⟩ := List.mem_iff_getElem?.1 hd
    rw [List.getElem?_drop] at hk
    exact h (start + k) d (by omega) hk

namespace Validator

variable {f : Frame} {frames : List Frame} {tag : String} {start mid stop i j : Nat} {c : Child}
  {here : Location} {m : Match}

namespace Frame

theorem childFrom?_eq_some :
    f.childFrom? tag start = some (j, c) ↔
      start ≤ j ∧ f.children[j]? = some c ∧ c.startsWith tag = true ∧
        ∀ k d, start ≤ k → k < j → f.children[k]? = some d → d.startsWith tag = false := by
  unfold childFrom?
  rw [Option.bind_eq_some_iff]
  constructor
  · rintro ⟨i, hi, h⟩
    obtain ⟨d, hd, h⟩ := Option.map_eq_some_iff.1 h
    cases h
    obtain ⟨hle, ⟨e, he, hstart⟩, hfirst⟩ := findChild?_eq_some.1 hi
    rw [hd] at he
    cases he
    exact ⟨hle, hd, hstart, hfirst⟩
  · rintro ⟨hle, hc, hstart, hfirst⟩
    exact ⟨j, findChild?_eq_some.2 ⟨hle, ⟨c, hc, hstart⟩, hfirst⟩, by rw [hc]; rfl⟩

theorem childFrom?_eq_none :
    f.childFrom? tag start = none ↔
      ∀ k d, start ≤ k → f.children[k]? = some d → d.startsWith tag = false := by
  rw [← findChild?_eq_none]
  unfold childFrom?
  constructor
  · intro h
    cases hf : findChild? f.children tag start with
    | none => rfl
    | some i =>
        obtain ⟨-, ⟨d, hd, -⟩, -⟩ := findChild?_eq_some.1 hf
        simp [hf, hd] at h
  · intro h
    rw [h, Option.bind_none]

/-! ### Missing children -/

/-- The children with indices from `start` up to `stop` have occurred often enough. -/
def Met (f : Frame) (start stop : Nat) : Prop :=
  ∀ k c, start ≤ k → k < stop → f.children[k]? = some c → c.minOccurs ≤ f.count k

theorem mem_indexed_range {entry : Child × Nat} :
    entry ∈ (f.indexed.take stop).drop start ↔
      start ≤ entry.2 ∧ entry.2 < stop ∧ f.children[entry.2]? = some entry.1 := by
  obtain ⟨c, k⟩ := entry
  unfold indexed
  rw [List.mem_iff_getElem?]
  constructor
  · rintro ⟨n, hn⟩
    rw [List.getElem?_drop, List.getElem?_take, List.getElem?_zipIdx] at hn
    split at hn
    · obtain ⟨d, hd, h⟩ := Option.map_eq_some_iff.1 hn
      cases h
      exact ⟨by omega, by omega, by simpa using hd⟩
    · cases hn
  · rintro ⟨hle, hlt, hc⟩
    refine ⟨k - start, ?_⟩
    rw [List.getElem?_drop, List.getElem?_take, List.getElem?_zipIdx]
    simp only at hle hlt hc
    rw [if_pos (by omega), show start + (k - start) = k by omega, hc]
    simp

theorem missing_eq_nil : f.missing start stop here = [] ↔ f.Met start stop := by
  unfold missing
  rw [List.map_eq_nil_iff, List.filter_eq_nil_iff]
  constructor
  · intro h k c hle hlt hc
    have hshort := h (c, k) (mem_indexed_range.2 ⟨hle, hlt, hc⟩)
    simpa [isShort] using hshort
  · rintro h ⟨c, k⟩ hmem
    obtain ⟨hle, hlt, hc⟩ := mem_indexed_range.1 hmem
    have hmet := h k c hle hlt hc
    simpa [isShort] using hmet

theorem close_eq_nil : f.close here = [] ↔ f.Met f.cursor f.children.length := missing_eq_nil

/-- The reports on a range of children are those on its parts. -/
theorem missing_append (h : start ≤ mid) (h' : mid ≤ stop) :
    f.missing start mid here ++ f.missing mid stop here = f.missing start stop here := by
  unfold missing
  rw [← List.map_append, ← List.filter_append]
  congr 2
  have hsplit : f.indexed.take stop = f.indexed.take mid ++ (f.indexed.take stop).drop mid := by
    have htake := List.take_append_drop mid (f.indexed.take stop)
    rw [List.take_take, Nat.min_eq_left h'] at htake
    exact htake.symm
  -- When the list ends before `mid` the second part is empty, and both sides are cut off there.
  have hlen : (f.indexed.take mid).drop start ++ (f.indexed.take stop).drop mid =
      (f.indexed.take mid ++ (f.indexed.take stop).drop mid).drop start := by
    rw [List.drop_append]
    by_cases hl : start ≤ (f.indexed.take mid).length
    · rw [Nat.sub_eq_zero_of_le hl, List.drop_zero]
    · rw [List.length_take] at hl
      have hshort : (f.indexed.take stop).length ≤ mid := by
        rw [List.length_take]
        omega
      rw [List.drop_eq_nil_of_le hshort, List.drop_nil]
  rw [hlen, ← hsplit]

@[simp] theorem missing_self : f.missing start start here = [] := by
  rw [missing_eq_nil]
  intro k c hle hlt
  omega

end Frame

/-! ### Locating a tag -/

/-- The index from which the children of a frame are tried, with the frames around it: the
leading segment of a nested loop is never matched again. -/
def startOf (f : Frame) (outer : List Frame) : Nat :=
  if outer.isEmpty then f.cursor else max f.cursor 1

theorem cursor_le_startOf (f : Frame) (outer : List Frame) : f.cursor ≤ startOf f outer := by
  unfold startOf
  split
  · exact Nat.le_refl _
  · exact Nat.le_max_left _ _

/-- A tag is taken in a frame by the first child it starts, and no frame inside has one. -/
structure Located (tag : String) (frames : List Frame) (m : Match) : Prop where
  frames_eq : frames = m.closed ++ m.frame :: m.outer
  found : m.frame.childFrom? tag (startOf m.frame m.outer) = some (m.index, m.child)
  passed : ∀ f ∈ m.closed, f.childFrom? tag (max f.cursor 1) = none

/-- A frame that does not take a tag leaves it to the frames around it. -/
theorem Located.cons {outer : List Frame} (h : Located tag outer m)
    (hf : f.childFrom? tag (max f.cursor 1) = none) :
    Located tag (f :: outer) { m with closed := f :: m.closed } where
  frames_eq := congrArg (f :: ·) h.frames_eq
  found := h.found
  passed := List.forall_mem_cons.2 ⟨hf, h.passed⟩

/-- A tag is taken in the innermost frame when a child there is found. -/
theorem located_of_found {outer : List Frame} {index : Nat} {child : Child}
    (hf : f.childFrom? tag (startOf f outer) = some (index, child)) :
    Located tag (f :: outer) m ↔ m = ⟨[], f, outer, index, child⟩ := by
  constructor
  · rintro ⟨heq, hfound, hpassed⟩
    obtain ⟨closed, frame, outer', index', child'⟩ := m
    cases closed with
    | nil =>
        cases heq
        rw [hf] at hfound
        cases hfound
        rfl
    | cons g closed =>
        -- The frame itself would have been passed.
        cases heq
        have hnone := hpassed f List.mem_cons_self
        rw [startOf, if_neg (by simp)] at hf
        rw [hf] at hnone
        cases hnone
  · rintro rfl
    exact ⟨rfl, hf, by simp⟩

/-- Otherwise it is taken in the frames around it. -/
theorem located_of_not_found {outer : List Frame}
    (hf : f.childFrom? tag (startOf f outer) = none) :
    Located tag (f :: outer) m ↔
      ∃ m', Located tag outer m' ∧ { m' with closed := f :: m'.closed } = m := by
  constructor
  · rintro ⟨heq, hfound, hpassed⟩
    obtain ⟨closed, frame, outer', index', child'⟩ := m
    cases closed with
    | nil =>
        cases heq
        rw [hf] at hfound
        cases hfound
    | cons g closed =>
        cases heq
        obtain ⟨-, hpassed⟩ := List.forall_mem_cons.1 hpassed
        exact ⟨⟨closed, frame, outer', index', child'⟩, ⟨rfl, hfound, hpassed⟩, rfl⟩
  · rintro ⟨m', hm', rfl⟩
    refine hm'.cons ?_
    rw [startOf, if_neg (by simp [hm'.frames_eq])] at hf
    exact hf

theorem locate?_eq_some : locate? tag frames = some m ↔ Located tag frames m := by
  induction frames generalizing m with
  | nil =>
      constructor
      · intro h; cases h
      · intro h
        have := congrArg List.length h.frames_eq
        simp at this
  | cons f outer ih =>
      unfold locate?
      cases hf : f.childFrom? tag (startOf f outer) with
      | some entry =>
          rw [located_of_found hf]
          unfold startOf at hf
          simp only [hf, Option.some.injEq]
          exact eq_comm
      | none =>
          rw [located_of_not_found hf]
          unfold startOf at hf
          simp only [hf, Option.map_eq_some_iff, ih]

/-! ### Taking a tag -/

/-- Nothing of a segment has been read. -/
structure OpenSegment.Fresh (s : OpenSegment) : Prop where
  read : s.read = []
  unchecked : s.unchecked = []
  flagged : s.flagged = []

/-- The frames and the segment after opening a child of `f`. -/
inductive Opened (f : Frame) (outer : List Frame) (c : Child) : List Frame → OpenSegment → Prop
  | segment {d : Segment} {s : OpenSegment} (ht : c.target = .segment d) (hs : s.Fresh)
      (hd : s.definition = some d)
      (hu : s.undecided = if d.isPolymorphic then some .segment else none) :
      Opened f outer c (f :: outer) s
  | loop {l : Loop} {path : String} {s : OpenSegment} (ht : c.target = .loop l) (hs : s.Fresh)
      (hd : s.definition = l.leadingSegment?)
      (hu : s.undecided = if l.isPolymorphic then some .loop else none) :
      Opened f outer c (Frame.ofLoop l path :: f :: outer) s

/-- Taking a tag opens the child, and reports what is missing before it and whether it is one
too many. -/
theorem Match.take_eq {index : Nat} {s : OpenSegment} {found : List Violation}
    (h : m.take here index tag = ((frames, s), found)) :
    Opened (m.frame.enter m.index) m.outer m.child frames s ∧
      found = closeAll m.closed here ++ m.frame.missing m.frame.cursor m.index here ++
        excess (m.frame.enter m.index).path m.child ((m.frame.enter m.index).count m.index)
          index tag := by
  obtain ⟨hopen, rfl⟩ := Prod.mk.inj h
  refine ⟨?_, rfl⟩
  unfold openChild at hopen
  split at hopen
  · rename_i d ht
    cases hopen
    exact .segment ht ⟨rfl, rfl, rfl⟩ rfl rfl
  · rename_i l ht
    cases hopen
    exact .loop ht ⟨rfl, rfl, rfl⟩ rfl rfl

theorem Opened.fresh {f : Frame} {outer : List Frame} {s : OpenSegment}
    (h : Opened f outer c frames s) : s.Fresh := by
  cases h <;> assumption

/-! ### Closing loops -/

theorem closeAll_eq_nil : closeAll frames here = [] ↔
    ∀ f ∈ frames, f.Met f.cursor f.children.length := by
  unfold closeAll
  rw [List.flatMap_eq_nil_iff]
  simp only [Frame.close_eq_nil]

end Validator

end Interchange
