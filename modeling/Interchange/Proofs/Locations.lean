import Interchange.Proofs.Halting

/-!
# Where violations lie

Every violation lies at the segment that is being processed: it has the number and the tag of the
last segment that was accepted, also when it is about a loop that is closed later, about values that
were kept for a while, or about the end of the interchange. Its path is that of an open loop, or it
leads from one to a child or to the implementation of a child that the values select
(`Frame.Names`). See `violations_located`.

A location is made from the counters of the validator, from the open segment or from a loop that is
closed. What ties these together is that the path of the open segment names something in the
innermost loop (`OpenSegment.SitedIn`), which a decision keeps although it rewrites both paths
(`Decision.names`).
-/

namespace Interchange

/-- The segment in which a location lies, without the slot. -/
def Location.whole (l : Location) : Location := { l with position := none, repetition := none }

/-- The tags of the segments of the interchange after an event. -/
def Event.startedTags (tags : List String) : Event → List String
  | interchangeStart _ => []
  | segmentStart tag => tags ++ [tag]
  | compositeStart _ _ | element _ | compositeEnd _ _ | segmentEnd | interchangeEnd => tags

namespace Validator

variable {schema : Schema} {config : Config} {root : Loop} {v v' w : Validator} {e : Event}
  {frames outer : List Frame} {f g : Frame} {c : Child} {s t : OpenSegment} {x : Violation}
  {values values' : List ElementValue} {found raw past report : List Violation}
  {here : Location} {path tag : String} {tags : List String} {start stop count index : Nat}
  {complete : Bool}

/-- The tags of the segments that have been accepted since the interchange started: `tags` before
some calls, and none after a reset. -/
def startedTags (v : Validator) (tags : List String) : List Call → List String
  | [] => tags
  | .reset :: cs => v.reset.startedTags [] cs
  | .event e :: cs =>
      match v.handle e with
      | .ok (w, _) => w.startedTags (e.startedTags tags) cs
      | .error _ => v.startedTags tags cs

/-- The values of the open segment, the one that an event brings included. -/
def valuesWith (v : Validator) (e : Event) : List ElementValue :=
  (v.segment.map (·.values)).getD [] ++ e.value?.toList

/-! ### Paths -/

/-- What the path of a finding names: a loop, a child of it, or the implementation of a segment
among its children that the values select. -/
inductive Frame.Names (f : Frame) (values : List ElementValue) : String → Prop
  | loop : f.Names values f.path
  | child {c : Child} (hc : c ∈ f.children) : f.Names values (f.path ++ "/" ++ c.id)
  | implementation {c : Child} {d : Segment} {i : Implementation Segment}
      {read : List ElementValue} {complete : Bool} {n : Nat} (hc : c ∈ f.children)
      (ht : c.target = .segment d) (hread : read <+: values)
      (hselect : Implementation.select d.implementations read complete = .resolved n)
      (hi : d.implementations[n]? = some i) :
      f.Names values (f.path ++ "/" ++ d.id ++ "[" ++ i.id ++ "]")

theorem id_of_segment {d : Segment} (h : c.target = .segment d) : c.id = d.id := by
  unfold Reference.id
  rw [h]

namespace Frame.Names

/-- A segment among the children. -/
theorem segment {d : Segment} (hc : c ∈ f.children) (ht : c.target = .segment d) :
    f.Names values (f.path ++ "/" ++ d.id) := by
  rw [← id_of_segment ht]
  exact .child hc

/-- What has been selected stays selected when more values come. -/
theorem mono (h : f.Names values path) (hvalues : values <+: values') : f.Names values' path := by
  cases h with
  | loop => exact .loop
  | child hc => exact .child hc
  | implementation hc ht hread hselect hi =>
      exact .implementation hc ht (hread.trans hvalues) hselect hi

/-- Only the path and the children of a loop matter. -/
theorem congr (h : f.Names values path) (hpath : g.path = f.path)
    (hchildren : g.children = f.children) : g.Names values path := by
  cases h with
  | loop =>
      rw [← hpath]
      exact .loop
  | child hc =>
      rw [← hpath]
      exact .child (hchildren ▸ hc)
  | implementation hc ht hread hselect hi =>
      rw [← hpath]
      exact .implementation (hchildren ▸ hc) ht hread hselect hi

end Frame.Names

/-! ### Findings about the open segment -/

theorem checkNew_location (s : OpenSegment) (version : Option String) (codes : Bool) :
    ∀ x ∈ (s.checkNew version codes).2, x.location.whole = s.location := by
  intro x hx
  obtain ⟨-, value, -, hlocation⟩ := checkNew_report s version codes x hx
  rw [hlocation]
  rfl

theorem unresolved_location {β : Type} (s : OpenSegment) (is : List (Implementation β))
    (owner : String) : (s.unresolved is owner).location.whole = s.location := by
  unfold OpenSegment.unresolved
  cases is <;> rfl

theorem missingElements_location (s : OpenSegment) :
    ∀ x ∈ s.missingElements, x.location.whole = s.location := by
  intro x hx
  obtain ⟨position, repetition, message, rfl⟩ := missing_of_mem_missingElements hx
  rfl

/-- A decision is reported where the segment stood before it. -/
theorem Decision.location (h : Decision complete f s g t report) :
    ∀ x ∈ report, x.location.whole = s.location := by
  cases h with
  | settled | segment | loop => simp
  | noSegment | noLoop =>
      intro x hx
      rw [List.mem_singleton.1 hx]
      exact unresolved_location s _ _

/-! ### The path of the open segment -/

/-- The path of a segment names something in the innermost loop. -/
def OpenSegment.SitedIn (s : OpenSegment) (frames : List Frame) : Prop :=
  ∃ f, frames.head? = some f ∧ f.Names s.values s.path

/-- So does that of the open segment. -/
def Sited (v : Validator) : Prop := ∀ s, v.segment = some s → s.SitedIn v.frames

/-- A decision rewrites the paths of the loop and of the segment alike. -/
theorem Decision.names (h : Decision complete f s g t report) (hs : Stands f s)
    (hn : f.Names s.values s.path) : g.Names t.values t.path := by
  cases h with
  | settled | noSegment => exact hn
  | segment hu hd hselect hi =>
      obtain ⟨c, d, hc, ht, -, hd', hpath⟩ := hs.defined.base_of_undecided (by simp [hu])
      rw [hd] at hd'
      cases hd'
      rw [hpath]
      exact .implementation (List.mem_of_getElem? hc) ht (List.prefix_refl _) hselect hi
  | loop hu _ hi hl =>
      obtain ⟨c, rest, hbody, ht⟩ := Loop.eq_cons_of_leadingSegmentOf? hl
      refine .segment ?_ ht
      rw [(Frame.opening_implementation hi _).children_eq, hbody]
      exact List.mem_cons_self
  | noLoop hu => exact hn.congr rfl (Frame.children_of_pending (hs.waiting.2 hu)).symm

theorem openChild_names (ha : root.Audited) (hf : f.Within root) (hc : c ∈ f.children)
    (hopen : openChild f outer c index tag = (frames, s)) : s.SitedIn frames := by
  unfold openChild at hopen
  split at hopen
  · rename_i d ht
    cases hopen
    exact ⟨f, rfl, .segment hc ht⟩
  · rename_i l ht
    cases hopen
    obtain ⟨leading, d, rest, hlist, htarget, -⟩ := ha.childrenBy hf.holds hc ht .noMatch
    have hlist : l.children = leading :: rest := hlist
    have hleading : l.leadingSegment? = some d := by
      rw [Loop.leadingSegment?, hlist]
      exact Loop.leadingSegmentOf?_cons htarget
    refine ⟨Frame.ofLoop l (f.path ++ "/" ++ l.id), rfl, ?_⟩
    rw [hleading]
    refine .segment ?_ htarget
    rw [(Frame.opening_ofLoop l _).children_eq, hlist]
    exact List.mem_cons_self

/-! ### One event -/

/-- A finding of an event that leads from `v` to `w` lies at the last segment of `w`, and its path
names something in a loop that is open before or after. -/
structure LiesAt (v : Validator) (e : Event) (w : Validator) (x : Violation) : Prop where
  index_eq : x.location.segmentIndex = w.segmentCount
  tag_eq : x.location.segmentTag = w.lastTag
  path : ∃ f, (f ∈ v.frames ∨ f ∈ w.frames) ∧ f.Names (v.valuesWith e) x.location.schemaPath

theorem missing_names (hx : x ∈ f.missing start stop here) :
    x.location.segmentIndex = here.segmentIndex ∧ x.location.segmentTag = here.segmentTag ∧
      f.Names values x.location.schemaPath := by
  obtain ⟨⟨c, k⟩, hentry, rfl⟩ := List.mem_map.1 hx
  obtain ⟨-, -, hchild⟩ := Frame.mem_indexed_range.1 (List.mem_filter.1 hentry).1
  exact ⟨rfl, rfl, .child (List.mem_of_getElem? hchild)⟩

theorem closeAll_names (hx : x ∈ closeAll frames here) :
    x.location.segmentIndex = here.segmentIndex ∧ x.location.segmentTag = here.segmentTag ∧
      ∃ f ∈ frames, f.Names values x.location.schemaPath := by
  obtain ⟨f, hf, hx⟩ := List.mem_flatMap.1 hx
  obtain ⟨hindex, htag, hnames⟩ := missing_names hx
  exact ⟨hindex, htag, f, hf, hnames⟩

theorem excess_location (hx : x ∈ excess path c count index tag) :
    x.location = Location.ofSegment index tag (path ++ "/" ++ c.id) := by
  unfold excess at hx
  split at hx
  · cases hx
  · rw [List.mem_singleton.1 hx]

/-- A finding about a segment lies at it. -/
theorem LiesAt.of_segment (hx : x.location.whole = s.location) (hindex : s.index = w.segmentCount)
    (htag : w.lastTag = some s.tag) (hf : f ∈ v.frames ∨ f ∈ w.frames)
    (hn : f.Names (v.valuesWith e) s.path) : LiesAt v e w x where
  index_eq := (congrArg Location.segmentIndex hx).trans hindex
  tag_eq := (congrArg Location.segmentTag hx).trans htag.symm
  path := ⟨f, hf, (congrArg Location.schemaPath hx) ▸ hn⟩

/-- Reading on inside a segment. -/
theorem Inside.advance_names (h : Inside root v.frames s) (ha : root.Audited)
    (hn : s.SitedIn v.frames) (had : v.advance s complete = (frames, t, found)) :
    t.values = s.values ∧ t.SitedIn frames ∧
      ∀ x ∈ found, x.location.whole = s.location ∨ x.location.whole = t.location := by
  cases hd : decide? v.frames s complete with
  | none =>
      rw [advance_of_none hd] at had
      cases had
      exact ⟨rfl, hn, by simp⟩
  | some d =>
      obtain ⟨frames₁, u, report⟩ := d
      rw [advance_of_some hd] at had
      cases had
      obtain ⟨f, hf, hs⟩ := h.stands
      obtain ⟨f', hf', hn⟩ := hn
      obtain rfl : f' = f := Option.some.inj (hf'.symm.trans hf)
      obtain ⟨outer, hframes⟩ := List.head?_eq_some_iff.1 hf
      rw [hframes] at h hd
      obtain ⟨g, rfl, hdecision⟩ := h.decision ha hd
      obtain ⟨flagged, hchecked⟩ := u.checkNew_fst v.version v.config.validateCodeValues
      have hvalues : u.values = s.values := by
        rw [(decides_of_decide? hd).segment_eq]
        rfl
      rw [hchecked]
      -- The decision is reported where the segment stood, and values are checked where it stands.
      refine ⟨hvalues, ⟨g, rfl, hdecision.names hs hn⟩, fun x hx => ?_⟩
      rcases List.mem_append.1 hx with hx | hx
      · exact .inl (hdecision.location x hx)
      · exact .inr (checkNew_location u _ _ x hx)

theorem Sited.push (hv : Sited v) (hs : v.segment = some s) (value : ElementValue) :
    (s.push value).SitedIn v.frames := by
  obtain ⟨f, hf, hn⟩ := hv s hs
  refine ⟨f, hf, hn.mono ?_⟩
  rw [OpenSegment.values_push]
  exact List.prefix_append _ _

theorem Effect.sited (h : Effect v e w raw) (ha : v.schema.root.Audited) (hp : Phase v)
    (hv : Sited v) : Sited w := by
  cases h with
  | start hw =>
      intro s hs
      rw [hp.segment_of_awaiting hw] at hs
      cases hs
  | @take tag m frames s found ho hs hm ht =>
      intro s' hs'
      cases hs'
      obtain ⟨hstack, -⟩ := hp.between_of ho hs
      obtain ⟨hframe, -, hchild⟩ := (locate?_eq_some.1 hm).within hstack.within
      exact openChild_names ha (f := m.frame.enter m.index) hframe hchild (Prod.mk.inj ht).1
  | @skip tag ho hs hm =>
      intro s' hs'
      cases hs'
      obtain ⟨hstack, -⟩ := hp.between_of ho hs
      obtain ⟨f, outer, hframes⟩ := List.exists_cons_of_ne_nil hstack.ne_nil
      have hpath : (v.skipped tag).path = f.path := by simp [skipped, hframes]
      refine ⟨f, by simp [hframes, counting], ?_⟩
      rw [hpath]
      exact .loop
  | mark => exact hv
  | @value x _ s _ _ _ hs had =>
      obtain ⟨-, hi, -, -⟩ := hp.inside_of hs
      have hi : Inside v.schema.root v.frames (s.push x) := hi.congr rfl rfl rfl rfl
      intro s' hs'
      cases hs'
      exact (hi.advance_names ha (hv.push hs x) had).2.1
  | close =>
      intro s' hs'
      cases hs'
  | finish _ hs =>
      intro s hs'
      rw [hs] at hs'
      cases hs'

/-- What is found inside a segment lies at it, before or after what is undecided is decided. -/
theorem Inside.liesAt (h : Inside v.schema.root v.frames s) (ha : v.schema.root.Audited)
    (hk : Kept v s) (hvalues : v.valuesWith e = s.values) (hn : s.SitedIn v.frames)
    (had : v.advance s complete = (frames, t, found)) (hframes : w.frames = frames)
    (hcount : w.segmentCount = v.segmentCount) (htag : w.lastTag = v.lastTag) :
    ∀ x ∈ found ++ t.missingElements, LiesAt v e w x := by
  obtain ⟨-, hk', -⟩ := h.advance ha hk had
  obtain ⟨htvalues, ⟨g, hg, hgn⟩, hlocation⟩ := h.advance_names ha hn had
  obtain ⟨f, hf, hfn⟩ := hn
  intro x hx
  have hx : x.location.whole = s.location ∨ x.location.whole = t.location := by
    rcases List.mem_append.1 hx with hx | hx
    · exact hlocation x hx
    · exact .inr (missingElements_location t x hx)
  rcases hx with hx | hx
  · refine .of_segment hx (hk.index_eq.trans hcount.symm) (htag.trans hk.lastTag)
      (.inl (List.mem_of_head? hf)) ?_
    rwa [hvalues]
  · refine .of_segment (f := g) hx (hk'.index_eq.trans hcount.symm) (htag.trans hk'.lastTag)
      (.inr ?_) ?_
    · rw [hframes]
      exact List.mem_of_head? hg
    · rwa [hvalues, ← htvalues]

/-- What is found when a tag is taken is about loops that were open before. -/
theorem Match.liesAt {m : Match} (hm : locate? tag v.frames = some m)
    (ht : m.take (v.counting tag).here (v.segmentCount + 1) tag = ((frames, s), found))
    (hcount : w.segmentCount = v.segmentCount + 1) (htag : w.lastTag = some tag) :
    ∀ x ∈ found, LiesAt v e w x := by
  obtain ⟨-, rfl⟩ := Match.take_eq ht
  have hm := locate?_eq_some.1 hm
  have hframe : m.frame ∈ v.frames := by simp [hm.frames_eq]
  intro x hx
  rcases List.mem_append.1 hx with hx | hx
  · rcases List.mem_append.1 hx with hx | hx
    · obtain ⟨hindex, hlast, f, hf, hnames⟩ := closeAll_names hx
      exact ⟨hindex.trans hcount.symm, hlast.trans htag.symm, f,
        .inl (by simp [hm.frames_eq, hf]), hnames⟩
    · obtain ⟨hindex, hlast, hnames⟩ := missing_names hx
      exact ⟨hindex.trans hcount.symm, hlast.trans htag.symm, m.frame, .inl hframe, hnames⟩
  · have hlocation := excess_location hx
    have hchild := List.mem_of_getElem? (Frame.childFrom?_eq_some.1 hm.found).2.1
    refine ⟨?_, ?_, m.frame, .inl hframe, ?_⟩
    · rw [hlocation, hcount]
      rfl
    · rw [hlocation, htag]
      rfl
    · rw [hlocation]
      exact .child hchild

/-- Everything that an event finds lies at the segment at which it leaves the validator. -/
theorem Effect.liesAt (h : Effect v e w raw) (ha : v.schema.root.Audited) (hp : Phase v)
    (hv : Sited v) : ∀ x ∈ raw, LiesAt v e w x := by
  cases h with
  | start | mark => simp
  | take ho hs hm ht => exact Match.liesAt hm ht rfl rfl
  | @skip tag ho hs hm =>
      intro x hx
      obtain ⟨hstack, -⟩ := hp.between_of ho hs
      obtain ⟨f, outer, hframes⟩ := List.exists_cons_of_ne_nil hstack.ne_nil
      have hf : f ∈ v.frames := by simp [hframes]
      rw [List.mem_singleton.1 hx]
      refine ⟨rfl, rfl, f, .inl hf, ?_⟩
      have hpath : (misplaced v.schema v.frames (v.segmentCount + 1) tag).location.schemaPath =
          f.path := by simp [misplaced, hframes, Location.ofSegment]
      rw [hpath]
      exact .loop
  | @value x frames s t found ho hs had =>
      obtain ⟨-, hi, hk, -⟩ := hp.inside_of hs
      have hi : Inside v.schema.root v.frames (s.push x) := hi.congr rfl rfl rfl rfl
      have hvalues : v.valuesWith (.element x) = (s.push x).values := by
        simp [valuesWith, hs, Event.value?]
      have hfound := hi.liesAt (w := { v with frames, segment := some t }) ha (hk.push x) hvalues
        (hv.push hs x) had rfl rfl rfl
      exact fun y hy => hfound y (List.mem_append_left _ hy)
  | @close frames s t found ho hs had =>
      obtain ⟨-, hi, hk, -⟩ := hp.inside_of hs
      have hvalues : v.valuesWith .segmentEnd = s.values := by simp [valuesWith, hs, Event.value?]
      exact hi.liesAt ha hk hvalues (hv s hs) had rfl rfl rfl
  | finish ho hs =>
      intro x hx
      obtain ⟨hindex, htag, f, hf, hnames⟩ := closeAll_names hx
      exact ⟨hindex, htag, f, .inl hf, hnames⟩

theorem Reachable.sited (h : Reachable schema config v) (ha : schema.root.Audited) : Sited v := by
  induction h with
  | new | reset => nofun
  | @handle v v' e found hv h ih =>
      obtain ⟨w, raw, he, -, errors, rfl | ⟨-, rfl⟩⟩ := handle_ok h
      · rw [← hv.within.1] at ha
        exact he.sited ha (hv.phase (hv.within.1 ▸ ha)) ih
      · nofun

/-- What is returned lies where it was found. -/
theorem Reachable.liesAt (h : Reachable schema config v) (ha : schema.root.Audited)
    (he : v.handle e = .ok (v', found)) :
    ∃ w raw, Effect v e w raw ∧ Judged w raw v' found ∧ ∀ x ∈ found, LiesAt v e w x := by
  obtain ⟨w, raw, heffect, hjudged⟩ := handle_ok he
  refine ⟨w, raw, heffect, hjudged, fun x hx => ?_⟩
  rw [hjudged.1] at hx
  obtain ⟨y, hy, rfl⟩ := List.mem_map.1 hx
  have hroot : v.schema.root.Audited := h.within.1 ▸ ha
  obtain ⟨hindex, htag, hpath⟩ := heffect.liesAt hroot (h.phase ha) (h.sited ha) y hy
  exact ⟨hindex, htag, hpath⟩

/-! ### Many events -/

/-- What a validator counts are the segments that have been accepted. -/
structure Counts (v : Validator) (tags : List String) : Prop where
  count_eq : v.segmentCount = tags.length
  last_eq : v.lastTag = tags.getLast?
  awaiting : v.state = .awaitingInterchange → tags = []

theorem Effect.counts (h : Effect v e w raw) (hv : Counts v tags) :
    Counts w (e.startedTags tags) ∧ tags.length ≤ (e.startedTags tags).length := by
  cases h with
  | start hw =>
      -- Nothing has been counted before, so there is nothing to forget.
      obtain rfl := hv.awaiting hw
      exact ⟨⟨hv.count_eq, hv.last_eq, nofun⟩, Nat.le_refl _⟩
  | take | skip =>
      refine ⟨⟨?_, ?_, fun h => absurd h (stateOf_started _)⟩, ?_⟩
      · simp [Event.startedTags, counting, hv.count_eq]
      · simp [Event.startedTags, counting]
      · simp [Event.startedTags]
  | mark ho _ hi =>
      have htags : e.startedTags tags = tags := by
        cases e <;> first | rfl | cases hi
      rw [htags]
      exact ⟨hv, Nat.le_refl _⟩
  | value ho | close ho =>
      exact ⟨⟨hv.count_eq, hv.last_eq, fun h => absurd h ho.started⟩, Nat.le_refl _⟩
  | finish => exact ⟨⟨hv.count_eq, hv.last_eq, nofun⟩, Nat.le_refl _⟩

theorem Counts.judged (h : Counts w tags) (hjudged : Judged w raw v' found) : Counts v' tags := by
  obtain ⟨-, errors, rfl | ⟨-, rfl⟩⟩ := hjudged
  · exact ⟨h.count_eq, h.last_eq, h.awaiting⟩
  · exact ⟨h.count_eq, h.last_eq, nofun⟩

/-- The violations that have been returned lie at segments that have been accepted, in order. -/
structure Ordered (tags : List String) (past : List Violation) : Prop where
  behind : ∀ x ∈ past, x.location.segmentIndex ≤ tags.length
  pairwise : past.Pairwise fun x y => x.location.segmentIndex ≤ y.location.segmentIndex

theorem ordered_nil (tags : List String) : Ordered tags [] := ⟨by simp, .nil⟩

theorem Ordered.append {tags' : List String} (h : Ordered tags past)
    (hle : tags.length ≤ tags'.length)
    (hfound : ∀ x ∈ found, x.location.segmentIndex = tags'.length) :
    Ordered tags' (past ++ found) where
  behind x hx := by
    rcases List.mem_append.1 hx with hx | hx
    · exact Nat.le_trans (h.behind x hx) hle
    · exact Nat.le_of_eq (hfound x hx)
  pairwise := by
    refine List.pairwise_append.2 ⟨h.pairwise, ?_, fun x hx y hy => ?_⟩
    · refine List.pairwise_of_forall_mem_list fun x hx y hy => ?_
      exact Nat.le_of_eq ((hfound x hx).trans (hfound y hy).symm)
    · rw [hfound y hy]
      exact Nat.le_trans (h.behind x hx) hle

/-- Calls keep this, also those that are refused. -/
theorem Counts.calls (hr : Reachable schema config v) (ha : schema.root.Audited)
    (h : Counts v tags) (hpast : Ordered tags past) (cs : List Call) :
    Counts (v.calls cs) (v.startedTags tags cs) ∧
      Ordered (v.startedTags tags cs) (v.returned past cs) := by
  induction cs generalizing v tags past with
  | nil => exact ⟨h, hpast⟩
  | cons c cs ih =>
      cases c with
      | reset => exact ih hr.reset ⟨rfl, rfl, fun _ => rfl⟩ (ordered_nil [])
      | event e =>
          have hcalls : v.calls (.event e :: cs) = (v.call (.event e)).calls cs := rfl
          rw [hcalls, call, startedTags, returned]
          cases hhandle : v.handle e with
          | error _ => exact ih hr h hpast
          | ok r =>
              obtain ⟨w, raw, he, hjudged, hlies⟩ := hr.liesAt ha hhandle
              obtain ⟨hw, hle⟩ := he.counts h
              refine ih (hr.handle hhandle) (hw.judged hjudged) (hpast.append hle fun x hx => ?_)
              exact (hlies x hx).index_eq.trans hw.count_eq

/-- Every violation lies at the segment that is being processed: its number is that of the segments
accepted since the interchange started, the one at hand included, and its tag is that of the last of
them. So the numbers never decrease. Its path names something in a loop that is open before the
event, or after it unless validation ends. -/
theorem violations_located (hb : schema.Bound) (config : Config) (cs : List Call) :
    let new : Validator := { schema, config }
    let v := new.calls cs
    (new.returned [] cs).Pairwise
        (fun x y => x.location.segmentIndex ≤ y.location.segmentIndex) ∧
      ∀ e v' found, v.handle e = .ok (v', found) →
        let tags := e.startedTags (new.startedTags [] cs)
        ∃ w raw, Effect v e w raw ∧ Judged w raw v' found ∧
          ∀ x ∈ found, x.location.segmentIndex = tags.length ∧
            x.location.segmentTag = tags.getLast? ∧
            ∃ f, (f ∈ v.frames ∨ f ∈ w.frames) ∧
              f.Names (v.valuesWith e) x.location.schemaPath := by
  intro new v
  have hr : Reachable schema config new := .new
  have hnew : Counts new [] := ⟨rfl, rfl, fun _ => rfl⟩
  obtain ⟨hcounts, hordered⟩ := hnew.calls hr hb.audited (ordered_nil []) cs
  refine ⟨hordered.pairwise, fun e v' found he => ?_⟩
  obtain ⟨w, raw, heffect, hjudged, hlies⟩ := (hr.calls cs).liesAt hb.audited he
  obtain ⟨hw, -⟩ := heffect.counts hcounts
  refine ⟨w, raw, heffect, hjudged, fun x hx => ?_⟩
  obtain ⟨hindex, htag, hpath⟩ := hlies x hx
  exact ⟨hindex.trans hw.count_eq, htag.trans hw.last_eq, hpath⟩

/-- The implementation is selected in the second segment, and its path is that of a value that it
does not declare. -/
theorem violations_located_paired :
    let new : Validator := { schema := pairedSchema, config := {} }
    let calls : List Call := [.event (.interchangeStart none), .event (.segmentStart "A"),
      .event .segmentEnd, .event (.segmentStart "A"), .event (.element ⟨⟨1, none⟩, 0, "x"⟩)]
    ∃ v' found, (new.calls calls).handle (.element ⟨⟨3, none⟩, 0, "z"⟩) = .ok (v', found) ∧
      (new.returned [] calls).map (·.location.schemaPath) = ["ROOT/A"] ∧
      found.map (·.location.schemaPath) = ["ROOT/A[X]"] ∧
      ∀ x ∈ found, x.location.segmentIndex = 2 ∧ x.location.segmentTag = some "A" := by
  intro new calls
  obtain ⟨-, hevent⟩ := violations_located pairedSchema_bound {} calls
  have htags : new.startedTags [] calls = ["A", "A"] := by decide +kernel
  have hreturned : (new.returned [] calls).map (·.location.schemaPath) = ["ROOT/A"] := by
    decide +kernel
  have hpaths : ((new.calls calls).handle (.element ⟨⟨3, none⟩, 0, "z"⟩)).toOption.map
      (fun r => r.2.map (·.location.schemaPath)) = some ["ROOT/A[X]"] := by decide +kernel
  cases he : (new.calls calls).handle (.element ⟨⟨3, none⟩, 0, "z"⟩) with
  | error err =>
      rw [he] at hpaths
      cases hpaths
  | ok r =>
      obtain ⟨w, raw, -, -, hlies⟩ := hevent _ r.1 r.2 he
      rw [he] at hpaths
      refine ⟨r.1, r.2, rfl, hreturned, Option.some.inj hpaths, fun x hx => ?_⟩
      obtain ⟨hindex, htag, -⟩ := hlies x hx
      rw [htags] at hindex htag
      exact ⟨hindex, htag⟩

end Validator

end Interchange
