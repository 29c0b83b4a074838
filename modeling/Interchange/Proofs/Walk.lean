import Interchange.Proofs.Language
import Interchange.Proofs.Reading

/-!
# The walk of open loops through a document

The open loops stand for what may still come: the innermost loop for the rest of its
children, then the loop around it, and so on (`Accepts`). A segment that is taken without a
report leads from what was to come before it to what is to come after it, in both directions:

* whatever may come after the segment may come, with the segment, before it
  (`Match.Leads.accepts`);
* when the segment may come next, its tag is taken where it should be and nothing is reported
  (`Accepts.step`). This is where reading without going back is right: the children of a list
  can be told by their tags, and the tags inside a loop do not occur after it
  (`Loop.Separated`).
-/

namespace Interchange.Validator

variable {choose : Choice} {root l : Loop} {frames frames' outer : List Frame} {f g : Frame}
  {c child : Child} {m : Match} {tag : String} {p : Passage} {ps inner rest : List Passage}
  {selection : Selection} {i j k : Nat}

/-! ### Frames -/

namespace Frame

@[simp] theorem enter_children (f : Frame) (j : Nat) : (f.enter j).children = f.children := rfl

@[simp] theorem enter_cursor (f : Frame) (j : Nat) : (f.enter j).cursor = j := rfl

/-- Every child is counted, and those ahead of the cursor have not occurred. -/
structure Tidy (f : Frame) : Prop where
  counted : f.counts.length = f.children.length
  ahead : ∀ k, f.cursor < k → f.count k = 0

theorem count_enter_self (h : j < f.counts.length) : (f.enter j).count j = f.count j + 1 := by
  simp [enter, count, h]

theorem count_enter_of_ne (h : k ≠ j) : (f.enter j).count k = f.count k := by
  unfold enter count
  rw [List.getElem?_set_ne (Ne.symm h)]

theorem Tidy.enter (h : f.Tidy) (hj : f.cursor ≤ j) : (f.enter j).Tidy where
  counted := by
    rw [enter_children, ← h.counted]
    exact List.length_set
  ahead k hk := by
    rw [enter_cursor] at hk
    rw [count_enter_of_ne (by omega)]
    exact h.ahead k (by omega)

theorem count_ofRoot (root : Loop) (k : Nat) : (Frame.ofRoot root).count k = 0 := by
  unfold count
  simp only [ofRoot, List.getElem?_map]
  cases root.children[k]? <;> rfl

theorem tidy_ofRoot (root : Loop) : (Frame.ofRoot root).Tidy where
  counted := List.length_map _
  ahead k _ := count_ofRoot root k

/-- The frame of an occurrence whose leading segment has been read. -/
structure Opening (l : Loop) (cs : List Child) (f : Frame) : Prop where
  loop_eq : f.loop = l
  children_eq : f.children = cs
  cursor_eq : f.cursor = 0
  counts_eq : f.counts = opened cs

theorem opening_ofLoop (l : Loop) (path : String) :
    Opening l l.children (Frame.ofLoop l path) := by
  refine ⟨rfl, ?_, rfl, rfl⟩
  unfold children ofLoop
  dsimp only
  split
  · rename_i h
    split at h <;> cases h
  all_goals rfl

theorem opening_settled (l : Loop) (path : String) (selection : Selection) :
    Opening l (l.childrenBy selection) ((Frame.ofLoop l path).settled selection) := by
  cases selection with
  | resolved index =>
      simp only [settled, Loop.childrenBy]
      rw [show (Frame.ofLoop l path).loop = l from rfl]
      cases hi : l.implementations[index]? with
      | none => exact opening_ofLoop l path
      | some i =>
          refine ⟨rfl, ?_, rfl, rfl⟩
          simp only [children, hi, Option.map_some, Option.getD_some]
  | noMatch => exact ⟨rfl, rfl, rfl, rfl⟩
  | unresolved => exact ⟨rfl, rfl, rfl, rfl⟩

theorem Opening.count_zero {cs : List Child} (h : Opening l (c :: cs) f) : f.count 0 = 1 := by
  unfold count
  rw [h.counts_eq]
  rfl

theorem Opening.tidy {cs : List Child} (h : Opening l cs f) : f.Tidy where
  counted := by
    rw [h.counts_eq, h.children_eq]
    cases cs with
    | nil => rfl
    | cons c cs => simp [opened]
  ahead k hk := by
    rw [h.cursor_eq] at hk
    obtain ⟨k, rfl⟩ : ∃ n, k = n + 1 := ⟨k - 1, by omega⟩
    unfold count
    rw [h.counts_eq]
    cases cs with
    | nil => rfl
    | cons c cs =>
        simp only [opened, List.getElem?_cons_succ, List.getElem?_map]
        cases cs[k]? <;> rfl

end Frame

/-! ### Open loops are nested -/

/-- An open loop is inside the child at which an outer one stands. -/
def Frame.Under (inner outer : Frame) : Prop :=
  ∃ c l, outer.children[outer.cursor]? = some c ∧ c.target = .loop l ∧
    ∀ cs ∈ inner.loop.lists, l.Holds cs

/-- What holds of the open loops between two segments. -/
structure Nested (root : Loop) (frames : List Frame) : Prop where
  within : ∀ f ∈ frames, f.Within root
  tidy : ∀ f ∈ frames, f.Tidy
  under : frames.Pairwise Frame.Under

theorem nested_ofRoot (root : Loop) : Nested root [Frame.ofRoot root] where
  within f hf := by
    obtain rfl := List.mem_singleton.1 hf
    exact fun cs hcs => .own hcs
  tidy f hf := by
    obtain rfl := List.mem_singleton.1 hf
    exact Frame.tidy_ofRoot root
  under := List.pairwise_singleton _ _

theorem Nested.of_append (h : Nested root (frames' ++ frames)) : Nested root frames where
  within f hf := h.within f (List.mem_append_right _ hf)
  tidy f hf := h.tidy f (List.mem_append_right _ hf)
  under := (List.pairwise_append.1 h.under).2.1

theorem Nested.tail (h : Nested root (f :: outer)) : Nested root outer :=
  Nested.of_append (show Nested root ([f] ++ outer) from h)

/-- The open loops after a segment has been read where its tag is taken. -/
inductive Match.Leads (choose : Choice) (m : Match) (p : Passage) : List Frame → Prop
  | segment {s : Segment} (ht : m.child.target = .segment s) :
      Match.Leads choose m p (m.frame.enter m.index :: m.outer)
  | loop {l : Loop} {path : String} (ht : m.child.target = .loop l) :
      Match.Leads choose m p
        ((Frame.ofLoop l path).settled (choose l.implementations p.values) ::
          m.frame.enter m.index :: m.outer)

theorem Located.cursor_le (h : Located tag frames m) : m.frame.cursor ≤ m.index :=
  Nat.le_trans (cursor_le_startOf _ _) (Frame.childFrom?_eq_some.1 h.found).1

/-- The loops stay nested. -/
theorem Match.Leads.nested (hl : m.Leads choose p frames') (hm : Located tag frames m)
    (hn : Nested root frames) : Nested root frames' := by
  obtain ⟨-, hchild, -, -⟩ := Frame.childFrom?_eq_some.1 hm.found
  have hmem := List.mem_of_getElem? hchild
  have hcursor := hm.cursor_le
  rw [hm.frames_eq] at hn
  have hn := hn.of_append
  have hframe := hn.within _ List.mem_cons_self
  have hunder := List.pairwise_cons.1 hn.under
  have hentered : Nested root (m.frame.enter m.index :: m.outer) := by
    refine ⟨fun g hg => ?_, fun g hg => ?_, List.pairwise_cons.2 ⟨hunder.1, hunder.2⟩⟩
    · rcases List.mem_cons.1 hg with rfl | hg
      · exact hframe
      · exact hn.within g (List.mem_cons_of_mem _ hg)
    · rcases List.mem_cons.1 hg with rfl | hg
      · exact (hn.tidy _ List.mem_cons_self).enter hcursor
      · exact hn.tidy g (List.mem_cons_of_mem _ hg)
  cases hl with
  | segment => exact hentered
  | @loop l path ht =>
      have hopening := Frame.opening_settled l path (choose l.implementations p.values)
      refine ⟨fun g hg => ?_, fun g hg => ?_, List.pairwise_cons.2 ⟨fun g hg => ?_,
        hentered.under⟩⟩
      · rcases List.mem_cons.1 hg with rfl | hg
        · unfold Frame.Within
          rw [hopening.loop_eq]
          exact fun cs hcs => hframe.holds.inside hmem ht hcs
        · exact hentered.within g hg
      · rcases List.mem_cons.1 hg with rfl | hg
        · exact hopening.tidy
        · exact hentered.tidy g hg
      · unfold Frame.Under
        rw [hopening.loop_eq]
        rcases List.mem_cons.1 hg with rfl | hg
        · exact ⟨m.child, l, hchild, ht, fun cs hcs => .own hcs⟩
        · obtain ⟨c, l', hc, htc, hlists⟩ := hunder.1 g hg
          exact ⟨c, l', hc, htc, fun cs hcs =>
            (hlists _ m.frame.children_mem_lists).inside hmem ht hcs⟩

/-! ### What may come next -/

/-- What is still to come in the occurrence of a loop: its children from the first that a tag
can start on. -/
structure Frame.Rest (choose : Choice) (f : Frame) (outer : List Frame) (ps : List Passage) :
    Prop where
  met : f.Met f.cursor (startOf f outer)
  fills : Fills choose f.count (startOf f outer) (f.children.drop (startOf f outer)) ps

/-- What may come while loops are open: the rest of the innermost one, then the rest of the loop
around it, and so on. -/
def Accepts (choose : Choice) : List Frame → List Passage → Prop
  | [], ps => ps = []
  | f :: outer, ps =>
      ∃ inner rest, ps = inner ++ rest ∧ f.Rest choose outer inner ∧ Accepts choose outer rest

theorem Frame.Met.mono {start stop start' stop' : Nat} (h : f.Met start stop)
    (hstart : start ≤ start') (hstop : stop' ≤ stop) : f.Met start' stop' :=
  fun k c hk hk' hc => h k c (by omega) (by omega) hc

theorem Frame.rest_nil_iff :
    f.Rest choose outer [] ↔ f.Met f.cursor f.children.length := by
  have hstart := cursor_le_startOf f outer
  constructor
  · intro h k c hk hlt hc
    have hfills := fills_nil_iff.1 h.fills
    by_cases hbefore : k < startOf f outer
    · exact h.met k c hk hbefore hc
    · have hnext := hfills (k - startOf f outer) c (by
        rwa [List.getElem?_drop, show startOf f outer + (k - startOf f outer) = k by omega])
      rwa [show startOf f outer + (k - startOf f outer) = k by omega] at hnext
  · intro h
    have hmet {k : Nat} {c : Child} (hk : f.cursor ≤ k) (hc : f.children[k]? = some c) :
        c.minOccurs ≤ f.count k := h k c hk (List.getElem?_eq_some_iff.1 hc).1 hc
    refine ⟨fun k c hk _ hc => hmet hk hc, fills_nil_iff.2 fun i c hc => ?_⟩
    rw [List.getElem?_drop] at hc
    exact hmet (by omega) hc

/-- Nothing more has to come when nothing is missing. -/
theorem accepts_nil_iff :
    Accepts choose frames [] ↔ ∀ f ∈ frames, f.Met f.cursor f.children.length := by
  induction frames with
  | nil => simp [Accepts]
  | cons f outer ih =>
      rw [List.forall_mem_cons]
      constructor
      · rintro ⟨inner, rest, hnil, hrest, houter⟩
        obtain ⟨rfl, rfl⟩ := List.append_eq_nil_iff.1 hnil.symm
        exact ⟨Frame.rest_nil_iff.1 hrest, ih.1 houter⟩
      · rintro ⟨hmet, houter⟩
        exact ⟨[], [], rfl, Frame.rest_nil_iff.2 hmet, ih.2 houter⟩

theorem Accepts.append (h : Accepts choose outer ps)
    (hmet : ∀ f ∈ frames, f.Met f.cursor f.children.length) :
    Accepts choose (frames ++ outer) ps := by
  induction frames with
  | nil => exact h
  | cons f frames ih =>
      obtain ⟨hf, hmet⟩ := List.forall_mem_cons.1 hmet
      exact ⟨[], ps, rfl, Frame.rest_nil_iff.2 hf, ih hmet⟩

/-- At the start of a document its language is still to come. -/
theorem accepts_ofRoot : Accepts choose [Frame.ofRoot root] ps ↔ root.Allows choose ps := by
  have hderives : Fills choose (Frame.ofRoot root).count 0 root.children ps ↔
      Derives choose (.children root.children) ps :=
    fills_iff_derives fun i _ => Frame.count_ofRoot root i
  constructor
  · rintro ⟨inner, rest, rfl, hrest, rfl⟩
    rw [List.append_nil] at hderives ⊢
    exact hderives.1 hrest.fills
  · intro h
    refine ⟨ps, [], (List.append_nil ps).symm, ⟨fun k c hk hk' => ?_, hderives.2 h⟩, rfl⟩
    exact absurd hk' (Nat.not_lt_of_le hk)

/-! ### Steps without a report -/

/-- Taking a tag here reports nothing. -/
structure Match.Clean (m : Match) : Prop where
  closed : ∀ f ∈ m.closed, f.Met f.cursor f.children.length
  passed : m.frame.Met m.frame.cursor m.index
  allowed : m.child.maxOccurs.allows (m.frame.count m.index + 1) = true

theorem startOf_enter (h : startOf f outer ≤ j) : startOf (f.enter j) outer = j := by
  unfold startOf at h ⊢
  rw [Frame.enter_cursor]
  split
  · rfl
  · rename_i ho
    rw [if_neg ho] at h
    omega

/-- The counts after entering a child, as `Fills` uses them. -/
theorem count_enter (ht : f.Tidy) (hc : f.children[j]? = some c) :
    (f.enter j).count j = f.count j + 1 ∧
      ∀ k, j < k → (f.enter j).count k = f.count k := by
  have hlt := (List.getElem?_eq_some_iff.1 hc).1
  rw [← ht.counted] at hlt
  exact ⟨Frame.count_enter_self hlt, fun k hk => Frame.count_enter_of_ne (by omega)⟩

/-- What may come after an occurrence of a child may come, with that occurrence, before it. -/
theorem Frame.Rest.of_enter (h : (f.enter j).Rest choose outer rest) (ht : f.Tidy)
    (hj : startOf f outer ≤ j) (hc : f.children[j]? = some c) (hmet : f.Met f.cursor j)
    (hmax : c.maxOccurs.allows (f.count j + 1) = true)
    (hfirst : Derives choose (.occurrence c) inner) : f.Rest choose outer (inner ++ rest) := by
  have hstart := cursor_le_startOf f outer
  refine ⟨hmet.mono (Nat.le_refl _) hj, ?_⟩
  obtain ⟨hself, hother⟩ := count_enter ht hc
  have hfills := h.fills
  rw [startOf_enter hj, enter_children] at hfills
  obtain ⟨n, rfl⟩ : ∃ n, j = startOf f outer + n := ⟨j - startOf f outer, by omega⟩
  -- The children before `j` are passed, and then the child at `j` occurs once more.
  refine Fills.skip (j := n) ?_ fun i d hi hd => ?_
  · rw [List.drop_drop]
    refine Fills.take ?_ hfirst hmax hself hother hfills
    rw [List.getElem?_drop, Nat.add_zero, hc]
  · rw [List.getElem?_drop] at hd
    exact hmet _ d (by omega) (by omega) hd

/-- What may come after the leading segment of a loop is the rest of an occurrence. -/
theorem Frame.Opening.rest_iff {cs : List Child} {leading : Child}
    (h : Opening l (leading :: cs) f) :
    f.Rest choose (g :: outer) ps ↔
      leading.minOccurs ≤ 1 ∧ Derives choose (.children cs) ps := by
  have hstart : startOf f (g :: outer) = 1 := by
    simp [startOf, h.cursor_eq]
  have hleading : f.children[0]? = some leading := by
    rw [h.children_eq]
    rfl
  have hfills : Fills choose f.count (startOf f (g :: outer))
      (f.children.drop (startOf f (g :: outer))) ps ↔ Derives choose (.children cs) ps := by
    rw [hstart, h.children_eq, List.drop_succ_cons, List.drop_zero]
    refine fills_iff_derives fun i hi => h.tidy.ahead i ?_
    rw [h.cursor_eq]
    omega
  constructor
  · intro hrest
    have hmet := hrest.met 0 leading (Nat.le_of_eq h.cursor_eq) (by omega) hleading
    rw [h.count_zero] at hmet
    exact ⟨hmet, hfills.1 hrest.fills⟩
  · rintro ⟨hmin, hd⟩
    refine ⟨fun k c hk hk' hc => ?_, hfills.2 hd⟩
    obtain rfl : k = 0 := by omega
    rw [hleading] at hc
    cases hc
    rw [h.count_zero]
    exact hmin

/-- A segment that is taken without a report may come before whatever may come after it. -/
theorem Match.Leads.accepts (hl : m.Leads choose p frames') (hm : Located p.tag frames m)
    (hclean : m.Clean) (ha : root.Audited) (hn : Nested root frames)
    (h : Accepts choose frames' ps) : Accepts choose frames (p :: ps) := by
  obtain ⟨hstart, hchild, hstarts, -⟩ := Frame.childFrom?_eq_some.1 hm.found
  rw [hm.frames_eq] at hn ⊢
  have hn := hn.of_append
  refine Accepts.append ?_ hclean.closed
  have hstarts : m.child.leadingTag? = some p.tag := by
    simpa [Reference.startsWith] using hstarts
  have hrest {inner rest : List Passage} (hfirst : Derives choose (.occurrence m.child) inner)
      (h : (m.frame.enter m.index).Rest choose m.outer rest) :
      m.frame.Rest choose m.outer (inner ++ rest) :=
    h.of_enter (hn.tidy _ List.mem_cons_self) hstart hchild hclean.passed hclean.allowed hfirst
  cases hl with
  | @segment s ht =>
      obtain ⟨inner, rest, rfl, hinner, houter⟩ := h
      have htag : p.tag = s.tag := by
        rw [Reference.leadingTag?, ht] at hstarts
        exact (Option.some.inj hstarts).symm
      exact ⟨[p] ++ inner, rest, by simp, hrest (.segment ht htag) hinner, houter⟩
  | @loop l path ht =>
      obtain ⟨first, rest, rfl, hfirst, inner, rest', rfl, hinner, houter⟩ := h
      have hopening := Frame.opening_settled l path (choose l.implementations p.values)
      obtain ⟨leading, s, cs, hlist, htarget, htag⟩ :=
        ha.childrenBy (hn.within _ List.mem_cons_self).holds (List.mem_of_getElem? hchild) ht
          (choose l.implementations p.values)
      have htag : p.tag = s.tag := by
        rw [Reference.leadingTag?, ht] at hstarts
        exact Option.some.inj (hstarts.symm.trans htag)
      rw [hlist] at hopening
      obtain ⟨hmin, hderives⟩ := hopening.rest_iff.1 hfirst
      exact ⟨p :: first ++ inner, rest', by simp,
        hrest (.loop ht hlist htarget htag hmin hderives) hinner, houter⟩

/-- A tag that the frames around can take is not one of a child inside. -/
theorem Frame.Under.not_taken {start : Nat} {d : Child} (hu : f.Under g)
    (hsep : root.Separated) (hg : g.Within root) (hstart : 1 ≤ start) (hj : g.cursor ≤ j)
    (hd : g.children[j]? = some d) (htag : d.startsWith tag = true) :
    f.childFrom? tag start = none := by
  obtain ⟨c, l, hc, ht, hlists⟩ := hu
  refine Frame.childFrom?_eq_none.2 fun k e hk he => ?_
  cases hstarts : e.startsWith tag with
  | false => rfl
  | true =>
      have hnone := hsep hg.holds hc ht (hlists _ f.children_mem_lists) (by omega) he hstarts hj hd
      rw [htag] at hnone
      cases hnone

/-- The child that comes next is the first that its tag starts: before it no child is
outstanding, so none can be meant by the same tag. -/
theorem childFrom?_of_met (ha : root.Audited) (hf : root.Holds f.children) (ht : f.Tidy)
    {start : Nat} (hstart : f.cursor ≤ start) (hj : start ≤ j) (hc : f.children[j]? = some c)
    (htag : c.startsWith tag = true) (hmet : f.Met start j) :
    f.childFrom? tag start = some (j, c) := by
  refine Frame.childFrom?_eq_some.2 ⟨hj, hc, htag, fun k d hk hlt hd => ?_⟩
  cases hstarts : d.startsWith tag with
  | false => rfl
  | true =>
      -- There would be a required child in between, and none is outstanding.
      obtain ⟨i, e, hki, hij, he, hmin⟩ := ha.unambiguous hf hlt hd hc
        (by simpa [Reference.startsWith] using hstarts)
        (by simpa [Reference.startsWith] using htag)
      have hzero := ht.ahead i (by omega)
      have hshort := hmet i e (by omega) hij he
      omega

/-- What comes next in an occurrence of a loop is an occurrence of the child that its tag is taken
by, and then the rest. -/
theorem Frame.Rest.head (h : f.Rest choose outer (p :: inner)) (ha : root.Audited)
    (hf : f.Within root) (ht : f.Tidy) :
    ∃ j c first rest, f.childFrom? p.tag (startOf f outer) = some (j, c) ∧ f.Met f.cursor j ∧
      c.maxOccurs.allows (f.count j + 1) = true ∧ Derives choose (.occurrence c) (p :: first) ∧
      inner = first ++ rest ∧ (f.enter j).Rest choose outer rest := by
  obtain ⟨n, c, first, rest, hc, hbefore, hmax, hfirst, rfl, hcount⟩ := h.fills.head
  rw [List.getElem?_drop] at hc
  have hmet : f.Met (startOf f outer) (startOf f outer + n) := by
    intro k d hk hlt hd
    have hoften := hbefore (k - startOf f outer) d (by omega) (by
      rwa [List.getElem?_drop, show startOf f outer + (k - startOf f outer) = k by omega])
    rwa [show startOf f outer + (k - startOf f outer) = k by omega] at hoften
  have hpassed : f.Met f.cursor (startOf f outer + n) := by
    intro k d hk hlt hd
    by_cases hk' : k < startOf f outer
    · exact h.met k d hk hk' hd
    · exact hmet k d (by omega) hlt hd
  have hstarts := hfirst.startsWith ha hf.holds (List.mem_of_getElem? hc)
  have hfound := childFrom?_of_met ha hf.holds ht (cursor_le_startOf f outer) (by omega) hc
    hstarts hmet
  obtain ⟨hself, hother⟩ := count_enter ht hc
  have hindex : startOf (f.enter (startOf f outer + n)) outer = startOf f outer + n :=
    startOf_enter (by omega)
  refine ⟨startOf f outer + n, c, first, rest, hfound, hpassed, hmax, hfirst, rfl, ?_, ?_⟩
  · intro k d hk hk'
    rw [hindex] at hk'
    exact absurd hk' (Nat.not_lt_of_le hk)
  · rw [hindex, Frame.enter_children, ← List.drop_drop]
    exact hcount _ hself hother

/-- After the first segment of an occurrence come the rest of the occurrence, the rest of the
loop and what comes after it. -/
theorem Match.Leads.accepts_of_occurrence {first : List Passage} (hl : m.Leads choose p frames')
    (hfirst : Derives choose (.occurrence m.child) (p :: first))
    (hinner : (m.frame.enter m.index).Rest choose m.outer inner)
    (houter : Accepts choose m.outer rest) :
    Accepts choose frames' (first ++ (inner ++ rest)) := by
  cases hl with
  | segment ht =>
      cases hfirst with
      | segment => exact ⟨inner, rest, rfl, hinner, houter⟩
      | loop ht' =>
          rw [ht] at ht'
          cases ht'
  | @loop l path ht =>
      cases hfirst with
      | segment ht' =>
          rw [ht] at ht'
          cases ht'
      | loop ht' hlist _ _ hmin hderives =>
          rw [ht] at ht'
          cases ht'
          have hopening := Frame.opening_settled l path (choose l.implementations p.values)
          rw [hlist] at hopening
          exact ⟨first, inner ++ rest, rfl, hopening.rest_iff.2 ⟨hmin, hderives⟩,
            inner, rest, rfl, hinner, houter⟩

/-- A segment that may come next is taken without a report, and what may come after it is still
to come then. -/
theorem Accepts.step (h : Accepts choose frames (p :: ps)) (ha : root.Audited)
    (hsep : root.Separated) (hn : Nested root frames) :
    ∃ m, Located p.tag frames m ∧ m.Clean ∧
      ∀ frames', m.Leads choose p frames' → Accepts choose frames' ps := by
  induction frames with
  | nil => cases h
  | cons f outer ih =>
      obtain ⟨inner, rest, hsplit, hrest, houter⟩ := h
      cases inner with
      | nil =>
          -- The loop is over. Its tags cannot be those of what comes next, so that what takes
          -- the tag in the loops around takes it here as well.
          cases hsplit
          obtain ⟨m, hm, hclean, haccepts⟩ := ih houter hn.tail
          obtain ⟨-, hchild, hstarts, -⟩ := Frame.childFrom?_eq_some.1 hm.found
          have hmem : m.frame ∈ outer := by
            rw [hm.frames_eq]
            simp
          have hnone : f.childFrom? p.tag (max f.cursor 1) = none :=
            ((List.pairwise_cons.1 hn.under).1 m.frame hmem).not_taken hsep
              (hn.tail.within m.frame hmem) (Nat.le_max_right _ _) hm.cursor_le hchild hstarts
          refine ⟨{ m with closed := f :: m.closed }, hm.cons hnone,
            ⟨?_, hclean.passed, hclean.allowed⟩, fun frames' hl => haccepts frames' ?_⟩
          · exact List.forall_mem_cons.2 ⟨Frame.rest_nil_iff.1 hrest, hclean.closed⟩
          · cases hl with
            | segment ht => exact .segment ht
            | loop ht => exact .loop ht
      | cons q inner =>
          cases hsplit
          obtain ⟨j, c, first, others, hfound, hpassed, hmax, hfirst, rfl, hentered⟩ :=
            hrest.head ha (hn.within f List.mem_cons_self) (hn.tidy f List.mem_cons_self)
          refine ⟨⟨[], f, outer, j, c⟩, ⟨rfl, hfound, by simp⟩, ⟨by simp, hpassed, hmax⟩,
            fun frames' hl => ?_⟩
          show Accepts choose frames' (first ++ others ++ rest)
          rw [List.append_assoc]
          exact hl.accepts_of_occurrence hfirst hentered houter

end Interchange.Validator
