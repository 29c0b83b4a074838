import Interchange.Proofs.Definitions

/-!
# What binding refuses

A tree is `Malformed` when a loop in it cannot be told by its first segment or an implementation
does not fit what it implements, and `Ambiguous` when one tag can start either of two children or
one position does not tell implementations apart. Binding answers exactly that, and a tree that is
both is malformed (`bind_classifies`).

What the checks answer together is known (`classifies_bindChecked`), so it is left to see that they
look at the whole tree and at nothing else. Every part has its check (`Covers`). The other way
round each check of the walk `Concerns` a part of the tree, by induction over the walk, and the
walk that enters each definition once makes only checks of the full walk.
-/

namespace Interchange

namespace Loop

/-- The tree of a root loop has a part that cannot be matched against documents. -/
inductive Malformed (root : Loop) : Prop
  /-- The root loop has implementations. -/
  | root (h : root.isPolymorphic = true)
  /-- A loop in a list of children does not start with a segment. -/
  | nested {cs : List Child} {c : Child} {l : Loop} (hcs : root.Holds cs) (hc : c ∈ cs)
      (ht : c.target = .loop l) (h : l.leadingSegment? = none)
  /-- A loop with implementations does not start with a segment, ... -/
  | leading {l : Loop} (hl : root.Contains l) (hpoly : l.isPolymorphic = true)
      (h : l.leadingSegment? = none)
  /-- ... it starts with a segment that has some too, ... -/
  | polymorphicLeading {l : Loop} {s : Segment} (hl : root.Contains l)
      (hpoly : l.isPolymorphic = true) (hs : l.leadingSegment? = some s)
      (h : s.isPolymorphic = true)
  /-- ... or one of them does not start with a segment of the same tag. -/
  | body {l : Loop} {i : Implementation (List Child)} (hl : root.Contains l)
      (hi : i ∈ l.implementations)
      (h : ¬∃ s, leadingSegmentOf? i.body = some s ∧ l.leadingTag? = some s.tag)
  /-- An implementation of a segment has another tag ... -/
  | segmentTag {cs : List Child} {c : Child} {s : Segment} {i : Implementation Segment}
      (hcs : root.Holds cs) (hc : c ∈ cs) (ht : c.target = .segment s)
      (hi : i ∈ s.implementations) (h : i.body.tag ≠ s.tag)
  /-- ... or implementations of its own. -/
  | segmentBody {cs : List Child} {c : Child} {s : Segment} {i : Implementation Segment}
      (hcs : root.Holds cs) (hc : c ∈ cs) (ht : c.target = .segment s)
      (hi : i ∈ s.implementations) (h : i.body.isPolymorphic = true)

/-- The tree of a root loop leaves open what a tag or a value stands for. -/
inductive Ambiguous (root : Loop) : Prop
  /-- One tag starts two children of a list, and none between them is required. -/
  | children {cs : List Child} {i j : Nat} {c d : Child} {tag : String} (hcs : root.Holds cs)
      (hij : i < j) (hc : cs[i]? = some c) (hd : cs[j]? = some d)
      (htc : c.leadingTag? = some tag) (htd : d.leadingTag? = some tag)
      (hbetween : ∀ (k : Nat) (e : Child), i < k → k < j → cs[k]? = some e → e.minOccurs = 0)
  /-- One position does not tell the implementations of a loop apart, ... -/
  | loop {l : Loop} (hl : root.Contains l) (h : Implementation.Clash l.implementations)
  /-- ... or those of a segment. -/
  | segment {cs : List Child} {c : Child} {s : Segment} (hcs : root.Holds cs) (hc : c ∈ cs)
      (ht : c.target = .segment s) (h : Implementation.Clash s.implementations)

theorem ambiguous_of_children {root : Loop} {cs : List Child} (hcs : root.Holds cs)
    (h : ¬Unambiguous cs) : root.Ambiguous := by
  refine Classical.byContradiction fun hnone => h ?_
  intro i j c d tag hij hc hd htc htd
  refine Classical.byContradiction fun hall => hnone ?_
  refine .children hcs hij hc hd htc htd fun k e hik hkj he => ?_
  exact Nat.eq_zero_of_not_pos fun hmin => hall ⟨k, e, hik, hkj, he, hmin⟩

end Loop

namespace Schema

variable {root : Loop}

/-! ### Every part has a check -/

/-- A loop with implementations is not the root of a plain tree, and so a child. -/
theorem child_of_contains {l : Loop} (hroot : ¬root.isPolymorphic = true)
    (hl : root.Contains l) (hpoly : l.isPolymorphic = true) :
    ∃ cs c i, root.Holds cs ∧ c ∈ cs ∧ c.target = .loop l ∧ i ∈ l.implementations := by
  rcases hl with rfl | ⟨cs, c, hcs, hc, ht⟩
  · exact absurd hpoly hroot
  · obtain ⟨i, hi⟩ := Loop.isPolymorphic_iff.1 hpoly
    exact ⟨cs, c, i, hcs, hc, ht, hi⟩

/-- Of a malformed tree some check is faulty. -/
theorem Covers.faulty {checks : List Check} (h : Covers checks root)
    (hroot : ¬root.isPolymorphic = true) (hmalformed : root.Malformed) :
    ∃ check ∈ checks, check.Faulty := by
  cases hmalformed with
  | root hpoly => exact absurd hpoly hroot
  | nested hcs hc ht hnone =>
      obtain ⟨path, hmem⟩ := h.nested hcs hc ht
      exact ⟨_, hmem, hnone⟩
  | leading hl hpoly hnone =>
      obtain ⟨cs, c, i, hcs, hc, ht, hi⟩ := child_of_contains hroot hl hpoly
      obtain ⟨path, hmem⟩ := h.leading hcs hc ht hi
      exact ⟨_, hmem, .inl hnone⟩
  | polymorphicLeading hl hpoly hs hs' =>
      obtain ⟨cs, c, i, hcs, hc, ht, hi⟩ := child_of_contains hroot hl hpoly
      obtain ⟨path, hmem⟩ := h.leading hcs hc ht hi
      exact ⟨_, hmem, .inr ⟨_, hs, hs'⟩⟩
  | @body l i hl hi hbody =>
      obtain ⟨cs, c, -, hcs, hc, ht, -⟩ :=
        child_of_contains hroot hl (Loop.isPolymorphic_iff.2 ⟨i, hi⟩)
      -- Without a first segment in the loop itself there is no tag to hold the body against.
      cases hs : l.leadingSegment? with
      | none =>
          obtain ⟨path, hmem⟩ := h.leading hcs hc ht hi
          exact ⟨_, hmem, .inl hs⟩
      | some s =>
          obtain ⟨path, hmem⟩ := h.body hcs hc ht hi
          refine ⟨_, hmem, fun htag => hbody ?_⟩
          have hleading : l.leadingTag? = some s.tag := by rw [Loop.leadingTag?, hs]; rfl
          rw [hleading] at htag ⊢
          obtain ⟨s', hs', htag'⟩ := Option.map_eq_some_iff.1 htag
          exact ⟨s', hs', congrArg some htag'.symm⟩
  | segmentTag hcs hc ht hi htag =>
      obtain ⟨path, hmem⟩ := h.segment hcs hc ht
      exact ⟨_, hmem, _, hi, .inl htag⟩
  | segmentBody hcs hc ht hi hpoly =>
      obtain ⟨path, hmem⟩ := h.segment hcs hc ht
      exact ⟨_, hmem, _, hi, .inr hpoly⟩

/-- Of an ambiguous tree some check finds a clash. -/
theorem Covers.clashing {checks : List Check} (h : Covers checks root)
    (hroot : ¬root.isPolymorphic = true) (hambiguous : root.Ambiguous) :
    ∃ check ∈ checks, check.Clashing := by
  cases hambiguous with
  | children hcs hij hc hd htc htd hbetween =>
      obtain ⟨path, hmem⟩ := h.children hcs
      refine ⟨_, hmem, fun hclear => ?_⟩
      obtain ⟨k, e, hik, hkj, he, hmin⟩ := hclear hij hc hd htc htd
      exact absurd (hbetween k e hik hkj he) (Nat.ne_of_gt hmin)
  | @loop l hl hclash =>
      have hpoly : l.isPolymorphic = true := by
        cases hclash with
        | position ha => exact Loop.isPolymorphic_iff.2 ⟨_, ha⟩
        | value _ ha => exact Loop.isPolymorphic_iff.2 ⟨_, List.mem_of_getElem? ha⟩
      obtain ⟨cs, c, i, hcs, hc, ht, hi⟩ := child_of_contains hroot hl hpoly
      obtain ⟨path, hmem⟩ := h.implementations hcs hc ht hi
      exact ⟨_, hmem, hclash⟩
  | segment hcs hc ht hclash =>
      obtain ⟨path, hmem⟩ := h.segment hcs hc ht
      exact ⟨_, hmem, hclash⟩

/-! ### Every check has a part -/

/-- What the check looks at is a part of the tree. -/
def Check.Concerns (root : Loop) : Check → Prop
  | children _ cs => root.Holds cs
  | segment _ s => ∃ cs c, root.Holds cs ∧ c ∈ cs ∧ c.target = .segment s
  | nested _ l => ∃ cs c, root.Holds cs ∧ c ∈ cs ∧ c.target = .loop l
  | leading _ cs => ∃ l, root.Contains l ∧ l.isPolymorphic = true ∧ l.children = cs
  | body _ tag cs => ∃ l i, root.Contains l ∧ i ∈ l.implementations ∧ l.leadingTag? = tag ∧
      i.body = cs
  | implementations _ is => ∃ l, root.Contains l ∧ l.implementations = is

theorem Check.Concerns.malformed {check : Check} (h : check.Concerns root)
    (hfaulty : check.Faulty) : root.Malformed := by
  cases check with
  | children path cs => exact hfaulty.elim
  | implementations path is => exact hfaulty.elim
  | segment path s =>
      obtain ⟨cs, c, hcs, hc, ht⟩ := h
      obtain ⟨i, hi, htag | hpoly⟩ := hfaulty
      · exact .segmentTag hcs hc ht hi htag
      · exact .segmentBody hcs hc ht hi hpoly
  | nested path l =>
      obtain ⟨cs, c, hcs, hc, ht⟩ := h
      exact .nested hcs hc ht hfaulty
  | leading path cs =>
      obtain ⟨l, hl, hpoly, rfl⟩ := h
      rcases hfaulty with hnone | ⟨s, hs, hs'⟩
      · exact .leading hl hpoly hnone
      · exact .polymorphicLeading hl hpoly hs hs'
  | body path tag cs =>
      obtain ⟨l, i, hl, hi, rfl, rfl⟩ := h
      refine .body hl hi ?_
      rintro ⟨s, hs, htag⟩
      exact hfaulty (by rw [hs, htag]; rfl)

theorem Check.Concerns.ambiguous {check : Check} (h : check.Concerns root)
    (hclashing : check.Clashing) : root.Ambiguous := by
  cases check with
  | children path cs => exact Loop.ambiguous_of_children h hclashing
  | implementations path is =>
      obtain ⟨l, hl, rfl⟩ := h
      exact .loop hl hclashing
  | segment path s =>
      obtain ⟨cs, c, hcs, hc, ht⟩ := h
      exact .segment hcs hc ht hclashing
  | nested path l => exact hclashing.elim
  | leading path cs => exact hclashing.elim
  | body path tag cs => exact hclashing.elim

/-- The walk through a loop that the tree contains. -/
def LoopConcerns (root : Loop) (path : String) (l : Loop) : Prop :=
  root.Contains l → (∀ cs ∈ l.lists, root.Holds cs) →
    ∀ check ∈ walkLoop path l, check.Concerns root

/-- The walk through the end of a list of children. -/
def ChildrenConcern (root : Loop) (path : String) (cs : List Child) : Prop :=
  ∀ whole, root.Holds whole → cs ⊆ whole → ∀ check ∈ walkChildren path cs, check.Concerns root

/-- The walk through the last implementations of a loop. -/
def BodiesConcern (root : Loop) (path : String) (tag : Option String)
    (is : List (Implementation (List Child))) : Prop :=
  ∀ l, root.Contains l → (∀ cs ∈ l.lists, root.Holds cs) → l.leadingTag? = tag →
    is ⊆ l.implementations → ∀ check ∈ walkBodies path tag is, check.Concerns root

theorem loopConcerns_of {path : String} {l : Loop}
    (hchildren : ChildrenConcern root path l.children)
    (hbodies : BodiesConcern root path l.leadingTag? l.implementations) :
    LoopConcerns root path l := by
  intro hl hlists check hcheck
  have hown := hlists _ l.children_mem_lists
  rw [walkLoop_eq] at hcheck
  rcases List.mem_append.1 hcheck with hcheck | hcheck
  · rcases List.mem_cons.1 hcheck with rfl | hcheck
    · exact hown
    · exact hchildren _ hown (fun _ h => h) check hcheck
  · split at hcheck
    · cases hcheck
    · rename_i hsome
      rcases List.mem_append.1 hcheck with hcheck | hcheck
      · rcases List.mem_cons.1 hcheck with rfl | hcheck
        · exact ⟨l, hl, by simpa [Loop.isPolymorphic] using hsome, rfl⟩
        · exact hbodies l hl hlists rfl (fun _ h => h) check hcheck
      · obtain rfl := List.mem_singleton.1 hcheck
        exact ⟨l, hl, rfl⟩

theorem childrenConcern_segment {path : String} {s : Segment} {min : Nat} {max : MaxOccurs}
    {rest : List Child} (hrest : ChildrenConcern root path rest) :
    ChildrenConcern root path (⟨.segment s, min, max⟩ :: rest) := by
  intro whole hwhole hsub check hcheck
  obtain ⟨hc, hrest'⟩ := List.cons_subset.1 hsub
  rw [walkChildren_segment] at hcheck
  rcases List.mem_cons.1 hcheck with rfl | hcheck
  · exact ⟨whole, _, hwhole, hc, rfl⟩
  · exact hrest whole hwhole hrest' check hcheck

theorem childrenConcern_loop {path : String} {l : Loop} {min : Nat} {max : MaxOccurs}
    {rest : List Child} (hrest : ChildrenConcern root path rest)
    (hloop : LoopConcerns root (path ++ "/" ++ l.id) l) :
    ChildrenConcern root path (⟨.loop l, min, max⟩ :: rest) := by
  intro whole hwhole hsub check hcheck
  obtain ⟨hc, hrest'⟩ := List.cons_subset.1 hsub
  obtain ⟨hl, hlists⟩ := loops_of_holds hwhole _ hc l rfl
  rw [walkChildren_loop] at hcheck
  rcases List.mem_append.1 hcheck with hcheck | hcheck
  · rcases List.mem_cons.1 hcheck with rfl | hcheck
    · exact ⟨whole, _, hwhole, hc, rfl⟩
    · exact hloop hl hlists check hcheck
  · exact hrest whole hwhole hrest' check hcheck

theorem bodiesConcern_cons {path : String} {tag : Option String}
    {i : Implementation (List Child)} {rest : List (Implementation (List Child))}
    (hbody : ChildrenConcern root (path ++ "[" ++ i.id ++ "]") i.body)
    (hrest : BodiesConcern root path tag rest) : BodiesConcern root path tag (i :: rest) := by
  intro l hl hlists htag hsub check hcheck
  obtain ⟨hi, hrest'⟩ := List.cons_subset.1 hsub
  have hheld := hlists _ (Loop.body_mem_lists hi)
  rw [walkBodies_cons] at hcheck
  rcases List.mem_append.1 hcheck with hcheck | hcheck
  · rcases List.mem_cons.1 hcheck with rfl | hcheck
    · exact ⟨l, i, hl, hi, htag, rfl⟩
    · rcases List.mem_cons.1 hcheck with rfl | hcheck
      · exact hheld
      · exact hbody _ hheld (fun _ h => h) check hcheck
  · exact hrest l hl hlists htag hrest' check hcheck

/-- The checks of a tree look at nothing else. -/
theorem checks_concern (root : Loop) : ∀ check ∈ checks root, check.Concerns root := by
  have hwalk (path : String) (l : Loop) : LoopConcerns root path l := by
    refine (checksOfLoop.mutual_induct (LoopConcerns root) (BodiesConcern root)
      (ChildrenConcern root) ?loop ?nil ?segment ?nested ?none ?body).1 path l
    case loop => exact fun _ _ _ _ hchildren hbodies => loopConcerns_of hchildren hbodies
    case nil => exact fun _ _ _ _ _ hcheck => by cases hcheck
    case segment => exact fun _ _ _ _ _ hrest => childrenConcern_segment hrest
    case nested => exact fun _ _ _ _ _ hrest hloop => childrenConcern_loop hrest hloop
    case none => exact fun _ _ _ _ _ _ _ _ hcheck => by cases hcheck
    case body => exact fun _ _ _ _ _ _ hbody hrest => bodiesConcern_cons hbody hrest
  exact hwalk root.id root (.inl rfl) fun _ h => .own h

/-- The walk that enters each definition once makes only checks of the full walk. -/
theorem visitLoop_sublist (path : String) (l : Loop) (met : List String) :
    (visitLoop path l met).1.Sublist (walkLoop path l) := by
  refine (checksOfLoop.mutual_induct
    (fun path l => ∀ met, (visitLoop path l met).1.Sublist (walkLoop path l))
    (fun path tag is => ∀ met, (visitBodies path tag is met).1.Sublist (walkBodies path tag is))
    (fun path cs => ∀ met, (visitChildren path cs met).1.Sublist (walkChildren path cs))
    ?loop ?nil ?segment ?nested ?none ?body).1 path l met
  case loop =>
    intro path id children implementations hchildren hbodies met
    rw [visitLoop_eq, walkLoop_eq]
    refine .append (.cons_cons _ (hchildren _)) ?_
    split
    · exact List.Sublist.refl []
    · exact .append (.cons_cons _ (hbodies _)) (List.Sublist.refl _)
  case nil => exact fun _ _ => List.nil_sublist _
  case segment =>
    intro path s min max rest hrest met
    rw [visitChildren_segment, walkChildren_segment]
    exact .cons_cons _ (hrest met)
  case nested =>
    intro path l min max rest _ hrest hloop met
    rw [visitChildren_loop, walkChildren_loop]
    refine .append (.cons_cons _ ?_) (hrest _)
    split
    · exact List.nil_sublist _
    · exact hloop _
  case none => exact fun _ _ _ => List.nil_sublist _
  case body =>
    intro path tag id discriminator body rest _ hbody hrest met
    rw [visitBodies_cons, walkBodies_cons]
    exact .append (.cons_cons _ (.cons_cons _ (hbody _))) (hrest _)

/-! ### Binding -/

/-- Checks of all parts of a tree, and of nothing else, decide about the tree. -/
theorem Covers.classifies {checks : List Check} (h : Covers checks root)
    (hconcern : ∀ check ∈ checks, check.Concerns root) (name : String) :
    Classifies name root root.Malformed root.Ambiguous (bindChecked name root checks) := by
  have hmalformed :
      (root.isPolymorphic = true ∨ ∃ check ∈ checks, check.Faulty) ↔ root.Malformed := by
    constructor
    · rintro (hroot | ⟨check, hmem, hfaulty⟩)
      · exact .root hroot
      · exact (hconcern check hmem).malformed hfaulty
    · intro hm
      by_cases hroot : root.isPolymorphic = true
      · exact .inl hroot
      · exact .inr (h.faulty hroot hm)
  -- Of implementations of the root `Covers` says nothing, and only a malformed tree has them.
  have hambiguous (hfine : ¬root.Malformed) :
      (∃ check ∈ checks, check.Clashing) ↔ root.Ambiguous := by
    constructor
    · rintro ⟨check, hmem, hclashing⟩
      exact (hconcern check hmem).ambiguous hclashing
    · exact h.clashing fun hroot => hfine (.root hroot)
  obtain ⟨hinvalid, hclash, hok⟩ := classifies_bindChecked name root checks
  rw [hmalformed] at hinvalid hclash hok
  exact ⟨hinvalid, hclash.trans (and_congr_right hambiguous),
    hok.trans (and_congr_right fun hfine => not_congr (hambiguous hfine))⟩

/-- Binding refuses a malformed tree as invalid, whether it is ambiguous or not, another tree that
is ambiguous as such, and makes a schema of every other tree. -/
theorem bind_classifies (name : String) (root : Loop) :
    Classifies name root root.Malformed root.Ambiguous (bind name root) ∧
      (root.SharesDefinitions →
        Classifies name root root.Malformed root.Ambiguous (bindDefinitions name root)) :=
  ⟨(checks_covers root).classifies (checks_concern root) name, fun hroot =>
    (definitionChecks_covers hroot).classifies (fun check hcheck => checks_concern root check
      ((visitLoop_sublist root.id root [root.id]).subset hcheck)) name⟩

/-- A loop of one segment. -/
def sharedLoop : Loop := ⟨"L", [⟨.segment ⟨"A", "A", [], []⟩, 1, .bounded 1⟩], []⟩

/-- A loop of nothing. -/
def hollowLoop : Loop := ⟨"H", [], []⟩

/-- Two uses of one loop, and one of a loop that does not start with a segment. -/
def doubledRoot : Loop :=
  ⟨"ROOT", [⟨.loop sharedLoop, 0, .bounded 1⟩, ⟨.loop sharedLoop, 0, .bounded 1⟩,
    ⟨.loop hollowLoop, 0, .bounded 1⟩], []⟩

theorem doubledRoot_loops {cs : List Child} (h : doubledRoot.Holds cs) :
    ∀ c ∈ cs, ∀ l, c.target = .loop l → l = sharedLoop ∨ l = hollowLoop := by
  induction h with
  | own h =>
      obtain rfl := List.mem_singleton.1 h
      simp [doubledRoot]
  | inside _ hc ht h ih =>
      -- The two loops hold no further ones.
      rcases ih _ hc _ ht with rfl | rfl
      · obtain rfl := List.mem_singleton.1 h
        simp [sharedLoop]
      · obtain rfl := List.mem_singleton.1 h
        simp [hollowLoop]

theorem doubledRoot_sharesDefinitions : doubledRoot.SharesDefinitions := by
  -- Every loop is the one that its id stands for.
  let named (id : String) : Loop :=
    if id = "L" then sharedLoop else if id = "H" then hollowLoop else doubledRoot
  have hnamed {l : Loop} (hl : doubledRoot.Contains l) : l = named l.id := by
    rcases hl with rfl | ⟨cs, c, hcs, hc, ht⟩
    · rfl
    · rcases doubledRoot_loops hcs c hc l ht with rfl | rfl
      · rfl
      · rfl
  intro l l' hl hl' hid
  calc
    l = named l.id := hnamed hl
    _ = named l'.id := by rw [hid]
    _ = l' := (hnamed hl').symm

/-- A tree that is malformed and ambiguous is refused as malformed. -/
theorem bind_classifies_doubled :
    doubledRoot.SharesDefinitions ∧ doubledRoot.Malformed ∧ doubledRoot.Ambiguous ∧
      bindDefinitions "DOUBLED" doubledRoot = .error (.invalid (.noLeadingSegment "ROOT/H")) ∧
      ¬∃ defects, bindDefinitions "DOUBLED" doubledRoot = .error (.ambiguous defects) := by
  obtain ⟨hinvalid, hclash, -⟩ :=
    (bind_classifies "DOUBLED" doubledRoot).2 doubledRoot_sharesDefinitions
  have hmalformed := hinvalid.1 ⟨_, rfl⟩
  refine ⟨doubledRoot_sharesDefinitions, hmalformed, ?_, rfl, fun h => (hclash.1 h).1 hmalformed⟩
  exact .children (.own doubledRoot.children_mem_lists) Nat.zero_lt_one rfl rfl rfl rfl
    fun k e h0 h1 => absurd h1 (by omega)

end Schema

end Interchange
