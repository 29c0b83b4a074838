import Interchange.Proofs.Audit

/-!
# Binding trees of definitions

In a tree that comes from definitions, loops with one id are uses of one definition, and the
audit enters only the first of them (`meet`). The checks are then fewer, and still there is one
for every part of the tree: a loop that is not entered has been met, and wherever it was met
its parts have been looked at or are going to be (`Extends`, by induction over the walk).

`Schema.Bound` are the schemas that binding accepts, from a plain tree or from definitions.
-/

namespace Interchange

namespace Loop

/-- A loop is another one, or inside it. -/
def Contains (root l : Loop) : Prop :=
  l = root ∨ ∃ cs c, root.Holds cs ∧ c ∈ cs ∧ c.target = .loop l

/-- Loops with one id are one definition. -/
def SharesDefinitions (root : Loop) : Prop :=
  ∀ l l', root.Contains l → root.Contains l' → l.id = l'.id → l = l'

end Loop

namespace Schema

variable {root : Loop} {out out' : List Check} {met met' : List String}

/-! ### What has been looked at -/

/-- The children in a list have been looked at, and the loops among them have been met. -/
structure Looked (out : List Check) (met : List String) (cs : List Child) : Prop where
  segment : ∀ {c s}, c ∈ cs → c.target = .segment s → ∃ path, .segment path s ∈ out
  nested : ∀ {c l}, c ∈ cs → c.target = .loop l → (∃ path, .nested path l ∈ out) ∧ l.id ∈ met

/-- A loop has been entered: every list that it can have has been looked at. -/
structure Entered (out : List Check) (met : List String) (l : Loop) : Prop where
  children : ∀ {cs}, cs ∈ l.lists → ∃ path, .children path cs ∈ out
  looked : ∀ {cs}, cs ∈ l.lists → Looked out met cs
  leading : ∀ {i}, i ∈ l.implementations → ∃ path, .leading path l.children ∈ out
  body : ∀ {i}, i ∈ l.implementations → ∃ path, .body path l.leadingTag? i.body ∈ out
  implementations : ∀ {i}, i ∈ l.implementations →
    ∃ path, .implementations path l.implementations ∈ out

theorem Looked.mono {cs : List Child} (h : Looked out met cs) (ho : out ⊆ out')
    (hm : met ⊆ met') : Looked out' met' cs where
  segment hc ht := (h.segment hc ht).imp fun _ hx => ho hx
  nested hc ht := ⟨(h.nested hc ht).1.imp fun _ hx => ho hx, hm (h.nested hc ht).2⟩

theorem Entered.mono {l : Loop} (h : Entered out met l) (ho : out ⊆ out') (hm : met ⊆ met') :
    Entered out' met' l where
  children hcs := (h.children hcs).imp fun _ hx => ho hx
  looked hcs := (h.looked hcs).mono ho hm
  leading hi := (h.leading hi).imp fun _ hx => ho hx
  body hi := (h.body hi).imp fun _ hx => ho hx
  implementations hi := (h.implementations hi).imp fun _ hx => ho hx

/-- A part of the walk through `root` that starts with the loops `met`: the loops that are met
on the way are entered. -/
structure Extends (root : Loop) (met : List String) (out : List Check) (met' : List String) :
    Prop where
  grows : met ⊆ met'
  entered : ∀ id ∈ met', id ∈ met ∨ ∃ l, root.Contains l ∧ l.id = id ∧ Entered out met' l

theorem Extends.refl (root : Loop) (met : List String) (out : List Check) :
    Extends root met out met :=
  ⟨fun _ h => h, fun _ h => .inl h⟩

theorem Extends.trans {met₁ met₂ : List String} {out₁ out₂ : List Check}
    (h₁ : Extends root met out₁ met₁) (h₂ : Extends root met₁ out₂ met₂) (ho₁ : out₁ ⊆ out)
    (ho₂ : out₂ ⊆ out) : Extends root met out met₂ where
  grows := fun _ h => h₂.grows (h₁.grows h)
  entered id hid := by
    rcases h₂.entered id hid with hid | ⟨l, hl, rfl, he⟩
    · rcases h₁.entered id hid with hid | ⟨l, hl, rfl, he⟩
      · exact .inl hid
      · exact .inr ⟨l, hl, rfl, he.mono ho₁ h₂.grows⟩
    · exact .inr ⟨l, hl, rfl, he.mono ho₂ fun _ h => h⟩

/-! ### The walk that enters each definition once -/

/-- The checks of a list of children after the loops `met`, and the loops met then. -/
def visitChildren (path : String) (cs : List Child) (met : List String) :
    List Check × List String :=
  Id.run ((checksOfChildren meet path cs).run met)

/-- The checks of the bodies of implementations after the loops `met`, and the loops met
then. -/
def visitBodies (path : String) (tag : Option String) (is : List (Implementation (List Child)))
    (met : List String) : List Check × List String :=
  Id.run ((checksOfBodies meet path tag is).run met)

/-- The checks of a loop after the loops `met`, and the loops met then. -/
def visitLoop (path : String) (l : Loop) (met : List String) : List Check × List String :=
  Id.run ((checksOfLoop meet path l).run met)

theorem visitLoop_eq (path : String) (l : Loop) (met : List String) :
    visitLoop path l met =
      let base := visitChildren path l.children met
      let bodies := visitBodies path l.leadingTag? l.implementations base.2
      (.children path l.children :: base.1 ++
        (if l.implementations.isEmpty then []
          else .leading path l.children :: bodies.1 ++ [.implementations path l.implementations]),
        bodies.2) := by
  cases l
  simp only [visitLoop, checksOfLoop]
  rfl

theorem visitChildren_segment (path : String) (s : Segment) (min : Nat) (max : MaxOccurs)
    (rest : List Child) (met : List String) :
    visitChildren path (⟨.segment s, min, max⟩ :: rest) met =
      (.segment path s :: (visitChildren path rest met).1, (visitChildren path rest met).2) := by
  simp only [visitChildren, checksOfChildren]
  rfl

theorem run_meet_of_mem {l : Loop} {met : List String} (h : l.id ∈ met) :
    Id.run ((meet l).run met) = (false, met) := by
  simp only [meet, StateT.run_bind, StateT.run_get, pure_bind, if_pos h]
  rfl

theorem run_meet_of_not_mem {l : Loop} {met : List String} (h : l.id ∉ met) :
    Id.run ((meet l).run met) = (true, l.id :: met) := by
  simp only [meet, StateT.run_bind, StateT.run_get, pure_bind, if_neg h]
  rfl

theorem visitChildren_loop (path : String) (l : Loop) (min : Nat) (max : MaxOccurs)
    (rest : List Child) (met : List String) :
    visitChildren path (⟨.loop l, min, max⟩ :: rest) met =
      let inside :=
        if l.id ∈ met then ([], met) else visitLoop (path ++ "/" ++ l.id) l (l.id :: met)
      let others := visitChildren path rest inside.2
      (.nested (path ++ "/" ++ l.id) l :: inside.1 ++ others.1, others.2) := by
  simp only [visitChildren, checksOfChildren, StateT.run_bind, Id.run_bind]
  by_cases h : l.id ∈ met
  · rw [run_meet_of_mem h, if_pos h]
    rfl
  · rw [run_meet_of_not_mem h, if_neg h]
    rfl

theorem visitBodies_cons (path : String) (tag : Option String)
    (i : Implementation (List Child)) (rest : List (Implementation (List Child)))
    (met : List String) :
    visitBodies path tag (i :: rest) met =
      let inside := visitChildren (path ++ "[" ++ i.id ++ "]") i.body met
      let others := visitBodies path tag rest inside.2
      (.body (path ++ "[" ++ i.id ++ "]") tag i.body ::
        .children (path ++ "[" ++ i.id ++ "]") i.body :: inside.1 ++ others.1, others.2) := by
  cases i
  simp only [visitChildren, visitBodies, checksOfBodies]
  rfl

/-- The bodies of implementations have been looked at. -/
def LookedInto (tag : Option String) (out : List Check) (met : List String)
    (is : List (Implementation (List Child))) : Prop :=
  ∀ i ∈ is, (∃ path, .body path tag i.body ∈ out) ∧ (∃ path, .children path i.body ∈ out) ∧
    Looked out met i.body

/-- What a loop adds to the walk: its own entry, and what is inside. -/
def LoopVisited (root : Loop) (path : String) (l : Loop) : Prop :=
  ∀ met, root.Contains l → (∀ cs ∈ l.lists, root.Holds cs) →
    Extends root met (visitLoop path l met).1 (visitLoop path l met).2 ∧
      Entered (visitLoop path l met).1 (visitLoop path l met).2 l

/-- What a list of children adds to the walk. -/
def ChildrenVisited (root : Loop) (path : String) (cs : List Child) : Prop :=
  ∀ met, (∀ c ∈ cs, ∀ l, c.target = .loop l →
      root.Contains l ∧ ∀ cs ∈ l.lists, root.Holds cs) →
    Extends root met (visitChildren path cs met).1 (visitChildren path cs met).2 ∧
      Looked (visitChildren path cs met).1 (visitChildren path cs met).2 cs

/-- What the bodies of implementations add to the walk. -/
def BodiesVisited (root : Loop) (path : String) (tag : Option String)
    (is : List (Implementation (List Child))) : Prop :=
  ∀ met, (∀ i ∈ is, root.Holds i.body) →
    Extends root met (visitBodies path tag is met).1 (visitBodies path tag is met).2 ∧
      LookedInto tag (visitBodies path tag is met).1 (visitBodies path tag is met).2 is

/-- The loops in a list that is held are inside, and so are their lists. -/
theorem loops_of_holds {cs : List Child} (h : root.Holds cs) :
    ∀ c ∈ cs, ∀ l, c.target = .loop l → root.Contains l ∧ ∀ cs ∈ l.lists, root.Holds cs :=
  fun c hc _ ht => ⟨.inr ⟨cs, c, h, hc, ht⟩, fun _ hcs => .inside h hc ht hcs⟩

/-- One step of the walk through a list that comes to a loop. -/
theorem childrenVisited_loop {path : String} {l : Loop} {min : Nat} {max : MaxOccurs}
    {rest : List Child} (hrest : ChildrenVisited root path rest)
    (hloop : LoopVisited root (path ++ "/" ++ l.id) l) :
    ChildrenVisited root path (⟨.loop l, min, max⟩ :: rest) := by
  intro met hheld
  obtain ⟨hl, hlists⟩ := hheld _ List.mem_cons_self l rfl
  rw [visitChildren_loop]
  -- What is inside the loop has been looked at here, unless it was met before.
  have hinside : ∃ out₁ met₁,
      (if l.id ∈ met then ([], met) else visitLoop (path ++ "/" ++ l.id) l (l.id :: met)) =
        (out₁, met₁) ∧ Extends root met out₁ met₁ ∧ l.id ∈ met₁ := by
    by_cases hmet : l.id ∈ met
    · exact ⟨[], met, if_pos hmet, .refl root met [], hmet⟩
    · obtain ⟨hext, hent⟩ := hloop (l.id :: met) hl hlists
      refine ⟨_, _, if_neg hmet, ⟨fun id hid => hext.grows (List.mem_cons_of_mem _ hid),
        fun id hid => ?_⟩, hext.grows List.mem_cons_self⟩
      rcases hext.entered id hid with hid | hid
      · rcases List.mem_cons.1 hid with rfl | hid
        · exact .inr ⟨l, hl, rfl, hent⟩
        · exact .inl hid
      · exact .inr hid
  obtain ⟨out₁, met₁, heq, hext₁, hmem⟩ := hinside
  obtain ⟨hext₂, hlooked⟩ := hrest met₁ fun c hc => hheld c (List.mem_cons_of_mem _ hc)
  dsimp only
  rw [heq]
  dsimp only
  have hout {x : Check} (hx : x ∈ (visitChildren path rest met₁).1) :
      x ∈ .nested (path ++ "/" ++ l.id) l :: out₁ ++ (visitChildren path rest met₁).1 :=
    List.mem_append_right _ hx
  refine ⟨hext₁.trans hext₂ (fun x hx => List.mem_append_left _ (List.mem_cons_of_mem _ hx))
    (fun x hx => hout hx), ⟨fun hc ht => ?_, fun hc ht => ?_⟩⟩
  · rcases List.mem_cons.1 hc with rfl | hc
    · cases ht
    · exact (hlooked.segment hc ht).imp fun _ hx => hout hx
  · rcases List.mem_cons.1 hc with rfl | hc
    · cases ht
      exact ⟨⟨_, List.mem_cons_self⟩, hext₂.grows hmem⟩
    · exact ⟨(hlooked.nested hc ht).1.imp fun _ hx => hout hx, (hlooked.nested hc ht).2⟩

theorem childrenVisited_segment {path : String} {s : Segment} {min : Nat} {max : MaxOccurs}
    {rest : List Child} (hrest : ChildrenVisited root path rest) :
    ChildrenVisited root path (⟨.segment s, min, max⟩ :: rest) := by
  intro met hheld
  obtain ⟨hext, hlooked⟩ := hrest met fun c hc => hheld c (List.mem_cons_of_mem _ hc)
  rw [visitChildren_segment]
  refine ⟨(Extends.refl root met []).trans hext (by simp) fun x hx => List.mem_cons_of_mem _ hx,
    ⟨fun hc ht => ?_, fun hc ht => ?_⟩⟩
  · rcases List.mem_cons.1 hc with rfl | hc
    · cases ht
      exact ⟨path, List.mem_cons_self⟩
    · exact (hlooked.segment hc ht).imp fun _ hx => List.mem_cons_of_mem _ hx
  · rcases List.mem_cons.1 hc with rfl | hc
    · cases ht
    · exact ⟨(hlooked.nested hc ht).1.imp fun _ hx => List.mem_cons_of_mem _ hx,
        (hlooked.nested hc ht).2⟩

theorem bodiesVisited_cons {path : String} {tag : Option String}
    {i : Implementation (List Child)} {rest : List (Implementation (List Child))}
    (hbody : ChildrenVisited root (path ++ "[" ++ i.id ++ "]") i.body)
    (hrest : BodiesVisited root path tag rest) : BodiesVisited root path tag (i :: rest) := by
  intro met hheld
  obtain ⟨hext₁, hlooked⟩ := hbody met (loops_of_holds (hheld i List.mem_cons_self))
  obtain ⟨hext₂, hinto⟩ := hrest (visitChildren (path ++ "[" ++ i.id ++ "]") i.body met).2
    fun j hj => hheld j (List.mem_cons_of_mem _ hj)
  rw [visitBodies_cons]
  dsimp only
  have hfirst {x : Check} (hx : x ∈ (visitChildren (path ++ "[" ++ i.id ++ "]") i.body met).1)
      (others : List Check) :
      x ∈ .body (path ++ "[" ++ i.id ++ "]") tag i.body ::
        .children (path ++ "[" ++ i.id ++ "]") i.body ::
          (visitChildren (path ++ "[" ++ i.id ++ "]") i.body met).1 ++ others :=
    List.mem_cons_of_mem _ (List.mem_cons_of_mem _ (List.mem_append_left _ hx))
  refine ⟨hext₁.trans hext₂ (fun x hx => hfirst hx _) fun x hx => List.mem_append_right _ hx,
    fun j hj => ?_⟩
  rcases List.mem_cons.1 hj with rfl | hj
  · exact ⟨⟨_, List.mem_cons_self⟩, ⟨_, List.mem_cons_of_mem _ List.mem_cons_self⟩,
      hlooked.mono (fun x hx => hfirst hx _) hext₂.grows⟩
  · obtain ⟨hb, hc, hl⟩ := hinto j hj
    exact ⟨hb.imp fun _ hx => List.mem_append_right _ hx,
      hc.imp fun _ hx => List.mem_append_right _ hx,
      hl.mono (fun x hx => List.mem_append_right _ hx) fun _ h => h⟩

theorem loopVisited_of {path : String} {l : Loop}
    (hchildren : ChildrenVisited root path l.children)
    (hbodies : BodiesVisited root path l.leadingTag? l.implementations) :
    LoopVisited root path l := by
  intro met hl hlists
  obtain ⟨hext₁, hlooked⟩ :=
    hchildren met (loops_of_holds (hlists _ l.children_mem_lists))
  obtain ⟨hext₂, hinto⟩ := hbodies (visitChildren path l.children met).2
    fun i hi => hlists _ (Loop.body_mem_lists hi)
  rw [visitLoop_eq]
  dsimp only
  have htail {i : Implementation (List Child)} (hi : i ∈ l.implementations) (others : List Check) :
      (if l.implementations.isEmpty then [] else others) = others :=
    if_neg (by simpa using List.ne_nil_of_mem hi)
  have hsub {x : Check} (hx : x ∈ (visitBodies path l.leadingTag? l.implementations
      (visitChildren path l.children met).2).1) :
      x ∈ (if l.implementations.isEmpty then [] else
        .leading path l.children :: (visitBodies path l.leadingTag? l.implementations
          (visitChildren path l.children met).2).1 ++
            [.implementations path l.implementations]) := by
    cases hi : l.implementations with
    | nil =>
        rw [hi] at hx
        simp only [visitBodies, checksOfBodies] at hx
        cases hx
    | cons i rest =>
        rw [hi] at hx
        exact List.mem_cons_of_mem _ (List.mem_append_left _ hx)
  have hout₁ {x : Check} (hx : x ∈ (visitChildren path l.children met).1) (others : List Check) :
      x ∈ .children path l.children :: (visitChildren path l.children met).1 ++ others :=
    List.mem_cons_of_mem _ (List.mem_append_left _ hx)
  refine ⟨hext₁.trans hext₂ (fun x hx => hout₁ hx _) fun x hx =>
    List.mem_append_right _ (hsub hx),
    ⟨fun hcs => ?_, fun hcs => ?_, fun hi => ?_, fun hi => ?_, fun hi => ?_⟩⟩
  · rcases List.mem_cons.1 hcs with rfl | hcs
    · exact ⟨path, List.mem_cons_self⟩
    · obtain ⟨i, hi, rfl⟩ := List.mem_map.1 hcs
      exact (hinto i hi).2.1.imp fun _ hx => List.mem_append_right _ (hsub hx)
  · rcases List.mem_cons.1 hcs with rfl | hcs
    · exact hlooked.mono (fun x hx => hout₁ hx _) hext₂.grows
    · obtain ⟨i, hi, rfl⟩ := List.mem_map.1 hcs
      exact (hinto i hi).2.2.mono (fun x hx => List.mem_append_right _ (hsub hx)) fun _ h => h
  · refine ⟨path, List.mem_append_right _ ?_⟩
    rw [htail hi]
    exact List.mem_cons_self
  · exact (hinto _ hi).1.imp fun _ hx => List.mem_append_right _ (hsub hx)
  · refine ⟨path, List.mem_append_right _ ?_⟩
    rw [htail hi]
    exact List.mem_cons_of_mem _ (List.mem_append_right _ List.mem_cons_self)

/-- Every part of the walk enters what it meets. -/
theorem loopVisited (root : Loop) (path : String) (l : Loop) : LoopVisited root path l := by
  -- The walk is three functions that call each other, and the induction is the walk's own.
  refine (checksOfLoop.mutual_induct (LoopVisited root) (BodiesVisited root)
    (ChildrenVisited root) ?loop ?nil ?segment ?nested ?none ?body).1 path l
  case loop => exact fun _ _ _ _ hchildren hbodies => loopVisited_of hchildren hbodies
  case nil => exact fun _ met _ => ⟨.refl root met [], ⟨by simp, by simp⟩⟩
  case segment => exact fun _ _ _ _ _ hrest => childrenVisited_segment hrest
  case nested => exact fun _ _ _ _ _ hrest hloop => childrenVisited_loop hrest hloop
  case none => exact fun _ _ met _ => ⟨.refl root met [], by intro i hi; cases hi⟩
  case body => exact fun _ _ _ _ _ _ hbody hrest => bodiesVisited_cons hbody hrest

/-- The checks of a tree of definitions leave nothing out. -/
theorem definitionChecks_covers (hroot : root.SharesDefinitions) :
    Covers (definitionChecks root) root := by
  obtain ⟨hext, hent⟩ := loopVisited root root.id root [root.id] (.inl rfl) fun _ h => .own h
  -- A loop that has been met is the loop that was entered under its id.
  have hentered {l : Loop} (hl : root.Contains l) (hmet : l.id ∈ (visitLoop root.id root
      [root.id]).2) : Entered (definitionChecks root) (visitLoop root.id root [root.id]).2 l := by
    rcases hext.entered _ hmet with hid | ⟨l', hl', hid, he⟩
    · rw [hroot l root hl (.inl rfl) (by simpa using hid)]
      exact hent
    · rw [← hroot l' l hl' hl hid]
      exact he
  have hlists {cs : List Child} (h : root.Holds cs) :
      (∃ path, .children path cs ∈ definitionChecks root) ∧
        Looked (definitionChecks root) (visitLoop root.id root [root.id]).2 cs := by
    induction h with
    | own h => exact ⟨hent.children h, hent.looked h⟩
    | inside hcs hc ht h ih =>
        have he := hentered (.inr ⟨_, _, hcs, hc, ht⟩) (ih.2.nested hc ht).2
        exact ⟨he.children h, he.looked h⟩
  have hloops {cs : List Child} {c : Child} {l : Loop} (hcs : root.Holds cs) (hc : c ∈ cs)
      (ht : c.target = .loop l) :
      Entered (definitionChecks root) (visitLoop root.id root [root.id]).2 l :=
    hentered (.inr ⟨cs, c, hcs, hc, ht⟩) ((hlists hcs).2.nested hc ht).2
  exact ⟨fun hcs => (hlists hcs).1, fun hcs hc ht => (hlists hcs).2.segment hc ht,
    fun hcs hc ht => ((hlists hcs).2.nested hc ht).1,
    fun hcs hc ht hi => (hloops hcs hc ht).leading hi,
    fun hcs hc ht hi => (hloops hcs hc ht).body hi,
    fun hcs hc ht hi => (hloops hcs hc ht).implementations hi⟩

/-! ### Bound schemas -/

/-- The schemas that binding accepts: of a tree, or of a tree of definitions. -/
inductive Bound : Schema → Prop
  | tree {name : String} {root : Loop} {schema : Schema}
      (h : bind name root = .ok schema) : Bound schema
  | definitions {name : String} {root : Loop} {schema : Schema}
      (hroot : root.SharesDefinitions) (h : bindDefinitions name root = .ok schema) :
      Bound schema

/-- Binding guarantees what validation relies on. -/
theorem Bound.audited {schema : Schema} (h : schema.Bound) : schema.root.Audited := by
  cases h with
  | tree h => exact (checks_covers _).audited_of_bindChecked h
  | definitions hroot h => exact (definitionChecks_covers hroot).audited_of_bindChecked h

end Schema

end Interchange
