import Interchange.Proofs.Selection
import Interchange.Schema

/-!
# What binding guarantees

The lists of children that a document can be matched against are the ones that the root loop
`Holds`: its own, those of the loops below it, and those of all their implementations.
`Audited` says of them what validation relies on. A tree is audited when its checks find
nothing and there is a check for every part of it (`Covers.audited`); the walk that lists the
checks of a tree leaves nothing out (`checks_covers`).

A check answers exactly for what it looks at (`Check.run_spec`), and so does binding for all the
checks of a tree (`classifies_bindChecked`).
-/

namespace Interchange

namespace Loop

/-- The lists of children that a loop can have: its own and those of its implementations. -/
def lists (l : Loop) : List (List Child) := l.children :: l.implementations.map (·.body)

/-- A list of children belongs to a loop or to one below it. -/
inductive Holds (l : Loop) : List Child → Prop
  | own {cs : List Child} (h : cs ∈ l.lists) : l.Holds cs
  | inside {cs cs' : List Child} {c : Child} {inner : Loop} (hcs : l.Holds cs) (hc : c ∈ cs)
      (ht : c.target = .loop inner) (h : cs' ∈ inner.lists) : l.Holds cs'

theorem children_mem_lists (l : Loop) : l.children ∈ l.lists := List.mem_cons_self

theorem body_mem_lists {l : Loop} {i : Implementation (List Child)}
    (h : i ∈ l.implementations) : i.body ∈ l.lists :=
  List.mem_cons_of_mem _ (List.mem_map_of_mem h)

theorem isPolymorphic_iff {l : Loop} : l.isPolymorphic = true ↔ ∃ i, i ∈ l.implementations := by
  rw [isPolymorphic, Bool.not_eq_true', List.isEmpty_eq_false_iff_exists_mem]

end Loop

/-! ### Clashes -/

/-- Between two children that one tag starts there is a required one. -/
def Unambiguous (cs : List Child) : Prop :=
  ∀ {i j : Nat} {c d : Child} {tag : String}, i < j → cs[i]? = some c → cs[j]? = some d →
    c.leadingTag? = some tag → d.leadingTag? = some tag →
      ∃ k e, i < k ∧ k < j ∧ cs[k]? = some e ∧ 0 < e.minOccurs

namespace Implementation

variable {β : Type}

/-- One value selects both implementations. -/
def Shares (a b : Implementation β) : Prop :=
  ∃ value ∈ a.discriminator.values, value ∈ b.discriminator.values

/-- Implementations that no single position tells apart: they look at different ones, or two of
them share a value. -/
inductive Clash (is : List (Implementation β)) : Prop
  | position {a b : Implementation β} (ha : a ∈ is) (hb : b ∈ is)
      (h : a.discriminator.position ≠ b.discriminator.position)
  | value {i j : Nat} {a b : Implementation β} (hij : i < j) (ha : is[i]? = some a)
      (hb : is[j]? = some b) (h : a.Shares b)

theorem not_clash_iff {is : List (Implementation β)} :
    ¬Clash is ↔ SamePosition is ∧ is.Pairwise fun a b => ¬a.Shares b := by
  constructor
  · intro h
    refine ⟨fun a ha b hb => ?_, List.pairwise_iff_getElem.2 fun i j hi hj hij hshares => ?_⟩
    · by_cases heq : a.discriminator.position = b.discriminator.position
      · exact heq
      · exact absurd (.position ha hb heq) h
    · exact h (.value hij (List.getElem?_eq_getElem hi) (List.getElem?_eq_getElem hj) hshares)
  · rintro ⟨hposition, hpairs⟩ hclash
    cases hclash with
    | position ha hb h => exact h (hposition _ ha _ hb)
    | value hij ha hb h =>
        obtain ⟨hi, rfl⟩ := List.getElem?_eq_some_iff.1 ha
        obtain ⟨hj, rfl⟩ := List.getElem?_eq_some_iff.1 hb
        exact List.pairwise_iff_getElem.1 hpairs _ _ hi hj hij h

end Implementation

namespace Schema

/-- The reachable children are the ones with nothing required before them. -/
theorem mem_reachable {cs : List Child} {d : Child} :
    d ∈ reachable cs ↔
      ∃ j, cs[j]? = some d ∧ ∀ (k : Nat) (e : Child), k < j → cs[k]? = some e →
        e.minOccurs = 0 := by
  induction cs with
  | nil => simp [reachable]
  | cons c rest ih =>
      have hfirst : d = c → ∃ j, (c :: rest)[j]? = some d ∧
          ∀ (k : Nat) (e : Child), k < j → (c :: rest)[k]? = some e → e.minOccurs = 0 := by
        rintro rfl
        exact ⟨0, rfl, fun k e hk => absurd hk (Nat.not_lt_zero k)⟩
      unfold reachable
      by_cases hc : 0 < c.minOccurs
      · rw [if_pos hc, List.mem_singleton]
        refine ⟨hfirst, ?_⟩
        rintro ⟨j, hd, hbefore⟩
        cases j with
        | zero => exact (Option.some.inj hd).symm
        | succ j => exact absurd (hbefore 0 c (Nat.zero_lt_succ j) rfl) (by omega)
      · rw [if_neg hc, List.mem_cons, ih]
        constructor
        · rintro (hd | ⟨j, hd, hbefore⟩)
          · exact hfirst hd
          · refine ⟨j + 1, hd, fun k e hk he => ?_⟩
            cases k with
            | zero =>
                obtain rfl : c = e := Option.some.inj he
                omega
            | succ k => exact hbefore k e (by omega) he
        · rintro ⟨j, hd, hbefore⟩
          cases j with
          | zero => exact .inl (Option.some.inj hd).symm
          | succ j => exact .inr ⟨j, hd, fun k e hk he => hbefore (k + 1) e (by omega) he⟩

theorem rival?_eq_none {c : Child} {later : List Child} :
    rival? c later = none ↔
      ∀ d ∈ reachable later, ∀ tag, c.leadingTag? = some tag → d.leadingTag? ≠ some tag := by
  cases htag : c.leadingTag? with
  | none => simp [rival?, htag]
  | some tag =>
      simp only [rival?, htag, Option.bind_some, List.find?_eq_none, Reference.startsWith,
        beq_iff_eq, Option.some.injEq, forall_eq']

theorem clashes_cons_eq_nil {path : String} {c : Child} {rest : List Child} :
    clashes path (c :: rest) = [] ↔ rival? c rest = none ∧ clashes path rest = [] := by
  cases hrival : rival? c rest with
  | none => cases htag : c.leadingTag? <;> simp [clashes, htag, hrival]
  | some r =>
      cases htag : c.leadingTag? with
      | none => simp [rival?, htag] at hrival
      | some tag => simp [clashes, htag, hrival]

/-- A child can be told from the ones behind it when it has no rival among them. -/
theorem unambiguous_cons {c : Child} {rest : List Child} :
    Unambiguous (c :: rest) ↔ rival? c rest = none ∧ Unambiguous rest := by
  rw [rival?_eq_none]
  constructor
  · intro h
    refine ⟨fun d hd tag htc htd => ?_, fun {i j} _ _ _ hij hc hd htc htd => ?_⟩
    · obtain ⟨j, hj, hbefore⟩ := mem_reachable.1 hd
      obtain ⟨k, e, hk, hkj, he, hmin⟩ := h (Nat.zero_lt_succ j) rfl hj htc htd
      obtain ⟨k, rfl⟩ := Nat.exists_eq_succ_of_ne_zero (show k ≠ 0 by omega)
      have hzero := hbefore k e (by omega) he
      omega
    · obtain ⟨k, e, hik, hkj, he, hmin⟩ :=
        h (show i + 1 < j + 1 by omega) hc hd htc htd
      obtain ⟨k, rfl⟩ := Nat.exists_eq_succ_of_ne_zero (show k ≠ 0 by omega)
      exact ⟨k, e, by omega, by omega, he, hmin⟩
  · rintro ⟨hrival, hrest⟩ i j a d tag hij ha hd hta htd
    obtain ⟨j, rfl⟩ := Nat.exists_eq_succ_of_ne_zero (show j ≠ 0 by omega)
    cases i with
    | succ i =>
        obtain ⟨k, e, hik, hkj, he, hmin⟩ := hrest (by omega) ha hd hta htd
        exact ⟨k + 1, e, by omega, by omega, he, hmin⟩
    | zero =>
        obtain rfl : c = a := Option.some.inj ha
        refine Classical.byContradiction fun hnone => ?_
        -- With nothing required in between the later child is reachable, and so a rival.
        have hmem : d ∈ reachable rest := mem_reachable.2 ⟨j, hd, fun k e hk he =>
          Nat.eq_zero_of_not_pos fun hmin => hnone ⟨k + 1, e, by omega, by omega, he, hmin⟩⟩
        exact hrival d hmem tag hta htd

theorem clashes_eq_nil {path : String} {cs : List Child} :
    clashes path cs = [] ↔ Unambiguous cs := by
  induction cs with
  | nil => simp [clashes, Unambiguous]
  | cons c rest ih => rw [clashes_cons_eq_nil, unambiguous_cons, ih]

variable {β : Type}

theorem sharedValues_eq_nil {path : String} {earlier : List (Implementation β)}
    {i : Implementation β} :
    sharedValues path earlier i = [] ↔ ∀ a ∈ earlier, ¬a.Shares i := by
  simp only [sharedValues, List.filterMap_eq_nil_iff, Option.map_eq_none_iff, List.find?_eq_none,
    Discriminator.accepts, List.contains_iff_mem, Implementation.Shares, not_exists, not_and]
  exact ⟨fun h a ha value hva hvi => h value hvi a ha hva,
    fun h value hvi a ha hva => h a ha value hva hvi⟩

theorem discriminatorClashes_eq_nil {path : String} {p : Position}
    {earlier is : List (Implementation β)} :
    discriminatorClashes path p earlier is = [] ↔
      (∀ a ∈ is, a.discriminator.position = p) ∧ (∀ a ∈ earlier, ∀ b ∈ is, ¬a.Shares b) ∧
        is.Pairwise fun a b => ¬a.Shares b := by
  induction is generalizing earlier with
  | nil => simp [discriminatorClashes]
  | cons i rest ih =>
      have hposition (message : Violation) :
          (if i.discriminator.position = p then [] else [message]) = [] ↔
            i.discriminator.position = p := by
        split <;> simp [*]
      simp only [discriminatorClashes, List.append_eq_nil_iff, hposition, sharedValues_eq_nil, ih,
        List.forall_mem_cons, List.pairwise_cons]
      constructor
      · rintro ⟨⟨hp, hi⟩, hps, ⟨hrest, hearlier⟩, hpairs⟩
        exact ⟨⟨hp, hps⟩, fun a ha => ⟨hi a ha, hearlier a ha⟩, hrest, hpairs⟩
      · rintro ⟨⟨hp, hps⟩, hearlier, hrest, hpairs⟩
        exact ⟨⟨hp, fun a ha => (hearlier a ha).1⟩, hps,
          ⟨hrest, fun a ha => (hearlier a ha).2⟩, hpairs⟩

theorem implementationClashes_eq_nil {path : String} {is : List (Implementation β)} :
    implementationClashes path is = [] ↔ ¬Implementation.Clash is := by
  rw [Implementation.not_clash_iff]
  cases is with
  | nil => simp [implementationClashes, Implementation.SamePosition]
  | cons first rest =>
      rw [implementationClashes, discriminatorClashes_eq_nil]
      -- The checks compare with the position of the first implementation.
      constructor
      · rintro ⟨hposition, -, hpairs⟩
        exact ⟨fun a ha b hb => (hposition a ha).trans (hposition b hb).symm, hpairs⟩
      · rintro ⟨hposition, hpairs⟩
        exact ⟨fun a ha => hposition a ha first List.mem_cons_self, by simp, hpairs⟩

end Schema

/-! ### Audited trees -/

/-- What validation relies on in the tree of a root loop. -/
structure Loop.Audited (root : Loop) : Prop where
  /-- The root loop has no implementations. -/
  plain : root.implementations = []
  unambiguous : ∀ {cs}, root.Holds cs → Unambiguous cs
  /-- A loop inside another one starts with a segment. -/
  leading : ∀ {cs c l}, root.Holds cs → c ∈ cs → c.target = .loop l →
    ∃ s, l.leadingSegment? = some s
  /-- The loop and this segment do not both have implementations. -/
  plainLeading : ∀ {cs c l s}, root.Holds cs → c ∈ cs → c.target = .loop l →
    l.isPolymorphic = true → l.leadingSegment? = some s → s.isPolymorphic = false
  /-- The implementations of the loop start with a segment of the same tag. -/
  body : ∀ {cs c l i}, root.Holds cs → c ∈ cs → c.target = .loop l → i ∈ l.implementations →
    (Loop.leadingSegmentOf? i.body).map (·.tag) = l.leadingTag?
  /-- They are told apart by one position, ... -/
  position : ∀ {cs c l}, root.Holds cs → c ∈ cs → c.target = .loop l →
    Implementation.SamePosition l.implementations
  /-- ... and so are the implementations of a segment. -/
  segmentPosition : ∀ {cs c s}, root.Holds cs → c ∈ cs → c.target = .segment s →
    Implementation.SamePosition s.implementations
  /-- An implementation of a segment has its tag and no implementations of its own. -/
  segmentBody : ∀ {cs c s i}, root.Holds cs → c ∈ cs → c.target = .segment s →
    i ∈ s.implementations → i.body.tag = s.tag ∧ i.body.isPolymorphic = false

/-! ### Checks -/

namespace Schema

/-- The implementation of a segment has its tag and no implementations of its own. -/
theorem implementationFault?_eq_none {path tag : String} {i : Implementation Segment} :
    implementationFault? path tag i = none ↔ i.body.tag = tag ∧ i.body.isPolymorphic = false := by
  unfold implementationFault?
  by_cases htag : i.body.tag = tag
  · by_cases hpoly : i.body.isPolymorphic = true <;> simp [htag, hpoly]
  · simp [htag]

namespace Check

/-- What the check looks at is malformed. -/
def Faulty : Check → Prop
  | children _ _ => False
  | segment _ s => ∃ i ∈ s.implementations, i.body.tag ≠ s.tag ∨ i.body.isPolymorphic = true
  | nested _ l => l.leadingSegment? = none
  | leading _ cs => Loop.leadingSegmentOf? cs = none ∨
      ∃ s, Loop.leadingSegmentOf? cs = some s ∧ s.isPolymorphic = true
  | body _ tag cs => (Loop.leadingSegmentOf? cs).map (·.tag) ≠ tag
  | implementations _ _ => False

/-- What the check looks at makes matching ambiguous. -/
def Clashing : Check → Prop
  | children _ cs => ¬Unambiguous cs
  | segment _ s => Implementation.Clash s.implementations
  | implementations _ is => Implementation.Clash is
  | nested _ _ | leading _ _ | body _ _ _ => False

/-- A check answers with a fault or with all defects of what it looks at. -/
theorem run_spec (check : Check) :
    (check.Faulty ∧ ∃ fault, check.run = .error fault) ∨
      (¬check.Faulty ∧ ∃ found, check.run = .ok found ∧ (found = [] ↔ ¬check.Clashing)) := by
  cases check with
  | children path cs => exact .inr ⟨id, _, rfl, clashes_eq_nil.trans Classical.not_not.symm⟩
  | implementations path is => exact .inr ⟨id, _, rfl, implementationClashes_eq_nil⟩
  | segment path s =>
      cases hfault : s.implementations.findSome?
        (implementationFault? (path ++ "/" ++ s.id) s.tag) with
      | some fault =>
          obtain ⟨i, hi, hi'⟩ := List.exists_of_findSome?_eq_some hfault
          have hne : ¬(i.body.tag = s.tag ∧ i.body.isPolymorphic = false) := by
            rw [← implementationFault?_eq_none, hi']
            exact Option.some_ne_none fault
          refine .inl ⟨⟨i, hi, ?_⟩, fault, by simp only [run, hfault]⟩
          by_cases htag : i.body.tag = s.tag
          · exact .inr (eq_true_of_ne_false fun hplain => hne ⟨htag, hplain⟩)
          · exact .inl htag
      | none =>
          refine .inr ⟨?_, implementationClashes (path ++ "/" ++ s.id) s.implementations,
            by simp only [run, hfault], implementationClashes_eq_nil⟩
          rintro ⟨i, hi, hne⟩
          obtain ⟨htag, hplain⟩ :=
            implementationFault?_eq_none.1 (List.findSome?_eq_none_iff.1 hfault i hi)
          rcases hne with hne | hne
          · exact hne htag
          · exact Bool.false_ne_true (hplain.symm.trans hne)
  | nested path l =>
      cases hs : l.leadingSegment? with
      | none => exact .inl ⟨hs, _, by simp only [run, hs]; rfl⟩
      | some s =>
          exact .inr ⟨by simp [Faulty, hs], [], by simp only [run, hs]; rfl, by simp [Clashing]⟩
  | leading path cs =>
      cases hs : Loop.leadingSegmentOf? cs with
      | none => exact .inl ⟨.inl hs, _, by simp only [run, hs]; rfl⟩
      | some s =>
          by_cases hpoly : s.isPolymorphic = true
          · exact .inl ⟨.inr ⟨s, hs, hpoly⟩, _, by simp only [run, hs, if_pos hpoly]; rfl⟩
          · refine .inr ⟨by simp [Faulty, hs, hpoly], [], ?_, by simp [Clashing]⟩
            simp only [run, hs, if_neg hpoly]
  | body path tag cs =>
      by_cases htag : (Loop.leadingSegmentOf? cs).map (·.tag) = tag
      · exact .inr ⟨fun h => h htag, [], by simp only [run, if_pos htag], by simp [Clashing]⟩
      · exact .inl ⟨htag, _, by simp only [run, if_neg htag]; rfl⟩

end Check

/-- The checks together answer with a fault or with all defects. -/
theorem mapM_run_spec (checks : List Check) :
    ((∃ check ∈ checks, check.Faulty) ∧ ∃ fault, checks.mapM Check.run = .error fault) ∨
      ((¬∃ check ∈ checks, check.Faulty) ∧ ∃ found, checks.mapM Check.run = .ok found ∧
        (found.flatten = [] ↔ ¬∃ check ∈ checks, check.Clashing)) := by
  induction checks with
  | nil => exact .inr ⟨by simp, [], rfl, by simp⟩
  | cons check rest ih =>
      rw [List.mapM_cons]
      simp only [List.mem_cons, exists_eq_or_imp]
      rcases check.run_spec with ⟨hfaulty, fault, hrun⟩ | ⟨hfine, found, hrun, hfound⟩
      · exact .inl ⟨.inl hfaulty, fault, by rw [hrun]; rfl⟩
      · rcases ih with ⟨hfaulty, fault, hrest⟩ | ⟨hfine', others, hrest, hothers⟩
        · exact .inl ⟨.inr hfaulty, fault, by rw [hrun, hrest]; rfl⟩
        · refine .inr ⟨not_or.2 ⟨hfine, hfine'⟩, found :: others, by rw [hrun, hrest]; rfl, ?_⟩
          rw [List.flatten_cons, List.append_eq_nil_iff, hfound, hothers, not_or]

/-- There is a check for every part of a tree. -/
structure Covers (checks : List Check) (root : Loop) : Prop where
  children : ∀ {cs}, root.Holds cs → ∃ path, .children path cs ∈ checks
  segment : ∀ {cs c s}, root.Holds cs → c ∈ cs → c.target = .segment s →
    ∃ path, .segment path s ∈ checks
  nested : ∀ {cs c l}, root.Holds cs → c ∈ cs → c.target = .loop l →
    ∃ path, .nested path l ∈ checks
  leading : ∀ {cs c l i}, root.Holds cs → c ∈ cs → c.target = .loop l → i ∈ l.implementations →
    ∃ path, .leading path l.children ∈ checks
  body : ∀ {cs c l i}, root.Holds cs → c ∈ cs → c.target = .loop l → i ∈ l.implementations →
    ∃ path, .body path l.leadingTag? i.body ∈ checks
  implementations : ∀ {cs c l i}, root.Holds cs → c ∈ cs → c.target = .loop l →
    i ∈ l.implementations → ∃ path, .implementations path l.implementations ∈ checks

/-- When the checks of every part of a tree find nothing, the tree is audited. -/
theorem Covers.audited {checks : List Check} {root : Loop} (h : Covers checks root)
    (hroot : root.isPolymorphic = false) (hfaulty : ¬∃ check ∈ checks, check.Faulty)
    (hclashing : ¬∃ check ∈ checks, check.Clashing) : root.Audited where
  plain := by simpa [Loop.isPolymorphic] using hroot
  unambiguous {cs} hcs := by
    obtain ⟨path, hmem⟩ := h.children hcs
    by_cases hcs' : Unambiguous cs
    · exact hcs'
    · exact absurd ⟨_, hmem, hcs'⟩ hclashing
  leading hcs hc ht := by
    obtain ⟨path, hmem⟩ := h.nested hcs hc ht
    exact Option.ne_none_iff_exists'.1 fun hnone => hfaulty ⟨_, hmem, hnone⟩
  body hcs hc ht hi := by
    obtain ⟨path, hmem⟩ := h.body hcs hc ht hi
    exact Classical.not_not.1 fun hne => hfaulty ⟨_, hmem, hne⟩
  plainLeading {cs c l s} hcs hc ht hpoly hs := by
    obtain ⟨i, hi⟩ := Loop.isPolymorphic_iff.1 hpoly
    obtain ⟨path, hmem⟩ := h.leading hcs hc ht hi
    exact eq_false_of_ne_true fun hs' => hfaulty ⟨_, hmem, .inr ⟨s, hs, hs'⟩⟩
  position {cs c l} hcs hc ht := by
    intro a ha
    obtain ⟨path, hmem⟩ := h.implementations hcs hc ht ha
    exact (Implementation.not_clash_iff.1 fun hclash => hclashing ⟨_, hmem, hclash⟩).1 a ha
  segmentPosition hcs hc ht := by
    obtain ⟨path, hmem⟩ := h.segment hcs hc ht
    exact (Implementation.not_clash_iff.1 fun hclash => hclashing ⟨_, hmem, hclash⟩).1
  segmentBody {cs c s i} hcs hc ht hi := by
    obtain ⟨path, hmem⟩ := h.segment hcs hc ht
    exact ⟨Classical.not_not.1 fun htag => hfaulty ⟨_, hmem, i, hi, .inl htag⟩,
      eq_false_of_ne_true fun hpoly => hfaulty ⟨_, hmem, i, hi, .inr hpoly⟩⟩

/-! ### The walk through a tree -/

/-- The checks of a list of children when every loop is entered. -/
def walkChildren (path : String) (cs : List Child) : List Check :=
  Id.run (checksOfChildren (fun _ => pure true) path cs)

/-- The checks of the bodies of implementations when every loop is entered. -/
def walkBodies (path : String) (tag : Option String)
    (is : List (Implementation (List Child))) : List Check :=
  Id.run (checksOfBodies (fun _ => pure true) path tag is)

/-- The checks of a loop when every loop inside is entered. -/
def walkLoop (path : String) (l : Loop) : List Check :=
  Id.run (checksOfLoop (fun _ => pure true) path l)

theorem walkLoop_eq (path : String) (l : Loop) :
    walkLoop path l = .children path l.children :: walkChildren path l.children ++
      (if l.implementations.isEmpty then []
        else .leading path l.children :: walkBodies path l.leadingTag? l.implementations ++
          [.implementations path l.implementations]) := by
  cases l
  simp only [walkLoop, checksOfLoop]
  rfl

theorem walkChildren_segment (path : String) (s : Segment) (min : Nat) (max : MaxOccurs)
    (rest : List Child) :
    walkChildren path (⟨.segment s, min, max⟩ :: rest) =
      .segment path s :: walkChildren path rest := by
  simp only [walkChildren, checksOfChildren]
  rfl

theorem walkChildren_loop (path : String) (l : Loop) (min : Nat) (max : MaxOccurs)
    (rest : List Child) :
    walkChildren path (⟨.loop l, min, max⟩ :: rest) =
      .nested (path ++ "/" ++ l.id) l :: walkLoop (path ++ "/" ++ l.id) l ++
        walkChildren path rest := by
  simp only [walkChildren, checksOfChildren]
  rfl

theorem walkBodies_cons (path : String) (tag : Option String) (i : Implementation (List Child))
    (rest : List (Implementation (List Child))) :
    walkBodies path tag (i :: rest) =
      .body (path ++ "[" ++ i.id ++ "]") tag i.body ::
        .children (path ++ "[" ++ i.id ++ "]") i.body ::
          walkChildren (path ++ "[" ++ i.id ++ "]") i.body ++ walkBodies path tag rest := by
  cases i
  simp only [walkBodies, checksOfBodies]
  rfl

theorem segment_mem_walk (path : String) {cs : List Child} {c : Child} {s : Segment}
    (hc : c ∈ cs) (ht : c.target = .segment s) : .segment path s ∈ walkChildren path cs := by
  induction cs with
  | nil => cases hc
  | cons d rest ih =>
      obtain ⟨target, min, max⟩ := d
      rcases List.mem_cons.1 hc with rfl | hrest
      · cases ht
        rw [walkChildren_segment]
        exact List.mem_cons_self
      · cases target with
        | segment s' =>
            rw [walkChildren_segment]
            exact List.mem_cons_of_mem _ (ih hrest)
        | loop l =>
            rw [walkChildren_loop]
            exact List.mem_append_right _ (ih hrest)

theorem loop_mem_walk (path : String) {cs : List Child} {c : Child} {l : Loop}
    (hc : c ∈ cs) (ht : c.target = .loop l) :
    .nested (path ++ "/" ++ l.id) l ∈ walkChildren path cs ∧
      walkLoop (path ++ "/" ++ l.id) l ⊆ walkChildren path cs := by
  induction cs with
  | nil => cases hc
  | cons d rest ih =>
      obtain ⟨target, min, max⟩ := d
      rcases List.mem_cons.1 hc with rfl | hrest
      · cases ht
        rw [walkChildren_loop]
        exact ⟨List.mem_cons_self, fun x hx =>
          List.mem_append_left _ (List.mem_cons_of_mem _ hx)⟩
      · obtain ⟨hnested, hloop⟩ := ih hrest
        cases target with
        | segment s' =>
            rw [walkChildren_segment]
            exact ⟨List.mem_cons_of_mem _ hnested, fun x hx =>
              List.mem_cons_of_mem _ (hloop hx)⟩
        | loop l' =>
            rw [walkChildren_loop]
            exact ⟨List.mem_append_right _ hnested, fun x hx =>
              List.mem_append_right _ (hloop hx)⟩

theorem body_mem_walk (path : String) (tag : Option String)
    {is : List (Implementation (List Child))} {i : Implementation (List Child)} (hi : i ∈ is) :
    ∃ bodyPath, .body bodyPath tag i.body ∈ walkBodies path tag is ∧
      .children bodyPath i.body ∈ walkBodies path tag is ∧
      walkChildren bodyPath i.body ⊆ walkBodies path tag is := by
  induction is with
  | nil => cases hi
  | cons a rest ih =>
      rw [walkBodies_cons]
      rcases List.mem_cons.1 hi with rfl | hi
      · exact ⟨_, List.mem_cons_self, List.mem_cons_of_mem _ List.mem_cons_self, fun x hx =>
          List.mem_cons_of_mem _ (List.mem_cons_of_mem _ (List.mem_append_left _ hx))⟩
      · obtain ⟨bodyPath, hbody, hchildren, hwalk⟩ := ih hi
        have hrest {x : Check} (hx : x ∈ walkBodies path tag rest) :=
          List.mem_cons_of_mem (Check.body (path ++ "[" ++ a.id ++ "]") tag a.body)
            (List.mem_cons_of_mem (Check.children (path ++ "[" ++ a.id ++ "]") a.body)
              (List.mem_append_right (walkChildren (path ++ "[" ++ a.id ++ "]") a.body) hx))
        exact ⟨bodyPath, hrest hbody, hrest hchildren, fun x hx => hrest (hwalk hx)⟩

/-- The walk through a loop looks at every list that the loop can have. -/
theorem lists_mem_walk (path : String) {l : Loop} {cs : List Child} (h : cs ∈ l.lists) :
    ∃ path', .children path' cs ∈ walkLoop path l ∧
      walkChildren path' cs ⊆ walkLoop path l := by
  rw [walkLoop_eq]
  rcases List.mem_cons.1 h with rfl | h
  · exact ⟨path, List.mem_append_left _ List.mem_cons_self, fun x hx =>
      List.mem_append_left _ (List.mem_cons_of_mem _ hx)⟩
  · obtain ⟨i, hi, rfl⟩ := List.mem_map.1 h
    obtain ⟨path', -, hchildren, hwalk⟩ := body_mem_walk path l.leadingTag? hi
    rw [if_neg (by simpa using List.ne_nil_of_mem hi)]
    exact ⟨path', List.mem_append_right _ (List.mem_cons_of_mem _
      (List.mem_append_left _ hchildren)), fun x hx => List.mem_append_right _
        (List.mem_cons_of_mem _ (List.mem_append_left _ (hwalk hx)))⟩

theorem holds_mem_walk {root : Loop} {cs : List Child} (h : root.Holds cs) :
    ∃ path, .children path cs ∈ checks root ∧ walkChildren path cs ⊆ checks root := by
  induction h with
  | own h => exact lists_mem_walk _ h
  | inside _ hc ht h ih =>
      obtain ⟨path, -, hwalk⟩ := ih
      obtain ⟨path', hchildren, hwalk'⟩ := lists_mem_walk (path ++ "/" ++ _) h
      have hloop := (loop_mem_walk path hc ht).2
      exact ⟨path', hwalk (hloop hchildren), fun x hx => hwalk (hloop (hwalk' hx))⟩

/-- The checks of a tree leave nothing out. -/
theorem checks_covers (root : Loop) : Covers (checks root) root where
  children hcs := (holds_mem_walk hcs).imp fun _ h => h.1
  segment hcs hc ht :=
    (holds_mem_walk hcs).imp fun _ h => h.2 (segment_mem_walk _ hc ht)
  nested hcs hc ht := by
    obtain ⟨path, -, hwalk⟩ := holds_mem_walk hcs
    exact ⟨_, hwalk (loop_mem_walk path hc ht).1⟩
  leading {cs c l i} hcs hc ht hi := by
    obtain ⟨path, -, hwalk⟩ := holds_mem_walk hcs
    refine ⟨path ++ "/" ++ l.id, hwalk ((loop_mem_walk path hc ht).2 ?_)⟩
    rw [walkLoop_eq, if_neg (by simpa using List.ne_nil_of_mem hi)]
    exact List.mem_append_right _ List.mem_cons_self
  body {cs c l i} hcs hc ht hi := by
    obtain ⟨path, -, hwalk⟩ := holds_mem_walk hcs
    obtain ⟨path', hbody, -, -⟩ := body_mem_walk (path ++ "/" ++ l.id) l.leadingTag? hi
    refine ⟨path', hwalk ((loop_mem_walk path hc ht).2 ?_)⟩
    rw [walkLoop_eq, if_neg (by simpa using List.ne_nil_of_mem hi)]
    exact List.mem_append_right _ (List.mem_cons_of_mem _ (List.mem_append_left _ hbody))
  implementations {cs c l i} hcs hc ht hi := by
    obtain ⟨path, -, hwalk⟩ := holds_mem_walk hcs
    refine ⟨path ++ "/" ++ l.id, hwalk ((loop_mem_walk path hc ht).2 ?_)⟩
    rw [walkLoop_eq, if_neg (by simpa using List.ne_nil_of_mem hi)]
    exact List.mem_append_right _ (List.mem_cons_of_mem _
      (List.mem_append_right _ List.mem_cons_self))

/-! ### Binding -/

/-- The answer of binding tells malformed trees, ambiguous ones and the others apart. A tree that is
both is malformed. -/
structure Classifies (name : String) (root : Loop) (malformed ambiguous : Prop)
    (result : Except Error Schema) : Prop where
  invalid_iff : (∃ fault, result = .error (.invalid fault)) ↔ malformed
  ambiguous_iff : (∃ defects, result = .error (.ambiguous defects)) ↔ ¬malformed ∧ ambiguous
  /-- Every other tree becomes a schema of the name. -/
  ok_iff : (∃ schema, result = .ok schema ∧ schema.name = name ∧ schema.root = root) ↔
    ¬malformed ∧ ¬ambiguous

/-- Binding answers what the checks find. -/
theorem classifies_bindChecked (name : String) (root : Loop) (checks : List Check) :
    Classifies name root (root.isPolymorphic = true ∨ ∃ check ∈ checks, check.Faulty)
      (∃ check ∈ checks, check.Clashing) (bindChecked name root checks) := by
  unfold bindChecked
  by_cases hroot : root.isPolymorphic = true
  · rw [if_pos hroot]
    exact ⟨by simp [hroot], by simp [hroot], by simp [hroot]⟩
  · rw [if_neg hroot]
    rcases mapM_run_spec checks with ⟨hfaulty, fault, hrun⟩ | ⟨hfine, found, hrun, hfound⟩
    · rw [hrun]
      exact ⟨by simp [hfaulty], by simp [hfaulty], by simp [hfaulty]⟩
    · rw [hrun]
      dsimp only
      by_cases hempty : found.flatten.isEmpty
      · have hclear := hfound.1 (List.isEmpty_iff.1 hempty)
        rw [if_pos hempty]
        exact ⟨by simp [hroot, hfine], by simp [hclear], by simp [hroot, hfine, hclear]⟩
      · have hclash := Classical.not_not.1 fun h => hempty (List.isEmpty_iff.2 (hfound.2 h))
        rw [if_neg hempty]
        exact ⟨by simp [hroot, hfine], by simp [hroot, hfine, hclash], by simp [hclash]⟩

/-- A bound schema has the name and the tree that were given. -/
theorem of_bindChecked {name : String} {root : Loop} {checks : List Check} {schema : Schema}
    (h : bindChecked name root checks = .ok schema) :
    schema.name = name ∧ schema.root = root := by
  unfold bindChecked at h
  split at h
  · cases h
  · split at h
    · cases h
    · split at h
      · cases h
        exact ⟨rfl, rfl⟩
      · cases h

/-- The tree of a bound schema is audited. -/
theorem Covers.audited_of_bindChecked {name : String} {root : Loop} {checks : List Check}
    {schema : Schema} (hcovers : Covers checks root)
    (h : bindChecked name root checks = .ok schema) : schema.root.Audited := by
  have hschema := of_bindChecked h
  obtain ⟨hfine, hclear⟩ :=
    (classifies_bindChecked name root checks).ok_iff.1 ⟨schema, h, hschema⟩
  obtain ⟨hroot, hfaulty⟩ := not_or.1 hfine
  rw [hschema.2]
  exact hcovers.audited (eq_false_of_ne_true hroot) hfaulty hclear

end Schema

end Interchange
