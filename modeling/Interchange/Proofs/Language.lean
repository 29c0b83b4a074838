import Interchange.Proofs.Audit
import Interchange.Proofs.Run

/-!
# The language of a loop

A document is a list of segments, each a tag with the events inside (`Passage`). `Derives` says
which of them a tree allows: a list of children one after the other, each as often as its
bounds say; an occurrence of a loop starts with exactly one segment, its leading segment, and
goes on with the other children in the list that the values of that segment choose.

How the list is chosen is a parameter. It makes no difference whether a choice settles while
the values arrive or is made from all of them, as long as they arrive in the order of the stream
(`Loop.allows_settling_iff`).

`Fills` is the same language for a list of children that have partly been read: what is still
to come when each child has occurred some number of times. The lemmas on it are those of a
reader that goes forward through the list.
-/

namespace Interchange

/-! ### Documents -/

/-- A segment of a document: its tag and the events inside it. -/
structure Passage where
  tag : String
  body : List Event
  inside : ∀ e ∈ body, e.isInside = true

namespace Passage

/-- The events of a segment. -/
def events (p : Passage) : List Event := .segmentStart p.tag :: (p.body ++ [.segmentEnd])

/-- The values of a segment, in order of arrival. -/
def values (p : Passage) : List ElementValue := p.body.filterMap Event.value?

end Passage

/-- The events of a document. -/
def document (version : Option String) (passages : List Passage) : List Event :=
  .interchangeStart version :: (passages.flatMap Passage.events ++ [.interchangeEnd])

/-! ### Derivations -/

/-- How an implementation of a loop is chosen from the values of its leading segment. -/
abbrev Choice := List (Implementation (List Child)) → List ElementValue → Selection

/-- The list of children that a selection puts in effect. -/
def Loop.childrenBy (l : Loop) (selection : Selection) : List Child :=
  match selection with
  | .resolved index => (l.implementations[index]?.map (·.body)).getD l.children
  | .noMatch | .unresolved => l.children

/-- What segments are derived from. -/
inductive Phrase where
  /-- The children in a list, one after the other. -/
  | children (cs : List Child)
  /-- A number of occurrences of a child. -/
  | occurrences (count : Nat) (c : Child)
  /-- One occurrence of a child. -/
  | occurrence (c : Child)

/-- The segments that a phrase allows. -/
inductive Derives (choose : Choice) : Phrase → List Passage → Prop
  | nil : Derives choose (.children []) []
  | cons {c : Child} {cs : List Child} {n : Nat} {first rest : List Passage}
      (hmin : c.minOccurs ≤ n) (hmax : c.maxOccurs.allows n = true)
      (hfirst : Derives choose (.occurrences n c) first)
      (hrest : Derives choose (.children cs) rest) :
      Derives choose (.children (c :: cs)) (first ++ rest)
  | none {c : Child} : Derives choose (.occurrences 0 c) []
  | more {c : Child} {n : Nat} {first rest : List Passage}
      (hfirst : Derives choose (.occurrence c) first)
      (hrest : Derives choose (.occurrences n c) rest) :
      Derives choose (.occurrences (n + 1) c) (first ++ rest)
  | segment {c : Child} {s : Segment} {p : Passage} (ht : c.target = .segment s)
      (hp : p.tag = s.tag) : Derives choose (.occurrence c) [p]
  /-- The number of leading segments is one, whatever their maximum. -/
  | loop {c : Child} {l : Loop} {p : Passage} {leading : Child} {s : Segment}
      {cs : List Child} {rest : List Passage} (ht : c.target = .loop l)
      (hl : l.childrenBy (choose l.implementations p.values) = leading :: cs)
      (hs : leading.target = .segment s) (hp : p.tag = s.tag) (hmin : leading.minOccurs ≤ 1)
      (hrest : Derives choose (.children cs) rest) :
      Derives choose (.occurrence c) (p :: rest)

/-- The documents that a root loop allows. -/
def Loop.Allows (root : Loop) (choose : Choice) (passages : List Passage) : Prop :=
  Derives choose (.children root.children) passages

/-- The tags inside a loop do not occur after it: a tag that starts a child of a list inside,
beyond the first of the list, starts no child from the loop on in the list around it. -/
def Loop.Separated (root : Loop) : Prop :=
  ∀ {around : List Child} {n : Nat} {c : Child} {l : Loop} {inside : List Child} {k : Nat}
    {d : Child} {j : Nat} {e : Child} {tag : String},
    root.Holds around → around[n]? = some c → c.target = .loop l → l.Holds inside →
      1 ≤ k → inside[k]? = some d → d.startsWith tag = true →
        n ≤ j → around[j]? = some e → e.startsWith tag = false

variable {choose : Choice} {c d : Child} {cs : List Child} {l root : Loop} {p : Passage}
  {ps qs first rest : List Passage} {i j k n : Nat} {count count' : Nat → Nat}

theorem Loop.childrenBy_mem_lists (l : Loop) (selection : Selection) :
    l.childrenBy selection ∈ l.lists := by
  unfold Loop.childrenBy
  split
  · rename_i index
    cases hi : l.implementations[index]? with
    | none => exact l.children_mem_lists
    | some i => exact Loop.body_mem_lists (List.mem_of_getElem? hi)
  all_goals exact l.children_mem_lists

theorem Loop.leadingSegmentOf?_cons {s : Segment} (ht : c.target = .segment s) :
    Loop.leadingSegmentOf? (c :: cs) = some s := by
  obtain ⟨target, min, max⟩ := c
  cases ht
  rfl

theorem Loop.eq_cons_of_leadingSegmentOf? {s : Segment}
    (h : Loop.leadingSegmentOf? cs = some s) :
    ∃ leading rest, cs = leading :: rest ∧ leading.target = .segment s := by
  match cs, h with
  | ⟨.segment _, _, _⟩ :: rest, h =>
      cases h
      exact ⟨_, rest, rfl, rfl⟩

/-- A loop without implementations has one list of children. -/
theorem Loop.childrenBy_of_plain {l : Loop} (h : l.isPolymorphic = false) (choice : Selection) :
    l.childrenBy choice = l.children := by
  have himplementations : l.implementations = [] := by simpa [Loop.isPolymorphic] using h
  unfold Loop.childrenBy
  split
  · rw [himplementations]
    rfl
  all_goals rfl

/-- In an audited tree every list that a loop can have starts with the segment that announces
it. -/
theorem Loop.Audited.childrenBy (ha : root.Audited) (hcs : root.Holds cs) (hc : c ∈ cs)
    (ht : c.target = .loop l) (selection : Selection) :
    ∃ leading s rest, l.childrenBy selection = leading :: rest ∧
      leading.target = .segment s ∧ l.leadingTag? = some s.tag := by
  have hbase : ∃ leading s rest, l.children = leading :: rest ∧
      leading.target = .segment s ∧ l.leadingTag? = some s.tag := by
    obtain ⟨s, hs⟩ := ha.leading hcs hc ht
    obtain ⟨leading, rest, hchildren, htarget⟩ := Loop.eq_cons_of_leadingSegmentOf? hs
    exact ⟨leading, s, rest, hchildren, htarget, by rw [Loop.leadingTag?, hs]; rfl⟩
  unfold Loop.childrenBy
  split
  · rename_i index
    cases hi : l.implementations[index]? with
    | none => exact hbase
    | some i =>
        have hbody := ha.body hcs hc ht (List.mem_of_getElem? hi)
        obtain ⟨s, hs⟩ := ha.leading hcs hc ht
        have htag : l.leadingTag? = some s.tag := by rw [Loop.leadingTag?, hs]; rfl
        rw [htag] at hbody
        obtain ⟨t, hlead, htt⟩ := Option.map_eq_some_iff.1 hbody
        obtain ⟨leading, rest, hchildren, htarget⟩ := Loop.eq_cons_of_leadingSegmentOf? hlead
        exact ⟨leading, t, rest, hchildren, htarget, by rw [htag, htt]⟩
  all_goals exact hbase

/-- The tag of what comes first in an occurrence announces it. -/
theorem Derives.startsWith (h : Derives choose (.occurrence c) (p :: ps)) (ha : root.Audited)
    (hcs : root.Holds cs) (hc : c ∈ cs) : c.startsWith p.tag = true := by
  unfold Reference.startsWith Reference.leadingTag?
  cases h with
  | segment ht hp => simp [ht, hp]
  | loop ht hl hs hp =>
      obtain ⟨leading, t, rest, hlist, htarget, htag⟩ :=
        ha.childrenBy hcs hc ht (choose _ p.values)
      rw [hl] at hlist
      cases hlist
      rw [hs] at htarget
      cases htarget
      simp [ht, hp, htag]

/-! ### Choices in the order of the stream -/

/-- The parts of a phrase stand in a list that the root loop holds. -/
def Phrase.HeldBy (root : Loop) : Phrase → Prop
  | .children cs => ∃ all, root.Holds all ∧ cs ⊆ all
  | .occurrences _ c | .occurrence c => ∃ all, root.Holds all ∧ c ∈ all

/-- Two choices that agree on the segments of a document allow it alike. -/
theorem Derives.congr {choose' : Choice} {phrase : Phrase} (h : Derives choose phrase ps)
    (hheld : phrase.HeldBy root)
    (hchoose : ∀ {cs c l}, root.Holds cs → c ∈ cs → c.target = .loop l → ∀ p ∈ ps,
      choose l.implementations p.values = choose' l.implementations p.values) :
    Derives choose' phrase ps := by
  induction h with
  | nil => exact .nil
  | cons hmin hmax _ _ ihfirst ihrest =>
      obtain ⟨all, hall, hsub⟩ := hheld
      refine .cons hmin hmax (ihfirst ⟨all, hall, hsub List.mem_cons_self⟩ ?_)
        (ihrest ⟨all, hall, fun _ hx => hsub (List.mem_cons_of_mem _ hx)⟩ ?_)
      · exact fun hcs hc ht p hp => hchoose hcs hc ht p (List.mem_append_left _ hp)
      · exact fun hcs hc ht p hp => hchoose hcs hc ht p (List.mem_append_right _ hp)
  | none => exact .none
  | more _ _ ihfirst ihrest =>
      refine .more (ihfirst hheld ?_) (ihrest hheld ?_)
      · exact fun hcs hc ht p hp => hchoose hcs hc ht p (List.mem_append_left _ hp)
      · exact fun hcs hc ht p hp => hchoose hcs hc ht p (List.mem_append_right _ hp)
  | segment ht hp => exact .segment ht hp
  | @loop c l p leading s cs rest ht hl hs hp hmin _ ihrest =>
      obtain ⟨all, hall, hc⟩ := hheld
      have hlist := l.childrenBy_mem_lists (choose l.implementations p.values)
      rw [hl] at hlist
      rw [hchoose hall hc ht p List.mem_cons_self] at hl
      refine .loop ht hl hs hp hmin (ihrest ⟨_, hall.inside hc ht hlist, ?_⟩ ?_)
      · exact fun _ hx => List.mem_cons_of_mem _ hx
      · exact fun hcs hc ht p hp => hchoose hcs hc ht p (List.mem_cons_of_mem _ hp)

/-- The choice that settles while the values of a segment arrive. -/
def settling : Choice := Implementation.settle

/-- The choice from all values of a segment. -/
def selecting : Choice := (Implementation.select · · true)

/-- The values of every segment come in the order of the stream. -/
def Ordered (passages : List Passage) : Prop := ∀ p ∈ passages, InStreamOrder p.values

instance (passages : List Passage) : Decidable (Ordered passages) :=
  inferInstanceAs (Decidable (∀ p ∈ passages, InStreamOrder p.values))

/-- In the order of the stream it makes no difference when a choice is made. -/
theorem Loop.allows_settling_iff (ha : root.Audited) (ho : Ordered ps) :
    root.Allows settling ps ↔ root.Allows selecting ps := by
  have hagree {cs : List Child} {c : Child} {l : Loop} (hcs : root.Holds cs) (hc : c ∈ cs)
      (ht : c.target = .loop l) (p : Passage) (hp : p ∈ ps) :
      settling l.implementations p.values = selecting l.implementations p.values :=
    Implementation.settle_eq_select (ha.position hcs hc ht) (ho p hp)
  have hheld : (Phrase.children root.children).HeldBy root :=
    ⟨_, .own root.children_mem_lists, fun _ hx => hx⟩
  constructor
  · exact fun h => h.congr hheld hagree
  · exact fun h => h.congr hheld fun hcs hc ht p hp => (hagree hcs hc ht p hp).symm

/-! ### What is still to come -/

/-- What is still to come of the children in a list, numbered from `k`, when each has occurred
`count` times. -/
inductive Fills (choose : Choice) (count : Nat → Nat) : Nat → List Child → List Passage → Prop
  | nil {k : Nat} : Fills choose count k [] []
  | cons {k n : Nat} {c : Child} {cs : List Child} {first rest : List Passage}
      (hmin : c.minOccurs ≤ count k + n)
      (hmax : n = 0 ∨ c.maxOccurs.allows (count k + n) = true)
      (hfirst : Derives choose (.occurrences n c) first)
      (hrest : Fills choose count (k + 1) cs rest) : Fills choose count k (c :: cs) (first ++ rest)

theorem MaxOccurs.allows_of_le {max : MaxOccurs} (h : max.allows n = true) (hk : k ≤ n) :
    max.allows k = true := by
  cases max with
  | bounded max =>
      have hn : n ≤ max := by simpa [MaxOccurs.allows] using h
      simpa [MaxOccurs.allows] using Nat.le_trans hk hn
  | unbounded => rfl

theorem MaxOccurs.allows_zero (max : MaxOccurs) : max.allows 0 = true := by
  cases max <;> simp [MaxOccurs.allows]

/-- Of children that have not occurred everything is still to come. -/
theorem fills_iff_derives (h : ∀ i, k ≤ i → count i = 0) :
    Fills choose count k cs ps ↔ Derives choose (.children cs) ps := by
  induction cs generalizing k ps with
  | nil =>
      constructor
      · intro hf
        cases hf
        exact .nil
      · intro hd
        cases hd
        exact .nil
  | cons c cs ih =>
      have ih {ps : List Passage} :
          Fills choose count (k + 1) cs ps ↔ Derives choose (.children cs) ps :=
        ih fun i hi => h i (by omega)
      have hk := h k (Nat.le_refl k)
      constructor
      · intro hf
        cases hf with
        | cons hmin hmax hfirst hrest =>
            rw [hk, Nat.zero_add] at hmin hmax
            refine .cons hmin ?_ hfirst (ih.1 hrest)
            rcases hmax with rfl | hmax
            · exact c.maxOccurs.allows_zero
            · exact hmax
      · intro hd
        cases hd with
        | cons hmin hmax hfirst hrest =>
            refine .cons ?_ (.inr ?_) hfirst (ih.2 hrest)
            · rwa [hk, Nat.zero_add]
            · rwa [hk, Nat.zero_add]

/-- Only the counts of the children in the list matter. -/
theorem Fills.congr (h : Fills choose count k cs ps) (hc : ∀ i, k ≤ i → count' i = count i) :
    Fills choose count' k cs ps := by
  induction h with
  | nil => exact .nil
  | @cons k n c cs first rest hmin hmax hfirst _ ih =>
      have hk := hc k (Nat.le_refl k)
      rw [← hk] at hmin hmax
      exact .cons hmin hmax hfirst (ih fun i hi => hc i (by omega))

/-- Children that have occurred often enough can be passed. -/
theorem Fills.skip (h : Fills choose count (k + j) (cs.drop j) ps)
    (hmin : ∀ i c, i < j → cs[i]? = some c → c.minOccurs ≤ count (k + i)) :
    Fills choose count k cs ps := by
  induction j generalizing k cs with
  | zero => exact h
  | succ j ih =>
      cases cs with
      | nil =>
          cases h
          exact .nil
      | cons c cs =>
          rw [List.drop_succ_cons, show k + (j + 1) = k + 1 + j by omega] at h
          have hrest := ih h fun i d hi hd => by
            have hnext := hmin (i + 1) d (by omega) (by simpa using hd)
            rwa [show k + (i + 1) = k + 1 + i by omega] at hnext
          have hnone : Fills choose count k (c :: cs) ([] ++ ps) :=
            .cons (n := 0) (hmin 0 c (by omega) rfl) (.inl rfl) .none hrest
          exact hnone

/-- One more occurrence of the child whose turn it is. -/
theorem Fills.take (hc : cs[0]? = some c) (hoccurrence : Derives choose (.occurrence c) first)
    (hmax : c.maxOccurs.allows (count k + 1) = true) (hk : count' k = count k + 1)
    (hother : ∀ i, k < i → count' i = count i) (h : Fills choose count' k cs ps) :
    Fills choose count k cs (first ++ ps) := by
  cases h with
  | nil => cases hc
  | @cons _ n d cs₁ others rest hmin hmax' hfirst hrest =>
      cases hc
      rw [hk, Nat.add_assoc, Nat.add_comm 1 n] at hmin hmax'
      rw [← List.append_assoc]
      refine .cons hmin (.inr ?_) (.more hoccurrence hfirst)
        (hrest.congr fun i hi => (hother i (by omega)).symm)
      rcases hmax' with rfl | hmax'
      · exact hmax
      · exact hmax'

theorem Derives.ne_nil (h : Derives choose (.occurrence c) ps) : ps ≠ [] := by
  cases h <;> exact List.cons_ne_nil _ _

/-- Nothing is still to come when every child has occurred often enough. -/
theorem fills_nil_iff :
    Fills choose count k cs [] ↔ ∀ i c, cs[i]? = some c → c.minOccurs ≤ count (k + i) := by
  constructor
  · generalize hps : ([] : List Passage) = ps
    intro h
    induction h with
    | nil => simp
    | @cons k n c cs first rest hmin _ hfirst _ ih =>
        obtain ⟨rfl, hrest⟩ := List.append_eq_nil_iff.1 hps.symm
        -- An occurrence is not empty, so there is none.
        have hn : n = 0 := by
          generalize hempty : ([] : List Passage) = first at hfirst
          cases hfirst with
          | none => rfl
          | more hfirst => exact absurd (List.append_eq_nil_iff.1 hempty.symm).1 hfirst.ne_nil
        intro i d hd
        cases i with
        | zero =>
            cases hd
            rw [hn] at hmin
            exact hmin
        | succ i =>
            have hnext := ih hrest.symm i d (by simpa using hd)
            rwa [show k + 1 + i = k + (i + 1) by omega] at hnext
  · intro h
    refine Fills.skip (j := cs.length) ?_ fun i c _ hc => h i c hc
    rw [List.drop_length]
    exact .nil

/-- What comes first is an occurrence of a child, and the children before have occurred often
enough. -/
theorem Fills.head (h : Fills choose count k cs (p :: ps)) :
    ∃ j c first rest, cs[j]? = some c ∧
      (∀ i d, i < j → cs[i]? = some d → d.minOccurs ≤ count (k + i)) ∧
      c.maxOccurs.allows (count (k + j) + 1) = true ∧
      Derives choose (.occurrence c) (p :: first) ∧ ps = first ++ rest ∧
      ∀ count', count' (k + j) = count (k + j) + 1 →
        (∀ i, k + j < i → count' i = count i) → Fills choose count' (k + j) (cs.drop j) rest := by
  generalize hps : p :: ps = all at h
  induction h with
  | nil => cases hps
  | @cons k n c cs first rest hmin hmax hfirst hrest ih =>
      generalize hphrase : Phrase.occurrences n c = phrase at hfirst
      cases hfirst with
      | nil => cases hphrase
      | cons => cases hphrase
      | segment => cases hphrase
      | loop => cases hphrase
      | none =>
          cases hphrase
          -- The first child does not occur any more, and the head is further on.
          obtain ⟨j, d, first, rest, hd, hbefore, hallows, hoccurrence, rfl, hcount⟩ := ih hps
          refine ⟨j + 1, d, first, rest, by simpa using hd, fun i e hi he => ?_, ?_,
            hoccurrence, rfl, fun count' hj hother => ?_⟩
          · cases i with
            | zero =>
                cases he
                exact hmin
            | succ i =>
                have hnext := hbefore i e (by omega) (by simpa using he)
                rwa [show k + 1 + i = k + (i + 1) by omega] at hnext
          · rwa [show k + 1 + j = k + (j + 1) by omega] at hallows
          · rw [show k + (j + 1) = k + 1 + j by omega] at hj hother ⊢
            exact hcount count' hj hother
      | @more _ m now later hoccurrence hlater =>
          cases hphrase
          obtain ⟨q, now, rfl⟩ := List.exists_cons_of_ne_nil hoccurrence.ne_nil
          cases hps
          have hallows : c.maxOccurs.allows (count k + (m + 1)) = true := by
            rcases hmax with hmax | hmax
            · cases hmax
            · exact hmax
          refine ⟨0, c, now, later ++ rest, rfl, by omega, ?_, hoccurrence, by simp,
            fun count' hj hother => ?_⟩
          · show c.maxOccurs.allows (count k + 1) = true
            exact MaxOccurs.allows_of_le hallows (by omega)
          · rw [Nat.add_zero] at hj hother
            rw [Nat.add_zero, List.drop_zero]
            refine .cons (n := m) ?_ (.inr ?_) hlater
              (hrest.congr fun i hi => hother i (by omega))
            · rw [hj]
              omega
            · rw [hj, Nat.add_assoc, Nat.add_comm 1 m]
              exact hallows

end Interchange
