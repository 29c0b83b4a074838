import Interchange.Proofs.Definitions
import Interchange.Proofs.Language

/-!
# Sequences of tags with more than one derivation

A `Derivation` says which child of which list takes each tag of a document. When no loop has
implementations every document that a root loop allows has one (`Loop.Allows.derivation`).

Binding looks at one list of children at a time, and a tag inside a loop can also start what
comes after the loop in a list around it: the tag straddles the end of the loop
(`Loop.Straddles`). A sequence of tags without such a tag has one derivation at most
(`derivation_unique`), and with such a tag it can have two (`derivation_not_unique`).

The proof follows one of the two derivations. What it has derived so far is what the other one
has derived, and `Follows` and `Next` say by which tags the rest can begin.
-/

namespace Interchange

/-- How tags are derived from a phrase. -/
inductive Derivation where
  /-- There are no more children in the list. -/
  | nil
  /-- The occurrences of the first child, then the other children. -/
  | cons (first rest : Derivation)
  /-- There are no more occurrences. -/
  | none
  /-- An occurrence of a child, then its other occurrences. -/
  | more (first rest : Derivation)
  /-- A segment. -/
  | segment (tag : String)
  /-- The leading segment of a loop, then its other children. -/
  | loop (tag : String) (rest : Derivation)

namespace Derivation

/-- The tags that are derived, in order. -/
def tags : Derivation → List String
  | nil | none => []
  | cons first rest | more first rest => first.tags ++ rest.tags
  | segment tag => [tag]
  | loop tag rest => tag :: rest.tags

/-- The derivations from a phrase, in which each loop has its own list of children. -/
inductive Of : Phrase → Derivation → Prop
  | nil : Of (.children []) .nil
  | cons {c : Child} {cs : List Child} {n : Nat} {first rest : Derivation}
      (hmin : c.minOccurs ≤ n) (hmax : c.maxOccurs.allows n = true)
      (hfirst : Of (.occurrences n c) first) (hrest : Of (.children cs) rest) :
      Of (.children (c :: cs)) (.cons first rest)
  | none {c : Child} : Of (.occurrences 0 c) .none
  | more {c : Child} {n : Nat} {first rest : Derivation} (hfirst : Of (.occurrence c) first)
      (hrest : Of (.occurrences n c) rest) : Of (.occurrences (n + 1) c) (.more first rest)
  | segment {c : Child} {s : Segment} (ht : c.target = .segment s) :
      Of (.occurrence c) (.segment s.tag)
  /-- The leading segment occurs once, whatever its bounds. -/
  | loop {c : Child} {l : Loop} {leading : Child} {s : Segment} {cs : List Child}
      {rest : Derivation} (ht : c.target = .loop l) (hl : l.children = leading :: cs)
      (hs : leading.target = .segment s) (hrest : Of (.children cs) rest) :
      Of (.occurrence c) (.loop s.tag rest)

end Derivation

namespace Loop

/-- A tag that starts a child behind a place in a list, with no required child in between. -/
def StartsAfter (cs : List Child) (n : Nat) (tag : String) : Prop :=
  ∃ j e, n < j ∧ cs[j]? = some e ∧ e.startsWith tag = true ∧
    ∀ i x, n < i → i < j → cs[i]? = some x → x.minOccurs = 0

/-- A tag that can come after an occurrence of the loop to which a list belongs: it starts the
next occurrence of that loop, or of one that it is in, or a child behind it. -/
def CanFollow (root : Loop) (cs : List Child) (tag : String) : Prop :=
  ∃ around n c l, root.Holds around ∧ around[n]? = some c ∧ c.target = .loop l ∧ l.Holds cs ∧
    (c.startsWith tag = true ∨ StartsAfter around n tag)

/-- A tag that starts a child inside a loop, beyond the leading segment, and can also come after
that loop. -/
def Straddles (root : Loop) (tag : String) : Prop :=
  ∃ cs k d, CanFollow root cs tag ∧ 1 ≤ k ∧ cs[k]? = some d ∧ d.startsWith tag = true

end Loop

open Interchange.Derivation (Of)

variable {root l : Loop} {c : Child} {cs all : List Child} {phrase : Phrase}
  {d d' : Derivation} {choose : Choice} {ps : List Passage} {k n : Nat} {tag : String}
  {word rest rest' : List String}

/-- An occurrence of a child begins with a tag that starts it. -/
theorem Derivation.Of.head (h : Of (.occurrence c) d) (ha : root.Audited) (hall : root.Holds all)
    (hc : c ∈ all) : ∃ tag more, d.tags = tag :: more ∧ c.startsWith tag = true := by
  cases h with
  | @segment _ s ht =>
      exact ⟨s.tag, [], rfl, by simp [Reference.startsWith, Reference.leadingTag?, ht]⟩
  | @loop _ l leading s cs rest ht hl hs =>
      obtain ⟨leading', t, rest', hlist, htarget, htag⟩ := ha.childrenBy hall hc ht .noMatch
      have hlist : l.children = leading' :: rest' := hlist
      rw [hl] at hlist
      cases hlist
      rw [hs] at htarget
      cases htarget
      exact ⟨s.tag, rest.tags, rfl, by simp [Reference.startsWith, Reference.leadingTag?, ht, htag]⟩

/-! ### The language of derivations -/

/-- No loop of the tree has implementations. -/
def Loop.Plain (root : Loop) : Prop :=
  ∀ {cs c l}, root.Holds cs → c ∈ cs → c.target = .loop l → l.isPolymorphic = false

/-- Every list that a phrase can be derived by is the loop's own. -/
theorem Derives.derivation (h : Derives choose phrase ps) (hplain : root.Plain)
    (hheld : phrase.HeldBy root) : ∃ d, Of phrase d ∧ d.tags = ps.map (·.tag) := by
  induction h with
  | nil => exact ⟨.nil, .nil, rfl⟩
  | cons hmin hmax _ _ ihfirst ihrest =>
      obtain ⟨all, hall, hsub⟩ := hheld
      obtain ⟨first, hfirst, hfirsttags⟩ := ihfirst ⟨all, hall, hsub List.mem_cons_self⟩
      obtain ⟨rest, hrest, hresttags⟩ :=
        ihrest ⟨all, hall, fun _ hx => hsub (List.mem_cons_of_mem _ hx)⟩
      exact ⟨.cons first rest, .cons hmin hmax hfirst hrest, by
        rw [Derivation.tags, hfirsttags, hresttags, List.map_append]⟩
  | none => exact ⟨.none, .none, rfl⟩
  | more _ _ ihfirst ihrest =>
      obtain ⟨first, hfirst, hfirsttags⟩ := ihfirst hheld
      obtain ⟨rest, hrest, hresttags⟩ := ihrest hheld
      exact ⟨.more first rest, .more hfirst hrest, by
        rw [Derivation.tags, hfirsttags, hresttags, List.map_append]⟩
  | segment ht hp => exact ⟨.segment _, .segment ht, by rw [Derivation.tags, ← hp]; rfl⟩
  | @loop c l p leading s cs rest ht hl hs hp _ _ ihrest =>
      obtain ⟨all, hall, hc⟩ := hheld
      rw [Loop.childrenBy_of_plain (hplain hall hc ht)] at hl
      obtain ⟨others, hothers, hothertags⟩ := ihrest
        ⟨_, hall.inside hc ht l.children_mem_lists, by rw [hl]; exact List.subset_cons_self _ _⟩
      exact ⟨.loop s.tag others, .loop ht hl hs hothers, by
        rw [Derivation.tags, hothertags, ← hp]; rfl⟩

/-- When no loop below a root loop has implementations, the tags of every document that it allows
have a derivation. -/
theorem Loop.Allows.derivation (h : root.Allows choose ps) (hplain : root.Plain) :
    ∃ d, Of (.children root.children) d ∧ d.tags = ps.map (·.tag) :=
  Derives.derivation h hplain ⟨_, .own root.children_mem_lists, fun _ hx => hx⟩

/-! ### How the rest begins -/

/-- What can come after the children of a list from a place on: nothing, or what follows the loop
to which the list belongs. The leading segment of that loop is before that place. -/
def Follows (root : Loop) (all : List Child) (k : Nat) (word : List String) : Prop :=
  ∀ tag, word.head? = some tag → 1 ≤ k ∧ root.CanFollow all tag

/-- What can come after the occurrences of the child at a place. -/
def Next (root : Loop) (all : List Child) (k : Nat) (word : List String) : Prop :=
  ∀ tag, word.head? = some tag → Loop.StartsAfter all k tag ∨ 1 ≤ k ∧ root.CanFollow all tag

/-- What can come after one occurrence of a child, which may be a loop. -/
def Behind (root : Loop) (c : Child) (word : List String) : Prop :=
  ∀ l, c.target = .loop l → Follows root l.children 1 word

/-- Some tag straddles the end of a loop. -/
def Straddled (root : Loop) (word : List String) : Prop := ∃ tag ∈ word, root.Straddles tag

theorem Straddled.mono {word' : List String} (h : Straddled root word)
    (hsub : ∀ tag ∈ word, tag ∈ word') : Straddled root word' := by
  obtain ⟨tag, hmem, htag⟩ := h
  exact ⟨tag, hsub tag hmem, htag⟩

theorem drop_succ_of_drop {α : Type} {xs ys : List α} {x : α} (h : xs.drop k = x :: ys) :
    xs[k]? = some x ∧ xs.drop (k + 1) = ys := by
  constructor
  · rw [← Nat.add_zero k, ← List.getElem?_drop, h]
    rfl
  · rw [← List.tail_drop, h]
    rfl

/-- A list of children begins with a tag that starts one of them, or is empty. -/
theorem Derivation.Of.next (h : Of (.children cs) d) (ha : root.Audited) (hall : root.Holds all)
    (hcs : all.drop (k + 1) = cs) (hrest : Follows root all k rest) :
    Next root all k (d.tags ++ rest) := by
  have begins {cs : List Child} {k : Nat} {d : Derivation} (h : Of (.children cs) d)
      (hcs : all.drop (k + 1) = cs) {tag : String}
      (htag : (d.tags ++ rest).head? = some tag) :
      Loop.StartsAfter all k tag ∨ rest.head? = some tag := by
    induction cs generalizing k d with
    | nil =>
        cases h
        exact .inr htag
    | cons c cs ih =>
        obtain ⟨hc, hcs⟩ := drop_succ_of_drop hcs
        cases h with
        | @cons _ _ n first others hmin _ hfirst hothers =>
            cases hfirst with
            | none =>
                -- The child does not occur, so it is not required.
                refine (ih hothers hcs htag).imp_left ?_
                rintro ⟨j, e, hj, he, hstarts, hoptional⟩
                refine ⟨j, e, by omega, he, hstarts, fun i x hi hij hx => ?_⟩
                by_cases hik : i = k + 1
                · subst hik
                  rw [hc] at hx
                  cases hx
                  omega
                · exact hoptional i x (by omega) hij hx
            | more hoccurrence =>
                obtain ⟨tag', more, htags, hstarts⟩ :=
                  hoccurrence.head ha hall (List.mem_of_getElem? hc)
                simp only [tags, htags, List.cons_append, List.head?_cons] at htag
                cases htag
                exact .inl ⟨k + 1, c, by omega, hc, hstarts, fun i x hi hij => by omega⟩
  exact fun tag htag => (begins h hcs htag).imp_right (hrest tag)

/-- After one occurrence come the others, and then what comes after all of them. -/
theorem Derivation.Of.behind (h : Of (.occurrences n c) d) (ha : root.Audited)
    (hall : root.Holds all) (hc : all[k]? = some c) (hrest : Next root all k rest) :
    Behind root c (d.tags ++ rest) := by
  intro l hl tag htag
  refine ⟨Nat.le_refl _, ?_⟩
  have hmem := List.mem_of_getElem? hc
  have hchildren : l.Holds l.children := .own l.children_mem_lists
  cases h with
  | none =>
      rcases hrest tag htag with hafter | ⟨-, around, n, c', l', hheld, hc', ht, hinside, hstarts⟩
      · exact ⟨all, k, c, l, hall, hc, hl, hchildren, .inr hafter⟩
      · exact ⟨around, n, c', l', hheld, hc', ht,
          hinside.inside hmem hl l.children_mem_lists, hstarts⟩
  | more hoccurrence =>
      obtain ⟨tag', more, htags, hstarts⟩ := hoccurrence.head ha hall hmem
      simp only [tags, htags, List.cons_append, List.head?_cons] at htag
      cases htag
      exact ⟨all, k, c, l, hall, hc, hl, hchildren, .inl hstarts⟩

/-- When one derivation has another occurrence of a child and the other one has not, the tag that
starts it straddles. -/
theorem Derivation.Of.straddled (h : Of (.occurrence c) d) (ha : root.Audited)
    (hall : root.Holds all) (hc : all[k]? = some c) (hword : word = d.tags ++ rest)
    (hnext : Next root all k word) : Straddled root word := by
  obtain ⟨tag, more, htags, hstarts⟩ := h.head ha hall (List.mem_of_getElem? hc)
  rw [htags] at hword
  subst hword
  refine ⟨tag, List.mem_cons_self, ?_⟩
  rcases hnext tag rfl with ⟨j, e, hj, he, hstarts', hoptional⟩ | ⟨hk, hfollows⟩
  · -- The list would be ambiguous.
    obtain ⟨i, x, hi, hij, hx, hmin⟩ := ha.unambiguous hall hj hc he
      (by simpa [Reference.startsWith] using hstarts)
      (by simpa [Reference.startsWith] using hstarts')
    have hzero := hoptional i x hi hij hx
    omega
  · exact ⟨all, k, c, hfollows, hk, hc, hstarts⟩

/-! ### One derivation at most -/

/-- A derivation is the only one of its tags, whatever can come after it, unless some tag
straddles. -/
def Unique (root : Loop) : Phrase → Derivation → Prop
  | .children cs, d => ∀ {all k d' rest rest'}, root.Holds all → all.drop k = cs →
      Of (.children cs) d' → Follows root all k rest → Follows root all k rest' →
      d.tags ++ rest = d'.tags ++ rest' →
        (d = d' ∧ rest = rest') ∨ Straddled root (d.tags ++ rest)
  | .occurrences _ c, d => ∀ {all k n d' rest rest'}, root.Holds all → all[k]? = some c →
      Of (.occurrences n c) d' → Next root all k rest → Next root all k rest' →
      d.tags ++ rest = d'.tags ++ rest' →
        (d = d' ∧ rest = rest') ∨ Straddled root (d.tags ++ rest)
  | .occurrence c, d => ∀ {all d' rest rest'}, root.Holds all → c ∈ all →
      Of (.occurrence c) d' → Behind root c rest → Behind root c rest' →
      d.tags ++ rest = d'.tags ++ rest' →
        (d = d' ∧ rest = rest') ∨ Straddled root (d.tags ++ rest)

theorem Derivation.Of.unique (h : Of phrase d) (ha : root.Audited) : Unique root phrase d := by
  induction h with
  | nil =>
      intro all k d' rest rest' _ _ h' _ _ htags
      cases h'
      exact .inl ⟨rfl, htags⟩
  | @cons c cs n first others _ _ _ hothers ihfirst ihothers =>
      intro all k d' rest rest' hall hcs h' hrest hrest' htags
      obtain ⟨hc, hcs⟩ := drop_succ_of_drop hcs
      cases h' with
      | cons _ _ hfirst' hothers' =>
          simp only [tags, List.append_assoc] at htags ⊢
          rcases ihfirst hall hc hfirst' (hothers.next ha hall hcs hrest)
            (hothers'.next ha hall hcs hrest') htags with ⟨rfl, hmore⟩ | hstraddled
          · have hsucc {word : List String} (h : Follows root all k word) :
                Follows root all (k + 1) word :=
              fun tag htag => ⟨by omega, (h tag htag).2⟩
            rcases ihothers hall hcs hothers' (hsucc hrest) (hsucc hrest') hmore with
              ⟨rfl, hrest⟩ | hstraddled
            · exact .inl ⟨rfl, hrest⟩
            · exact .inr (hstraddled.mono fun tag => List.mem_append_right _)
          · exact .inr hstraddled
  | none =>
      intro all k n d' rest rest' hall hc h' hrest _ htags
      cases h' with
      | none => exact .inl ⟨rfl, htags⟩
      | more hfirst' =>
          simp only [tags, List.nil_append, List.append_assoc] at htags
          exact .inr (hfirst'.straddled ha hall hc htags hrest)
  | @more c n first others hfirst hothers ihfirst ihothers =>
      intro all k n' d' rest rest' hall hc h' hrest hrest' htags
      have hmem := List.mem_of_getElem? hc
      cases h' with
      | none =>
          refine .inr ?_
          rw [htags]
          simp only [tags, List.nil_append, List.append_assoc] at htags
          exact hfirst.straddled ha hall hc htags.symm hrest'
      | more hfirst' hothers' =>
          simp only [tags, List.append_assoc] at htags ⊢
          rcases ihfirst hall hmem hfirst' (hothers.behind ha hall hc hrest)
            (hothers'.behind ha hall hc hrest') htags with ⟨rfl, hmore⟩ | hstraddled
          · rcases ihothers hall hc hothers' hrest hrest' hmore with ⟨rfl, hrest⟩ | hstraddled
            · exact .inl ⟨rfl, hrest⟩
            · exact .inr (hstraddled.mono fun tag => List.mem_append_right _)
          · exact .inr hstraddled
  | segment ht =>
      intro all d' rest rest' _ _ h' _ _ htags
      cases h' with
      | segment ht' =>
          rw [ht] at ht'
          cases ht'
          exact .inl ⟨rfl, List.append_cancel_left htags⟩
      | loop ht' =>
          rw [ht] at ht'
          cases ht'
  | @loop c l leading s cs others ht hl hs _ ihothers =>
      intro all d' rest rest' hall hc h' hrest hrest' htags
      cases h' with
      | segment ht' =>
          rw [ht] at ht'
          cases ht'
      | loop ht' hl' hs' hothers' =>
          rw [ht] at ht'
          cases ht'
          rw [hl] at hl'
          cases hl'
          rw [hs] at hs'
          cases hs'
          have htags := List.tail_eq_of_cons_eq htags
          have hcs : l.children.drop 1 = cs := by
            rw [hl]
            rfl
          rcases ihothers (hall.inside hc ht l.children_mem_lists) hcs hothers' (hrest l ht)
            (hrest' l ht) htags with ⟨rfl, hrest⟩ | hstraddled
          · exact .inl ⟨rfl, hrest⟩
          · exact .inr (hstraddled.mono fun tag => List.mem_cons_of_mem _)

/-- Two derivations of the same tags are equal, unless one of the tags straddles the end of a
loop. -/
theorem derivation_unique {schema : Schema} (hb : schema.Bound)
    (h : Of (.children schema.root.children) d) (h' : Of (.children schema.root.children) d')
    (htags : d.tags = d'.tags) :
    d = d' ∨ ∃ tag ∈ d.tags, schema.root.Straddles tag := by
  have hend : Follows schema.root schema.root.children 0 [] := fun tag htag => nomatch htag
  have hheld : schema.root.Holds schema.root.children := .own schema.root.children_mem_lists
  rcases h.unique hb.audited hheld List.drop_zero h' hend hend
    (congrArg (· ++ []) htags) with ⟨rfl, -⟩ | hstraddled
  · exact .inl rfl
  · rw [List.append_nil] at hstraddled
    exact .inr hstraddled

/-- When the tags inside a loop do not occur after it, none straddles. -/
theorem Loop.Separated.not_straddles (h : root.Separated) : ¬ root.Straddles tag := by
  rintro ⟨inside, k, d, ⟨around, n, c, l, haround, hc, ht, hinside, hfollows⟩, hk, hd, hstarts⟩
  have hnone {j : Nat} {e : Child} (hj : n ≤ j) (he : around[j]? = some e) :
      e.startsWith tag = false := h haround hc ht hinside hk hd hstarts hj he
  rcases hfollows with hagain | ⟨j, e, hj, he, hlater, -⟩
  · rw [hnone (Nat.le_refl n) hc] at hagain
    cases hagain
  · rw [hnone (Nat.le_of_lt hj) he] at hlater
    cases hlater

/-! ### Two derivations -/

/-- A segment without elements. -/
def bareSegment (tag : String) : Segment := ⟨tag, tag, [], []⟩

/-- A segment that occurs at most once. -/
def optionalChild (tag : String) : Child := ⟨.segment (bareSegment tag), 0, .bounded 1⟩

/-- A loop of `A`, at the end of which `B` can come. -/
def trailedLoop : Loop where
  id := "L"
  children := [⟨.segment (bareSegment "A"), 1, .bounded 1⟩, optionalChild "B"]
  implementations := []

/-- A schema in which `B` can also come after that loop. -/
def straddledSchema : Schema where
  name := "STRADDLED"
  root := ⟨"ROOT", [⟨.loop trailedLoop, 0, .unbounded⟩, optionalChild "B"], []⟩
  tags := ["A", "B", "B"]

theorem straddledSchema_bound : straddledSchema.Bound :=
  .tree (show Schema.bind "STRADDLED" straddledSchema.root = .ok straddledSchema from rfl)

theorem straddledSchema_loops (h : cs = straddledSchema.root.children ∨ cs = trailedLoop.children)
    (hc : c ∈ cs) (ht : c.target = .loop l) : l = trailedLoop := by
  rcases h with rfl | rfl
  · rcases List.mem_cons.1 hc with rfl | hc
    · cases ht
      rfl
    · rw [List.mem_singleton.1 hc] at ht
      cases ht
  · rcases List.mem_cons.1 hc with rfl | hc
    · cases ht
    · rw [List.mem_singleton.1 hc] at ht
      cases ht

theorem straddledSchema_plain : straddledSchema.root.Plain := by
  have hlists {cs : List Child} (h : straddledSchema.root.Holds cs) :
      cs = straddledSchema.root.children ∨ cs = trailedLoop.children := by
    induction h with
    | own h => exact .inl (List.mem_singleton.1 h)
    | inside _ hc ht h ih =>
        obtain rfl := straddledSchema_loops ih hc ht
        exact .inr (List.mem_singleton.1 h)
  intro cs c l h hc ht
  rw [straddledSchema_loops (hlists h) hc ht]
  rfl

/-- One occurrence of the loop, with or without `B`. -/
def trailed (inside : Bool) : Derivation :=
  .loop "A" (.cons (if inside then .more (.segment "B") .none else .none) .nil)

/-- `A` and `B`, with `B` inside the loop or after it. -/
def straddling (inside : Bool) : Derivation :=
  .cons (.more (trailed inside) .none)
    (.cons (if inside then .none else .more (.segment "B") .none) .nil)

theorem straddling_of (inside : Bool) :
    Of (.children straddledSchema.root.children) (straddling inside) := by
  have hoptional (occurs : Bool) : Of (.children [optionalChild "B"])
      (.cons (if occurs then .more (.segment "B") .none else .none) .nil) := by
    cases occurs with
    | true =>
        have hsegment : Of (.occurrence (optionalChild "B")) (.segment "B") :=
          .segment (s := bareSegment "B") rfl
        exact .cons (Nat.zero_le 1) rfl (.more hsegment .none) .nil
    | false => exact .cons (Nat.le_refl 0) rfl .none .nil
  have hloop : Of (.occurrence ⟨.loop trailedLoop, 0, .unbounded⟩) (trailed inside) :=
    .loop (s := bareSegment "A") rfl rfl rfl (hoptional inside)
  have hafter := hoptional !inside
  cases inside <;> exact .cons (Nat.zero_le 1) rfl (.more hloop .none) hafter

/-- The second derivation is there because `B` straddles the end of the loop. -/
theorem derivation_unique_straddling :
    straddledSchema.Bound ∧ Of (.children straddledSchema.root.children) (straddling true) ∧
      Of (.children straddledSchema.root.children) (straddling false) ∧
      (straddling true).tags = (straddling false).tags ∧
      (straddling true = straddling false ∨
        ∃ tag ∈ (straddling true).tags, straddledSchema.root.Straddles tag) :=
  ⟨straddledSchema_bound, straddling_of true, straddling_of false, rfl,
    derivation_unique straddledSchema_bound (straddling_of true) (straddling_of false) rfl⟩

/-- A sequence of tags with two derivations, in a schema that binds. -/
theorem derivation_not_unique :
    straddledSchema.Bound ∧ straddledSchema.root.Plain ∧
      Of (.children straddledSchema.root.children) (straddling true) ∧
      Of (.children straddledSchema.root.children) (straddling false) ∧
      (straddling true).tags = ["A", "B"] ∧ (straddling false).tags = ["A", "B"] ∧
      straddling true ≠ straddling false :=
  ⟨straddledSchema_bound, straddledSchema_plain, straddling_of true, straddling_of false, rfl, rfl,
    fun h => nomatch h⟩

end Interchange
