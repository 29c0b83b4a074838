import Interchange.Proofs.Walk

/-!
# The stack of open loops

The open loops form a stack. The root loop is at the bottom, and every other one is an
occurrence of the child at which the loop below it stands (`Stack`). There is one lemma for
each thing that happens to the stack: a child is entered (`Stack.enter`), a loop is opened
(`Stack.opened`), its implementation is decided (`Stack.select`, `Stack.keep`), and the loops
above one of them are closed (`Stack.of_append`).
-/

namespace Interchange.Validator

variable {root l : Loop} {frames outer : List Frame} {f g : Frame} {c : Child}
  {i : Implementation (List Child)} {j n : Nat}

/-! ### One open loop -/

namespace Frame

/-- What the path of a loop shows of its implementation. -/
def marker (f : Frame) : String :=
  match f.active with
  | .implementation index =>
      match f.loop.implementations[index]? with
      | some i => "[" ++ i.id ++ "]"
      | none => ""
  | .pending | .base => ""

/-- The counts and the cursor of a loop fit the list of children in effect. -/
structure Sound (f : Frame) : Prop extends f.Tidy where
  inside : f.cursor < f.children.length ∨ f.children = [] ∧ f.cursor = 0
  /-- The list in effect is there. -/
  selected : ∀ index, f.active = .implementation index →
    ∃ i, f.loop.implementations[index]? = some i

/-- An occurrence of the child at which the loop around it stands. -/
structure On (inner outer : Frame) : Prop where
  child : ∃ c, outer.children[outer.cursor]? = some c ∧ c.target = .loop inner.loop
  path_eq : inner.path = outer.path ++ "/" ++ inner.loop.id ++ inner.marker
  /-- Its leading segment has occurred once. -/
  leading : inner.counts[0]? = some 1

theorem sound_ofRoot (root : Loop) : (Frame.ofRoot root).Sound where
  toTidy := tidy_ofRoot root
  inside := by
    change 0 < root.children.length ∨ root.children = [] ∧ (0 : Nat) = 0
    cases root.children with
    | nil => exact .inr ⟨rfl, rfl⟩
    | cons => exact .inl (Nat.succ_pos _)
  selected _ h := by cases h

theorem Sound.enter (h : f.Sound) (hj : f.cursor ≤ j) (hc : f.children[j]? = some c) :
    (f.enter j).Sound where
  toTidy := h.toTidy.enter hj
  inside := .inl (List.getElem?_eq_some_iff.1 hc).1
  selected := h.selected

theorem children_of_pending (h : f.active = .pending) : f.children = f.loop.children := by
  unfold children
  rw [h]

theorem marker_of_pending (h : f.active = .pending) : f.marker = "" := by
  unfold marker
  rw [h]

/-- The loop once an implementation is selected. -/
theorem opening_implementation (hi : f.loop.implementations[n]? = some i) (path : String) :
    Opening f.loop i.body
      { f with active := .implementation n, path, counts := opened i.body, cursor := 0 } := by
  refine ⟨rfl, ?_, rfl, rfl⟩
  unfold children
  simp only [hi]

/-- An occurrence whose leading segment has just been read. -/
theorem Opening.sound {cs : List Child} (h : Opening l cs f) (hc : cs[0]? = some c)
    (hs : ∀ index, f.active = .implementation index →
      ∃ i, f.loop.implementations[index]? = some i) : f.Sound where
  toTidy := h.tidy
  inside := .inl (by
    rw [h.cursor_eq, h.children_eq]
    exact (List.getElem?_eq_some_iff.1 hc).1)
  selected := hs

theorem Opening.leading {cs : List Child} (h : Opening l cs f) (hc : cs[0]? = some c) :
    f.counts[0]? = some 1 := by
  rw [h.counts_eq]
  cases cs with
  | nil => cases hc
  | cons => rfl

theorem ofLoop_active (l : Loop) (path : String) :
    (Frame.ofLoop l path).active = if l.isPolymorphic then .pending else .base := rfl

theorem marker_ofLoop (l : Loop) (path : String) : (Frame.ofLoop l path).marker = "" := by
  unfold marker
  rw [ofLoop_active]
  split
  · rename_i h
    split at h <;> cases h
  all_goals rfl

/-- Entering a child other than the leading segment leaves a loop where it is. -/
theorem On.enter (h : f.On g) (hj : 1 ≤ j) : (f.enter j).On g where
  child := h.child
  path_eq := h.path_eq
  leading := by
    unfold Frame.enter
    rw [List.getElem?_set_ne (by omega)]
    exact h.leading

end Frame

/-! ### The stack -/

/-- The open loops, innermost first: the root loop at the end, and before it occurrences of the
child at which the next one stands. -/
inductive Stack (root : Loop) : List Frame → Prop
  | root {f : Frame} (hs : f.Sound) (hl : f.loop = root) (hp : f.path = root.id)
      (ha : f.active = .base) : Stack root [f]
  | nested {f g : Frame} {outer : List Frame} (hs : f.Sound) (hn : f.On g)
      (ho : Stack root (g :: outer)) : Stack root (f :: g :: outer)

namespace Stack

theorem ofRoot (root : Loop) : Stack root [Frame.ofRoot root] :=
  .root (Frame.sound_ofRoot root) rfl rfl rfl

theorem ne_nil (h : Stack root frames) : frames ≠ [] := by
  cases h <;> exact List.cons_ne_nil _ _

theorem sound (h : Stack root frames) : ∀ f ∈ frames, f.Sound := by
  induction h with
  | root hs => exact fun f hf => by rwa [List.mem_singleton.1 hf]
  | nested hs _ _ ih => exact List.forall_mem_cons.2 ⟨hs, ih⟩

/-- Every loop but the last is an occurrence of a child of the next one. -/
theorem on_of_getElem? (h : Stack root frames) (hf : frames[n]? = some f)
    (hg : frames[n + 1]? = some g) : f.On g := by
  induction h generalizing n with
  | root => cases hg
  | nested _ hn _ ih =>
      cases n with
      | zero =>
          cases hf
          cases hg
          exact hn
      | succ n => exact ih hf hg

/-- The last of the open loops is the root loop. -/
theorem getLast? (h : Stack root frames) :
    ∃ f, frames.getLast? = some f ∧ f.loop = root ∧ f.path = root.id ∧ f.active = .base := by
  induction h with
  | root _ hl hp ha => exact ⟨_, rfl, hl, hp, ha⟩
  | nested _ _ _ ih =>
      rw [List.getLast?_cons_cons]
      exact ih

/-- The open loops belong to the tree. -/
theorem within (h : Stack root frames) : ∀ f ∈ frames, f.Within root := by
  induction h with
  | root _ hl =>
      intro f hf
      obtain rfl := List.mem_singleton.1 hf
      exact fun cs hcs => .own (by rwa [← hl])
  | nested _ hn _ ih =>
      refine List.forall_mem_cons.2 ⟨?_, ih⟩
      obtain ⟨c, hc, ht⟩ := hn.child
      exact fun cs hcs =>
        (ih _ List.mem_cons_self).holds.inside (List.mem_of_getElem? hc) ht hcs

/-- The loops around one of them. -/
theorem of_append (h : Stack root (frames ++ f :: outer)) : Stack root (f :: outer) := by
  induction frames with
  | nil => exact h
  | cons g frames ih =>
      refine ih ?_
      rw [List.cons_append] at h
      generalize hrest : frames ++ f :: outer = rest at h
      cases h with
      | root => simp at hrest
      | nested _ _ ho => exact ho

/-- A loop whose implementation is undecided is inside another one. -/
theorem on_of_pending (h : Stack root (f :: outer)) (hp : f.active = .pending) :
    ∃ g rest, outer = g :: rest ∧ f.On g ∧ Stack root outer := by
  cases h with
  | root _ _ _ ha =>
      rw [ha] at hp
      cases hp
  | nested _ hn ho => exact ⟨_, _, rfl, hn, ho⟩

/-- The implementations of such a loop start with a segment of its tag. -/
theorem leading_body (h : Stack root (f :: outer)) (ha : root.Audited)
    (hp : f.active = .pending) (hi : i ∈ f.loop.implementations) :
    ∃ d, Loop.leadingSegmentOf? i.body = some d ∧ f.loop.leadingTag? = some d.tag := by
  obtain ⟨g, rest, rfl, hn, ho⟩ := h.on_of_pending hp
  obtain ⟨c, hc, ht⟩ := hn.child
  have hholds := (ho.within g List.mem_cons_self).holds
  have hmem := List.mem_of_getElem? hc
  have hbody := ha.body hholds hmem ht hi
  obtain ⟨s, hs⟩ := ha.leading hholds hmem ht
  rw [Loop.leadingTag?, hs] at hbody ⊢
  obtain ⟨d, hd, htag⟩ := Option.map_eq_some_iff.1 hbody
  exact ⟨d, hd, by rw [htag]; rfl⟩

/-- A loop whose implementation has been decided takes the place of the undecided one. -/
theorem replace (h : Stack root (f :: outer)) (hp : f.active = .pending) (hs : g.Sound)
    (hl : g.loop = f.loop) (hpath : g.path = f.path ++ g.marker)
    (hc : g.counts[0]? = some 1) : Stack root (g :: outer) := by
  obtain ⟨e, rest, rfl, hn, ho⟩ := h.on_of_pending hp
  refine .nested hs ⟨?_, ?_, hc⟩ ho
  · rw [hl]
    exact hn.child
  · rw [hpath, hn.path_eq, hl, Frame.marker_of_pending hp, String.append_empty]

/-- An implementation of the loop is selected. -/
theorem select (h : Stack root (f :: outer)) (hp : f.active = .pending)
    (hi : f.loop.implementations[n]? = some i) (hleading : i.body[0]? = some c) :
    Stack root ({ f with active := .implementation n, path := f.path ++ "[" ++ i.id ++ "]"
                         counts := Frame.opened i.body, cursor := 0 } :: outer) := by
  have hopening := Frame.opening_implementation hi (f.path ++ "[" ++ i.id ++ "]")
  refine h.replace hp (hopening.sound hleading fun index hactive => ?_) rfl ?_
    (hopening.leading hleading)
  · cases hactive
    exact ⟨i, hi⟩
  · simp [Frame.marker, hi, String.append_assoc]

/-- None is, and the loop keeps its own list. -/
theorem keep (h : Stack root (f :: outer)) (hp : f.active = .pending) :
    Stack root ({ f with active := .base } :: outer) := by
  have hsound := h.sound f List.mem_cons_self
  have hchildren : { f with active := .base }.children = f.children :=
    (Frame.children_of_pending hp).symm
  obtain ⟨g, rest, rfl, hn, -⟩ := h.on_of_pending hp
  refine h.replace hp ⟨⟨?_, hsound.ahead⟩, ?_, nofun⟩ rfl String.append_empty.symm hn.leading
  · rw [hchildren]
    exact hsound.counted
  · rw [hchildren]
    exact hsound.inside

/-- A child is entered. -/
theorem enter (h : Stack root (f :: outer)) (hj : startOf f outer ≤ j)
    (hc : f.children[j]? = some c) : Stack root (f.enter j :: outer) := by
  have hcursor : f.cursor ≤ j := Nat.le_trans (cursor_le_startOf f outer) hj
  cases h with
  | root hs hl hp ha => exact .root (hs.enter hcursor hc) hl hp ha
  | nested hs hn ho =>
      have hj : 1 ≤ j := by
        unfold startOf at hj
        rw [if_neg (by simp)] at hj
        omega
      exact .nested (hs.enter hcursor hc) (hn.enter hj) ho

/-- The loop at which the innermost one stands is opened. -/
theorem opened (h : Stack root (f :: outer)) (ha : root.Audited)
    (hc : f.children[f.cursor]? = some c) (ht : c.target = .loop l) :
    Stack root (Frame.ofLoop l (f.path ++ "/" ++ l.id) :: f :: outer) := by
  obtain ⟨leading, _, rest, hlist, -, -⟩ :=
    ha.childrenBy (h.within f List.mem_cons_self).holds (List.mem_of_getElem? hc) ht .noMatch
  have hleading : l.children[0]? = some leading := by
    rw [show l.children = leading :: rest from hlist]
    rfl
  have hopening := Frame.opening_ofLoop l (f.path ++ "/" ++ l.id)
  refine .nested (hopening.sound hleading fun index hactive => ?_)
    ⟨⟨c, hc, ht⟩, ?_, hopening.leading hleading⟩ h
  · rw [Frame.ofLoop_active] at hactive
    split at hactive <;> cases hactive
  · rw [Frame.marker_ofLoop, String.append_empty]
    rfl

end Stack

end Interchange.Validator
