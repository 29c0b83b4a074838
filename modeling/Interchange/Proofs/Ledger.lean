import Interchange.Proofs.Documents

/-!
# Counting occurrences

A `Ledger` is kept beside a run. It writes down which children have been entered in each
occurrence of a loop, and what became of the occurrences that are over. It never looks at the
counts and reports of the validator, and so it can be held against them: in a run to the end of
an interchange the reports of missing children are those that the ledger asks for, one for each
child of each occurrence that was entered too few times, and the reports of children entered too
often are those of the entries beyond the maximum (`reports_eq_ledger`).

`Balanced` is the invariant. The children of an open loop before its cursor have been reported
already, and the others will be: at the next move of the cursor, when the loop is closed, or at
the end of the interchange. The ranges of these reports do not overlap and leave nothing out
(`Frame.missing_append`).
-/

namespace Interchange.Validator

/-! ### Ledgers -/

/-- The entries of one occurrence of a loop. -/
structure Tally where
  /-- Whether the occurrence was opened by its leading segment. -/
  leading : Bool
  /-- The indices of the children entered since, the last one first. -/
  entries : List Nat := []

/-- How often the child at an index has been entered; the leading segment counts once. -/
def Tally.count (t : Tally) (index : Nat) : Nat :=
  t.entries.count index + if t.leading = true ∧ index = 0 then 1 else 0

/-- An occurrence of a loop that is over: the loop as it was closed, and its entries. -/
structure Account where
  frame : Frame
  tally : Tally

/-- A violation without its place in the stream and its severity. -/
def placeless (x : Violation) : Violation :=
  { x with severity := .error, location := Location.ofSchema x.location.schemaPath }

/-- What has to be reported of an occurrence: each child that was entered too few times. -/
def Account.shortages (a : Account) : List Violation :=
  (a.frame.children.zipIdx.filter fun (c, index) => a.tally.count index < c.minOccurs).map
    fun (c, index) =>
      { kind := if c.isLoop then .requiredLoopMissing else .requiredSegmentMissing
        location := Location.ofSchema (a.frame.path ++ "/" ++ c.id)
        message :=
          s!"{c.id} occurs {a.tally.count index} time(s), at least {c.minOccurs} required" }

/-- An entry of a child. -/
structure Entry where
  child : Child
  /-- The path of the child. -/
  path : String
  /-- How often the child has been entered in this occurrence of the loop, with this entry. -/
  nth : Nat
  /-- The number of the segment that enters it. -/
  segment : Nat

/-- What says which entry a violation is about: its kind, the number of the segment and the path
of the child. -/
def subject (x : Violation) : Violation.Kind × Nat × String :=
  (x.kind, x.location.segmentIndex, x.location.schemaPath)

/-- What has to be reported of an entry: that it is beyond the maximum. -/
def Entry.excess (e : Entry) : List (Violation.Kind × Nat × String) :=
  if e.child.maxOccurs.allows e.nth then []
  else
    [(if e.child.isLoop then .loopOccursTooManyTimes else .segmentExceedsMaximumUse,
      e.segment, e.path)]

/-- What is written down during a run. -/
structure Ledger where
  /-- The entries of the open loops, innermost first. -/
  current : List Tally := []
  /-- The occurrences that are over. -/
  closed : List Account := []
  /-- The entries through the open loops, in order. -/
  log : List Entry := []

/-- The occurrences that are over when some of the open loops are closed. -/
def accounts (frames : List Frame) (tallies : List Tally) : List Account :=
  (frames.zip tallies).map fun (frame, tally) => ⟨frame, tally⟩

namespace Ledger

/-- Write down that a tag is taken, by a segment with a number. -/
def enter (g : Ledger) (m : Match) (segment : Nat) : Ledger :=
  match g.current.drop m.closed.length with
  | [] => g
  | t :: outer =>
      { current :=
          (if m.child.isLoop then [{ leading := true }] else []) ++
            { t with entries := m.index :: t.entries } :: outer
        closed := g.closed ++ accounts m.closed g.current
        log := g.log ++
          [⟨m.child, m.frame.path ++ "/" ++ m.child.id, t.count m.index + 1, segment⟩] }

/-- Write down an event that a validator accepts. -/
def record (g : Ledger) (v : Validator) : Event → Ledger
  | .interchangeStart _ => { g with current := [{ leading := false }] }
  | .segmentStart tag =>
      match locate? tag v.frames with
      | some m => g.enter m (v.segmentCount + 1)
      | none => g
  | .interchangeEnd => { g with current := [], closed := g.closed ++ accounts v.frames g.current }
  | .compositeStart _ _ | .compositeEnd _ _ | .element _ | .segmentEnd => g

/-- The ledger after events, of which the refused ones are not written down. -/
def after (g : Ledger) (v : Validator) : List Event → Ledger
  | [] => g
  | e :: rest =>
      match v.handle e with
      | .error _ => g.after v rest
      | .ok (w, _) => (g.record v e).after w rest

end Ledger

variable {schema : Schema} {config : Config} {root l : Loop} {v w : Validator} {e : Event}
  {frames frames' outer : List Frame} {f f' : Frame} {c child : Child} {m : Match}
  {tag path : String} {s : OpenSegment} {found raw : List Violation} {t : Tally}
  {tallies : List Tally} {g : Ledger} {a : Account} {here here' : Location}
  {selection : Selection} {lo hi j k : Nat}

/-! ### The reports of an occurrence -/

/-- The tally of an open loop: it agrees with the counts of the loop. -/
structure Frame.Tracks (f : Frame) (t : Tally) : Prop where
  tidy : f.Tidy
  inside : f.cursor ≤ f.children.length
  count_eq : ∀ k, f.count k = t.count k
  first : t.leading = true → 0 ∉ t.entries

/-- What has been reported of an open loop: the children before the cursor. -/
def Frame.reported (f : Frame) : List Violation := (f.missing 0 f.cursor {}).map placeless

theorem missing_congr (hchildren : f.children = f'.children) (hpath : f.path = f'.path)
    (hcount : ∀ k, lo ≤ k → k < hi → f.count k = f'.count k) :
    f.missing lo hi here = f'.missing lo hi here := by
  have hindexed : f.indexed = f'.indexed := by rw [Frame.indexed, hchildren, Frame.indexed]
  have hentry {entry : Child × Nat}
      (h : entry ∈ (f'.indexed.take hi).drop lo) : f.count entry.2 = f'.count entry.2 := by
    obtain ⟨hle, hlt, -⟩ := Frame.mem_indexed_range.1 h
    exact hcount _ hle hlt
  unfold Frame.missing
  rw [hindexed]
  have hshort : ((f'.indexed.take hi).drop lo).filter f.isShort =
      ((f'.indexed.take hi).drop lo).filter f'.isShort := by
    refine List.filter_congr fun entry h => ?_
    rw [Frame.isShort, Frame.isShort, hentry h]
  rw [hshort]
  refine List.map_congr_left fun entry h => ?_
  rw [Frame.shortage, Frame.shortage, hentry (List.mem_filter.1 h).1, hpath]

theorem placeless_missing (f : Frame) (lo hi : Nat) (here here' : Location) :
    (f.missing lo hi here).map placeless = (f.missing lo hi here').map placeless := by
  unfold Frame.missing
  rw [List.map_map, List.map_map]
  rfl

/-- What is reported of a whole list of children is what the tally asks for. -/
theorem placeless_missing_all (h : f.Tracks t) (here : Location) :
    (f.missing 0 f.children.length here).map placeless = Account.shortages ⟨f, t⟩ := by
  have hall : (f.indexed.take f.children.length).drop 0 = f.children.zipIdx := by
    have hlength : f.indexed.length = f.children.length := by
      rw [Frame.indexed, List.length_zipIdx]
    rw [List.drop_zero, List.take_of_length_le (Nat.le_of_eq hlength)]
    rfl
  unfold Frame.missing Account.shortages
  rw [hall, List.map_map]
  have hshort : f.children.zipIdx.filter f.isShort =
      f.children.zipIdx.filter fun (c, index) => t.count index < c.minOccurs :=
    List.filter_congr fun entry _ => by rw [Frame.isShort, h.count_eq]
  rw [hshort]
  refine List.map_congr_left fun entry _ => ?_
  simp only [Function.comp, Frame.shortage, h.count_eq]
  rfl

/-- Closing a loop reports what is left. -/
theorem shortages_eq (h : f.Tracks t) (here : Location) :
    Account.shortages ⟨f, t⟩ = f.reported ++ (f.close here).map placeless := by
  rw [← placeless_missing_all h here, ← Frame.missing_append (Nat.zero_le _) h.inside,
    List.map_append, Frame.reported, placeless_missing f 0 f.cursor {} here]
  rfl

@[simp] theorem reported_of_cursor (h : f.cursor = 0) : f.reported = [] := by
  rw [Frame.reported, h, Frame.missing_self]
  rfl

/-- Entering a child reports what was left before it. -/
theorem reported_enter (hj : f.cursor ≤ j) (here : Location) :
    (f.enter j).reported = f.reported ++ (f.missing f.cursor j here).map placeless := by
  have hbefore : (f.enter j).missing 0 j {} = f.missing 0 j {} :=
    missing_congr rfl rfl fun k _ hk => Frame.count_enter_of_ne (by omega)
  rw [Frame.reported, Frame.enter_cursor, hbefore, ← Frame.missing_append (Nat.zero_le _) hj,
    List.map_append, placeless_missing f f.cursor j here {}]
  rfl

/-! ### The tallies of the open loops -/

/-- An occurrence that has just been opened by its leading segment. -/
theorem Frame.Opening.tracks {leading : Child} {cs : List Child}
    (h : Opening l (leading :: cs) f) : f.Tracks { leading := true } where
  tidy := h.tidy
  inside := by
    rw [h.cursor_eq]
    exact Nat.zero_le _
  count_eq k := by
    cases k with
    | zero =>
        rw [h.count_zero]
        rfl
    | succ k =>
        rw [h.tidy.ahead (k + 1) (by rw [h.cursor_eq]; omega)]
        rfl
  first _ := List.not_mem_nil

theorem Frame.Tracks.enter (h : f.Tracks t) (hj : f.cursor ≤ j)
    (hc : f.children[j]? = some c) (hfirst : t.leading = true → j ≠ 0) :
    (f.enter j).Tracks { t with entries := j :: t.entries } where
  tidy := h.tidy.enter hj
  inside := by
    have hlt := (List.getElem?_eq_some_iff.1 hc).1
    rw [enter_cursor, enter_children]
    omega
  count_eq k := by
    obtain ⟨hself, -⟩ := count_enter h.tidy hc
    by_cases hk : k = j
    · rw [hk, hself, h.count_eq, Tally.count, Tally.count, List.count_cons_self]
      dsimp only
      omega
    · rw [count_enter_of_ne hk, h.count_eq, Tally.count, Tally.count,
        List.count_cons_of_ne (Ne.symm hk)]
  first hl hmem := by
    rcases List.mem_cons.1 hmem with hzero | hmem
    · exact hfirst hl hzero.symm
    · exact h.first hl hmem

/-- The tallies are those of the open loops; all but the root loop have a leading segment. -/
inductive Tracked : List Frame → List Tally → Prop
  | nil : Tracked [] []
  | cons {f : Frame} {outer : List Frame} {t : Tally} {tallies : List Tally} (h : f.Tracks t)
      (hl : t.leading = !outer.isEmpty) (ho : Tracked outer tallies) :
      Tracked (f :: outer) (t :: tallies)

theorem Tracked.eq_nil (h : Tracked [] tallies) : tallies = [] := by
  cases h
  rfl

theorem Tracked.split (h : Tracked (frames ++ outer) tallies) :
    Tracked outer (tallies.drop frames.length) ∧
      (accounts frames tallies).map (·.frame) = frames ∧
        ∀ a ∈ accounts frames tallies, a.frame.Tracks a.tally := by
  induction frames generalizing tallies with
  | nil => exact ⟨h, rfl, fun a ha => nomatch ha⟩
  | cons f frames ih =>
      cases h with
      | @cons _ _ t rest ht hl ho =>
          obtain ⟨houter, hframes, htracks⟩ := ih ho
          exact ⟨houter, congrArg (f :: ·) hframes, List.forall_mem_cons.2 ⟨ht, htracks⟩⟩

/-- The reports of occurrences that are closed together. -/
theorem shortages_accounts {as : List Account} (h : ∀ a ∈ as, a.frame.Tracks a.tally)
    (here : Location) :
    (as.flatMap Account.shortages).Perm
      ((as.map (·.frame)).flatMap Frame.reported ++
        (closeAll (as.map (·.frame)) here).map placeless) := by
  induction as with
  | nil => exact .nil
  | cons a as ih =>
      obtain ⟨ha, has⟩ := List.forall_mem_cons.1 h
      have hfirst := shortages_eq ha here
      have hrest := List.perm_iff_count.1 (ih has)
      -- The two sides list the reports in different orders, so each report is counted.
      rw [List.perm_iff_count]
      intro x
      have hx := hrest x
      simp only [List.flatMap_cons, List.map_cons, closeAll, List.map_append, List.count_append]
        at hx ⊢
      rw [show a.shortages = a.frame.reported ++ (a.frame.close here).map placeless from hfirst,
        List.count_append]
      omega

theorem Tracked.length_accounts (h : Tracked frames tallies) :
    (accounts frames tallies).length = tallies.length := by
  induction h with
  | nil => rfl
  | cons _ _ _ ih => exact congrArg (· + 1) ih

/-! ### The balance -/

/-- The findings of a run so far are what the ledger asks for. -/
structure Balanced (v : Validator) (g : Ledger) (raw : List Violation) : Prop where
  within : ∀ f ∈ v.frames, f.Within v.schema.root
  /-- Loops are open only while the interchange is. -/
  idle : v.IsOpen ∨ v.frames = []
  tracked : Tracked v.frames g.current
  /-- A loop whose implementation is undecided has just been opened. -/
  waiting : ∀ s, v.segment = some s → s.undecided = some .loop →
    ∃ l path outer tallies, v.frames = Frame.ofLoop l path :: outer ∧
      g.current = { leading := true } :: tallies ∧
        ∃ cs c, v.schema.root.Holds cs ∧ c ∈ cs ∧ c.target = .loop l
  /-- Every occurrence that was opened is open or over. -/
  census : g.closed.length + g.current.length =
    g.log.countP (·.child.isLoop) + if v.state = .awaitingInterchange then 0 else 1
  first : ∀ a ∈ g.closed, a.tally.leading = true → 0 ∉ a.tally.entries
  /-- Occurrences that are over have been reported as a whole, and open ones up to the
  cursor. -/
  shortages : ((raw.filter (·.kind.isShortage)).map placeless).Perm
    (g.closed.flatMap Account.shortages ++ v.frames.flatMap Frame.reported)
  excesses : (raw.filter (·.kind.isExcess)).map subject = g.log.flatMap Entry.excess

theorem balanced_new (schema : Schema) (config : Config) :
    Balanced { schema, config } {} [] where
  within _ hf := nomatch hf
  idle := .inr rfl
  tracked := .nil
  waiting _ hs := nomatch hs
  census := rfl
  first _ ha := nomatch ha
  shortages := .nil
  excesses := rfl

/-- Findings that do not concern order and number leave the balance as it is. -/
theorem Balanced.add_orderly (h : Balanced v g raw) (ho : Orderly found) :
    Balanced v g (raw ++ found) where
  within := h.within
  idle := h.idle
  tracked := h.tracked
  waiting := h.waiting
  census := h.census
  first := h.first
  shortages := by
    rw [List.filter_append, ho.filter_eq_nil fun _ => isSequence_of_isShortage, List.append_nil]
    exact h.shortages
  excesses := by
    rw [List.filter_append, ho.filter_eq_nil fun _ => isSequence_of_isExcess, List.append_nil]
    exact h.excesses

/-- Settling the innermost loop leaves the balance as it is. -/
theorem Balanced.settle (h : Balanced v g raw) (ha : v.schema.root.Audited)
    (hs : v.segment = some s) (choose : {β : Type} → List (Implementation β) → Selection) :
    Tracked (settledFrames v.frames s choose) g.current ∧
      (settledFrames v.frames s choose).flatMap Frame.reported =
        v.frames.flatMap Frame.reported := by
  by_cases hu : s.undecided = some .loop
  · obtain ⟨l, path, outer, tallies, hframes, hcurrent, cs, c, hcs, hc, ht⟩ := h.waiting s hs hu
    have hopening := Frame.opening_settled l path (choose l.implementations)
    obtain ⟨leading, _, rest, hlist, -, -⟩ := ha.childrenBy hcs hc ht (choose l.implementations)
    rw [hlist] at hopening
    have htracked := h.tracked
    rw [hframes, hcurrent] at htracked
    have hsettled : settledFrames v.frames s choose =
        (Frame.ofLoop l path).settled (choose l.implementations) :: outer := by
      simp only [settledFrames, hu, hframes]
      rfl
    cases htracked with
    | cons _ hl ho =>
        rw [hsettled, hcurrent, hframes]
        refine ⟨.cons hopening.tracks hl ho, ?_⟩
        rw [List.flatMap_cons, List.flatMap_cons, reported_of_cursor hopening.cursor_eq,
          reported_of_cursor (Frame.opening_ofLoop l path).cursor_eq]
  · rw [settledFrames_eq_self hu]
    exact ⟨h.tracked, rfl⟩

/-- Reading values leaves the balance as it is. -/
theorem Balanced.advance {complete : Bool} {s' t : OpenSegment} (h : Balanced v g raw)
    (ha : v.schema.root.Audited) (ho : v.IsOpen) (hs : v.segment = some s)
    (hu : s'.undecided = s.undecided) (hadvance : v.advance s' complete = (frames, t, found)) :
    Balanced { v with frames, segment := some t } g (raw ++ found) := by
  refine Balanced.add_orderly ?_ (advance_orderly hadvance)
  rcases advance_cases hadvance with ⟨rfl, rfl⟩ | ⟨rfl, hdecided⟩
  · refine ⟨h.within, h.idle, h.tracked, fun u hsome hloop => ?_, h.census, h.first,
      h.shortages, h.excesses⟩
    cases hsome
    exact h.waiting s hs (hu.symm.trans hloop)
  · have hsettled : settledFrames v.frames s' (Implementation.select · s'.values complete) =
        settledFrames v.frames s (Implementation.select · s'.values complete) := by
      unfold settledFrames
      rw [hu]
    obtain ⟨htracked, hreported⟩ :=
      h.settle ha hs (Implementation.select · s'.values complete)
    rw [← hsettled] at htracked hreported
    refine ⟨?_, .inl ho, htracked, fun u hsome hloop => ?_, h.census, h.first, ?_, h.excesses⟩
    · exact within_settledFrames (Implementation.select · s'.values complete) h.within
    · cases hsome
      rw [hdecided] at hloop
      cases hloop
    · dsimp only
      rw [hreported]
      exact h.shortages

/-- Between segments nothing is undecided. -/
theorem Balanced.between (h : Balanced v g raw) : Balanced { v with segment := none } g raw :=
  ⟨h.within, h.idle, h.tracked, fun _ hs => (nomatch hs), h.census, h.first, h.shortages,
    h.excesses⟩

/-- The start of an interchange opens the root loop. -/
theorem Balanced.start (h : Balanced v g raw) (hw : v.state = .awaitingInterchange)
    (version : Option String) :
    Balanced
      { v with state := .inInterchange, version, frames := [Frame.ofRoot v.schema.root] }
      { g with current := [{ leading := false }] } raw := by
  have hclosed : v.frames = [] := by
    refine h.idle.resolve_left fun ho => ?_
    rcases ho with ho | ho <;> rw [hw] at ho <;> cases ho
  have htracks : (Frame.ofRoot v.schema.root).Tracks { leading := false } :=
    ⟨Frame.tidy_ofRoot _, Nat.zero_le _, fun k => Frame.count_ofRoot _ k,
      fun hl => (nomatch hl)⟩
  refine ⟨fun f hf => ?_, .inl (.inl rfl), .cons htracks rfl .nil, fun s hs hu => ?_, ?_,
    h.first, ?_, h.excesses⟩
  · obtain rfl := List.mem_singleton.1 hf
    exact fun cs hcs => .own hcs
  · obtain ⟨l, path, outer, tallies, hframes, -⟩ := h.waiting s hs hu
    rw [hclosed] at hframes
    cases hframes
  · have hcensus := h.census
    have htracked := h.tracked
    rw [hclosed] at htracked
    rw [hw, if_pos rfl, htracked.eq_nil] at hcensus
    exact congrArg (· + 1) hcensus
  · have hshortages := h.shortages
    rw [hclosed] at hshortages
    dsimp only
    rw [List.flatMap_cons, reported_of_cursor rfl]
    exact hshortages

/-- The end of an interchange closes every loop. -/
theorem Balanced.finish (h : Balanced v g raw) (ho : v.IsOpen) (here : Location)
    (hs : v.segment = none) :
    Balanced { v with state := .complete, frames := [] }
      { g with current := [], closed := g.closed ++ accounts v.frames g.current }
      (raw ++ closeAll v.frames here) := by
  have htracked := h.tracked
  rw [← List.append_nil v.frames] at htracked
  obtain ⟨-, hframes, htracks⟩ := htracked.split
  have hreports := shortages_accounts htracks here
  rw [hframes] at hreports
  refine ⟨fun _ hf => (nomatch hf), .inr rfl, .nil, fun s hs' => ?_, ?_, ?_, ?_, ?_⟩
  · rw [hs] at hs'
    cases hs'
  · have hcensus := h.census
    rw [if_neg ho.started] at hcensus
    rw [if_neg (by simp), List.length_append, h.tracked.length_accounts]
    exact hcensus
  · refine List.forall_mem_append.2 ⟨h.first, fun a ha => (htracks a ha).first⟩
  · have hall : (closeAll v.frames here).filter (·.kind.isShortage) = closeAll v.frames here :=
      List.filter_eq_self.2 fun x hx => closeAll_kind hx
    have hbefore := List.perm_iff_count.1 h.shortages
    have hnow := List.perm_iff_count.1 hreports
    rw [List.perm_iff_count]
    intro x
    have hbefore := hbefore x
    have hnow := hnow x
    simp only [List.filter_append, hall, List.map_append, List.flatMap_append, List.flatMap_nil,
      List.count_append, List.count_nil] at hbefore hnow ⊢
    omega
  · have hnone : (closeAll v.frames here).filter (·.kind.isExcess) = [] :=
      List.filter_eq_nil_iff.2 fun x hx => by simp [isExcess_of_isShortage (closeAll_kind hx)]
    rw [List.filter_append, hnone, List.append_nil]
    exact h.excesses

/-- The reports of a tag that is taken, apart: what is missing before it, and whether it is one
too many. -/
theorem filter_take {count segment : Nat} :
    ((closeAll frames here ++ f.missing lo hi here ++ excess path c count segment tag).filter
        (·.kind.isShortage) = closeAll frames here ++ f.missing lo hi here) ∧
      (closeAll frames here ++ f.missing lo hi here ++ excess path c count segment tag).filter
        (·.kind.isExcess) = excess path c count segment tag := by
  have hshort : ∀ x ∈ closeAll frames here ++ f.missing lo hi here, x.kind.isShortage = true := by
    intro x hx
    rcases List.mem_append.1 hx with hx | hx
    · exact closeAll_kind hx
    · exact missing_kind hx
  rw [List.filter_append, List.filter_append (closeAll frames here ++ f.missing lo hi here),
    List.filter_eq_self.2 hshort,
    List.filter_eq_self.2 fun x (hx : x ∈ excess path c count segment tag) => excess_kind hx]
  constructor
  · rw [List.filter_eq_nil_iff.2, List.append_nil]
    exact fun x hx => by simp [isShortage_of_isExcess (excess_kind hx)]
  · rw [List.filter_eq_nil_iff.2, List.nil_append]
    exact fun x hx => by simp [isExcess_of_isShortage (hshort x hx)]

theorem subject_excess (c : Child) (path tag : String) (count segment : Nat) :
    (excess path c count segment tag).map subject =
      Entry.excess ⟨c, path ++ "/" ++ c.id, count, segment⟩ := by
  unfold excess Entry.excess
  split
  · rfl
  · rfl

/-- Opening a child keeps the tallies those of the open loops, and an occurrence that it opens has
nothing before its cursor to report. -/
theorem Opened.tracked (h : Opened f outer c frames s) (ha : root.Audited)
    (hf : root.Holds f.children) (hc : c ∈ f.children)
    (ht : Tracked (f :: outer) (t :: tallies)) :
    Tracked frames ((if c.isLoop then [{ leading := true }] else []) ++ t :: tallies) ∧
      frames.flatMap Frame.reported = (f :: outer).flatMap Frame.reported := by
  cases h with
  | segment htarget _ _ _ =>
      have hloop : c.isLoop = false := by simp [Reference.isLoop, htarget]
      rw [hloop]
      exact ⟨ht, rfl⟩
  | @loop l path s htarget _ _ _ =>
      have hloop : c.isLoop = true := by simp [Reference.isLoop, htarget]
      have hopening := Frame.opening_ofLoop l path
      obtain ⟨leading, _, rest, hlist, -, -⟩ := ha.childrenBy hf hc htarget .noMatch
      rw [show l.children = leading :: rest from hlist] at hopening
      rw [hloop, List.flatMap_cons, reported_of_cursor hopening.cursor_eq]
      exact ⟨.cons hopening.tracks rfl ht, rfl⟩

/-- When the segment waits for the implementation of a loop, that loop has just been opened. -/
theorem Opened.waiting (h : Opened f outer c frames s) (hu : s.undecided = some .loop) :
    ∃ l path, frames = Frame.ofLoop l path :: f :: outer ∧ c.target = .loop l := by
  cases h with
  | segment _ _ _ hu' =>
      rw [hu'] at hu
      split at hu <;> cases hu
  | @loop l path s htarget _ _ _ => exact ⟨l, path, rfl, htarget⟩

/-- Taking a tag keeps the balance: loops that are closed are reported from their cursors on, the
loop that is entered up to the child, and the entry when it is beyond the maximum. -/
theorem Balanced.take (h : Balanced v g raw) (ha : v.schema.root.Audited) (hopen : v.IsOpen)
    (hm : locate? tag v.frames = some m)
    (ht : m.take (v.counting tag).here (v.segmentCount + 1) tag = ((frames, s), found)) :
    Balanced { v.counting tag with frames, segment := some s, state := stateOf frames }
      (g.enter m (v.segmentCount + 1)) (raw ++ found) := by
  have hlocated := locate?_eq_some.1 hm
  obtain ⟨hopened, rfl⟩ := Match.take_eq ht
  obtain ⟨hstart, hchild, -, -⟩ := Frame.childFrom?_eq_some.1 hlocated.found
  have hcursor := hlocated.cursor_le
  obtain ⟨hframe, houter, hmem⟩ := hlocated.within h.within
  have htracked := h.tracked
  rw [hlocated.frames_eq] at htracked
  obtain ⟨hrest, hclosed, htracks⟩ := htracked.split
  generalize htallies : g.current.drop m.closed.length = tallies at hrest
  cases hrest with
  | @cons _ _ t outer hframet hl ho =>
      -- The leading segment of a nested loop is never entered again.
      have hfirst : t.leading = true → m.index ≠ 0 := by
        intro hleading
        rw [hleading] at hl
        have hnested : m.outer.isEmpty = false := by simpa using hl
        unfold startOf at hstart
        rw [hnested, if_neg (by simp)] at hstart
        omega
      have hcount : (m.frame.enter m.index).count m.index = t.count m.index + 1 := by
        rw [(count_enter hframet.tidy hchild).1, hframet.count_eq]
      obtain ⟨hcurrent, hreported⟩ := hopened.tracked ha hframe.holds hmem
        (.cons (hframet.enter hcursor hchild hfirst) hl ho)
      rw [Ledger.enter, htallies]
      refine ⟨?_, .inl (isOpen_stateOf _ _ rfl), hcurrent, fun u hsome hundecided => ?_, ?_, ?_, ?_,
        ?_⟩
      · exact hopened.within hframe houter hmem
      · cases hsome
        obtain ⟨l, path, rfl, htarget⟩ := hopened.waiting hundecided
        refine ⟨l, path, _, { t with entries := m.index :: t.entries } :: outer, rfl, ?_,
          m.frame.children, m.child, hframe.holds, hmem, htarget⟩
        simp [Reference.isLoop, htarget]
      · have hcensus := h.census
        have hlength := congrArg List.length htallies
        have haccounts := congrArg List.length hclosed
        rw [if_neg hopen.started] at hcensus
        rw [List.length_map] at haccounts
        rw [List.length_drop, List.length_cons] at hlength
        dsimp only
        rw [if_neg (stateOf_started frames), List.length_append, List.length_append,
          List.countP_append, haccounts]
        cases hloop : m.child.isLoop <;> simp [hloop] <;> omega
      · exact List.forall_mem_append.2 ⟨h.first, fun a ha => (htracks a ha).first⟩
      · -- Each report before the cursor stays one; those of this event are the next range.
        have hbefore := List.perm_iff_count.1 h.shortages
        have hnow := List.perm_iff_count.1 (shortages_accounts htracks (v.counting tag).here)
        rw [List.perm_iff_count]
        intro x
        have hbefore := hbefore x
        have hnow := hnow x
        rw [hlocated.frames_eq] at hbefore
        rw [hclosed] at hnow
        dsimp only
        rw [List.filter_append, filter_take.1, hreported]
        simp only [List.map_append, List.flatMap_append, List.flatMap_cons, List.count_append,
          reported_enter hcursor (v.counting tag).here] at hbefore hnow ⊢
        omega
      · dsimp only
        rw [List.filter_append, filter_take.2, List.map_append, List.flatMap_append, h.excesses,
          subject_excess, hcount, List.flatMap_cons, List.flatMap_nil, List.append_nil]
        rfl

/-- Skipping a segment keeps the balance. -/
theorem Balanced.skip (h : Balanced v g raw) (hopen : v.IsOpen) :
    Balanced
      { v.counting tag with segment := some (v.skipped tag), state := stateOf v.frames } g
      (raw ++ [misplaced v.schema v.frames (v.segmentCount + 1) tag]) := by
  obtain ⟨hshortage, hexcess⟩ := not_shortage_or_excess
    (misplaced_kind v.schema v.frames (v.segmentCount + 1) tag)
  refine ⟨h.within, .inl (isOpen_stateOf _ v.frames rfl), h.tracked,
    fun u hsome hundecided => ?_, ?_, h.first, ?_, ?_⟩
  · cases hsome
    cases hundecided
  · have hcensus := h.census
    rw [if_neg hopen.started] at hcensus
    dsimp only
    rw [if_neg (stateOf_started v.frames)]
    exact hcensus
  · rw [List.filter_append, List.filter_cons_of_neg (by simp [hshortage]), List.filter_nil,
      List.append_nil]
    exact h.shortages
  · rw [List.filter_append, List.filter_cons_of_neg (by simp [hexcess]), List.filter_nil,
      List.append_nil]
    exact h.excesses

/-- When the interchange is over, so is every occurrence of a loop. -/
theorem Balanced.over (h : Balanced v g raw) (hv : v.state = .complete) :
    v.frames = [] ∧ g.current = [] := by
  have hframes : v.frames = [] := by
    refine h.idle.resolve_left fun ho => ?_
    rcases ho with ho | ho <;> rw [hv] at ho <;> cases ho
  have htracked := h.tracked
  rw [hframes] at htracked
  exact ⟨hframes, htracked.eq_nil⟩

/-- Every event keeps the balance. -/
theorem Balanced.step (h : Balanced v g raw) (ha : v.schema.root.Audited)
    (he : Effect v e w found) : Balanced w (g.record v e) (raw ++ found) := by
  cases he with
  | start hw =>
      rw [List.append_nil]
      exact h.start hw _
  | take ho _ hm ht =>
      rw [Ledger.record, hm]
      exact h.take ha ho hm ht
  | skip ho _ hm =>
      rw [Ledger.record, hm]
      exact h.skip ho
  | mark _ _ hi _ =>
      rw [List.append_nil]
      cases e <;> first | exact h | cases hi
  | @value x _ s _ _ ho hs hadvance =>
      have hu : (s.push x).undecided = s.undecided := rfl
      exact h.advance ha ho hs hu hadvance
  | close ho hs hadvance =>
      rw [← List.append_assoc]
      exact (h.advance ha ho hs rfl hadvance).between.add_orderly (orderly_missingElements _)
  | finish ho hs => exact h.finish ho _ hs

/-! ### Runs -/

theorem Balanced.withErrors (h : Balanced v g raw) (errors : Nat) :
    Balanced { v with errorCount := errors } g raw :=
  ⟨h.within, h.idle, h.tracked, h.waiting, h.census, h.first, h.shortages, h.excesses⟩

/-- The balance is kept to the end of a run that does not fail. -/
theorem Balanced.feed {events : List Event} (h : Balanced v g raw) (ha : v.schema.root.Audited)
    (hrun : v.feed events = (w, found)) (hw : w.state ≠ .failed) :
    ∃ more, Balanced w (g.after v events) (raw ++ more) ∧ found = more.map v.config.judge := by
  induction events generalizing v g raw found with
  | nil =>
      cases hrun
      exact ⟨[], by rw [List.append_nil]; exact h, rfl⟩
  | cons e rest ih =>
      rw [Validator.feed] at hrun
      rw [Ledger.after]
      cases hhandle : v.handle e with
      | error _ =>
          rw [hhandle] at hrun
          exact ih h ha hrun
      | ok r =>
          obtain ⟨v₁, first⟩ := r
          rw [hhandle] at hrun
          cases hrun
          obtain ⟨u, now, he, rfl, errors, rfl | ⟨-, rfl⟩⟩ := handle_ok hhandle
          · have hnow := (h.step ha he).withErrors errors
            obtain ⟨more, hmore, hfound⟩ := ih hnow (by rwa [he.schema_eq]) rfl
            refine ⟨now ++ more, by rwa [← List.append_assoc], ?_⟩
            rw [hfound, List.map_append, he.config_eq]
          · -- Validation that has failed would still have failed at the end.
            rw [feed_of_failed rfl] at hw
            exact absurd rfl hw

/-- Up to any point of a run that does not fail, the entries that are reported are those beyond
the maximum. -/
theorem excesses_eq_ledger (hb : schema.Bound) {events : List Event}
    (h : Validator.feed { schema, config } events = (v, found)) (hv : v.state ≠ .failed) :
    (found.filter (·.kind.isExcess)).map subject =
      (Ledger.after {} { schema, config } events).log.flatMap Entry.excess := by
  obtain ⟨raw, hbalanced, rfl⟩ := (balanced_new schema config).feed hb.audited h hv
  dsimp only
  rw [filter_judged, List.map_map]
  exact hbalanced.excesses

/-- In a run to the end of an interchange every occurrence of a loop is over in the end: the root
loop and one for each entry of a loop, whose leading segment is counted once. The missing children
that are reported are those of these occurrences, for each child in the list that was entered too
few times one report. At every point of the run the entries that have been reported are those
beyond the maximum, each at its segment. -/
theorem reports_eq_ledger (hb : schema.Bound) {events : List Event}
    (h : Validator.feed { schema, config } events = (v, found)) (hv : v.state = .complete) :
    let ledger := Ledger.after {} { schema, config } events
    (ledger.current = [] ∧
      ledger.closed.length = ledger.log.countP (·.child.isLoop) + 1 ∧
      ∀ a ∈ ledger.closed, a.tally.leading = true → a.tally.count 0 = 1) ∧
    ((found.filter (·.kind.isShortage)).map placeless).Perm
      (ledger.closed.flatMap Account.shortages) ∧
    ∀ first rest, events = first ++ rest →
      ((Validator.feed { schema, config } first).2.filter (·.kind.isExcess)).map subject =
        (Ledger.after {} { schema, config } first).log.flatMap Entry.excess := by
  intro ledger
  have hne : v.state ≠ .failed := by
    rw [hv]
    decide
  obtain ⟨raw, hbalanced, hfound⟩ := (balanced_new schema config).feed hb.audited h hne
  rw [List.nil_append] at hbalanced
  obtain ⟨hframes, hcurrent⟩ := hbalanced.over hv
  change ledger.current = [] at hcurrent
  refine ⟨⟨hcurrent, ?_, fun a ha hleading => ?_⟩, ?_, fun first rest hsplit => ?_⟩
  · have hcensus := hbalanced.census
    rw [hv, if_neg (by decide)] at hcensus
    change ledger.closed.length + ledger.current.length = _ at hcensus
    rw [hcurrent] at hcensus
    exact hcensus
  · rw [Tally.count, List.count_eq_zero.2 (hbalanced.first a ha hleading), if_pos ⟨hleading, rfl⟩]
  · have hshortages := hbalanced.shortages
    rw [hframes, List.flatMap_nil, List.append_nil] at hshortages
    rw [hfound]
    dsimp only
    rw [filter_judged, List.map_map]
    exact hshortages
  · rw [hsplit, feed_append] at h
    refine excesses_eq_ledger (v := (Validator.feed { schema, config } first).1) hb rfl
      fun hfailed => hne ?_
    have hlast := congrArg (·.1.state) h
    dsimp only at hlast
    rw [feed_of_failed hfailed] at hlast
    exact hlast.symm.trans hfailed

/-- The loop of `A` and `B` without its `B`: one child of one occurrence is missing. -/
theorem reports_eq_ledger_forked :
    ∃ v x, Validator.feed { schema := forkedSchema, config := {} }
        (document none [forkedStart false]) = (v, [x]) ∧
      v.state = .complete ∧ x.kind = .requiredSegmentMissing ∧
      [placeless x].Perm ((Ledger.after {} { schema := forkedSchema, config := {} }
        (document none [forkedStart false])).closed.flatMap Account.shortages) := by
  obtain ⟨v, x, h, hv, hkind⟩ : ∃ v x, Validator.feed { schema := forkedSchema, config := {} }
      (document none [forkedStart false]) = (v, [x]) ∧
        v.state = .complete ∧ x.kind = .requiredSegmentMissing := ⟨_, _, rfl, by rfl, by rfl⟩
  obtain ⟨-, hshortages, -⟩ := reports_eq_ledger forkedSchema_bound h hv
  rw [List.filter_cons_of_pos (by rw [hkind]; rfl)] at hshortages
  exact ⟨v, x, h, hv, hkind, hshortages⟩

end Interchange.Validator
