import Interchange.Proofs.Kinds
import Interchange.Proofs.Walk

/-!
# Documents and their language

A document is read without a report on the order or the number of its segments exactly when its
root loop allows it. One direction holds in every bound schema (`allows_of_orderly`). The other
needs that the tags inside a loop do not occur after it (`orderly_of_allows`), because the
validator never goes back.

Both are read off `effects_document`, an induction over the segments: `effects_passage` says what
one of them does, and the walk through the open loops what may come before and after it.
-/

namespace Interchange.Validator

variable {schema : Schema} {config : Config} {root : Loop} {v w : Validator} {p : Passage}
  {doc : List Passage} {frames frames' : List Frame} {m : Match} {s : OpenSegment}
  {found raw : List Violation} {version : Option String}

/-! ### One segment -/

/-- What a segment of a document does to the open loops, and whether it is reported for its
place. -/
inductive Passed (v : Validator) (p : Passage) (w : Validator) (raw : List Violation) : Prop
  | taken {m : Match} (hm : Located p.tag v.frames m) (hl : m.Leads settling p w.frames)
      (hclean : Orderly raw ↔ m.Clean)
  | skipped (hm : locate? p.tag v.frames = none) (hw : w.frames = v.frames)
      (hraw : ¬ Orderly raw)

/-- The validator waits for the next segment. -/
structure Ready (v : Validator) : Prop where
  isOpen : v.IsOpen
  segment : v.segment = none

/-- Taking a tag reports nothing when nothing is missing and the child may occur once more. -/
theorem Match.clean_iff {here : Location} {path tag : String} {index : Nat}
    (ht : m.frame.Tidy) (hc : m.frame.children[m.index]? = some m.child) :
    Orderly (closeAll m.closed here ++ m.frame.missing m.frame.cursor m.index here ++
        excess path m.child ((m.frame.enter m.index).count m.index) index tag) ↔
      m.Clean := by
  have hclosed : Orderly (closeAll m.closed here) ↔ closeAll m.closed here = [] :=
    orderly_iff_nil fun x hx => isSequence_of_isShortage (closeAll_kind hx)
  have hmissing : Orderly (m.frame.missing m.frame.cursor m.index here) ↔
      m.frame.missing m.frame.cursor m.index here = [] :=
    orderly_iff_nil fun x hx => isSequence_of_isShortage (missing_kind hx)
  have hexcess : Orderly (excess path m.child ((m.frame.enter m.index).count m.index) index tag) ↔
      excess path m.child ((m.frame.enter m.index).count m.index) index tag = [] :=
    orderly_iff_nil fun x hx => isSequence_of_isExcess (excess_kind hx)
  rw [orderly_append, orderly_append, hclosed, hmissing, hexcess, closeAll_eq_nil,
    Frame.missing_eq_nil, excess_eq_nil, (count_enter ht hc).1]
  exact ⟨fun h => ⟨h.1.1, h.1.2, h.2⟩, fun h => ⟨⟨h.closed, h.passed⟩, h.allowed⟩⟩

/-- A loop without implementations is settled from the start. -/
theorem settled_ofLoop {l : Loop} (hl : l.isPolymorphic = false) (path : String)
    (values : List ElementValue) :
    (Frame.ofLoop l path).settled (settling l.implementations values) = Frame.ofLoop l path := by
  have hnone : l.implementations = [] := by
    simpa [Loop.isPolymorphic] using hl
  have hchoice : settling l.implementations values = .noMatch := by
    rw [hnone]
    cases values <;> rfl
  rw [hchoice]
  unfold Frame.settled Frame.ofLoop
  simp [hl]

/-- When a segment is over the loop it has opened is settled. -/
theorem Opened.leads (h : Opened (m.frame.enter m.index) m.outer m.child frames s) :
    m.Leads settling p (settledFrames frames s (Implementation.settle · p.values)) := by
  cases h with
  | segment ht _ _ hu =>
      have hundecided : s.undecided ≠ some .loop := by
        rw [hu]
        split <;> simp
      rw [settledFrames_eq_self hundecided]
      exact .segment ht
  | @loop l path s ht _ _ hu =>
      unfold settledFrames
      rw [hu]
      cases hl : l.isPolymorphic with
      | true => exact .loop ht
      | false =>
          rw [← settled_ofLoop hl path p.values]
          exact .loop ht

/-- The events inside a segment settle what it waits for, and report nothing on order and
number. -/
theorem effects_events (he : Effect v (.segmentStart p.tag) w raw) (ho : w.IsOpen)
    (hs : w.segment = some s) :
    ∃ rest, Orderly rest ∧ Effects v p.events
      { w with segment := none
               frames := settledFrames w.frames s
                 (Implementation.settleFrom · s.values p.values) } (raw ++ rest) := by
  obtain ⟨frames, t, report, hd⟩ : ∃ frames t report,
    decideAll w.frames s p.values = (frames, t, report) := ⟨_, _, _, rfl⟩
  have hdecides := decideAll_decides hd
  have hframes := hdecides.frames_eq
  refine ⟨report ++ (t.checkNew w.version w.config.validateCodeValues).2 ++ t.missingElements,
    orderly_append.2 ⟨orderly_append.2 ⟨hdecides.orderly, checkNew_orderly _ _ _⟩,
      orderly_missingElements t⟩, .cons he ?_⟩
  have hbody := effects_body ho hs p.inside hd
  rw [hframes] at hbody
  exact hbody

/-- A segment of a document is read as a whole. -/
theorem effects_passage (hv : v.Ready) (ht : ∀ f ∈ v.frames, f.Tidy) (p : Passage) :
    ∃ w raw, Effects v p.events w raw ∧ w.Ready ∧ w.schema = v.schema ∧ w.config = v.config ∧
      Passed v p w raw := by
  cases hm : locate? p.tag v.frames with
  | none =>
      obtain ⟨rest, -, hrun⟩ :=
        effects_events (.skip hv.isOpen hv.segment hm) (isOpen_stateOf _ _ rfl) rfl
      refine ⟨_, _, hrun, ⟨isOpen_stateOf _ v.frames rfl, rfl⟩, rfl, rfl,
        .skipped hm rfl fun ho => ?_⟩
      have hkind := misplaced_kind v.schema v.frames (v.segmentCount + 1) p.tag
      have horderly := ho _ (List.mem_append_left _ (List.mem_singleton_self _))
      rw [Violation.Kind.isSequence, hkind, Bool.or_true] at horderly
      cases horderly
  | some m =>
      obtain ⟨frames, s, found, htake⟩ : ∃ frames s found,
        m.take (v.counting p.tag).here (v.segmentCount + 1) p.tag = ((frames, s), found) :=
          ⟨_, _, _, rfl⟩
      obtain ⟨hopened, hfound⟩ := Match.take_eq htake
      have hlocated := locate?_eq_some.1 hm
      have hvalues : s.values = [] := by
        rw [OpenSegment.values, hopened.fresh.read, List.reverse_nil]
      obtain ⟨rest, hrest, hrun⟩ :=
        effects_events (.take hv.isOpen hv.segment hm htake) (isOpen_stateOf _ _ rfl) rfl
      rw [hvalues] at hrun
      refine ⟨_, _, hrun, ⟨isOpen_stateOf _ frames rfl, rfl⟩, rfl, rfl,
        .taken hlocated hopened.leads ?_⟩
      have hframe : m.frame ∈ v.frames := by
        rw [hlocated.frames_eq]
        simp
      rw [orderly_append, hfound,
        Match.clean_iff (ht _ hframe) (Frame.childFrom?_eq_some.1 hlocated.found).2.1]
      exact and_iff_left hrest

/-! ### Whole documents -/

/-- A document is read to its end. It is read without a report on order and number only if the
open loops accept it; when the tags inside loops do not occur after them, exactly then. -/
theorem effects_rest (hv : v.Ready) (ha : v.schema.root.Audited)
    (hn : Nested v.schema.root v.frames) (doc : List Passage) :
    ∃ w raw, Effects v (doc.flatMap Passage.events ++ [.interchangeEnd]) w raw ∧
      w.state = .complete ∧ (Orderly raw → Accepts settling v.frames doc) ∧
      (v.schema.root.Separated → Accepts settling v.frames doc → Orderly raw) := by
  induction doc generalizing v with
  | nil =>
      have hnil : Orderly (closeAll v.frames v.here ++ []) ↔ Accepts settling v.frames [] := by
        rw [List.append_nil, accepts_nil_iff]
        exact (orderly_iff_nil fun x hx => isSequence_of_isShortage (closeAll_kind hx)).trans
          closeAll_eq_nil
      exact ⟨_, _, .cons (.finish hv.isOpen hv.segment) (.nil _), rfl, hnil.1,
        fun _ => hnil.2⟩
  | cons p doc ih =>
      obtain ⟨w, raw, hrun, hw, hschema, hconfig, hpassed⟩ := effects_passage hv hn.tidy p
      have hnested : Nested w.schema.root w.frames := by
        rw [hschema]
        cases hpassed with
        | taken hm hl => exact hl.nested hm hn
        | skipped _ hframes => rwa [hframes]
      obtain ⟨u, more, hrest, hcomplete, hsound, hexact⟩ := ih hw (by rwa [hschema]) hnested
      rw [List.flatMap_cons, List.append_assoc]
      refine ⟨u, raw ++ more, hrun.append hrest, hcomplete, fun ho => ?_,
        fun hsep haccepts => ?_⟩
      · obtain ⟨hraw, hmore⟩ := orderly_append.1 ho
        cases hpassed with
        | taken hm hl hclean => exact hl.accepts hm (hclean.1 hraw) ha hn (hsound hmore)
        | skipped _ _ hnot => exact absurd hraw hnot
      · obtain ⟨m, hm, hclean, hstep⟩ := haccepts.step ha hsep hn
        -- The match that reports nothing is the one that the validator finds.
        cases hpassed with
        | taken hm' hl hclean' =>
            have heq := (locate?_eq_some.2 hm).symm.trans (locate?_eq_some.2 hm')
            cases heq
            refine orderly_append.2 ⟨hclean'.2 hclean, hexact ?_ (hstep _ hl)⟩
            rwa [hschema]
        | skipped hnone =>
            rw [locate?_eq_some.2 hm] at hnone
            cases hnone

/-- A document is read from its start to its end, and the start finds nothing. -/
theorem effects_document (hb : schema.Bound) (config : Config) (version : Option String)
    (doc : List Passage) :
    ∃ w raw, Effects { schema, config } (document version doc) w raw ∧ w.state = .complete ∧
      (Orderly raw → schema.root.Allows settling doc) ∧
      (schema.root.Separated → schema.root.Allows settling doc → Orderly raw) := by
  have hstart : Effect { schema, config } (.interchangeStart version) _ [] := .start rfl
  obtain ⟨w, raw, hrest, hcomplete, hsound, hexact⟩ := effects_rest
    (v := { schema, config, version, state := .inInterchange
            frames := [Frame.ofRoot schema.root] })
    ⟨.inl rfl, rfl⟩ hb.audited (nested_ofRoot schema.root) doc
  rw [accepts_ofRoot] at hsound hexact
  exact ⟨w, raw, .cons_quiet hstart hrest, hcomplete, hsound, hexact⟩

/-- A document that is read to its end without a report on order and number is one that the root
loop allows, with the implementations that settle while the values arrive; these are the ones
that all values select when they come in the order of the stream. -/
theorem allows_of_orderly (hb : schema.Bound)
    (h : handleAll { schema, config } (document version doc) = .ok (v, found))
    (hv : v.state = .complete) (ho : Orderly found) :
    schema.root.Allows settling doc ∧ (Ordered doc → schema.root.Allows selecting doc) := by
  obtain ⟨w, raw, heffects, -, hsound, -⟩ := effects_document hb config version doc
  have hne : v.state ≠ .failed := by
    rw [hv]
    decide
  obtain ⟨-, rfl⟩ := (heffects.runsTo 0).eq_of_ok h hne
  have hallows := hsound (orderly_judged.1 ho)
  exact ⟨hallows, fun horder => (Loop.allows_settling_iff hb.audited horder).1 hallows⟩

/-- A document that the root loop allows is read to its end without a report on order and number
when the tags inside loops do not occur after them and nothing that is found ends validation. -/
theorem orderly_of_allows (hb : schema.Bound) (hsep : schema.root.Separated)
    (hc : config.NeverHalts) (version : Option String)
    (h : schema.root.Allows settling doc ∨ Ordered doc ∧ schema.root.Allows selecting doc) :
    ∃ v found, handleAll { schema, config } (document version doc) = .ok (v, found) ∧
      v.state = .complete ∧ Orderly found := by
  obtain ⟨w, raw, heffects, hcomplete, -, hexact⟩ := effects_document hb config version doc
  have hallows : schema.root.Allows settling doc := by
    rcases h with h | ⟨horder, h⟩
    · exact h
    · exact (Loop.allows_settling_iff hb.audited horder).2 h
  obtain ⟨errors, hok⟩ := (heffects.runsTo 0).ok hc
  exact ⟨_, _, hok, hcomplete, orderly_judged.2 (hexact hsep hallows)⟩

/-! ### A loop with two lists -/

/-- A segment with two elements of any text. -/
def textSegment (tag : String) : Segment := ⟨tag, tag, [textElement, textElement], []⟩

/-- A loop of `A` alone, or of `A` and `B` where the first element of `A` says so. -/
def forkedLoop : Loop where
  id := "L"
  children := [⟨.segment (textSegment "A"), 1, .bounded 1⟩]
  implementations := [⟨"X", ⟨⟨1, none⟩, ["x"]⟩, [⟨.segment (textSegment "A"), 1, .bounded 1⟩,
    ⟨.segment (textSegment "B"), 1, .bounded 1⟩]⟩]

/-- A schema with that loop alone. -/
def forkedSchema : Schema where
  name := "FORKED"
  root := ⟨"ROOT", [⟨.loop forkedLoop, 0, .unbounded⟩], []⟩
  tags := ["A", "A", "B"]

/-- The segment `A` with an element `x`, in the order of the stream or after a later element. -/
def forkedStart (late : Bool) : Passage where
  tag := "A"
  body :=
    if late then [.element ⟨⟨2, none⟩, 0, "q"⟩, .element ⟨⟨1, none⟩, 0, "x"⟩]
    else [.element ⟨⟨1, none⟩, 0, "x"⟩]
  inside := by cases late <;> decide

/-- A segment without elements. -/
def barePassage (tag : String) : Passage := ⟨tag, [], by simp⟩

/-- A configuration under which nothing ends validation. -/
def lenient : Config := { strictness := .lenient }

theorem forkedSchema_bound : forkedSchema.Bound :=
  .tree (show Schema.bind "FORKED" forkedSchema.root = .ok forkedSchema from rfl)

theorem lenient_neverHalts : lenient.NeverHalts where
  not_fatal kind := by
    unfold lenient Config.severityOf Strictness.isFatal
    simp
  unlimited := rfl

theorem forkedLoop_segments {cs : List Child} (h : cs ∈ forkedLoop.lists) {c : Child}
    (hc : c ∈ cs) : ∃ s, c.target = .segment s := by
  simp only [Loop.lists, forkedLoop, List.map_cons, List.map_nil, List.mem_cons,
    List.not_mem_nil, or_false] at h
  rcases h with rfl | rfl
  · exact ⟨_, by rw [List.mem_singleton.1 hc]⟩
  · rcases List.mem_cons.1 hc with rfl | hc
    · exact ⟨_, rfl⟩
    · exact ⟨_, by rw [List.mem_singleton.1 hc]⟩

theorem forkedLoop_holds {cs : List Child} (h : forkedLoop.Holds cs) : cs ∈ forkedLoop.lists := by
  induction h with
  | own h => exact h
  | inside _ hc ht _ ih =>
      obtain ⟨s, hs⟩ := forkedLoop_segments ih hc
      rw [hs] at ht
      cases ht

theorem forkedSchema_holds {cs : List Child} (h : forkedSchema.root.Holds cs) :
    cs = forkedSchema.root.children ∨ cs ∈ forkedLoop.lists := by
  induction h with
  | own h =>
      left
      simpa [Loop.lists, forkedSchema] using h
  | inside _ hc ht h ih =>
      right
      rcases ih with rfl | ih
      · obtain rfl := List.mem_singleton.1 hc
        cases ht
        exact h
      · obtain ⟨s, hs⟩ := forkedLoop_segments ih hc
        rw [hs] at ht
        cases ht

/-- After the first segment of the loop only `B` can come, which does not start the loop. -/
theorem forkedSchema_separated : forkedSchema.root.Separated := by
  intro around n c l inside k d j e tag haround hc ht hinside hk hd htag hj he
  have hmem := List.mem_of_getElem? hc
  rcases forkedSchema_holds haround with rfl | hlists
  · obtain rfl := List.mem_singleton.1 hmem
    obtain rfl := List.mem_singleton.1 (List.mem_of_getElem? he)
    cases ht
    have hinside := forkedLoop_holds hinside
    obtain ⟨k, rfl⟩ : ∃ i, k = i + 1 := ⟨k - 1, by omega⟩
    simp only [Loop.lists, forkedLoop, List.map_cons, List.map_nil, List.mem_cons,
      List.not_mem_nil, or_false] at hinside
    rcases hinside with rfl | rfl
    · cases hd
    · rw [List.getElem?_cons_succ] at hd
      obtain rfl := List.mem_singleton.1 (List.mem_of_getElem? hd)
      obtain rfl : "B" = tag :=
        Option.some.inj (beq_iff_eq.1 (show (some "B" == some tag) = true from htag))
      decide
  · obtain ⟨s, hs⟩ := forkedLoop_segments hlists hmem
    rw [hs] at ht
    cases ht

/-- All values of `A` select the implementation, which goes on with `B`. -/
theorem forked_allows (late : Bool) :
    forkedSchema.root.Allows selecting [forkedStart late, barePassage "B"] := by
  have hend : Derives selecting (.occurrence ⟨.segment (textSegment "B"), 1, .bounded 1⟩)
      [barePassage "B"] := .segment (s := textSegment "B") rfl rfl
  have hlist : forkedLoop.childrenBy (selecting forkedLoop.implementations
      (forkedStart late).values) =
        [⟨.segment (textSegment "A"), 1, .bounded 1⟩,
          ⟨.segment (textSegment "B"), 1, .bounded 1⟩] := by
    cases late <;> rfl
  have hloop : Derives selecting (.occurrence ⟨.loop forkedLoop, 0, .unbounded⟩)
      [forkedStart late, barePassage "B"] :=
    .loop (s := textSegment "A") rfl hlist rfl rfl (Nat.le_refl 1)
      (.cons (n := 1) (Nat.le_refl 1) rfl (.more hend .none) .nil)
  exact .cons (n := 1) (Nat.zero_le 1) rfl (.more hloop .none) .nil

theorem allows_of_orderly_forked :
    ∃ v, handleAll { schema := forkedSchema, config := {} }
        (document none [forkedStart false, barePassage "B"]) = .ok (v, []) ∧
      v.state = .complete ∧
      forkedSchema.root.Allows settling [forkedStart false, barePassage "B"] ∧
      forkedSchema.root.Allows selecting [forkedStart false, barePassage "B"] := by
  obtain ⟨v, h, hv⟩ : ∃ v, handleAll { schema := forkedSchema, config := {} }
      (document none [forkedStart false, barePassage "B"]) = .ok (v, []) ∧
        v.state = .complete := ⟨_, rfl, by rfl⟩
  have hallows := allows_of_orderly forkedSchema_bound h hv orderly_nil
  exact ⟨v, h, hv, hallows.1, hallows.2 (by decide)⟩

/-- With `x` too late `A` is read alone, as the list of the loop has it, though all values select
the implementation, which does not allow that. -/
theorem not_allows_of_late :
    forkedSchema.Bound ∧ ∃ v found, handleAll { schema := forkedSchema, config := {} }
        (document none [forkedStart true]) = .ok (v, found) ∧
      v.state = .complete ∧ Orderly found ∧
      ¬ forkedSchema.root.Allows selecting [forkedStart true] := by
  obtain ⟨v, x, h, hv, hkind⟩ : ∃ v x, handleAll { schema := forkedSchema, config := {} }
      (document none [forkedStart true]) = .ok (v, [x]) ∧
        v.state = .complete ∧ x.kind = .unresolvedImplementation := ⟨_, _, rfl, by rfl, by rfl⟩
  refine ⟨forkedSchema_bound, v, [x], h, hv, ?_, fun hallows => ?_⟩
  · intro y hy
    rw [List.mem_singleton.1 hy, hkind]
    rfl
  · have hfills : Fills selecting (fun _ => 0) 0 forkedSchema.root.children [forkedStart true] :=
      (fills_iff_derives fun _ _ => rfl).2 hallows
    obtain ⟨j, c, first, rest, hc, -, -, hfirst, hnil, -⟩ := hfills.head
    obtain rfl := List.mem_singleton.1 (List.mem_of_getElem? hc)
    obtain ⟨rfl, -⟩ := List.append_eq_nil_iff.1 hnil.symm
    cases hfirst with
    | segment ht => cases ht
    | loop ht hlist _ _ _ hrest =>
        cases ht
        cases hlist
        have hrest := (fills_iff_derives (k := 0) fun _ _ => rfl).2 hrest
        have hmin := fills_nil_iff.1 hrest 0 _ rfl
        exact absurd hmin (by decide)

theorem orderly_of_allows_forked :
    forkedSchema.root.Separated ∧ lenient.NeverHalts ∧
      ∃ v found, handleAll { schema := forkedSchema, config := lenient }
          (document none [forkedStart false, barePassage "B"]) = .ok (v, found) ∧
        v.state = .complete ∧ Orderly found :=
  ⟨forkedSchema_separated, lenient_neverHalts,
    orderly_of_allows forkedSchema_bound forkedSchema_separated lenient_neverHalts none
      (.inr ⟨by decide, forked_allows false⟩)⟩

/-- With `x` too late `B` is reported, though all values select the implementation, which allows
it. -/
theorem not_orderly_of_late :
    forkedSchema.Bound ∧ forkedSchema.root.Separated ∧ lenient.NeverHalts ∧
      forkedSchema.root.Allows selecting [forkedStart true, barePassage "B"] ∧
      ∃ v found, handleAll { schema := forkedSchema, config := lenient }
          (document none [forkedStart true, barePassage "B"]) = .ok (v, found) ∧
        ¬ Orderly found := by
  obtain ⟨v, x, y, h, hkind⟩ : ∃ v x y, handleAll { schema := forkedSchema, config := lenient }
      (document none [forkedStart true, barePassage "B"]) = .ok (v, [x, y]) ∧
        y.kind = .segmentNotInSchema := ⟨_, _, _, rfl, by rfl⟩
  refine ⟨forkedSchema_bound, forkedSchema_separated, lenient_neverHalts, forked_allows true,
    v, [x, y], h, fun ho => ?_⟩
  have hy := ho y (by simp)
  rw [hkind] at hy
  cases hy

end Interchange.Validator
