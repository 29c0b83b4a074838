import Interchange.Proofs.Run
import Interchange.Proofs.Stability
import Mathlib.Data.List.SplitBy

/-!
# The text of a segment and its events

The events of a segment say what its text said, and in the order in which it was said.

* Each value knows where it stood, and the values come in strictly increasing order of these
  places. The components of a composite stand between its two marks and nothing else does
  (`Event.Marked`).
* Joining the values again, the components of one repetition first, then the repetitions of one
  element, gives back the texts of the elements (`Event.toSegment?`). So no two segments have the
  same events: see `Event.ofSegment_reversible`.

A text is taken apart twice, and put together again twice, in the same way: a row of blocks, one
for each number in turn, whose values tell by their numbers which block they belong to (`Row`).
-/

namespace Interchange.Event

/-! ### Rows of numbered blocks -/

section Row

variable {τ α : Type} {Is : Nat → τ → List α → Prop} {number : α → Nat} {n next : Nat}
  {texts : List τ} {block : List α} {blocks : List (List α)}

/-- A row of blocks, one for each text, with the numbers from `next` on. -/
inductive Row (Is : Nat → τ → List α → Prop) : (next : Nat) → List τ → List (List α) → Prop
  | nil {next : Nat} : Row Is next [] []
  | cons {next : Nat} {text : τ} {texts : List τ} {block : List α} {blocks : List (List α)}
      (h : Is next text block) (hrest : Row Is (next + 1) texts blocks) :
      Row Is next (text :: texts) (block :: blocks)

/-- A block is not empty, and each of its values has its number. -/
def Tells (Is : Nat → τ → List α → Prop) (number : α → Nat) : Prop :=
  ∀ ⦃n text block⦄, Is n text block → block ≠ [] ∧ ∀ x ∈ block, number x = n

namespace Row

/-- Each block belongs to a text. -/
theorem text_of_mem (h : Row Is next texts blocks) (hb : block ∈ blocks) :
    ∃ n, ∃ text ∈ texts, Is n text block := by
  induction h with
  | nil => cases hb
  | cons h _ ih =>
      rcases List.mem_cons.1 hb with rfl | hb
      · exact ⟨_, _, List.mem_cons_self, h⟩
      · obtain ⟨n, text, htext, h⟩ := ih hb
        exact ⟨n, text, List.mem_cons_of_mem _ htext, h⟩

/-- When each block spells its text, the row spells the texts. -/
theorem map_eq {f : List α → τ} (h : Row Is next texts blocks)
    (hf : ∀ n text block, Is n text block → f block = text) : blocks.map f = texts := by
  induction h with
  | nil => rfl
  | cons h _ ih => rw [List.map_cons, hf _ _ _ h, ih]

/-- The numbers in a row are those of its blocks, without a gap. -/
theorem exists_mem_iff (h : Row Is next texts blocks) (ht : Tells Is number) :
    (∃ x ∈ blocks.flatten, number x = n) ↔ next ≤ n ∧ n < next + texts.length := by
  induction h with
  | nil => simp
  | @cons next text texts block blocks h hrest ih =>
      obtain ⟨hne, hnumber⟩ := ht h
      obtain ⟨x, hx⟩ := List.exists_mem_of_ne_nil block hne
      rw [List.flatten_cons, List.length_cons]
      constructor
      · rintro ⟨y, hy, hn⟩
        rcases List.mem_append.1 hy with hy | hy
        · rw [hnumber y hy] at hn
          omega
        · have hbounds := ih.1 ⟨y, hy, hn⟩
          omega
      · intro hn
        by_cases hfirst : n = next
        · exact ⟨x, List.mem_append_left _ hx, by rw [hnumber x hx, hfirst]⟩
        · obtain ⟨y, hy, hn⟩ := ih.2 (by omega)
          exact ⟨y, List.mem_append_right _ hy, hn⟩

/-- The values behind the first block have greater numbers. -/
theorem lt_of_mem_rest (hrest : Row Is (next + 1) texts blocks) (ht : Tells Is number)
    {y : α} (hy : y ∈ blocks.flatten) : next < number y :=
  ((hrest.exists_mem_iff ht).1 ⟨y, hy, rfl⟩).1

/-- The blocks of a row are the runs of one number. -/
theorem splitBy_flatten (h : Row Is next texts blocks) (ht : Tells Is number) :
    blocks.flatten.splitBy (fun x y => number x == number y) = blocks := by
  induction h with
  | nil => rfl
  | @cons next text texts block blocks h hrest ih =>
      obtain ⟨hne, hnumber⟩ := ht h
      have hrun : block.splitBy (fun x y => number x == number y) = [block] := by
        refine List.splitBy_of_isChain hne (List.Pairwise.isChain ?_)
        refine List.pairwise_of_forall_mem_list fun x hx y hy => ?_
        simp [hnumber x hx, hnumber y hy]
      rw [List.flatten_cons, List.splitBy_append, hrun, ih, List.singleton_append]
      intro x hx y hy
      have hlast := hnumber x (List.mem_of_getLast? hx)
      have hlt := hrest.lt_of_mem_rest ht (List.mem_of_head? hy)
      rw [beq_eq_false_iff_ne, hlast]
      omega

/-- A row is in order when its blocks are, and when a value with a smaller number comes before. -/
theorem pairwise_flatten {R : α → α → Prop} (h : Row Is next texts blocks)
    (ht : Tells Is number) (hin : ∀ block ∈ blocks, block.Pairwise R)
    (hacross : ∀ x ∈ blocks.flatten, ∀ y ∈ blocks.flatten, number x < number y → R x y) :
    blocks.flatten.Pairwise R := by
  induction h with
  | nil => exact List.Pairwise.nil
  | @cons next text texts block blocks h hrest ih =>
      obtain ⟨hblock, hblocks⟩ := List.forall_mem_cons.1 hin
      rw [List.flatten_cons] at hacross ⊢
      rw [List.pairwise_append]
      refine ⟨hblock, ih hblocks fun x hx y hy => ?_, fun x hx y hy => ?_⟩
      · exact hacross x (List.mem_append_right _ hx) y (List.mem_append_right _ hy)
      · refine hacross x (List.mem_append_left _ hx) y (List.mem_append_right _ hy) ?_
        rw [(ht h).2 x hx]
        exact hrest.lt_of_mem_rest ht hy

end Row

end Row

variable {element repetition next : Nat} {values : List ElementValue} {body rest : List Event}
  {text : List Char} {texts : List (List Char)}

/-! ### Reading events back -/

/-- What the values of one repetition of an element spell. -/
def textOfRepetition (values : List ElementValue) : List Char :=
  Separator.join Separator.component (values.map (·.value.toList))

/-- What the values of one element spell. -/
def textOfElement (values : List ElementValue) : List Char :=
  Separator.join Separator.repetition
    ((values.splitBy fun v w => v.repetition == w.repetition).map textOfRepetition)

/-- What the values of a segment spell, element by element. -/
def textsOf (values : List ElementValue) : List String :=
  (values.splitBy fun v w => v.position.element == w.position.element).map
    fun values => String.ofList (textOfElement values)

/-- The tag and the elements of the segment that has these events. -/
def toSegment? : List Event → Option (String × List String)
  | .segmentStart tag :: rest => some (tag, textsOf (rest.filterMap value?))
  | _ => none

/-! ### What the events of a segment look like -/

/-- The values of the components of a composite, numbered from `next`. -/
def componentValues (element repetition next : Nat) (texts : List String) : List ElementValue :=
  (texts.zipIdx next).map fun (text, component) => ⟨⟨element, some component⟩, repetition, text⟩

/-- Every value is either a simple one or a component of a composite, which has at least two. They
are numbered from 1 and stand between the two marks of the composite. -/
inductive Marked : List Event → Prop
  | nil : Marked []
  | simple {v : ElementValue} {rest : List Event} (hv : v.position.component = none)
      (hrest : Marked rest) : Marked (.element v :: rest)
  | composite {element repetition : Nat} {texts : List String} {rest : List Event}
      (htexts : 2 ≤ texts.length) (hrest : Marked rest) :
      Marked (.compositeStart ⟨element, none⟩ repetition ::
        ((componentValues element repetition 1 texts).map .element ++
          .compositeEnd ⟨element, none⟩ repetition :: rest))

/-- The events inside a segment with a number of elements. -/
structure Ordered (count : Nat) (body : List Event) : Prop where
  marked : Marked body
  /-- The values come by element, then by repetition, then by component. -/
  increasing : Increasing (body.filterMap value?)
  /-- The elements are numbered from 1 to the last one. -/
  elements : ∀ n, (∃ v ∈ body.filterMap value?, v.position.element = n) ↔ 1 ≤ n ∧ n ≤ count
  /-- The repetitions of each are numbered from 0. -/
  repetitions : ∀ v ∈ body.filterMap value?, ∀ n ≤ v.repetition, ∃ w ∈ body.filterMap value?,
    w.position.element = v.position.element ∧ w.repetition = n
  /-- No value holds a separator. -/
  unseparated : ∀ v ∈ body.filterMap value?,
    Separator.component ∉ v.value.toList ∧ Separator.repetition ∉ v.value.toList

theorem Marked.append (h : Marked body) (hrest : Marked rest) : Marked (body ++ rest) := by
  induction h with
  | nil => exact hrest
  | simple hv _ ih => exact .simple hv ih
  | composite htexts _ ih =>
      rw [List.cons_append, List.append_assoc, List.cons_append]
      exact .composite htexts ih

/-! ### One repetition of an element -/

theorem ofComponents_eq (element repetition next : Nat) (pieces : List (List Char)) :
    ofComponents element repetition next pieces =
      (componentValues element repetition next (pieces.map String.ofList)).map .element := by
  induction pieces generalizing next with
  | nil => rfl
  | cons piece pieces ih =>
      rw [ofComponents, ih]
      rfl

theorem filterMap_value?_element (values : List ElementValue) :
    (values.map Event.element).filterMap value? = values := by
  rw [List.filterMap_map]
  exact List.filterMap_some

/-- The components of a composite are in order. -/
theorem increasing_componentValues (element repetition next : Nat) (texts : List String) :
    Increasing (componentValues element repetition next texts) := by
  induction texts generalizing next with
  | nil => exact List.Pairwise.nil
  | cons text texts ih =>
      refine List.pairwise_cons.2 ⟨fun v hv => ?_, ih (next + 1)⟩
      obtain ⟨⟨text, component⟩, hmem, rfl⟩ := List.mem_map.1 hv
      have hle : next + 1 ≤ component := (List.mem_zipIdx hmem).1
      exact .inr ⟨rfl, .inr ⟨rfl, hle⟩⟩

theorem marked_ofRepetition (element repetition : Nat) (text : List Char) :
    Marked (ofRepetition element repetition text) := by
  unfold ofRepetition
  split
  · rename_i h
    have hcount : 0 < text.count Separator.component := List.count_pos_iff.2 h
    rw [ofComponents_eq]
    refine .composite ?_ .nil
    rw [List.length_map, Separator.length_split]
    omega
  · exact .simple rfl .nil

/-- The values of one repetition of an element that has a text. -/
structure OfRepetition (element repetition : Nat) (text : List Char)
    (values : List ElementValue) : Prop where
  ne_nil : values ≠ []
  placed : ∀ v ∈ values, v.position.element = element ∧ v.repetition = repetition
  increasing : Increasing values
  text_eq : textOfRepetition values = text
  unseparated : ∀ v ∈ values, ∀ c ∈ v.value.toList, c ∈ text ∧ c ≠ Separator.component

theorem ofRepetition_values (element repetition : Nat) (text : List Char) :
    OfRepetition element repetition text
      ((ofRepetition element repetition text).filterMap value?) := by
  unfold ofRepetition
  split
  · have hvalues : ((.compositeStart ⟨element, none⟩ repetition ::
        ofComponents element repetition 1 (Separator.split Separator.component text) ++
          [.compositeEnd ⟨element, none⟩ repetition] : List Event).filterMap value?) =
        componentValues element repetition 1
          ((Separator.split Separator.component text).map String.ofList) := by
      rw [ofComponents_eq, List.cons_append, List.filterMap_cons_none rfl, List.filterMap_append,
        filterMap_value?_element]
      exact List.append_nil _
    rw [hvalues]
    refine ⟨?_, fun v hv => ?_, increasing_componentValues _ _ _ _, ?_, fun v hv c hc => ?_⟩
    · simp [componentValues, Separator.split_ne_nil]
    · obtain ⟨⟨text, component⟩, -, rfl⟩ := List.mem_map.1 hv
      exact ⟨rfl, rfl⟩
    · have hpieces : (componentValues element repetition 1
          ((Separator.split Separator.component text).map String.ofList)).map (·.value.toList) =
          Separator.split Separator.component text := by
        simp [componentValues, Function.comp_def, List.zipIdx_map]
      rw [textOfRepetition, hpieces, Separator.join_split]
    · obtain ⟨⟨text', component⟩, hmem, rfl⟩ := List.mem_map.1 hv
      obtain ⟨piece, hpiece, rfl⟩ := List.mem_map.1 (List.fst_mem_of_mem_zipIdx hmem)
      rw [String.toList_ofList] at hc
      exact Separator.mem_of_mem_split hpiece hc
  · rename_i h
    refine ⟨List.cons_ne_nil _ _, fun v hv => ?_, List.pairwise_singleton _ _, ?_,
      fun v hv c hc => ?_⟩
    · obtain rfl := List.mem_singleton.1 hv
      exact ⟨rfl, rfl⟩
    · simp [textOfRepetition, Separator.join, value?]
    · obtain rfl := List.mem_singleton.1 hv
      rw [String.toList_ofList] at hc
      exact ⟨hc, fun heq => h (heq ▸ hc)⟩

theorem OfRepetition.tells (element : Nat) :
    Tells (OfRepetition element) ElementValue.repetition :=
  fun _ _ _ h => ⟨h.ne_nil, fun v hv => (h.placed v hv).2⟩

/-! ### One element -/

theorem marked_ofRepetitions (element next : Nat) (pieces : List (List Char)) :
    Marked (ofRepetitions element next pieces) := by
  induction pieces generalizing next with
  | nil => exact .nil
  | cons piece pieces ih => exact (marked_ofRepetition element next piece).append (ih (next + 1))

/-- The values of the repetitions of an element are a row of blocks. -/
theorem ofRepetitions_row (element next : Nat) (pieces : List (List Char)) :
    ∃ blocks, (ofRepetitions element next pieces).filterMap value? = blocks.flatten ∧
      Row (OfRepetition element) next pieces blocks := by
  induction pieces generalizing next with
  | nil => exact ⟨[], rfl, .nil⟩
  | cons piece pieces ih =>
      obtain ⟨blocks, hvalues, hrow⟩ := ih (next + 1)
      refine ⟨_ :: blocks, ?_, .cons (ofRepetition_values element next piece) hrow⟩
      rw [ofRepetitions, List.filterMap_append, hvalues, List.flatten_cons]

/-- The values of one element that has a text. -/
structure OfElement (element : Nat) (text : String) (values : List ElementValue) : Prop where
  ne_nil : values ≠ []
  placed : ∀ v ∈ values, v.position.element = element
  increasing : Increasing values
  repetitions : ∀ v ∈ values, ∀ n ≤ v.repetition, ∃ w ∈ values, w.repetition = n
  text_eq : String.ofList (textOfElement values) = text
  unseparated : ∀ v ∈ values,
    Separator.component ∉ v.value.toList ∧ Separator.repetition ∉ v.value.toList

theorem ofElement_values (element : Nat) (text : String) :
    OfElement element text ((ofRepetitions element 0
      (Separator.split Separator.repetition text.toList)).filterMap value?) := by
  obtain ⟨blocks, hvalues, hrow⟩ :=
    ofRepetitions_row element 0 (Separator.split Separator.repetition text.toList)
  have ht := OfRepetition.tells element
  have hpiece : ∀ v ∈ blocks.flatten, ∃ r,
      ∃ piece ∈ Separator.split Separator.repetition text.toList,
        ∃ block, v ∈ block ∧ OfRepetition element r piece block := by
    intro v hv
    obtain ⟨block, hb, hv⟩ := List.mem_flatten.1 hv
    obtain ⟨r, piece, hpiece, h⟩ := hrow.text_of_mem hb
    exact ⟨r, piece, hpiece, block, hv, h⟩
  have hplaced : ∀ v ∈ blocks.flatten, v.position.element = element := by
    intro v hv
    obtain ⟨r, piece, -, block, hv, h⟩ := hpiece v hv
    exact (h.placed v hv).1
  rw [hvalues]
  refine ⟨?_, hplaced, ?_, fun v hv n hn => ?_, ?_, fun v hv => ?_⟩
  · obtain ⟨v, hv, -⟩ := (hrow.exists_mem_iff (n := 0) ht).2
      ⟨Nat.le_refl 0, by rw [Separator.length_split]; omega⟩
    exact List.ne_nil_of_mem hv
  · refine hrow.pairwise_flatten ht (fun block hb => ?_) fun x hx y hy hxy => ?_
    · obtain ⟨r, piece, -, h⟩ := hrow.text_of_mem hb
      exact h.increasing
    · exact .inr ⟨(hplaced x hx).trans (hplaced y hy).symm, .inl hxy⟩
  · have hbounds := (hrow.exists_mem_iff ht).1 ⟨v, hv, rfl⟩
    exact (hrow.exists_mem_iff ht).2 ⟨Nat.zero_le n, by omega⟩
  · rw [textOfElement, hrow.splitBy_flatten ht, hrow.map_eq fun r piece block h => h.text_eq,
      Separator.join_split, String.ofList_toList]
  · obtain ⟨r, piece, hpiece, block, hv, h⟩ := hpiece v hv
    refine ⟨fun hc => (h.unseparated v hv _ hc).2 rfl, fun hc => ?_⟩
    exact (Separator.mem_of_mem_split hpiece (h.unseparated v hv _ hc).1).2 rfl

theorem OfElement.tells : Tells OfElement fun v => v.position.element :=
  fun _ _ _ h => ⟨h.ne_nil, h.placed⟩

/-! ### A segment -/

theorem marked_ofElements (next : Nat) (elements : List String) :
    Marked (ofElements next elements) := by
  induction elements generalizing next with
  | nil => exact .nil
  | cons text texts ih => exact (marked_ofRepetitions next 0 _).append (ih (next + 1))

/-- The values of a segment are a row of blocks. -/
theorem ofElements_row (next : Nat) (elements : List String) :
    ∃ blocks, (ofElements next elements).filterMap value? = blocks.flatten ∧
      Row OfElement next elements blocks := by
  induction elements generalizing next with
  | nil => exact ⟨[], rfl, .nil⟩
  | cons text texts ih =>
      obtain ⟨blocks, hvalues, hrow⟩ := ih (next + 1)
      refine ⟨_ :: blocks, ?_, .cons (ofElement_values next text) hrow⟩
      rw [ofElements, List.filterMap_append, hvalues, List.flatten_cons]

theorem ordered_ofElements (elements : List String) :
    Ordered elements.length (ofElements 1 elements) := by
  obtain ⟨blocks, hvalues, hrow⟩ := ofElements_row 1 elements
  have ht := OfElement.tells
  have hblock : ∀ v ∈ blocks.flatten, ∃ block ∈ blocks, v ∈ block ∧
      ∃ text, OfElement v.position.element text block := by
    intro v hv
    obtain ⟨block, hb, hv⟩ := List.mem_flatten.1 hv
    obtain ⟨e, text, -, h⟩ := hrow.text_of_mem hb
    rw [← h.placed v hv] at h
    exact ⟨block, hb, hv, text, h⟩
  refine ⟨marked_ofElements 1 elements, ?_, fun n => ?_, ?_, ?_⟩ <;> rw [hvalues]
  · refine hrow.pairwise_flatten ht (fun block hb => ?_) fun x _ y _ hxy => .inl hxy
    obtain ⟨e, text, -, h⟩ := hrow.text_of_mem hb
    exact h.increasing
  · rw [hrow.exists_mem_iff ht]
    omega
  · intro v hv n hn
    obtain ⟨block, hb, hv, text, h⟩ := hblock v hv
    obtain ⟨w, hw, hn⟩ := h.repetitions v hv n hn
    exact ⟨w, List.mem_flatten.2 ⟨block, hb, hw⟩, h.placed w hw, hn⟩
  · intro v hv
    obtain ⟨block, -, hv, text, h⟩ := hblock v hv
    exact h.unseparated v hv

/-- Reading the events of a segment gives the segment back. -/
theorem toSegment?_ofSegment (tag : String) (elements : List String) :
    toSegment? (ofSegment tag elements) = some (tag, elements) := by
  obtain ⟨blocks, hvalues, hrow⟩ := ofElements_row 1 elements
  have htexts : textsOf blocks.flatten = elements := by
    rw [textsOf, hrow.splitBy_flatten OfElement.tells]
    exact hrow.map_eq fun e text block h => h.text_eq
  rw [ofSegment, List.cons_append, toSegment?, List.filterMap_append, hvalues]
  change some (tag, textsOf (blocks.flatten ++ [])) = _
  rw [List.append_nil, htexts]

/-- The events of a segment are its start with the tag, its values in order with the marks of the
composites among them, and its end. Joining what they say gives back the tag and the elements, so
no other segment has the same events. -/
theorem ofSegment_reversible (tag : String) (elements : List String) :
    (∃ body, ofSegment tag elements = .segmentStart tag :: (body ++ [.segmentEnd]) ∧
      Ordered elements.length body) ∧
    toSegment? (ofSegment tag elements) = some (tag, elements) ∧
    ∀ tag' elements', ofSegment tag' elements' = ofSegment tag elements ↔
      tag' = tag ∧ elements' = elements := by
  refine ⟨⟨ofElements 1 elements, rfl, ordered_ofElements elements⟩,
    toSegment?_ofSegment tag elements, fun tag' elements' => ⟨fun h => ?_, ?_⟩⟩
  · have hread := toSegment?_ofSegment tag' elements'
    rw [h, toSegment?_ofSegment, Option.some.injEq, Prod.mk.injEq] at hread
    exact ⟨hread.1.symm, hread.2.symm⟩
  · rintro ⟨rfl, rfl⟩
    rfl

/-- Separators in front, at the end and side by side leave empty values behind. -/
example : ofSegment "A" ["", "x:^^:", "y"] =
    [.segmentStart "A", .element ⟨⟨1, none⟩, 0, ""⟩,
      .compositeStart ⟨2, none⟩ 0, .element ⟨⟨2, some 1⟩, 0, "x"⟩, .element ⟨⟨2, some 2⟩, 0, ""⟩,
      .compositeEnd ⟨2, none⟩ 0, .element ⟨⟨2, none⟩, 1, ""⟩,
      .compositeStart ⟨2, none⟩ 2, .element ⟨⟨2, some 1⟩, 2, ""⟩, .element ⟨⟨2, some 2⟩, 2, ""⟩,
      .compositeEnd ⟨2, none⟩ 2, .element ⟨⟨3, none⟩, 0, "y"⟩, .segmentEnd] := by decide

end Interchange.Event
