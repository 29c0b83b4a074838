import Interchange.Proofs.Definitions
import Interchange.Proofs.Expansion
import Interchange.Schema.Source

/-!
# Schemas from descriptions

In the tree that a description stands for, every loop and every segment is what plain expansion
gives for its id (`Built.holds`), so loops with one id are equal. That is what the audit of a tree
of definitions relies on, and a schema that comes from a description or from a text is bound
(`toSchema_bound`, `ofText_bound`).
-/

namespace Interchange.Schema

namespace Description

variable {d : Description} {α β : Type} {l : Interchange.Loop} {s : Interchange.Segment}
  {target : Target Interchange.Loop} {cs : List Interchange.Child} {depth : Nat} {id : String}

/-- What a list of computations gives, one by one. -/
theorem forall₂_of_mapM {f : α → Expand β} {xs : List α} {ys : List β}
    (h : (xs.mapM f).run = some (.ok ys)) :
    List.Forall₂ (fun x y => (f x).run = some (.ok y)) xs ys := by
  induction xs generalizing ys with
  | nil =>
      cases h
      exact .nil
  | cons x rest ih =>
      rw [List.mapM_cons] at h
      obtain ⟨y, hy, h⟩ := ok_of_bind h
      obtain ⟨ys, hys, h⟩ := ok_of_bind h
      cases h
      exact .cons hy (ih hys)

theorem source_of_mapM {f : α → Expand β} {xs : List α} {ys : List β}
    (h : (xs.mapM f).run = some (.ok ys)) : ∀ y ∈ ys, ∃ x ∈ xs, (f x).run = some (.ok y) := by
  have hall := forall₂_of_mapM h
  clear h
  induction hall with
  | nil => exact fun y hy => absurd hy List.not_mem_nil
  | cons hx _ ih =>
      refine List.forall_mem_cons.2 ⟨⟨_, List.mem_cons_self, hx⟩, fun y hy => ?_⟩
      obtain ⟨x, hx, hy⟩ := ih y hy
      exact ⟨x, List.mem_cons_of_mem _ hx, hy⟩

/-! ### Parts of the tree -/

/-- The loop is what plain expansion gives for its id. -/
def Built (d : Description) (l : Interchange.Loop) : Prop :=
  ∃ depth, (d.expandLoop depth l.id).run = some (.ok l)

/-- The segment is what plain expansion gives for its id. -/
def BuiltSegment (d : Description) (s : Interchange.Segment) : Prop :=
  ∃ depth, (d.expandSegment depth s.id).run = some (.ok s)

/-- So is what a child of a loop is. -/
def BuiltTarget (d : Description) : Target Interchange.Loop → Prop
  | .segment s => d.BuiltSegment s
  | .loop l => d.Built l

theorem Built.eq {l' : Interchange.Loop} (h : d.Built l) (h' : d.Built l') (hid : l.id = l'.id) :
    l = l' := by
  obtain ⟨n, hn⟩ := h
  obtain ⟨m, hm⟩ := h'
  rw [← hid] at hm
  exact Except.ok.inj ((d.grows_expandLoop l.id).unique hn hm)

/-- The element is the one of a use: required unless its minimum is 0, and with at least one
repetition. -/
structure ElementUse.Gives (use : ElementUse) (e : Interchange.Element) : Prop where
  required_eq : e.required = decide (0 < use.minOccurs)
  maxOccurs_eq : e.maxOccurs = max use.maxOccurs 1

/-- What a segment is put together from. -/
theorem ok_of_expandSegment (h : (d.expandSegment depth id).run = some (.ok s)) :
    s.id = id ∧
      (∃ definition, d.segment? id = some definition ∧
        List.Forall₂ ElementUse.Gives definition.elements s.elements) ∧
      ∀ i ∈ s.implementations, ∃ n body, (d.expandSegment n body).run = some (.ok i.body) := by
  cases depth with
  | zero => cases h
  | succ depth =>
      rw [expandSegment] at h
      obtain ⟨definition, hnamed, h⟩ := ok_of_bind h
      have hfound : d.segment? id = some definition := by
        cases hsegment : d.segment? id <;> rw [hsegment] at hnamed <;> cases hnamed
        rfl
      obtain ⟨elements, helements, h⟩ := ok_of_bind h
      obtain ⟨implementations, himplementations, h⟩ := ok_of_bind h
      cases h
      have hid : definition.id = id := id_of_find? hfound
      refine ⟨hid, ⟨definition, hfound, ?_⟩, fun i hi => ?_⟩
      · refine (forall₂_of_mapM helements).imp fun use e he => ?_
        obtain ⟨content, -, he⟩ := ok_of_bind he
        cases he
        exact ⟨rfl, rfl⟩
      · obtain ⟨implementation, -, hx⟩ := source_of_mapM himplementations i hi
        obtain ⟨body, hbody, hx⟩ := ok_of_bind hx
        obtain ⟨discriminator, -, hx⟩ := ok_of_bind hx
        cases hx
        exact ⟨depth, implementation.segment, hbody⟩

theorem builtSegment_of_expandSegment (h : (d.expandSegment depth id).run = some (.ok s)) :
    d.BuiltSegment s := by
  obtain ⟨hid, -⟩ := ok_of_expandSegment h
  exact ⟨depth, by rwa [hid]⟩

/-- The elements of a segment are those of its definition, use by use. -/
theorem BuiltSegment.elements (h : d.BuiltSegment s) : ∃ definition,
    d.segment? s.id = some definition ∧
      ∀ number use, entry? definition.elements number = some use →
        ∃ e, s.element? number = some e ∧ use.Gives e := by
  obtain ⟨depth, h⟩ := h
  obtain ⟨-, ⟨definition, hfound, hall⟩, -⟩ := ok_of_expandSegment h
  refine ⟨definition, hfound, fun number use huse => ?_⟩
  cases number with
  | zero => cases huse
  | succ place =>
      obtain ⟨hplace, rfl⟩ := List.getElem?_eq_some_iff.1 huse
      have hplace' : place < s.elements.length := by rwa [← hall.length_eq]
      exact ⟨_, List.getElem?_eq_getElem hplace', hall.get hplace hplace'⟩

theorem BuiltSegment.body (h : d.BuiltSegment s) {i : Implementation Interchange.Segment}
    (hi : i ∈ s.implementations) : d.BuiltSegment i.body := by
  obtain ⟨depth, h⟩ := h
  obtain ⟨n, body, hbody⟩ := (ok_of_expandSegment h).2.2 i hi
  exact builtSegment_of_expandSegment hbody

/-- What a loop is put together from. -/
theorem ok_of_expandLoop (h : (d.expandLoop depth id).run = some (.ok l)) :
    l.id = id ∧ ∀ cs ∈ l.lists, ∀ c ∈ cs, ∃ n target,
      (d.expandTarget n target).run = some (.ok c.target) := by
  cases depth with
  | zero => cases h
  | succ depth =>
      rw [expandLoop] at h
      obtain ⟨definition, hnamed, h⟩ := ok_of_bind h
      have hfound : d.loop? id = some definition := by
        cases hloop : d.loop? id <;> rw [hloop] at hnamed <;> cases hnamed
        rfl
      obtain ⟨children, hchildren, h⟩ := ok_of_bind h
      obtain ⟨implementations, himplementations, h⟩ := ok_of_bind h
      cases h
      have hid : definition.id = id := id_of_find? hfound
      have hchild {x : Child} {c : Interchange.Child}
          (hx : (x.assemble (d.expandTarget depth)).run = some (.ok c)) :
          ∃ n target, (d.expandTarget n target).run = some (.ok c.target) := by
        obtain ⟨target, htarget, hx⟩ := ok_of_bind hx
        obtain ⟨bounds, -, hx⟩ := ok_of_bind hx
        cases hx
        exact ⟨depth, x.target, htarget⟩
      refine ⟨hid, List.forall_mem_cons.2 ⟨fun c hc => ?_, fun cs hcs c hc => ?_⟩⟩
      · obtain ⟨x, -, hx⟩ := source_of_mapM hchildren c hc
        exact hchild hx
      · obtain ⟨i, hi, rfl⟩ := List.mem_map.1 hcs
        obtain ⟨implementation, -, hx⟩ := source_of_mapM himplementations i hi
        obtain ⟨body, hbody, hx⟩ := ok_of_bind hx
        obtain ⟨discriminator, -, hx⟩ := ok_of_bind hx
        cases hx
        obtain ⟨x, -, hx⟩ := source_of_mapM hbody c hc
        exact hchild hx

theorem built_of_expandLoop (h : (d.expandLoop depth id).run = some (.ok l)) : d.Built l := by
  obtain ⟨hid, -⟩ := ok_of_expandLoop h
  exact ⟨depth, by rwa [hid]⟩

theorem builtTarget_of_expandTarget (h : (d.expandTarget depth id).run = some (.ok target)) :
    d.BuiltTarget target := by
  cases hloop : d.loop? id with
  | none =>
      rw [expandTarget_of_segment hloop] at h
      obtain ⟨segment, hsegment, rfl⟩ := ok_of_map h
      exact builtSegment_of_expandSegment hsegment
  | some definition =>
      rw [expandTarget_of_loop hloop] at h
      obtain ⟨tree, htree, rfl⟩ := ok_of_map h
      exact built_of_expandLoop htree

theorem Built.inside (h : d.Built l) (hcs : cs ∈ l.lists) : ∀ c ∈ cs, d.BuiltTarget c.target := by
  intro c hc
  obtain ⟨depth, h⟩ := h
  obtain ⟨-, hchildren⟩ := ok_of_expandLoop h
  obtain ⟨n, id, htarget⟩ := hchildren cs hcs c hc
  exact builtTarget_of_expandTarget htarget

/-- Everything in the tree of a loop is what plain expansion gives. -/
theorem Built.holds (h : d.Built l) (hcs : l.Holds cs) : ∀ c ∈ cs, d.BuiltTarget c.target := by
  induction hcs with
  | own hcs => exact h.inside hcs
  | inside _ hc ht hcs' ih =>
      have hinner := ih _ hc
      rw [ht] at hinner
      exact Built.inside hinner hcs'

theorem built_of_resolve (h : d.resolve = .ok l) : d.Built l := by
  have hfault : d.idFault? = none := by
    unfold resolve at h
    split at h
    · cases h
    · assumption
  rcases resolve_cases (idFault?_eq_none.1 hfault) with ⟨⟨n, hn⟩, -⟩ | ⟨-, x, -, -, hcircular⟩
  · rw [h] at hn
    exact built_of_expandLoop hn
  · rw [h] at hcircular
    cases hcircular

/-- In the tree of a description loops with one id are one definition. -/
theorem sharesDefinitions_of_resolve (h : d.resolve = .ok l) : l.SharesDefinitions := by
  have hbuilt {inner : Interchange.Loop} (hinner : l.Contains inner) : d.Built inner := by
    rcases hinner with rfl | ⟨cs, c, hcs, hc, ht⟩
    · exact built_of_resolve h
    · have htarget := (built_of_resolve h).holds hcs c hc
      rwa [ht] at htarget
  exact fun inner inner' hinner hinner' hid => (hbuilt hinner).eq (hbuilt hinner') hid

/-! ### Schemas -/

/-- The tree of a schema is the one that its description stands for. -/
theorem resolve_of_toSchema {schema : Schema} (h : d.toSchema = .ok schema) :
    d.resolve = .ok schema.root := by
  unfold toSchema at h
  cases hresolve : d.resolve with
  | error err => rw [hresolve] at h; cases h
  | ok root =>
      rw [hresolve] at h
      rw [(of_bindChecked h).2]

/-- A schema that comes from a description is bound. -/
theorem toSchema_bound {schema : Schema} (h : d.toSchema = .ok schema) : schema.Bound := by
  unfold toSchema at h
  cases hresolve : d.resolve with
  | error err => rw [hresolve] at h; cases h
  | ok root =>
      rw [hresolve] at h
      exact .definitions (sharesDefinitions_of_resolve hresolve) h

end Description

/-- A schema that is described by a text is bound. -/
theorem ofText_bound {format : Format} {text : String} {schema : Schema}
    (h : ofText format text = .ok schema) : schema.Bound := by
  unfold ofText at h
  split at h
  · exact Description.toSchema_bound h
  · cases h

end Interchange.Schema
