import Interchange.Catalog

/-!
# What a catalog keeps

A catalog is asked to load a schema, to register or remove one, and to look in one more path. Here
these requests are operations on one catalog in place, which could leave something behind when they
fail.

`Performs` says what each of them answers and leaves, with no word about how files are searched or
how a registry is laid out: a schema that is registered is given without a look at the files, else
the first file that exists decides alone, and a request changes one entry at most. `perform_spec` is
this for one request; what the file gives is what its text describes (`Performs.describes`).
Everything about longer histories is read off it, above all that what has been loaded stays until it
is replaced: see `load_faithful`.
-/

namespace Interchange.Catalog

/-- What a catalog is asked. -/
inductive Request where
  /-- Give the schema with a name. -/
  | load (name : String)
  /-- Keep a schema under a name, in place of an earlier one. -/
  | register (name : String) (schema : Schema)
  /-- Forget the schema with a name, and give it once more. -/
  | remove (name : String)
  /-- Look in one more path, after the others. -/
  | addPath (path : String)

/-- An operation on a catalog. It keeps what it has written when it fails. -/
abbrev InPlace := ExceptT Schema.Error (StateM Catalog)

namespace InPlace

/-- The schema that the first file among some describes, if one of them exists. No file is looked at
after the first. -/
def search (files : Files) : (paths : List String) → InPlace (Option Schema)
  | [] => return none
  | path :: rest =>
      if files.exists? path then
        match loadFile files path with
        | .ok schema => return some schema
        | .error e => throw e
      else search files rest

def load (files : Files) (name : String) : InPlace Schema := do
  match (← get).registry.get? name with
  | some schema => return schema
  | none =>
      let paths := (← get).paths
      match ← search files (candidates paths name) with
      | some schema =>
          modify fun c => { c with registry := c.registry.register name schema }
          return schema
      | none => throw (.notFound name paths)

def register (name : String) (schema : Schema) : InPlace Unit :=
  modify fun c => { c with registry := c.registry.register name schema }

def remove (name : String) : InPlace (Option Schema) := do
  let schema := (← get).registry.get? name
  modify fun c => { c with registry := c.registry.erase name }
  return schema

def addPath (path : String) : InPlace Unit := modify fun c => c.addPath path

/-- Do what is asked. -/
def handle (files : Files) : Request → InPlace (Option Schema)
  | .load name => do return some (← load files name)
  | .register name schema => do
      register name schema
      return none
  | .remove name => remove name
  | .addPath path => do
      addPath path
      return none

end InPlace

/-- The answer to a request, and the catalog afterwards. -/
def perform (files : Files) (r : Request) (c : Catalog) :
    Except Schema.Error (Option Schema) × Catalog :=
  (InPlace.handle files r).run.run c

/-- The catalog after some requests. -/
def run (files : Files) (c : Catalog) (history : List Request) : Catalog :=
  history.foldl (fun c r => (perform files r c).2) c

variable {files : Files} {c c' : Catalog} {r : Request} {name : String} {s : Schema}
  {answer : Except Schema.Error (Option Schema)}

/-! ### Which file is chosen -/

/-- The endings of schema files, the most preferred first. -/
def endings : List String := [".json", ".yaml", ".yml"]

/-- The file for a name in a search path. -/
def fileOf (name path ending : String) : String :=
  Files.join path (Text.lowerCase name ++ ending)

/-- The file that decides about a name: it exists, and neither one in an earlier search path nor one
in the same path with an earlier ending does. -/
inductive Chosen (files : Files) (paths : List String) (name : String) : Option String → Prop
  | file {before after earlier later : List String} {path ending : String}
      (hpaths : paths = before ++ path :: after) (hendings : endings = earlier ++ ending :: later)
      (hexists : files.exists? (fileOf name path ending) = true)
      (hbefore : ∀ p ∈ before, ∀ e ∈ endings, files.exists? (fileOf name p e) = false)
      (hearlier : ∀ e ∈ earlier, files.exists? (fileOf name path e) = false) :
      Chosen files paths name (some (fileOf name path ending))
  | none (h : ∀ p ∈ paths, ∀ e ∈ endings, files.exists? (fileOf name p e) = false) :
      Chosen files paths name none

/-- A path in which no file exists makes no difference. -/
theorem Chosen.cons {paths : List String} {o : Option String} {path : String}
    (h : Chosen files paths name o)
    (hpath : ∀ e ∈ endings, files.exists? (fileOf name path e) = false) :
    Chosen files (path :: paths) name o := by
  cases h with
  | @file before after earlier later first ending hpaths hendings hexists hbefore hearlier =>
      have hpaths : path :: paths = (path :: before) ++ first :: after := by
        rw [hpaths, List.cons_append]
      refine .file hpaths hendings hexists ?_ hearlier
      intro p hp
      rcases List.mem_cons.1 hp with rfl | hp
      · exact hpath
      · exact hbefore p hp
  | none h =>
      refine .none fun p hp => ?_
      rcases List.mem_cons.1 hp with rfl | hp
      · exact hpath
      · exact h p hp

theorem candidates_eq (paths : List String) (name : String) :
    candidates paths name = paths.flatMap fun path => endings.map (fileOf name path) := rfl

/-- A name without accents is looked for with the letters from `A` to `Z` in lower case. -/
theorem candidates_of_ascii (h : ∀ c ∈ name.toList, c.toNat < 128) (paths : List String) :
    candidates paths name =
      paths.flatMap fun path => endings.map fun ending =>
        Files.join path (name.toLower ++ ending) := by
  rw [candidates, Text.lowerCase_of_ascii h]
  rfl

example : candidates ["s"] "X12" = ["s/x12.json", "s/x12.yaml", "s/x12.yml"] := by decide

/-- There is always exactly one choice, and searching finds it. -/
theorem chosen_iff {paths : List String} {o : Option String} :
    Chosen files paths name o ↔ (candidates paths name).find? files.exists? = o := by
  constructor
  · intro h
    cases h with
    | @file before after earlier later path ending hpaths hendings hexists hbefore hearlier =>
        have hnone : (before.flatMap fun p => endings.map (fileOf name p)).find?
            files.exists? = none := by
          simpa [List.find?_eq_none] using hbefore
        have hnone' : (earlier.map (fileOf name path)).find? files.exists? = none := by
          simpa [List.find?_eq_none] using hearlier
        rw [candidates_eq, hpaths, List.flatMap_append, List.flatMap_cons, List.find?_append, hnone,
          List.find?_append, hendings, List.map_append, List.map_cons, List.find?_append, hnone',
          List.find?_cons_of_pos hexists]
        rfl
    | none h => simpa [candidates_eq, List.find?_eq_none] using h
  · rintro rfl
    induction paths with
    | nil => exact .none (by simp)
    | cons path rest ih =>
        rw [candidates_eq, List.flatMap_cons, List.find?_append, ← candidates_eq]
        cases hfind : (endings.map (fileOf name path)).find? files.exists? with
        | some file =>
            obtain ⟨hexists, as, bs, hmap, hearlier⟩ := List.find?_eq_some_iff_append.1 hfind
            obtain ⟨earlier, rest', hendings, rfl, hrest⟩ := List.map_eq_append_iff.1 hmap
            obtain ⟨ending, later, rfl, rfl, -⟩ := List.map_eq_cons_iff.1 hrest
            have hpaths : path :: rest = [] ++ path :: rest := rfl
            exact .file hpaths hendings hexists nofun (by simpa using hearlier)
        | none =>
            have hpath : ∀ e ∈ endings, files.exists? (fileOf name path e) = false := by
              simpa [List.find?_eq_none] using hfind
            exact ih.cons hpath

/-- What a file describes is what its text says in the notation that its name ends in. -/
theorem loadFile_eq_ok {path : String} :
    loadFile files path = .ok s ↔
      ∃ text, files.read? path = some text ∧ Schema.ofText (formatOf path) text = .ok s := by
  unfold loadFile
  cases files.read? path with
  | some text => simp
  | none => simp

/-! ### What a request does -/

/-- Only what is kept under a name differs. -/
structure Sets (c : Catalog) (name : String) (o : Option Schema) (c' : Catalog) : Prop where
  entry : c'.registry.get? name = o
  others : ∀ other, other ≠ name → c'.registry.get? other = c.registry.get? other
  paths : c'.paths = c.paths

/-- What is answered to a request, and the catalog that is left. -/
inductive Performs (files : Files) (c : Catalog) :
    Request → Except Schema.Error (Option Schema) → Catalog → Prop
  /-- The schema is registered. -/
  | hit {name : String} {s : Schema} (h : c.registry.get? name = some s) :
      Performs files c (.load name) (.ok (some s)) c
  /-- The schema is read from the file that is chosen, and is registered from now on. -/
  | loaded {name path : String} {s : Schema} {c' : Catalog} (h : c.registry.get? name = none)
      (hchosen : Chosen files c.paths name (some path)) (hs : loadFile files path = .ok s)
      (hsets : c.Sets name (some s) c') : Performs files c (.load name) (.ok (some s)) c'
  /-- The file that is chosen gives no schema. -/
  | failed {name path : String} {e : Schema.Error} (h : c.registry.get? name = none)
      (hchosen : Chosen files c.paths name (some path)) (he : loadFile files path = .error e) :
      Performs files c (.load name) (.error e) c
  /-- There is no file. -/
  | missing {name : String} (h : c.registry.get? name = none)
      (hchosen : Chosen files c.paths name none) :
      Performs files c (.load name) (.error (.notFound name c.paths)) c
  | registered {name : String} {s : Schema} {c' : Catalog} (hsets : c.Sets name (some s) c') :
      Performs files c (.register name s) (.ok none) c'
  | removed {name : String} {c' : Catalog} (hsets : c.Sets name none c') :
      Performs files c (.remove name) (.ok (c.registry.get? name)) c'
  | added {path : String} {c' : Catalog} (h : c'.registry = c.registry)
      (hpaths : c'.paths = c.paths ++ [path]) : Performs files c (.addPath path) (.ok none) c'

namespace InPlace

/-- Searching leaves the catalog as it is. -/
theorem run_search (paths : List String) (c : Catalog) :
    (search files paths).run.run c = (match paths.find? files.exists? with
      | some path => (loadFile files path).map some
      | none => .ok none, c) := by
  induction paths with
  | nil => rfl
  | cons path rest ih =>
      rw [search, List.find?_cons]
      cases files.exists? path with
      | false => exact ih
      | true =>
          simp only [if_true]
          cases loadFile files path <;> rfl

/-- Loading in place is loading. -/
theorem run_load (name : String) (c : Catalog) :
    (load files name).run.run c = match c.load files name with
      | .ok (s, c') => (.ok s, c')
      | .error e => (.error e, c) := by
  have hget (f : Catalog → InPlace Schema) : (get >>= f).run.run c = (f c).run.run c := rfl
  unfold load Catalog.load find
  rw [hget]
  cases hentry : c.registry.get? name with
  | some s => rfl
  | none =>
      simp only
      rw [hget, ExceptT.run_bind, StateT.run_bind, run_search]
      cases (candidates c.paths name).find? files.exists? with
      | none => rfl
      | some path =>
          simp only
          cases loadFile files path <;> rfl

end InPlace

theorem sets_register (c : Catalog) (name : String) (s : Schema) :
    c.Sets name (some s) { c with registry := c.registry.register name s } where
  entry := c.registry.get?_register_self name s
  others _ h := c.registry.get?_register_of_ne s h
  paths := rfl

theorem sets_erase (c : Catalog) (name : String) :
    c.Sets name none { c with registry := c.registry.erase name } where
  entry := c.registry.get?_erase_self name
  others _ h := c.registry.get?_erase_of_ne h
  paths := rfl

theorem perform_load (files : Files) (c : Catalog) (name : String) :
    perform files (.load name) c = match c.load files name with
      | .ok (s, c') => (.ok (some s), c')
      | .error e => (.error e, c) := by
  change (InPlace.load files name >>= fun s => pure (some s)).run.run c = _
  rw [ExceptT.run_bind, StateT.run_bind, InPlace.run_load]
  cases c.load files name <;> rfl

/-- What a request does. -/
theorem perform_spec (files : Files) (c : Catalog) (r : Request) :
    Performs files c r (perform files r c).1 (perform files r c).2 := by
  cases r with
  | load name =>
      rw [perform_load, load, find]
      cases hentry : c.registry.get? name with
      | some s => exact .hit hentry
      | none =>
          cases hfind : (candidates c.paths name).find? files.exists? with
          | none => exact .missing hentry (chosen_iff.2 hfind)
          | some path =>
              have hchosen := chosen_iff.2 hfind
              simp only
              cases hs : loadFile files path with
              | ok s => exact .loaded hentry hchosen hs (c.sets_register name s)
              | error e => exact .failed hentry hchosen hs
  | register name s => exact .registered (c.sets_register name s)
  | remove name => exact .removed (c.sets_erase name)
  | addPath path => exact .added rfl rfl

/-- A schema that was not registered is the one that the text of the chosen file describes. -/
theorem Performs.describes (h : Performs files c (.load name) (.ok (some s)) c')
    (hnone : c.registry.get? name = none) :
    ∃ path text, Chosen files c.paths name (some path) ∧ files.read? path = some text ∧
      Schema.ofText (formatOf path) text = .ok s := by
  cases h with
  | hit hsome =>
      rw [hnone] at hsome
      cases hsome
  | @loaded _ path _ _ _ hchosen hs _ =>
      obtain ⟨text, hread, htext⟩ := loadFile_eq_ok.1 hs
      exact ⟨path, text, hchosen, hread, htext⟩

/-- The schema of a name with capitals is read from a file in lower case, and is kept under the
name as it was given. -/
example :
    let files : Files :=
      { contents := [("s/x12.yaml", "name: A\nroot: R\nloops:\n- id: R\n  children: []\n")]
        directories := ["s"] }
    let kept := (perform files (.load "X12") { paths := ["s"] }).2.registry
    kept.entries.map (fun (name, schema) => (name, schema.name)) = [("X12", "A")] := by
  decide +kernel

/-! ### Histories -/

/-- The name whose entry a request replaces or removes. -/
def Request.replaced? : Request → Option String
  | .register name _ | .remove name => some name
  | .load _ | .addPath _ => none

/-- The path that is looked in from now on. -/
def Request.path? : Request → Option String
  | .addPath path => some path
  | .load _ | .register _ _ | .remove _ => none

/-- A request that fails leaves everything as it was. -/
theorem Performs.of_error {e : Schema.Error} (h : Performs files c r (.error e) c') : c' = c := by
  cases h with
  | failed | missing => rfl

/-- A schema stays until it is replaced. -/
theorem Performs.keeps (h : Performs files c r answer c') (hr : r.replaced? ≠ some name)
    (hs : c.registry.get? name = some s) : c'.registry.get? name = some s := by
  cases h with
  | hit | failed | missing => exact hs
  | @loaded loaded _ _ _ hnone _ _ hsets =>
      -- Nothing was registered under the name that is loaded, so it is another one.
      have hne : name ≠ loaded := by
        rintro rfl
        rw [hs] at hnone
        cases hnone
      rw [hsets.others name hne, hs]
  | @registered _ _ _ hsets | @removed _ _ hsets =>
      have hne : name ≠ _ := fun h => hr (congrArg some h.symm)
      rw [hsets.others name hne, hs]
  | added h => rw [h, hs]

theorem Performs.paths_eq (h : Performs files c r answer c') :
    c'.paths = c.paths ++ r.path?.toList := by
  cases h with
  | hit | failed | missing => simp [Request.path?]
  | loaded _ _ _ hsets | registered hsets | removed hsets => simp [Request.path?, hsets.paths]
  | added _ hpaths => exact hpaths

theorem run_cons (files : Files) (c : Catalog) (r : Request) (rest : List Request) :
    c.run files (r :: rest) = (perform files r c).2.run files rest := rfl

theorem run_keeps {history : List Request} (h : ∀ r ∈ history, r.replaced? ≠ some name)
    (hs : c.registry.get? name = some s) : (c.run files history).registry.get? name = some s := by
  induction history generalizing c with
  | nil => exact hs
  | cons r rest ih =>
      have hr := h r List.mem_cons_self
      rw [run_cons]
      exact ih (fun r' h' => h r' (List.mem_cons_of_mem r h'))
        ((perform_spec files c r).keeps hr hs)

/-- The search paths are the first ones and then those that were added, in order. -/
theorem run_paths (files : Files) (c : Catalog) (history : List Request) :
    (c.run files history).paths = c.paths ++ history.filterMap Request.path? := by
  induction history generalizing c with
  | nil => simp [run]
  | cons r rest ih =>
      rw [run_cons, ih, (perform_spec files c r).paths_eq, List.append_assoc]
      cases r <;> simp [Request.path?, List.filterMap_cons]

/-- What is registered is given, whatever the files. -/
theorem perform_load_of_registered (files : Files) (hs : c.registry.get? name = some s) :
    perform files (.load name) c = (.ok (some s), c) := by
  rw [perform_load, load, hs]

/-- What a load gives is registered. -/
theorem Performs.registers (h : Performs files c (.load name) (.ok (some s)) c') :
    c'.registry.get? name = some s := by
  cases h with
  | hit h => exact h
  | loaded _ _ _ hsets => exact hsets.entry

/-- A catalog is a faithful store. After any history a request does what `Performs` says, which for
a load is what `load` gives, and one that fails changes nothing. What is registered is given
whatever the files, and what has been loaded is given by every later load until it is replaced or
removed. -/
theorem load_faithful (files : Files) (c : Catalog) (history : List Request) :
    let c' := c.run files history
    c'.paths = c.paths ++ history.filterMap Request.path? ∧
    (∀ r, Performs files c' r (perform files r c').1 (perform files r c').2) ∧
    (∀ name, perform files (.load name) c' = match c'.load files name with
      | .ok (s, c'') => (.ok (some s), c'')
      | .error e => (.error e, c')) ∧
    (∀ r e, (perform files r c').1 = .error e → (perform files r c').2 = c') ∧
    (∀ name s, c'.registry.get? name = some s →
      ∀ others, perform others (.load name) c' = (.ok (some s), c')) ∧
    ∀ name s, (perform files (.load name) c').1 = .ok (some s) →
      ∀ later, (∀ r ∈ later, r.replaced? ≠ some name) →
        (perform files (.load name) (c'.run files (.load name :: later))).1 = .ok (some s) := by
  intro c'
  refine ⟨run_paths files c history, perform_spec files c', perform_load files c', ?_, ?_, ?_⟩
  · intro r e he
    have hspec := perform_spec files c' r
    rw [he] at hspec
    exact hspec.of_error
  · intro name s hs others
    exact perform_load_of_registered others hs
  · intro name s hanswer later hlater
    have hspec := perform_spec files c' (.load name)
    rw [hanswer] at hspec
    rw [run_cons, perform_load_of_registered files (run_keeps hlater hspec.registers)]

/-- A schema is kept under its name as it was given, so that upper and lower case differ. -/
example (s : Schema) :
    (perform {} (.load "x12") (run {} { paths := [] } [.register "X12" s])).1 =
      .error (.notFound "x12" []) := rfl

end Interchange.Catalog
