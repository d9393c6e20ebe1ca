/-
A run of the command is all or nothing.

A run looks at files and then writes one.  On files that behave as files do
(`FileSystem`: looking changes nothing, nor does a write that fails, and a write that succeeds
changes one place), a run that fails leaves everything as it was, and a run that succeeds
changes the place of its output only, to the drawing of what the input was before.  The
same file may be read and written; the drawing is complete by then.

The failure that a run ends with is the first one in the order settings, input, reading,
drawing, output (`Stage`), where each stage is judged on the files as they were before the
run.
-/

import LadderLogic.Proofs.StrictAndLenient

namespace LadderLogic.Command

/-! ## Files that behave -/

/-- Files that are kept in a state, as a map from locations to contents. -/
structure FileSystem (σ : Type) where
  access : FileAccess (StateM σ)
  /-- Where files can be. -/
  Location : Type
  /-- The location that a path leads to. -/
  location? : σ → String → Option Location
  content? : σ → Location → Option ByteArray
  isPresent_state : ∀ path s, ((access.isPresent path).run s).2 = s
  read_state : ∀ path s, ((access.read path).run s).2 = s
  read_ok : ∀ path s bytes, ((access.read path).run s).1 = .ok bytes →
    ∃ l, location? s path = some l ∧ content? s l = some bytes
  write_error : ∀ path bytes s e, ((access.write path bytes).run s).1 = .error e →
    ((access.write path bytes).run s).2 = s
  write_ok : ∀ path bytes s, ((access.write path bytes).run s).1 = .ok () →
    ∃ l, location? s path = some l ∧
      content? ((access.write path bytes).run s).2 l = some bytes ∧
      ∀ other, other ≠ l →
        content? ((access.write path bytes).run s).2 other = content? s other

/-! ## Trees are such files -/

namespace FileTree

/-- The location that a path leads to in a tree. -/
def location? (tree : FileTree) (path : String) : Option Path :=
  match tree.locate path with
  | .ok (.file p _) => some p
  | .ok (.vacant p) => some p
  | _ => none

theorem followOutside_ne_file (names : List String) (p : Path) (bytes : ByteArray) :
    followOutside names ≠ .ok (.file p bytes) := by
  induction names with
  | nil => simp [followOutside]
  | cons name rest ih =>
    rw [followOutside]
    split
    · exact ih
    · split <;> simp

/-- Where names lead to a file, the tree has the file. -/
theorem content?_of_follow {tree : FileTree} {names : List String} {directory p : Path}
    {bytes : ByteArray} (h : tree.follow directory names = .ok (.file p bytes)) :
    tree.content? p = some bytes := by
  induction names generalizing directory with
  | nil => simp [follow] at h
  | cons name rest ih =>
    rw [follow] at h
    split at h
    · exact ih h
    · split at h
      · -- one directory up, or out of the tree
        split at h
        · exact absurd h (followOutside_ne_file rest p bytes)
        · exact ih h
      · split at h
        · cases h
        · -- a name: a directory to go into, or a file, which has to be the last name
          simp only at h
          split at h
          · exact ih h
          · split at h
            · next found hfound =>
              split at h
              · cases h
                exact hfound
              · cases h
            · split at h <;> cases h

theorem content?_of_locate {tree : FileTree} {path : String} {p : Path} {bytes : ByteArray}
    (h : tree.locate path = .ok (.file p bytes)) : tree.content? p = some bytes := by
  rw [locate] at h
  split at h
  · cases h
  · split at h
    · cases h
    · exact absurd h (followOutside_ne_file _ p bytes)
    · exact content?_of_follow h

theorem lookup_replace (files : List (Path × ByteArray)) (p q : Path) (bytes : ByteArray) :
    (files.map fun f => if f.1 == p then (p, bytes) else f).lookup q =
      if q = p then (files.lookup q).map fun _ => bytes else files.lookup q := by
  induction files with
  | nil => simp
  | cons f rest ih =>
    obtain ⟨name, old⟩ := f
    simp only [List.map_cons, List.lookup_cons]
    by_cases hname : name = p <;> by_cases hq : q = name <;> grind

/-- Putting a file in its place changes nothing else. -/
theorem content?_put (tree : FileTree) (p q : Path) (bytes : ByteArray) :
    (tree.put p bytes).content? q = if q = p then some bytes else tree.content? q := by
  rw [content?, put, content?]
  -- a file that is there is replaced, any other is added
  split
  · next hsome =>
    rw [lookup_replace]
    obtain ⟨old, hold⟩ := Option.isSome_iff_exists.1 hsome
    split
    · next hq => rw [hq, hold]; rfl
    · rfl
  · next hnone =>
    have hvacant : tree.files.lookup p = none := Option.not_isSome_iff_eq_none.1 hnone
    rw [List.lookup_append, List.lookup_cons, List.lookup_nil]
    by_cases hq : q = p
    · rw [hq, hvacant, if_pos rfl, beq_self_eq_true]
      rfl
    · rw [if_neg hq, beq_eq_false_iff_ne.2 hq, Option.or_none]
      rfl

/-- A write that succeeds puts a file where its path leads. -/
theorem write_eq_ok {tree tree' : FileTree} {path : String} {bytes : ByteArray}
    (h : tree.write path bytes = .ok tree') :
    ∃ p, tree.location? path = some p ∧ tree' = tree.put p bytes := by
  rw [write] at h
  split at h
  · cases h
  · cases h
  · split at h <;> cases h
  · split at h
    · cases h
    · cases h
    · next p hp =>
      cases h
      exact ⟨p, by rw [location?, hp], rfl⟩
    · next p old hp =>
      cases h
      exact ⟨p, by rw [location?, hp], rfl⟩

theorem read_eq_ok {tree : FileTree} {path : String} {bytes : ByteArray}
    (h : tree.read path = .ok bytes) :
    ∃ p, tree.location? path = some p ∧ tree.content? p = some bytes := by
  rw [read] at h
  split at h
  · cases h
  · cases h
  · cases h
  · next p content hp =>
    cases h
    exact ⟨p, by rw [location?, hp], content?_of_locate hp⟩

theorem run_write (tree : FileTree) (path : String) (bytes : ByteArray) :
    (access.write path bytes).run tree =
      match tree.write path bytes with
      | .error e => (.error e, tree)
      | .ok tree' => (.ok (), tree') := by
  have hrun : (access.write path bytes).run tree =
      (match tree.write path bytes with
        | .error e => (pure (.error e) : StateM FileTree (Except FileError Unit))
        | .ok tree' => do set tree'; pure (.ok ())).run tree := rfl
  rw [hrun]
  cases tree.write path bytes with
  | error e => rfl
  | ok tree' => rfl

/-- A tree is a file system. -/
def system : FileSystem FileTree where
  access := access
  Location := Path
  location? := location?
  content? := content?
  isPresent_state _ _ := rfl
  read_state _ _ := rfl
  read_ok path tree bytes h := read_eq_ok h
  write_error path bytes tree e h := by
    rw [run_write] at h ⊢
    cases hwrite : tree.write path bytes with
    | error e => rfl
    | ok tree' => rw [hwrite] at h; cases h
  write_ok path bytes tree h := by
    rw [run_write] at h ⊢
    cases hwrite : tree.write path bytes with
    | error e => rw [hwrite] at h; cases h
    | ok tree' =>
      obtain ⟨p, hp, rfl⟩ := write_eq_ok hwrite
      refine ⟨p, hp, ?_, ?_⟩
      · exact (content?_put tree p p bytes).trans (if_pos rfl)
      · intro other hother
        exact (content?_put tree p other bytes).trans (if_neg hother)

end FileTree

/-! ## Looking changes nothing -/

section Looking

variable {σ α β : Type}

/-- A computation that leaves the state as it is. -/
def KeepsState (x : StateM σ α) : Prop := ∀ s, (x.run s).2 = s

theorem keepsState_pure (a : α) : KeepsState (pure a : StateM σ α) := fun _ => rfl

theorem KeepsState.bind {x : StateM σ α} {f : α → StateM σ β} (hx : KeepsState x)
    (hf : ∀ a, KeepsState (f a)) : KeepsState (x >>= f) := by
  intro s
  have hrun : (x >>= f).run s = (f (x.run s).1).run s := by
    rw [run_bind_of_run (Prod.ext rfl (hx s) : x.run s = ((x.run s).1, s))]
  rw [hrun]
  exact hf _ s

variable (fs : FileSystem σ)

theorem keepsState_readText (path : String) : KeepsState (readText fs.access path) := by
  refine KeepsState.bind (fs.read_state path) ?_
  intro result
  split
  · exact keepsState_pure _
  · split <;> exact keepsState_pure _

theorem keepsState_readSettings (path : String) : KeepsState (readSettings fs.access path) := by
  refine KeepsState.bind (fs.isPresent_state path) ?_
  intro present
  split
  · refine (keepsState_readText fs path).bind ?_
    intro result
    split <;> exact keepsState_pure _
  · exact keepsState_pure _

theorem keepsState_settingsPath (platform config : Option String) :
    KeepsState (settingsPath fs.access platform config) := by
  cases config with
  | some path => exact keepsState_pure _
  | none =>
    refine KeepsState.bind (fs.isPresent_state localSettings) ?_
    intro present
    split
    · exact keepsState_pure _
    · cases platform with
      | none => exact keepsState_pure _
      | some path => exact KeepsState.bind (fs.isPresent_state path) fun _ => keepsState_pure _

theorem keepsState_loadSettings (platform config : Option String) :
    KeepsState (loadSettings fs.access platform config) := by
  refine (keepsState_settingsPath fs platform config).bind ?_
  intro path
  split
  · exact keepsState_pure _
  · exact keepsState_readSettings fs _

end Looking

/-! ## The stages of a run -/

/-- What can fail in a run, in the order in which it is done. -/
inductive Stage where
  | settings
  | input
  /-- Reading the input; only a strict run minds. -/
  | reading
  | drawing
  | output
deriving DecidableEq

/-- The order of the stages. -/
def Stage.order : List Stage := [settings, input, reading, drawing, output]

/-- What went wrong, if something did. -/
def faultOf {ε α : Type} : Except ε α → Option ε
  | .error e => some e
  | .ok _ => none

namespace FileSystem

variable {σ : Type} (fs : FileSystem σ) (platform : Option String) (args : Arguments) (s : σ)

/-- The settings that the files hold. -/
def settings : Except FileError (Settings Float32) :=
  ((loadSettings fs.access platform args.config).run s).1

/-- The text of the input. -/
def source : Except FileError String := ((readText fs.access args.input).run s).1

/-- The drawing of the input, where there are settings and an input. -/
def drawing? : Option (Except Failure String) := do
  let settings ← (fs.settings platform args s).toOption
  let source ← (fs.source args s).toOption
  return render settings args.format source

/-- What fails in a stage of a run, on the files as they are. -/
def fault? : Stage → Option Failure
  | .settings => (faultOf (fs.settings platform args s)).map .file
  | .input => (faultOf (fs.source args s)).map .file
  | .reading =>
    if args.strict then (fs.source args s).toOption.bind fun text => faultOf (Reading.strict text)
    else none
  | .drawing => (fs.drawing? platform args s).bind faultOf
  | .output => do
    let drawing ← (← fs.drawing? platform args s).toOption
    (faultOf ((fs.access.write args.output drawing.toUTF8).run s).1).map .file

/-- What a run that succeeds has done: it has drawn the input as it was, with the settings as
they were, and put the drawing where the output belongs. -/
structure Delivers (finished : Finished) (s' : σ) : Prop where
  drawn : ∃ settings, fs.settings platform args s = .ok settings ∧
    render settings args.format finished.source = .ok finished.drawing
  input : ∃ l bytes, fs.location? s args.input = some l ∧ fs.content? s l = some bytes ∧
    String.fromUTF8? bytes = some finished.source
  output : ∃ l, fs.location? s args.output = some l ∧
    fs.content? s' l = some finished.drawing.toUTF8 ∧
    ∀ other, other ≠ l → fs.content? s' other = fs.content? s other

/-- A run on files that behave, in one equation. -/
theorem run_eq : (run fs.access platform args).run s =
    match fs.settings platform args s with
    | .error e => (.error (.file e), s)
    | .ok settings =>
      match fs.source args s with
      | .error e => (.error (.file e), s)
      | .ok source =>
        match draw args settings source with
        | .error e => (.error e, s)
        | .ok drawing => finish fs.access args source drawing s := by
  -- loading and reading only look, so that each stage begins with the files as they were
  have hload : (loadSettings fs.access platform args.config).run s =
      (fs.settings platform args s, s) :=
    Prod.ext rfl (keepsState_loadSettings fs platform args.config s)
  have hread : (readText fs.access args.input).run s = (fs.source args s, s) :=
    Prod.ext rfl (keepsState_readText fs args.input s)
  rw [Command.run_eq, prepare, hload]
  cases fs.settings platform args s with
  | error e => rfl
  | ok settings =>
    simp only [hread]
    cases fs.source args s with
    | error e => rfl
    | ok source => rfl

/-- A source is drawn unless it cannot be read and the run is strict, or it has a drawing
that fails. -/
theorem draw_eq (settings : Settings Float32) (source : String) :
    draw args settings source =
      match if args.strict then faultOf (Reading.strict source) else none with
      | some e => .error e
      | none => render settings args.format source := by
  rw [draw]
  split
  · cases hread : Reading.ofSource source with
    | error e =>
      have hstrict : Reading.strict source = .error (.reading e source) := by
        rw [Reading.strict, hread]
      rw [renderStrict_of_error settings args.format hread, hstrict]
      rfl
    | ok reading =>
      rw [renderStrict_of_ok settings args.format hread, strict_eq_ok_iff.2 hread]
      rfl
  · rfl

/-- The first fault of a run, as the run comes upon it. -/
theorem firstFault_eq : Stage.order.findSome? (fs.fault? platform args s) =
    match fs.settings platform args s with
    | .error e => some (.file e)
    | .ok settings =>
      match fs.source args s with
      | .error e => some (.file e)
      | .ok source =>
        match draw args settings source with
        | .error e => some e
        | .ok drawing =>
          (faultOf ((fs.access.write args.output drawing.toUTF8).run s).1).map .file := by
  cases hsettings : fs.settings platform args s with
  | error e => simp [Stage.order, fault?, hsettings, faultOf]
  | ok settings =>
    cases hsource : fs.source args s with
    | error e => simp [Stage.order, fault?, hsettings, hsource, faultOf]
    | ok source =>
      have hdrawing : fs.drawing? platform args s = some (render settings args.format source) := by
        rw [drawing?, hsettings, hsource]
        rfl
      have hreading : fs.fault? platform args s .reading =
          if args.strict then faultOf (Reading.strict source) else none := by
        rw [fault?, hsource]
        rfl
      dsimp only
      rw [draw_eq, ← hreading]
      -- settings and input are there, so that the search goes on with the reading
      have hsearch : Stage.order.findSome? (fs.fault? platform args s) =
          [Stage.reading, .drawing, .output].findSome? (fs.fault? platform args s) := by
        simp [Stage.order, fault?, hsettings, hsource, faultOf]
      rw [hsearch, List.findSome?_cons]
      cases fs.fault? platform args s .reading with
      | some e => rfl
      | none =>
        simp only [List.findSome?_cons, fault?, hdrawing]
        cases render settings args.format source with
        | error e => rfl
        | ok drawing =>
          simp only [faultOf, Except.toOption, Option.bind_some, Option.bind_eq_bind]
          cases ((fs.access.write args.output drawing.toUTF8).run s).1 with
          | error e => rfl
          | ok _ => rfl

/-- The text of the input is what the location of its path holds. -/
theorem content?_of_source {text : String} (h : fs.source args s = .ok text) :
    ∃ l bytes, fs.location? s args.input = some l ∧ fs.content? s l = some bytes ∧
      String.fromUTF8? bytes = some text := by
  have hrun : (fs.access.read args.input).run s = (((fs.access.read args.input).run s).1, s) :=
    Prod.ext rfl (fs.read_state args.input s)
  rw [source, readText, run_bind_of_run hrun] at h
  cases hbytes : ((fs.access.read args.input).run s).1 with
  | error e =>
    rw [hbytes] at h
    cases h
  | ok bytes =>
    obtain ⟨l, hlocation, hcontent⟩ := fs.read_ok args.input s bytes hbytes
    rw [hbytes] at h
    cases htext : String.fromUTF8? bytes with
    | none =>
      simp only [htext] at h
      cases h
    | some found =>
      simp only [htext] at h
      cases h
      exact ⟨l, bytes, hlocation, hcontent, htext⟩

/-- A drawing that is delivered is the lenient one: a strict run only refuses more. -/
theorem render_of_draw {settings : Settings Float32} {text drawing : String}
    (h : draw args settings text = .ok drawing) :
    render settings args.format text = .ok drawing := by
  rw [draw_eq] at h
  split at h
  · cases h
  · exact h

/-- A run ends in one of two ways. -/
theorem run_outcome :
    (∃ e, (run fs.access platform args).run s = (.error e, s) ∧
      Stage.order.findSome? (fs.fault? platform args s) = some e) ∨
    ∃ finished s', (run fs.access platform args).run s = (.ok finished, s') ∧
      Stage.order.findSome? (fs.fault? platform args s) = none ∧
      fs.Delivers platform args s finished s' := by
  rw [fs.run_eq, fs.firstFault_eq]
  cases hsettings : fs.settings platform args s with
  | error e => exact Or.inl ⟨_, rfl, rfl⟩
  | ok settings =>
    cases hsource : fs.source args s with
    | error e => exact Or.inl ⟨_, rfl, rfl⟩
    | ok text =>
      dsimp only
      cases hdraw : draw args settings text with
      | error e => exact Or.inl ⟨e, rfl, rfl⟩
      | ok drawing =>
        dsimp only [finish]
        cases hwrite : (fs.access.write args.output drawing.toUTF8).run s with
        | mk written s₁ =>
          cases written with
          | error e =>
            -- the write failed, and so changed nothing
            have hkept := fs.write_error args.output drawing.toUTF8 s e (by rw [hwrite])
            rw [hwrite] at hkept
            subst hkept
            exact Or.inl ⟨_, rfl, rfl⟩
          | ok _ =>
            have houtput := fs.write_ok args.output drawing.toUTF8 s (by rw [hwrite])
            rw [hwrite] at houtput
            refine Or.inr ⟨⟨text, drawing⟩, s₁, rfl, rfl, ?_⟩
            exact {
              drawn := ⟨settings, hsettings, render_of_draw args hdraw⟩
              input := fs.content?_of_source args s hsource
              output := houtput }

end FileSystem

/-- **A run is all or nothing.**  A run that fails leaves the files as they were, and fails
with the first fault in the order of the stages.  A run that succeeds comes upon no fault, and
changes one location, that of the output, to the drawing of the input as it was. -/
theorem run_all_or_nothing {σ : Type} (fs : FileSystem σ) (platform : Option String)
    (args : Arguments) (s : σ) :
    (∀ e s', (run fs.access platform args).run s = (.error e, s') →
      s' = s ∧ Stage.order.findSome? (fs.fault? platform args s) = some e) ∧
    ∀ finished s', (run fs.access platform args).run s = (.ok finished, s') →
      Stage.order.findSome? (fs.fault? platform args s) = none ∧
        fs.Delivers platform args s finished s' := by
  rcases fs.run_outcome platform args s with ⟨e, hrun, hfirst⟩ | ⟨finished, s₁, hrun, hfirst, hdone⟩
  · rw [hrun]
    constructor
    · rintro _ _ ⟨⟩
      exact ⟨rfl, hfirst⟩
    · rintro _ _ ⟨⟩
  · rw [hrun]
    constructor
    · rintro _ _ ⟨⟩
    · rintro _ _ ⟨⟩
      exact ⟨hfirst, hdone⟩

/-- A tree with nothing but an input. -/
def inputOnly : FileTree := ⟨[(["in.xml"], "".toUTF8)]⟩

/-- Draws the input over itself. -/
def overwriting : Arguments := ⟨"in.xml", "./in.xml", .json, none, true, "info"⟩

/-- Draws into a directory that is not there. -/
def astray : Arguments := ⟨"in.xml", "pages/out.json", .json, none, true, "info"⟩

theorem run_all_or_nothing_inputOnly :
    (∃ finished tree, (run FileTree.system.access none overwriting).run inputOnly =
        (.ok finished, tree) ∧
      FileTree.system.Delivers none overwriting inputOnly finished tree ∧
      tree.content? ["in.xml"] = some finished.drawing.toUTF8) ∧
    ∃ e, (run FileTree.system.access none astray).run inputOnly = (.error e, inputOnly) ∧
      Stage.order.findSome? (FileTree.system.fault? none astray inputOnly) = some e := by
  have hsucceeds : ((run FileTree.system.access none overwriting).run inputOnly).1.toOption.isSome =
      true := by decide +kernel
  have hfails : ((run FileTree.system.access none astray).run inputOnly).1.toOption.isSome =
      false := by decide +kernel
  have hlocation : inputOnly.location? "./in.xml" = some ["in.xml"] := by decide +kernel
  refine ⟨?_, ?_⟩
  · cases hrun : (run FileTree.system.access none overwriting).run inputOnly with
    | mk result tree =>
      rw [hrun] at hsucceeds
      cases result with
      | error e => cases hsucceeds
      | ok finished =>
        have hdone := ((run_all_or_nothing FileTree.system none overwriting inputOnly).2 _ _ hrun).2
        obtain ⟨l, hl, hcontent, -⟩ := hdone.output
        cases hlocation.symm.trans hl
        exact ⟨finished, tree, rfl, hdone, hcontent⟩
  · cases hrun : (run FileTree.system.access none astray).run inputOnly with
    | mk result tree =>
      rw [hrun] at hfails
      cases result with
      | ok finished => cases hfails
      | error e =>
        obtain ⟨hkept, hfirst⟩ :=
          (run_all_or_nothing FileTree.system none astray inputOnly).1 _ _ hrun
        exact ⟨e, by rw [hkept], hfirst⟩

end LadderLogic.Command
