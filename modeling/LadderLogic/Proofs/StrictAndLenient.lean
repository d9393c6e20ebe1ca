/-
The strict and the lenient way to a drawing agree.

A source that can be read is drawn the same way by both, step by step; one that cannot
fails in the strict way and is drawn like the empty source in the lenient one.  A run of the
command does the same with files before it draws, whichever way it draws
(`run_eq`), so that the two runs differ only if the reading fails: then the strict run ends
there (`run_strict_or`).  Nothing is asked of the files; they may be any state with any three
operations on it.
-/

import LadderLogic.Command.Run

namespace LadderLogic

/-! ## Drawings -/

section Drawings

variable (settings : Settings Float32) (format : OutputFormat) {source : String}

/-- The way from elements to a drawing, one step after another: rungs, layout, text. -/
def drawStepwise (elements : ElementMap) : Except Failure String :=
  let rungs := elements.rungs
  let diagram := Diagram.ofRungs settings.layout rungs
  match format with
  | .svg => (diagram.svg settings.style settings.layout.symbolWidth).mapError Failure.exporting
  | .json => .ok diagram.json

theorem render_eq_drawStepwise (elements : ElementMap) :
    elements.render settings format = drawStepwise settings format elements := by
  cases format with
  | json => rfl
  | svg =>
    have hwrite : (elements.diagram settings).write settings .svg =
        (elements.diagram settings).svg settings.style settings.layout.symbolWidth := rfl
    have hstep : drawStepwise settings .svg elements =
        ((elements.diagram settings).svg settings.style settings.layout.symbolWidth).mapError
          Failure.exporting := rfl
    rw [ElementMap.render, hwrite, hstep]
    cases (elements.diagram settings).svg settings.style settings.layout.symbolWidth with
    | error e => rfl
    | ok text => rfl

theorem elementsOf_of_ok {reading : Reading} (h : Reading.ofSource source = .ok reading) :
    Reading.elementsOf source = reading.elements := by
  rw [Reading.elementsOf, h]

theorem elementsOf_of_error {e : ReadError} (h : Reading.ofSource source = .error e) :
    Reading.elementsOf source = .empty := by
  rw [Reading.elementsOf, h]

theorem strict_eq_ok_iff {reading : Reading} :
    Reading.strict source = .ok reading ↔ Reading.ofSource source = .ok reading := by
  rw [Reading.strict]
  cases Reading.ofSource source with
  | error e => simp
  | ok reading' => simp

/-- A source that cannot be read is drawn like one with nothing in it. -/
theorem render_of_error {e : ReadError} (h : Reading.ofSource source = .error e) :
    render settings format source = render settings format "" := by
  have hempty : Reading.ofSource "" = .ok .empty := rfl
  have helements : Reading.elementsOf source = Reading.elementsOf "" := by
    rw [elementsOf_of_error h, elementsOf_of_ok hempty]
    rfl
  rw [render, render, helements]

theorem renderStrict_of_ok {reading : Reading} (h : Reading.ofSource source = .ok reading) :
    renderStrict settings format source = render settings format source := by
  rw [renderStrict, strict_eq_ok_iff.2 h, render, elementsOf_of_ok h]

theorem renderStrict_of_error {e : ReadError} (h : Reading.ofSource source = .error e) :
    renderStrict settings format source = .error (.reading e source) := by
  rw [renderStrict, Reading.strict, h]

end Drawings

/-! ## Runs -/

namespace Command

variable {σ : Type} (files : FileAccess (StateM σ)) (platform : Option String) (args : Arguments)

/-- The arguments with the way to draw exchanged. -/
def Arguments.withStrict (args : Arguments) (strict : Bool) : Arguments :=
  { args with strict := strict }

theorem draw_strict_or (settings : Settings Float32) (source : String) :
    draw (args.withStrict true) settings source = draw (args.withStrict false) settings source ∨
      ∃ e, Reading.ofSource source = .error e ∧
        draw (args.withStrict true) settings source = .error (.reading e source) := by
  have hstrict : draw (args.withStrict true) settings source =
      renderStrict settings args.format source := rfl
  have hlenient : draw (args.withStrict false) settings source =
      render settings args.format source := rfl
  rw [hstrict, hlenient]
  cases h : Reading.ofSource source with
  | ok reading => exact Or.inl (renderStrict_of_ok settings args.format h)
  | error e => exact Or.inr ⟨e, rfl, renderStrict_of_error settings args.format h⟩

/-- What a run does before it draws: it loads the settings and reads the input. -/
def prepare (s : σ) : Except Failure (Settings Float32 × String) × σ :=
  match (loadSettings files platform args.config).run s with
  | (.error e, s₁) => (.error (.file e), s₁)
  | (.ok settings, s₁) =>
    match (readText files args.input).run s₁ with
    | (.error e, s₂) => (.error (.file e), s₂)
    | (.ok source, s₂) => (.ok (settings, source), s₂)

/-- What a run does with a drawing: it writes it. -/
def finish (source drawing : String) (s : σ) : Except Failure Finished × σ :=
  match (files.write args.output drawing.toUTF8).run s with
  | (.error e, s₁) => (.error (.file e), s₁)
  | (.ok (), s₁) => (.ok ⟨source, drawing⟩, s₁)

theorem run_bind_of_run {α β : Type} {x : StateM σ α} {f : α → StateM σ β} {s s' : σ} {a : α}
    (h : x.run s = (a, s')) : (x >>= f).run s = (f a).run s' := by
  rw [StateT.run_bind, h]
  rfl

variable {files} in
/-- The bytes of a text are read as the text. -/
theorem run_readText {path text : String} {s s' : σ}
    (h : (files.read path).run s = (.ok text.toUTF8, s')) :
    (readText files path).run s = (.ok text, s') := by
  have hvalid : text.toUTF8.IsValidUTF8 := text.isValidUTF8
  have htext : String.fromUTF8? text.toUTF8 = some text := dif_pos hvalid
  rw [readText, run_bind_of_run h]
  simp only [htext]
  rfl

/-- A run, in three parts. -/
theorem run_eq (s : σ) :
    (run files platform args).run s =
      match prepare files platform args s with
      | (.error e, s₁) => (.error e, s₁)
      | (.ok (settings, source), s₁) =>
        match draw args settings source with
        | .error e => (.error e, s₁)
        | .ok drawing => finish files args source drawing s₁ := by
  rw [run, prepare]
  cases hload : (loadSettings files platform args.config).run s with
  | mk loaded s₁ =>
    rw [run_bind_of_run hload]
    cases loaded with
    | error e => rfl
    | ok settings =>
      cases hread : (readText files args.input).run s₁ with
      | mk text s₂ =>
        simp only
        rw [run_bind_of_run hread, hread]
        cases text with
        | error e => rfl
        | ok source =>
          simp only
          cases draw args settings source with
          | error e => rfl
          | ok drawing =>
            cases hwrite : (files.write args.output drawing.toUTF8).run s₂ with
            | mk written s₃ =>
              simp only [finish, hwrite]
              rw [run_bind_of_run hwrite]
              cases written with
              | error e => rfl
              | ok _ => rfl

/-- A strict run is the lenient run, or the source cannot be read and the run ends there. -/
theorem run_strict_or (s : σ) :
    (run files platform (args.withStrict true)).run s =
        (run files platform (args.withStrict false)).run s ∨
      ∃ e source s', (run files platform (args.withStrict true)).run s =
        (.error (.reading e source), s') := by
  -- files are treated the same before and after the drawing
  have hprepare : prepare files platform (args.withStrict true) s =
      prepare files platform (args.withStrict false) s := rfl
  have hfinish : ∀ source drawing s', finish files (args.withStrict true) source drawing s' =
      finish files (args.withStrict false) source drawing s' := fun _ _ _ => rfl
  rw [run_eq, run_eq, hprepare]
  cases prepare files platform (args.withStrict false) s with
  | mk prepared s₁ =>
    cases prepared with
    | error e => exact Or.inl rfl
    | ok pair =>
      obtain ⟨settings, source⟩ := pair
      rcases draw_strict_or args settings source with hsame | ⟨e, -, herror⟩
      · refine Or.inl ?_
        simp only [hsame, hfinish]
      · simp only [herror]
        exact Or.inr ⟨e, source, s₁, rfl⟩

end Command

/-- **Strict and lenient agree.**  What can be read is drawn alike, step by step; what cannot
is drawn like the empty source, or not at all.  On any files, a strict run that succeeds is
the lenient run, and a lenient run fails only where the strict one fails too. -/
theorem strict_lenient_agree (settings : Settings Float32) (format : OutputFormat)
    (source : String) :
    (∀ reading, Reading.ofSource source = .ok reading →
      Reading.elementsOf source = reading.elements) ∧
    (∀ e, Reading.ofSource source = .error e → Reading.elementsOf source = .empty) ∧
    (∀ reading, Reading.strict source = .ok reading →
      render settings format source = drawStepwise settings format reading.elements ∧
      renderStrict settings format source = drawStepwise settings format reading.elements) ∧
    (∀ e, Reading.strict source = .error e →
      render settings format source = render settings format "" ∧
      renderStrict settings format source = .error e) ∧
    ∀ (σ : Type) (files : Command.FileAccess (StateM σ)) (platform : Option String)
      (args : Command.Arguments) (s : σ),
      (∀ finished s', (Command.run files platform (args.withStrict true)).run s =
          (.ok finished, s') →
        (Command.run files platform (args.withStrict false)).run s = (.ok finished, s')) ∧
      ∀ e s', (Command.run files platform (args.withStrict false)).run s = (.error e, s') →
        ∃ e' s'', (Command.run files platform (args.withStrict true)).run s =
          (.error e', s'') := by
  refine ⟨fun _ => elementsOf_of_ok, fun _ => elementsOf_of_error, ?_, ?_, ?_⟩
  · intro reading hstrict
    have hread := strict_eq_ok_iff.1 hstrict
    have hrender : render settings format source =
        drawStepwise settings format reading.elements := by
      rw [render, elementsOf_of_ok hread, render_eq_drawStepwise]
    exact ⟨hrender, (renderStrict_of_ok settings format hread).trans hrender⟩
  · intro e hstrict
    cases hread : Reading.ofSource source with
    | ok reading =>
      rw [strict_eq_ok_iff.2 hread] at hstrict
      cases hstrict
    | error fault =>
      rw [Reading.strict, hread] at hstrict
      cases hstrict
      exact ⟨render_of_error settings format hread, renderStrict_of_error settings format hread⟩
  · intro σ files platform args s
    rcases Command.run_strict_or files platform args s with hsame | ⟨fault, text, s₁, hends⟩
    · rw [hsame]
      exact ⟨fun _ _ hok => hok, fun e s' herror => ⟨e, s', herror⟩⟩
    · constructor
      · intro finished s' hok
        rw [hends] at hok
        cases hok
      · intro e s' _
        exact ⟨_, s₁, hends⟩

/-- Files that are not there. -/
def noFiles : Command.FileAccess (StateM Unit) where
  isPresent _ := pure false
  read _ := pure (.error .notFound)
  write _ _ := pure (.error .notFound)

/-- A request for a drawing. -/
def plainRequest : Command.Arguments := ⟨"in.xml", "out.svg", .svg, none, false, "info"⟩

/-- Files with one source and nothing else. -/
def inputOf (source : String) : Command.FileTree := ⟨[(["in.xml"], source.toUTF8)]⟩

/-- A request for a record of the diagram. -/
def recordRequest : Command.Arguments := ⟨"in.xml", "out.json", .json, none, false, "info"⟩

/-- A record can be written of every source that can be read. -/
theorem exists_run_record {source : String} {reading : Reading}
    (h : Reading.strict source = .ok reading) :
    ∃ finished tree, (Command.run Command.FileTree.access none
      (recordRequest.withStrict true)).run (inputOf source) = (.ok finished, tree) := by
  have hload : (Command.loadSettings Command.FileTree.access none none).run (inputOf source) =
      (.ok .standard, inputOf source) := rfl
  have hread : (Command.readText Command.FileTree.access "in.xml").run (inputOf source) =
      (.ok source, inputOf source) := Command.run_readText rfl
  have hprepare : Command.prepare Command.FileTree.access none (recordRequest.withStrict true)
      (inputOf source) = (.ok (.standard, source), inputOf source) := by
    simp only [Command.prepare, recordRequest, Command.Arguments.withStrict, hload, hread]
  have hdraw : Command.draw (recordRequest.withStrict true) .standard source =
      .ok (Diagram.ofRungs Settings.standard.layout reading.elements.rungs).json := by
    have hway : Command.draw (recordRequest.withStrict true) .standard source =
        renderStrict .standard .json source := rfl
    rw [hway, renderStrict, h]
    rfl
  rw [Command.run_eq, hprepare]
  simp only [hdraw]
  exact ⟨_, _, rfl⟩

/-- A coil behind a contact. -/
def contactAndCoil : String :=
  "<LD><contact localId=\"1\"/><coil localId=\"2\"><connectionPointIn>" ++
    "<connection refLocalId=\"1\"/></connectionPointIn></coil></LD>"

theorem strict_lenient_agree_contact :
    (∃ reading, Reading.strict contactAndCoil = .ok reading ∧
      reading.elements.rungs = [⟨"", false, [[⟨"", false, .contact⟩]]⟩] ∧
      (∀ settings format, render settings format contactAndCoil =
        drawStepwise settings format reading.elements) ∧
      ∃ finished tree, (Command.run Command.FileTree.access none
          (recordRequest.withStrict true)).run (inputOf contactAndCoil) = (.ok finished, tree) ∧
        (Command.run Command.FileTree.access none
          (recordRequest.withStrict false)).run (inputOf contactAndCoil) =
            (.ok finished, tree)) ∧
    (∃ e, Reading.strict "<project/>" = .error e ∧ ∀ settings format,
      render settings format "<project/>" = render settings format "") ∧
    ∃ e s', (Command.run noFiles none (plainRequest.withStrict true)).run () =
      (.error e, s') := by
  have hreads : (Reading.strict contactAndCoil).toOption.map (·.elements.rungs) =
      some [⟨"", false, [[⟨"", false, .contact⟩]]⟩] := by decide +kernel
  have hfails : (Reading.strict "<project/>").toOption.isSome = false := by decide +kernel
  have hlenient : (Command.run noFiles none (plainRequest.withStrict false)).run () =
      (.error (.file .notFound), ()) := rfl
  refine ⟨?_, ?_, ?_⟩
  · cases hstrict : Reading.strict contactAndCoil with
    | error e =>
      rw [hstrict] at hreads
      cases hreads
    | ok reading =>
      rw [hstrict] at hreads
      refine ⟨reading, rfl, Option.some.inj hreads, fun settings format => ?_, ?_⟩
      · exact ((strict_lenient_agree settings format contactAndCoil).2.2.1 reading hstrict).1
      · obtain ⟨finished, tree, hdone⟩ := exists_run_record hstrict
        have hrun := (strict_lenient_agree .standard .json "").2.2.2.2 Command.FileTree
          Command.FileTree.access none recordRequest (inputOf contactAndCoil)
        exact ⟨finished, tree, hdone, hrun.1 finished tree hdone⟩
  · cases hstrict : Reading.strict "<project/>" with
    | ok reading =>
      rw [hstrict] at hfails
      cases hfails
    | error e =>
      refine ⟨e, rfl, fun settings format => ?_⟩
      exact ((strict_lenient_agree settings format "<project/>").2.2.2.1 e hstrict).1
  · have hrun := (strict_lenient_agree .standard .svg "").2.2.2.2 Unit noFiles none plainRequest ()
    exact hrun.2 _ _ hlenient

end LadderLogic
