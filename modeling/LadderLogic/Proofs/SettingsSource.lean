/-
Settings come from one source, and are checked.

Settings are looked for in a fixed order, and the search ends at the first place where they
can be (`Consulted`).  What is found there decides: if the file cannot be used, for whatever
reason (`FileSystem.Broken`), there are no settings, and no other place is tried.  That no
other file is even read is seen by loading through files that note what they are asked to read
(`FileAccess.recording`).

Every way to settings goes through the check, or leads to the standard ones, which pass it.
Checked settings can be drawn with (`exists_render_of_check`), so that a run never fails in
drawing, on any files, even on files that do not behave.
-/

import LadderLogic.Proofs.RenderFaults
import LadderLogic.Proofs.RunOutcome

namespace LadderLogic.Command

/-! ## Where settings come from -/

/-- The file that settings come from, or `none` if they are the standard ones: the file that is
asked for; else the local one, if there is one; else the one of the platform, if there is
one. -/
inductive Consulted (present : String → Bool) (platform : Option String) :
    Option String → Option String → Prop
  | asked (path : String) : Consulted present platform (some path) (some path)
  | beside (hlocal : present localSettings = true) :
      Consulted present platform none (some localSettings)
  | ofPlatform {path : String} (hlocal : present localSettings = false)
      (hplatform : platform = some path) (hpath : present path = true) :
      Consulted present platform none (some path)
  | nowhere (hlocal : present localSettings = false)
      (hplatform : ∀ path, platform = some path → present path = false) :
      Consulted present platform none none

/-- There is one source only. -/
theorem Consulted.unique {present : String → Bool} {platform config source source' : Option String}
    (h : Consulted present platform config source)
    (h' : Consulted present platform config source') : source' = source := by
  -- two constructors for the same request differ in what is present
  cases h <;> cases h' <;> grind

/-- The settings in a text, before they are checked. -/
def settingsOfText? (text : String) : Option (Settings Float32) :=
  (Toml.read? text).bind fun datum => (Settings.ofDatum .ignored datum).toOption

/-- The settings in what a file was read as. -/
def settingsOfBytes (bytes : Except FileError ByteArray) : Except FileError (Settings Float32) :=
  bytes.bind fun bytes =>
    match String.fromUTF8? bytes with
    | none => .error .notText
    | some text => settingsOfText text

theorem settingsOfText_eq (text : String) :
    settingsOfText text =
      match settingsOfText? text with
      | none => .error .settingsMalformed
      | some settings =>
        match settings.check with
        | .error fault => .error (.settingsRejected fault)
        | .ok () => .ok settings := by
  rw [settingsOfText, settingsOfText?]
  cases Toml.read? text with
  | none => rfl
  | some datum =>
    dsimp only [Option.bind]
    cases Settings.ofDatum .ignored datum with
    | error e => rfl
    | ok settings => rfl

/-! ## Loading -/

section Loading

variable {τ : Type}

/-- In the state `t`, files answer as given.  Looking for a path changes nothing, and reading
one leads to the state `after` it. -/
structure Answers (files : FileAccess (StateM τ)) (t : τ) (present : String → Bool)
    (bytes : String → Except FileError ByteArray) (after : String → τ) : Prop where
  isPresent : ∀ path, (files.isPresent path).run t = (present path, t)
  read : ∀ path, (files.read path).run t = (bytes path, after path)

variable {files : FileAccess (StateM τ)} {t : τ} {present : String → Bool}
  {bytes : String → Except FileError ByteArray} {after : String → τ}

theorem Answers.run_settingsPath (h : Answers files t present bytes after)
    (platform config : Option String) :
    ∃ source, Consulted present platform config source ∧
      (settingsPath files platform config).run t = (source, t) := by
  cases config with
  | some path => exact ⟨some path, .asked path, rfl⟩
  | none =>
    -- looking leaves the state as it was, so that each look is answered by `present`
    rw [settingsPath.eq_def]
    dsimp only
    rw [run_bind_of_run (h.isPresent localSettings)]
    cases hlocal : present localSettings with
    | true => exact ⟨some localSettings, .beside hlocal, rfl⟩
    | false =>
      cases platform with
      | none => exact ⟨none, .nowhere hlocal (by simp), rfl⟩
      | some path =>
        dsimp only
        rw [if_neg Bool.false_ne_true, run_bind_of_run (h.isPresent path)]
        cases hpath : present path with
        | true => exact ⟨some path, .ofPlatform hlocal rfl hpath, rfl⟩
        | false => exact ⟨none, .nowhere hlocal (by simp [hpath]), rfl⟩

theorem Answers.run_readSettings (h : Answers files t present bytes after) (path : String) :
    (readSettings files path).run t =
      if present path then (settingsOfBytes (bytes path), after path)
      else (.error (.settingsMissing path), t) := by
  rw [readSettings, run_bind_of_run (h.isPresent path)]
  split
  · rw [readText, bind_assoc, run_bind_of_run (h.read path), settingsOfBytes]
    cases bytes path with
    | error e => rfl
    | ok content =>
      dsimp only [Except.bind]
      cases String.fromUTF8? content with
      | none => rfl
      | some text => rfl
  · rfl

/-- Settings are loaded from the source, or are the standard ones. -/
theorem Answers.run_loadSettings (h : Answers files t present bytes after)
    (platform config : Option String) :
    ∃ source, Consulted present platform config source ∧
      (source = none → (loadSettings files platform config).run t = (.ok .standard, t)) ∧
      ∀ path, source = some path → (loadSettings files platform config).run t =
        if present path then (settingsOfBytes (bytes path), after path)
        else (.error (.settingsMissing path), t) := by
  obtain ⟨source, hsource, hrun⟩ := h.run_settingsPath platform config
  refine ⟨source, hsource, ?_, ?_⟩
  · rintro rfl
    rw [loadSettings, run_bind_of_run hrun]
    rfl
  · rintro path rfl
    rw [loadSettings, run_bind_of_run hrun, ← h.run_readSettings path]

end Loading

/-! ## Files that note what is read -/

section Recording

variable {σ α : Type}

/-- Does the same, and notes some paths. -/
def noting (paths : List String) (x : StateM σ α) : StateM (σ × List String) α :=
  fun t => ((x.run t.1).1, ((x.run t.1).2, t.2 ++ paths))

/-- The same files, with a list of the paths that were read. -/
def FileAccess.recording (files : FileAccess (StateM σ)) :
    FileAccess (StateM (σ × List String)) where
  isPresent path := noting [] (files.isPresent path)
  read path := noting [path] (files.read path)
  write path content := noting [] (files.write path content)

namespace FileSystem

variable (fs : FileSystem σ) (s : σ)

/-- There is a file or a directory. -/
def isPresent (path : String) : Bool := ((fs.access.isPresent path).run s).1

/-- What a file is read as. -/
def bytes (path : String) : Except FileError ByteArray := ((fs.access.read path).run s).1

theorem answers : Answers fs.access s (fs.isPresent s) (fs.bytes s) fun _ => s where
  isPresent path := Prod.ext rfl (fs.isPresent_state path s)
  read path := Prod.ext rfl (fs.read_state path s)

theorem answers_recording (log : List String) :
    Answers fs.access.recording (s, log) (fs.isPresent s) (fs.bytes s)
      fun path => (s, log ++ [path]) where
  isPresent path := by
    refine Prod.ext rfl (Prod.ext (fs.isPresent_state path s) (List.append_nil log))
  read path := Prod.ext rfl (Prod.ext (fs.read_state path s) rfl)

end FileSystem
end Recording

/-! ## Files that cannot be used -/

namespace FileSystem

variable {σ : Type} (fs : FileSystem σ) (s : σ)

/-- The file is there, and holds the text. -/
def HoldsText (path text : String) : Prop :=
  fs.isPresent s path = true ∧ ∃ bytes, fs.bytes s path = .ok bytes ∧
    String.fromUTF8? bytes = some text

/-- Why a file gives no settings. -/
inductive Broken (path : String) : FileError → Prop
  | missing (hmissing : fs.isPresent s path = false) : Broken path (.settingsMissing path)
  | unreadable {e : FileError} (hpresent : fs.isPresent s path = true)
      (hread : fs.bytes s path = .error e) : Broken path e
  | notText {bytes : ByteArray} (hpresent : fs.isPresent s path = true)
      (hread : fs.bytes s path = .ok bytes) (htext : String.fromUTF8? bytes = none) :
      Broken path .notText
  | malformed {text : String} (hholds : fs.HoldsText s path text)
      (hparse : settingsOfText? text = none) : Broken path .settingsMalformed
  | rejected {text : String} {settings : Settings Float32} {fault : SettingsFault Float32}
      (hholds : fs.HoldsText s path text) (hparse : settingsOfText? text = some settings)
      (hcheck : settings.check = .error fault) : Broken path (.settingsRejected fault)

/-- The file gives settings that pass the check. -/
def Gives (path : String) (settings : Settings Float32) : Prop :=
  ∃ text, fs.HoldsText s path text ∧ settingsOfText? text = some settings ∧
    settings.check = .ok ()

/-- The settings that a file gives. -/
def fileSettings (path : String) : Except FileError (Settings Float32) :=
  if fs.isPresent s path then settingsOfBytes (fs.bytes s path)
  else .error (.settingsMissing path)

variable {fs s} {path : String}

theorem fileSettings_of_holdsText {text : String} (h : fs.HoldsText s path text) :
    fs.fileSettings s path = settingsOfText text := by
  obtain ⟨hpresent, bytes, hread, htext⟩ := h
  rw [fileSettings, if_pos hpresent, hread, settingsOfBytes, Except.bind, htext]

theorem fileSettings_of_broken {e : FileError} (h : fs.Broken s path e) :
    fs.fileSettings s path = .error e := by
  cases h with
  | missing hmissing => rw [fileSettings, hmissing, if_neg Bool.false_ne_true]
  | unreadable hpresent hread =>
    rw [fileSettings, if_pos hpresent, hread]
    rfl
  | notText hpresent hread htext =>
    rw [fileSettings, if_pos hpresent, hread, settingsOfBytes, Except.bind, htext]
  | malformed hholds hparse =>
    rw [fileSettings_of_holdsText hholds, settingsOfText_eq, hparse]
  | rejected hholds hparse hcheck =>
    rw [fileSettings_of_holdsText hholds, settingsOfText_eq, hparse]
    dsimp only
    rw [hcheck]

theorem fileSettings_of_gives {settings : Settings Float32} (h : fs.Gives s path settings) :
    fs.fileSettings s path = .ok settings := by
  obtain ⟨text, hholds, hparse, hcheck⟩ := h
  rw [fileSettings_of_holdsText hholds, settingsOfText_eq, hparse]
  dsimp only
  rw [hcheck]

variable (fs s path) in
/-- A file gives settings, or there is a reason why not. -/
theorem broken_or_gives : (∃ e, fs.Broken s path e) ∨ ∃ settings, fs.Gives s path settings := by
  -- one step of reading after the other; the first that fails is the reason
  cases hpresent : fs.isPresent s path with
  | false => exact Or.inl ⟨_, .missing hpresent⟩
  | true =>
    cases hread : fs.bytes s path with
    | error e => exact Or.inl ⟨e, .unreadable hpresent hread⟩
    | ok bytes =>
      cases htext : String.fromUTF8? bytes with
      | none => exact Or.inl ⟨_, .notText hpresent hread htext⟩
      | some text =>
        have hholds : fs.HoldsText s path text := ⟨hpresent, bytes, hread, htext⟩
        cases hparse : settingsOfText? text with
        | none => exact Or.inl ⟨_, .malformed hholds hparse⟩
        | some settings =>
          cases hcheck : settings.check with
          | error fault => exact Or.inl ⟨_, .rejected hholds hparse hcheck⟩
          | ok _ => exact Or.inr ⟨settings, text, hholds, hparse, hcheck⟩

theorem fileSettings_eq_error_iff {e : FileError} :
    fs.fileSettings s path = .error e ↔ fs.Broken s path e := by
  refine ⟨?_, fileSettings_of_broken⟩
  intro h
  rcases fs.broken_or_gives s path with ⟨e', hbroken⟩ | ⟨settings, hgives⟩
  · cases h.symm.trans (fileSettings_of_broken hbroken)
    exact hbroken
  · cases h.symm.trans (fileSettings_of_gives hgives)

theorem fileSettings_eq_ok_iff {settings : Settings Float32} :
    fs.fileSettings s path = .ok settings ↔ fs.Gives s path settings := by
  refine ⟨?_, fileSettings_of_gives⟩
  intro h
  rcases fs.broken_or_gives s path with ⟨e, hbroken⟩ | ⟨settings', hgives⟩
  · cases h.symm.trans (fileSettings_of_broken hbroken)
  · cases h.symm.trans (fileSettings_of_gives hgives)
    exact hgives

/-! ## What is loaded -/

variable (fs s)

/-- Settings are loaded from one source, and from nowhere else. -/
structure LoadsFrom (platform : Option String) (args : Arguments) (source : Option String) :
    Prop where
  consulted : ∀ other,
    Consulted (fs.isPresent s) platform args.config other ↔ other = source
  /-- No file is read but the source, and that one only if it is there. -/
  opened : ∀ log, (loadSettings fs.access.recording platform args.config).run (s, log) =
    (fs.settings platform args s, (s, log ++ (source.filter (fs.isPresent s)).toList))
  standard : source = none → fs.settings platform args s = .ok .standard
  /-- A source that cannot be used is an error. -/
  broken : ∀ path, source = some path →
    ∀ e, fs.settings platform args s = .error e ↔ fs.Broken s path e
  given : ∀ path, source = some path →
    ∀ settings, fs.settings platform args s = .ok settings ↔ fs.Gives s path settings
  checked : ∀ settings, fs.settings platform args s = .ok settings → settings.check = .ok ()
  /-- The error ends a run, as one with files. -/
  fails : ∀ e, fs.settings platform args s = .error e →
    (run fs.access platform args).run s = (.error (.file e), s)

theorem exists_loadsFrom (platform : Option String) (args : Arguments) :
    ∃ source, fs.LoadsFrom s platform args source := by
  obtain ⟨source, hsource, hnone, hsome⟩ := (fs.answers s).run_loadSettings platform args.config
  have hstandard : source = none → fs.settings platform args s = .ok .standard := by
    intro h
    rw [settings, hnone h]
  have hfile : ∀ path, source = some path →
      fs.settings platform args s = fs.fileSettings s path := by
    intro path h
    rw [settings, hsome path h, fileSettings]
    split <;> rfl
  have hgiven : ∀ path, source = some path →
      ∀ settings, fs.settings platform args s = .ok settings ↔ fs.Gives s path settings := by
    intro path h settings
    rw [hfile path h]
    exact fileSettings_eq_ok_iff
  refine ⟨source, ?_, ?_, hstandard, ?_, hgiven, ?_, ?_⟩
  · intro other
    exact ⟨hsource.unique, fun h => h ▸ hsource⟩
  · -- the same files with a list have the same source
    intro log
    obtain ⟨source', hsource', hnone', hsome'⟩ :=
      (fs.answers_recording s log).run_loadSettings platform args.config
    cases hsource.unique hsource'
    cases source with
    | none =>
      rw [hnone' rfl, hstandard rfl]
      simp
    | some path =>
      rw [hsome' path rfl, hfile path rfl, fileSettings]
      cases hpresent : fs.isPresent s path <;> simp [Option.filter, hpresent]
  · intro path h e
    rw [hfile path h]
    exact fileSettings_eq_error_iff
  · intro settings hsettings
    cases source with
    | none =>
      cases (hstandard rfl).symm.trans hsettings
      exact Settings.check_standard
    | some path =>
      obtain ⟨text, -, -, hcheck⟩ := (hgiven path rfl settings).1 hsettings
      exact hcheck
  · intro e herror
    rw [fs.run_eq, herror]

end FileSystem

/-! ## Runs on any files -/

section Runs

variable {σ α β : Type}

/-- Whatever the state is, the computation gives something with the property. -/
def Yields (P : α → Prop) (x : StateM σ α) : Prop := ∀ s, P (x.run s).1

theorem yields_pure {P : α → Prop} {a : α} (h : P a) : Yields P (pure a : StateM σ α) := fun _ => h

theorem yields_bind {P : β → Prop} {x : StateM σ α} {f : α → StateM σ β}
    (h : ∀ a, Yields P (f a)) : Yields P (x >>= f) := by
  intro s
  rw [run_bind_of_run (Prod.ext rfl rfl : x.run s = ((x.run s).1, (x.run s).2))]
  exact h _ _

/-- Settings that were loaded pass the check. -/
def AreChecked (result : Except FileError (Settings Float32)) : Prop :=
  ∀ settings, result = .ok settings → settings.check = .ok ()

theorem areChecked_error (e : FileError) : AreChecked (.error e) := by
  rintro _ ⟨⟩

theorem areChecked_settingsOfText (text : String) : AreChecked (settingsOfText text) := by
  intro settings h
  rw [settingsOfText_eq] at h
  split at h
  · cases h
  · split at h
    · cases h
    · cases h
      assumption

theorem yields_loadSettings (files : FileAccess (StateM σ)) (platform config : Option String) :
    Yields AreChecked (loadSettings files platform config) := by
  -- whatever was found, settings are the standard ones or come out of a text
  refine yields_bind fun source => ?_
  split
  · refine yields_pure ?_
    rintro _ ⟨⟩
    exact Settings.check_standard
  · refine yields_bind fun present => ?_
    split
    · refine yields_bind fun text => ?_
      split
      · exact yields_pure (areChecked_error _)
      · exact yields_pure (areChecked_settingsOfText _)
    · exact yields_pure (areChecked_error _)

variable {files : FileAccess (StateM σ)} {platform : Option String} {args : Arguments} {s s' : σ}
  {e : Failure}

/-- Before a drawing, a run fails with files only, and what it draws with is checked. -/
theorem prepare_cases (files : FileAccess (StateM σ)) (platform : Option String)
    (args : Arguments) (s : σ) :
    (∃ e s', prepare files platform args s = (.error (.file e), s')) ∨
      ∃ settings source s', prepare files platform args s = (.ok (settings, source), s') ∧
        settings.check = .ok () := by
  rw [prepare]
  cases hload : (loadSettings files platform args.config).run s with
  | mk loaded s₁ =>
    cases loaded with
    | error e => exact Or.inl ⟨e, s₁, rfl⟩
    | ok settings =>
      have hcheck : settings.check = .ok () := by
        refine yields_loadSettings files platform args.config s settings ?_
        rw [hload]
      dsimp only
      cases (readText files args.input).run s₁ with
      | mk text s₂ =>
        cases text with
        | error e => exact Or.inl ⟨e, s₂, rfl⟩
        | ok source => exact Or.inr ⟨settings, source, s₂, rfl, hcheck⟩

/-- With checked settings, only a strict run fails to draw, and only if the source cannot be
read. -/
theorem draw_eq_error {settings : Settings Float32} {source : String}
    (hcheck : settings.check = .ok ()) (h : draw args settings source = .error e) :
    args.strict = true ∧ ∃ fault, Reading.ofSource source = .error fault ∧
      e = .reading fault source := by
  have hrender : ∀ e, render settings args.format source ≠ .error e := by
    intro e herror
    obtain ⟨text, hok⟩ := exists_render_of_check hcheck args.format source
    cases hok.symm.trans herror
  rw [draw] at h
  split at h
  · next hstrict =>
    refine ⟨hstrict, ?_⟩
    cases hread : Reading.ofSource source with
    | error fault =>
      rw [renderStrict_of_error settings args.format hread] at h
      cases h
      exact ⟨fault, rfl, rfl⟩
    | ok reading =>
      rw [renderStrict_of_ok settings args.format hread] at h
      exact absurd h (hrender e)
  · exact absurd h (hrender e)

theorem run_eq_error (h : (run files platform args).run s = (.error e, s')) :
    (∃ error, e = .file error) ∨ args.strict = true ∧ ∃ fault source,
      Reading.ofSource source = .error fault ∧ e = .reading fault source := by
  rw [run_eq] at h
  rcases prepare_cases files platform args s with ⟨error, s₁, hprepare⟩ |
    ⟨settings, source, s₁, hprepare, hcheck⟩
  · rw [hprepare] at h
    cases h
    exact Or.inl ⟨error, rfl⟩
  · rw [hprepare] at h
    dsimp only at h
    split at h
    · next failure hdraw =>
      cases h
      obtain ⟨hstrict, fault, hread, heq⟩ := draw_eq_error hcheck hdraw
      exact Or.inr ⟨hstrict, fault, source, hread, heq⟩
    · -- the drawing is complete, and only writing it is left
      rw [finish] at h
      split at h
      · cases h
        exact Or.inl ⟨_, rfl⟩
      · cases h

end Runs

/-- **Only checked settings are used, and broken ones are not passed over.**  On any file
system, settings are loaded from one source, and what is wrong with that source is an error.
What is loaded passes the check.  So a run, on any files, fails with files or, if it is
strict, in reading; it never fails in drawing. -/
theorem settings_checked_or_refused {σ : Type} (platform : Option String) (s : σ) :
    (∀ (fs : FileSystem σ) (args : Arguments), ∃ source, fs.LoadsFrom s platform args source) ∧
    ∀ (files : FileAccess (StateM σ)) (args : Arguments) (e : Failure) (s' : σ),
      (run files platform args).run s = (.error e, s') →
        (∀ fault, e ≠ .exporting fault) ∧
        ((∃ error, e = .file error) ∨ args.strict = true ∧ ∃ fault source,
          Reading.ofSource source = .error fault ∧ e = .reading fault source) := by
  refine ⟨fun fs args => fs.exists_loadsFrom s platform args, ?_⟩
  intro files args e s' hrun
  have hcases := run_eq_error hrun
  refine ⟨?_, hcases⟩
  rintro fault rfl
  rcases hcases with ⟨error, herror⟩ | ⟨-, fault', source, -, herror⟩
  · cases herror
  · cases herror

/-- A local settings file with a negative margin, and one of the platform that could be used. -/
def negativeMargin : FileTree where
  files := [(["in.xml"], "".toUTF8),
    (["ladderview", "config.toml"], "[layout]\npadding = -1\n".toUTF8),
    (["xdg", "config.toml"], "[layout]\npadding = 1\n".toUTF8)]

theorem settings_checked_or_refused_negativeMargin :
    let platform := some "xdg/config.toml"
    (∃ e, FileTree.system.settings platform plainRequest negativeMargin = .error e ∧
      FileTree.system.Broken negativeMargin localSettings e ∧
      (run FileTree.access platform plainRequest).run negativeMargin =
        (.error (.file e), negativeMargin) ∧
      ((loadSettings FileTree.access.recording platform none).run (negativeMargin, [])).2.2 =
        [localSettings] ∧
      ∀ fault, Failure.file e ≠ .exporting fault) ∧
    ∃ settings, FileTree.system.settings platform
        { plainRequest with config := platform } negativeMargin = .ok settings ∧
      FileTree.system.Gives negativeMargin "xdg/config.toml" settings := by
  intro platform
  obtain ⟨hloads, hruns⟩ := settings_checked_or_refused platform negativeMargin
  have hlocal : FileTree.system.isPresent negativeMargin localSettings = true := by decide +kernel
  have hrefused : (FileTree.system.settings platform plainRequest negativeMargin).toOption.isSome =
      false := by decide +kernel
  have hgiven : (FileTree.system.settings platform { plainRequest with config := platform }
      negativeMargin).toOption.isSome = true := by decide +kernel
  refine ⟨?_, ?_⟩
  · obtain ⟨source, hfrom⟩ := hloads FileTree.system plainRequest
    cases (hfrom.consulted (some localSettings)).1 (.beside hlocal)
    cases hsettings : FileTree.system.settings platform plainRequest negativeMargin with
    | ok settings =>
      rw [hsettings] at hrefused
      cases hrefused
    | error e =>
      have hrun := hfrom.fails e hsettings
      have hopened := congrArg (fun r => r.2.2) (hfrom.opened [])
      refine ⟨e, rfl, (hfrom.broken _ rfl e).1 hsettings, hrun, ?_, (hruns _ _ _ _ hrun).1⟩
      refine hopened.trans ?_
      rw [Option.filter_some, hlocal]
      rfl
  · obtain ⟨source, hfrom⟩ := hloads FileTree.system { plainRequest with config := platform }
    cases (hfrom.consulted platform).1 (.asked _)
    cases hsettings : FileTree.system.settings platform { plainRequest with config := platform }
        negativeMargin with
    | error e =>
      rw [hsettings] at hgiven
      cases hgiven
    | ok settings => exact ⟨settings, rfl, (hfrom.given _ rfl settings).1 hsettings⟩

end LadderLogic.Command
