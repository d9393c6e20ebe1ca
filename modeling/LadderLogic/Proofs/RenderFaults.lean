/-
Only colors keep a diagram from being drawn.

The colors of a style are read in three places: when settings are checked, by the style
itself, and when a pen is made.  What can be wrong with them is said once, over the reader of
colors alone (`StyleSettings.Faulty`): the background, if there is one, is looked at first, and
the stroke only if nothing is wrong with the background.  A pen is refused for these faults
and no others (`Pen.ofStyle_eq_error_iff`), before anything of the diagram is looked at.  So
whether a source is drawn does not depend on the source.
-/

import LadderLogic.Render

namespace LadderLogic

open Svg (Pen RenderFault)

/-! ## What is wrong with a style -/

section Styles

variable {α : Type}

/-- The first of the two colors that cannot be read, with the reason. -/
inductive StyleSettings.Faulty (s : StyleSettings α) : RenderFault → Prop
  | background {text : String} {e : InvalidColor} (hset : s.background = some text)
      (hread : Color.read text = .error e) : Faulty s (.background e)
  | stroke {e : InvalidColor}
      (hbackground : ∀ text, s.background = some text → ∃ c, Color.read text = .ok c)
      (hread : Color.read s.stroke = .error e) : Faulty s (.stroke e)

namespace StyleSettings

variable {s : StyleSettings α} {e : InvalidColor}

theorem backgroundColor_eq_error_iff :
    s.backgroundColor = .error e ↔
      ∃ text, s.background = some text ∧ Color.read text = .error e := by
  rw [backgroundColor]
  cases s.background with
  | none => simp
  | some text => cases h : Color.read text <;> simp [h, Except.map]

theorem backgroundColor_ok_iff :
    (∃ color, s.backgroundColor = .ok color) ↔
      ∀ text, s.background = some text → ∃ c, Color.read text = .ok c := by
  rw [backgroundColor]
  cases s.background with
  | none => simp
  | some text => cases h : Color.read text <;> simp [h, Except.map]

/-- There is at most one fault: the second color counts only if the first is a color. -/
theorem Faulty.unique {fault fault' : RenderFault} (h : s.Faulty fault) (h' : s.Faulty fault') :
    fault = fault' := by
  cases h with
  | background hset hread =>
    cases h' with
    | background hset' hread' =>
      cases hset.symm.trans hset'
      cases hread.symm.trans hread'
      rfl
    | stroke haccepted _ =>
      obtain ⟨c, hc⟩ := haccepted _ hset
      cases hread.symm.trans hc
  | stroke haccepted hread =>
    cases h' with
    | background hset' hread' =>
      obtain ⟨c, hc⟩ := haccepted _ hset'
      cases hread'.symm.trans hc
    | stroke _ hread' =>
      cases hread.symm.trans hread'
      rfl

/-- Nothing is wrong with a style if all of its colors are colors. -/
theorem not_faulty_iff :
    (∀ fault, ¬ s.Faulty fault) ↔
      (∀ text, s.background = some text → ∃ c, Color.read text = .ok c) ∧
        ∃ c, Color.read s.stroke = .ok c := by
  constructor
  · intro h
    have haccepted : ∀ text, s.background = some text → ∃ c, Color.read text = .ok c := by
      intro text hset
      cases hread : Color.read text with
      | error e => exact absurd (.background hset hread) (h _)
      | ok c => exact ⟨c, rfl⟩
    refine ⟨haccepted, ?_⟩
    cases hread : Color.read s.stroke with
    | error e => exact absurd (.stroke haccepted hread) (h _)
    | ok c => exact ⟨c, rfl⟩
  · rintro ⟨haccepted, c, hc⟩ _ (⟨hset, hread⟩ | ⟨-, hread⟩)
    · obtain ⟨c', hc'⟩ := haccepted _ hset
      cases hread.symm.trans hc'
    · cases hread.symm.trans hc

end StyleSettings

/-- A pen is refused for what is wrong with the style, and for nothing else. -/
theorem Svg.Pen.ofStyle_eq_error_iff {style : StyleSettings α} (width : α) {fault : RenderFault} :
    Pen.ofStyle style width = .error fault ↔ style.Faulty fault := by
  -- there is one fault at most, so that the one found is the one asked about
  have hcase : ∀ found, style.Faulty found →
      ((Except.error found : Except RenderFault (Pen α)) = .error fault ↔ style.Faulty fault) := by
    intro found hfound
    rw [Except.error.injEq]
    exact ⟨fun h => h ▸ hfound, fun h => hfound.unique h⟩
  rw [Pen.ofStyle]
  cases hbackground : style.backgroundColor with
  | error e =>
    obtain ⟨text, hset, hread⟩ := StyleSettings.backgroundColor_eq_error_iff.1 hbackground
    exact hcase _ (.background hset hread)
  | ok background =>
    have haccepted := StyleSettings.backgroundColor_ok_iff.1 ⟨background, hbackground⟩
    cases hstroke : style.strokeColor with
    | error e => exact hcase _ (.stroke haccepted hstroke)
    | ok stroke =>
      have hnone := StyleSettings.not_faulty_iff.2 ⟨haccepted, stroke, hstroke⟩
      constructor
      · rintro ⟨⟩
      · intro h
        exact absurd h (hnone fault)

/-- A style that passes the check has nothing wrong with its colors. -/
theorem StyleSettings.not_faulty_of_check [Scalar α] {s : StyleSettings α}
    (h : s.check = .ok ()) (fault : RenderFault) : ¬ s.Faulty fault := by
  rw [check] at h
  -- the check looks at the colors first, and in the same order as the pen
  split at h
  · cases h
  · next background hbackground =>
    split at h
    · cases h
    · next stroke hstroke =>
      have haccepted := backgroundColor_ok_iff.1 ⟨background, hbackground⟩
      exact not_faulty_iff.2 ⟨haccepted, stroke, hstroke⟩ fault

end Styles

/-! ## Drawings -/

section Drawings

variable {settings : Settings Float32} {source : String}

theorem render_json_eq :
    render settings .json source =
      .ok (Diagram.ofRungs settings.layout (Reading.elementsOf source).rungs).json := rfl

/-- The pen is made before anything is drawn. -/
theorem render_svg_of_error {fault : RenderFault}
    (h : Pen.ofStyle settings.style settings.layout.symbolWidth = .error fault) :
    render settings .svg source = .error (.exporting (.render fault)) := by
  rw [render, ElementMap.render, Diagram.write, Diagram.svg, h]

theorem render_svg_of_pen {pen : Pen Float32}
    (h : Pen.ofStyle settings.style settings.layout.symbolWidth = .ok pen) :
    render settings .svg source =
      .ok (pen.draw ((Reading.elementsOf source).diagram settings)).document := by
  rw [render, ElementMap.render, Diagram.write, Diagram.svg, h]

theorem render_svg_eq_error_iff {e : Failure} :
    render settings .svg source = .error e ↔
      ∃ fault, settings.style.Faulty fault ∧ e = .exporting (.render fault) := by
  simp only [← Pen.ofStyle_eq_error_iff settings.layout.symbolWidth]
  cases h : Pen.ofStyle settings.style settings.layout.symbolWidth with
  | error found =>
    rw [render_svg_of_error h]
    simp [eq_comm]
  | ok pen =>
    rw [render_svg_of_pen h]
    simp

theorem message_background (e : InvalidColor) :
    (Failure.exporting (.render (.background e))).message =
      "Export error: Render error: Invalid background color in config: " ++ e.message := by
  have hparts : (Failure.exporting (.render (.background e))).message =
      "Export error: " ++ ("Render error: " ++ ("Invalid background color in config: " ++
        e.message)) := rfl
  -- a rewrite with the definitions of the wordings would compare their texts, which is slow
  have hwords : "Export error: " ++ "Render error: " ++ "Invalid background color in config: " =
      "Export error: Render error: Invalid background color in config: " := by decide +kernel
  rw [hparts, ← hwords, String.append_assoc, String.append_assoc]

theorem render_svg_ok_iff :
    (∃ text, render settings .svg source = .ok text) ↔ ∀ fault, ¬ settings.style.Faulty fault := by
  constructor
  · rintro ⟨text, hok⟩ fault hfault
    have herror : render settings .svg source = .error (.exporting (.render fault)) :=
      render_svg_eq_error_iff.2 ⟨fault, hfault, rfl⟩
    cases hok.symm.trans herror
  · intro hnone
    cases h : render settings .svg source with
    | error e =>
      obtain ⟨fault, hfault, -⟩ := render_svg_eq_error_iff.1 h
      exact absurd hfault (hnone fault)
    | ok text => exact ⟨text, rfl⟩

theorem Settings.style_check_of_check {α : Type} [Scalar α] {s : Settings α}
    (h : s.check = .ok ()) : s.style.check = .ok () := by
  rw [check] at h
  split at h
  · cases h
  · split at h
    · cases h
    · assumption

/-- The settings that apply unless others are given pass the check. -/
theorem Settings.check_standard : (standard : Settings Float32).check = .ok () := by
  have hpasses : (standard : Settings Float32).check.toOption.isSome = true := by decide +kernel
  cases hcheck : (standard : Settings Float32).check with
  | ok _ => rfl
  | error fault =>
    rw [hcheck] at hpasses
    cases hpasses

/-- Whatever passes the check can be drawn in every format. -/
theorem exists_render_of_check (h : settings.check = .ok ()) (format : OutputFormat)
    (source : String) : ∃ text, render settings format source = .ok text := by
  cases format with
  | json => exact ⟨_, render_json_eq⟩
  | svg =>
    exact render_svg_ok_iff.2 (StyleSettings.not_faulty_of_check (Settings.style_check_of_check h))

end Drawings

/-- **Rendering fails only for bad colors.**  JSON is always written, and its text is the same
for all styles.  SVG is not written if the background is set to something that is no color,
or the stroke is none; the failure is the one of the export with the words for the background,
if that is no color, and whether it occurs does not depend on the source.  So what passes the
check is written in every format. -/
theorem render_fails_only_for_colors (settings : Settings Float32) :
    (∀ source, ∃ text, render settings .json source = .ok text) ∧
    (∀ other : Settings Float32, other.layout = settings.layout → ∀ source,
      render other .json source = render settings .json source) ∧
    (∀ source, (∃ e, render settings .svg source = .error e) ↔
      (∃ text, settings.style.background = some text ∧ ¬ ∃ c, Color.read text = .ok c) ∨
        ¬ ∃ c, Color.read settings.style.stroke = .ok c) ∧
    (∀ source e, render settings .svg source = .error e ↔
      ∃ fault, settings.style.Faulty fault ∧ e = .exporting (.render fault)) ∧
    (∀ text e, settings.style.background = some text → Color.read text = .error e →
      ∀ source, ∃ failure, render settings .svg source = .error failure ∧
        failure.message =
          "Export error: Render error: Invalid background color in config: " ++ e.message) ∧
    (settings.check = .ok () → ∀ format source, ∃ text,
      render settings format source = .ok text) := by
  refine ⟨fun _ => ⟨_, render_json_eq⟩, ?_, ?_, fun _ _ => render_svg_eq_error_iff, ?_, ?_⟩
  · intro other hlayout source
    rw [render_json_eq, render_json_eq, hlayout]
  · intro source
    -- failing is not being written, and a style without faults is one with two colors
    have hfails : (∃ e, render settings .svg source = .error e) ↔
        ¬ ∀ fault, ¬ settings.style.Faulty fault := by
      rw [← render_svg_ok_iff]
      cases render settings .svg source <;> simp
    rw [hfails, StyleSettings.not_faulty_iff]
    grind
  · intro text e hset hread source
    have hfails : render settings .svg source = .error (.exporting (.render (.background e))) :=
      render_svg_eq_error_iff.2 ⟨_, .background hset hread, rfl⟩
    exact ⟨_, hfails, message_background e⟩
  · intro h format source
    exact exists_render_of_check h format source

/-- Colors that are none. -/
def noColors : Settings Float32 :=
  ⟨.standard, { StyleSettings.standard with background := some "snow white", stroke := "" }⟩

theorem render_fails_only_for_colors_none :
    (∃ text, render noColors .json "" = .ok text ∧ render .standard .json "" = .ok text) ∧
    (∃ e failure, Color.read "snow white" = .error e ∧ render noColors .svg "" = .error failure ∧
      failure.message =
        "Export error: Render error: Invalid background color in config: " ++ e.message) ∧
    ∀ format, ∃ text, render Settings.standard format "<LD/>" = .ok text := by
  have hbackground : (Color.read "snow white").toOption.isSome = false := by decide +kernel
  obtain ⟨hjson, hsame, -, -, hmessage, -⟩ := render_fails_only_for_colors noColors
  obtain ⟨-, -, -, -, -, hchecked⟩ := render_fails_only_for_colors Settings.standard
  refine ⟨?_, ?_, fun format => hchecked Settings.check_standard format "<LD/>"⟩
  · obtain ⟨text, htext⟩ := hjson ""
    exact ⟨text, htext, (hsame .standard rfl "").trans htext⟩
  · cases hread : Color.read "snow white" with
    | ok c =>
      rw [hread] at hbackground
      cases hbackground
    | error e =>
      obtain ⟨failure, hfails, hwords⟩ := hmessage "snow white" e rfl hread ""
      exact ⟨e, failure, rfl, hfails, hwords⟩

end LadderLogic
