/-
A reading fails exactly when it should.

There are four things that a source can be: blank, no document, a document without a ladder
body, and a document with one.  `Reading.Verdict` lists them with what each of them gives,
and every reading is one of the four (`verdict_ofSource`).  The last one never fails: what is
found wrong inside a body is a warning, so that the collector of diagnostics has no error to
report when the body is read (`finish_of_read`).
-/

import LadderLogic.Proofs.BodyReading

namespace LadderLogic

open Markup (Node)

/-! ## Diagnostics by weight -/

/-- The reading failed because of one error, with the given code and one label, a primary
one. -/
def ReadError.Reports (code : String) (e : ReadError) : Prop :=
  ∃ d l, e.diagnostics = [d] ∧ d.severity = .error ∧ d.code.map DiagnosticCode.text = some code ∧
    d.labels = [l] ∧ l.primary = true

/-- A warning about something inside a ladder body. -/
def Diagnostic.IsBodyWarning (d : Diagnostic) : Prop :=
  d.severity = .warning ∧ ∃ code, d.code = some code ∧
    code.text ∈ ["E200", "E201", "E202", "E203"]

theorem Fault.isBodyWarning_diagnostic (source : List Char) {f : Fault} (h : f.isFatal = false) :
    (f.diagnostic source).IsBodyWarning := by
  cases f with
  | malformedDocument => cases h
  | missingBody => cases h
  | missingIdentifier => exact ⟨rfl, _, rfl, by decide⟩
  | repeatedIdentifier => exact ⟨rfl, _, rfl, by decide⟩
  | missingReference => exact ⟨rfl, _, rfl, by decide⟩
  | unknownReference => exact ⟨rfl, _, rfl, by decide⟩

/-- Nothing that is wrong inside a body is more than a warning. -/
theorem isBodyWarning_of_mem_map {source : List Char} {nodes : List Node} {keys : List String}
    {d : Diagnostic} (h : d ∈ (bodyFaults nodes keys).map (Fault.diagnostic source)) :
    d.IsBodyWarning := by
  obtain ⟨f, hf, rfl⟩ := List.mem_map.1 h
  exact f.isBodyWarning_diagnostic source (isFatal_of_mem_bodyFaults hf)

namespace Diagnostic.Collector

variable {emitted : List Diagnostic}

theorem any_isError_iff : emitted.any isError = true ↔ ∃ d ∈ emitted, d.severity = .error := by
  simp [isError]

theorem finish_eq_ok_iff {warnings : List Diagnostic} :
    (emitted.foldl emit empty).finish = .ok warnings ↔
      (∀ d ∈ emitted, d.severity ≠ .error) ∧ warnings = emitted := by
  rw [finish_foldl_emit]
  by_cases h : emitted.any isError = true
  · obtain ⟨d, hd, herror⟩ := any_isError_iff.1 h
    simp only [if_pos h, reduceCtorEq, false_iff, not_and]
    intro hnone
    exact absurd herror (hnone d hd)
  · have hnone : ∀ d ∈ emitted, d.severity ≠ .error := by
      intro d hd herror
      exact h (any_isError_iff.2 ⟨d, hd, herror⟩)
    rw [if_neg h, Except.ok.injEq, eq_comm]
    exact (and_iff_right hnone).symm

theorem finish_eq_error_iff {e : ReadError} :
    (emitted.foldl emit empty).finish = .error e ↔
      (∃ d ∈ emitted, d.severity = .error) ∧ e.diagnostics = emitted := by
  rw [finish_foldl_emit, ← any_isError_iff]
  by_cases h : emitted.any isError = true
  · obtain ⟨diagnostics⟩ := e
    simp [h, eq_comm]
  · simp [h]

/-- No body makes a reading fail. -/
theorem finish_of_read (source : List Char) (body : Node) :
    (((Body.read body).faults.map (Fault.diagnostic source)).foldl emit empty).finish =
      .ok ((Body.read body).faults.map (Fault.diagnostic source)) := by
  refine finish_eq_ok_iff.2 ⟨?_, rfl⟩
  rw [(Body.read_eq body).2]
  intro d hd
  -- a warning is no error
  rw [(isBodyWarning_of_mem_map hd).1]
  decide

end Diagnostic.Collector

/-! ## The four outcomes -/

namespace Reading

/-- The source has something else than white space in it. -/
def Filled (source : String) : Prop := ∃ c ∈ source.toList, Text.isBlank c = false

/-- There is an element named `LD` in the tree. -/
def HasBody (root : Node) : Prop := ∃ node ∈ root.descendants, node.isNamed "LD" = true

/-- What a source can be, and what reading it gives then. -/
inductive Verdict (source : String) : Except ReadError Reading → Prop
  | blank (blank : ¬ Filled source) : Verdict source (.ok .empty)
  | malformed {fault : Markup.Error} {e : ReadError} (filled : Filled source)
      (unread : Markup.Document.read source.toList = .error fault) (reports : e.Reports "E001") :
      Verdict source (.error e)
  | bodiless {root : Node} {e : ReadError} (filled : Filled source)
      (read : Markup.Document.read source.toList = .ok root) (without : ¬ HasBody root)
      (reports : e.Reports "E100") : Verdict source (.error e)
  | readable {root : Node} {reading : Reading} (filled : Filled source)
      (read : Markup.Document.read source.toList = .ok root) (body : HasBody root)
      (warnings : ∀ w ∈ reading.warnings, w.IsBodyWarning) : Verdict source (.ok reading)

theorem allBlank_iff {source : String} : Text.allBlank source.toList = true ↔ ¬ Filled source := by
  simp [Text.allBlank, Filled]

theorem ladderBody?_eq_none_iff {root : Node} : ladderBody? root = none ↔ ¬ HasBody root := by
  simp [ladderBody?, HasBody, List.find?_eq_none]

theorem verdict_ofSource (source : String) : Verdict source (ofSource source) := by
  by_cases hblank : Text.allBlank source.toList = true
  · have hsource : ofSource source = .ok .empty := by simp only [ofSource, hblank, if_true]
    rw [hsource]
    exact .blank (allBlank_iff.1 hblank)
  · have hfilled : Filled source := not_not.1 (mt allBlank_iff.2 hblank)
    cases hread : Markup.Document.read source.toList with
    | error fault =>
        have hsource : ofSource source =
            .error ⟨[Fault.diagnostic source.toList (.malformedDocument fault)]⟩ := by
          simp only [ofSource, hblank, hread, Bool.false_eq_true, if_false]
        rw [hsource]
        exact .malformed hfilled hread ⟨_, _, rfl, rfl, rfl, rfl, rfl⟩
    | ok root =>
        rw [ofSource_eq_ofDocument hread]
        cases hbody : ladderBody? root with
        | none =>
            have hdocument : ofDocument source.toList root = .error
                ⟨[Fault.diagnostic source.toList (.missingBody root.name root.startTag)]⟩ := by
              simp only [ofDocument, hbody]
            rw [hdocument]
            exact .bodiless hfilled hread (ladderBody?_eq_none_iff.1 hbody)
              ⟨_, _, rfl, rfl, rfl, rfl, rfl⟩
        | some body =>
            obtain ⟨reading, hreading, -, hwarnings⟩ := ofDocument_eq source.toList hbody
            rw [hreading]
            refine .readable hfilled hread ?_ ?_
            · exact ⟨body, List.mem_of_find?_eq_some hbody, List.find?_some hbody⟩
            · rw [hwarnings]
              exact fun w hw => isBodyWarning_of_mem_map hw

namespace Verdict

variable {source : String} {result : Except ReadError Reading} {e : ReadError} {reading : Reading}

theorem isError_iff (h : Verdict source result) :
    (∃ e, result = .error e) ↔
      Filled source ∧ ((∃ fault, Markup.Document.read source.toList = .error fault) ∨
        ∃ root, Markup.Document.read source.toList = .ok root ∧ ¬ HasBody root) := by
  cases h with
  | blank blank => simp [blank]
  | malformed filled unread => simp [filled, unread]
  | bodiless filled read without => simp [filled, read, without]
  | readable filled read body => simp [read, body]

theorem reports (h : Verdict source (.error e)) :
    (∀ fault, Markup.Document.read source.toList = .error fault → e.Reports "E001") ∧
      ∀ root, Markup.Document.read source.toList = .ok root → e.Reports "E100" := by
  cases h with
  | malformed filled unread reports => simp [unread, reports]
  | bodiless filled read without reports => simp [read, reports]

theorem isBodyWarning (h : Verdict source (.ok reading)) :
    ∀ w ∈ reading.warnings, w.IsBodyWarning := by
  cases h with
  | blank => exact List.forall_mem_nil _
  | readable filled read body warnings => exact warnings

/-- Only a blank source is blank: the other three outcomes have something in them. -/
theorem eq_empty (h : Verdict source result) (hblank : ¬ Filled source) : result = .ok .empty := by
  cases h with
  | blank => rfl
  | malformed filled => exact absurd filled hblank
  | bodiless filled => exact absurd filled hblank
  | readable filled => exact absurd filled hblank

end Verdict

/-- **Reading fails exactly when it should.**  A source cannot be read if and only if there
is something in it and it is no document, or a document without a ladder body; the one error
then says which.  Otherwise there are only warnings about the body, and a blank source gives
the empty program without any.  The collector of diagnostics fails exactly when an error was
emitted, which reading a body never does, and keeps all that was emitted in its order. -/
theorem fails_exactly (source : String) :
    ((∃ e, ofSource source = .error e) ↔
      Filled source ∧ ((∃ fault, Markup.Document.read source.toList = .error fault) ∨
        ∃ root, Markup.Document.read source.toList = .ok root ∧ ¬ HasBody root)) ∧
    (∀ e, ofSource source = .error e →
      (∀ fault, Markup.Document.read source.toList = .error fault → e.Reports "E001") ∧
      ∀ root, Markup.Document.read source.toList = .ok root → e.Reports "E100") ∧
    (∀ reading, ofSource source = .ok reading → ∀ w ∈ reading.warnings, w.IsBodyWarning) ∧
    (¬ Filled source → ofSource source = .ok ⟨.empty, []⟩) ∧
    (∀ body : Node, ∃ warnings,
      (((Body.read body).faults.map (Fault.diagnostic source.toList)).foldl
        Diagnostic.Collector.emit .empty).finish = .ok warnings) ∧
    ∀ emitted : List Diagnostic,
      (∀ warnings, (emitted.foldl Diagnostic.Collector.emit .empty).finish = .ok warnings ↔
        (∀ d ∈ emitted, d.severity ≠ .error) ∧ warnings = emitted) ∧
      ∀ e, (emitted.foldl Diagnostic.Collector.emit .empty).finish = .error e ↔
        (∃ d ∈ emitted, d.severity = .error) ∧ e.diagnostics = emitted := by
  have hverdict := verdict_ofSource source
  refine ⟨hverdict.isError_iff, ?_, ?_, hverdict.eq_empty, ?_, ?_⟩
  · intro e he
    rw [he] at hverdict
    exact hverdict.reports
  · intro reading hreading
    rw [hreading] at hverdict
    exact hverdict.isBodyWarning
  · intro body
    exact ⟨_, Diagnostic.Collector.finish_of_read source.toList body⟩
  · intro emitted
    exact ⟨fun _ => Diagnostic.Collector.finish_eq_ok_iff,
      fun _ => Diagnostic.Collector.finish_eq_error_iff⟩

/-- A text that is cut off, a document without a body, and a body with an element that has no
identifier. -/
theorem fails_exactly_brief :
    (∃ e, ofSource "<a" = .error e ∧ e.Reports "E001") ∧
    (∃ e, ofSource "<a/>" = .error e ∧ e.Reports "E100") ∧
    ∃ reading, ofSource "<LD><a/></LD>" = .ok reading ∧ reading.warnings.length = 1 ∧
      ∀ w ∈ reading.warnings, w.IsBodyWarning := by
  have hcut : (Markup.Document.read "<a".toList).toOption.isSome = false := by decide +kernel
  have hbare : (Markup.Document.read "<a/>".toList).toOption.map
      (fun root => root.descendants.any (·.isNamed "LD")) = some false := by decide +kernel
  have hbody : (ofSource "<LD><a/></LD>").toOption.map (·.warnings.length) = some 1 := by
    decide +kernel
  refine ⟨?_, ?_, ?_⟩
  · obtain ⟨hfails, hreports, -⟩ := fails_exactly "<a"
    have hfilled : Filled "<a" := ⟨'<', by decide, by decide⟩
    cases hread : Markup.Document.read "<a".toList with
    | ok root =>
        rw [hread] at hcut
        cases hcut
    | error fault =>
        obtain ⟨e, he⟩ := hfails.2 ⟨hfilled, Or.inl ⟨fault, hread⟩⟩
        exact ⟨e, he, (hreports e he).1 fault hread⟩
  · obtain ⟨hfails, hreports, -⟩ := fails_exactly "<a/>"
    have hfilled : Filled "<a/>" := ⟨'<', by decide, by decide⟩
    cases hread : Markup.Document.read "<a/>".toList with
    | error fault =>
        rw [hread] at hbare
        cases hbare
    | ok root =>
        rw [hread] at hbare
        have hwithout : ¬ HasBody root := by
          rintro ⟨node, hnode, hnamed⟩
          have hnone := List.any_eq_false.1 (Option.some.inj hbare) node hnode
          exact hnone hnamed
        obtain ⟨e, he⟩ := hfails.2 ⟨hfilled, Or.inr ⟨root, hread, hwithout⟩⟩
        exact ⟨e, he, (hreports e he).2 root hread⟩
  · obtain ⟨-, -, hwarnings, -⟩ := fails_exactly "<LD><a/></LD>"
    cases hread : ofSource "<LD><a/></LD>" with
    | error e =>
        rw [hread] at hbody
        cases hbody
    | ok reading =>
        rw [hread] at hbody
        exact ⟨reading, rfl, Option.some.inj hbody, hwarnings reading hread⟩

end Reading
end LadderLogic
