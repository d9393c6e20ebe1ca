/-
What a traced branch means.

Power comes from the left rail and passes an element when the element conducts and one of
its inputs has power; `Powered` is the least relation with these rules, so that elements
which only feed each other in a circle have none.  A trace follows one wire back towards
the rail, and its branch lists what conducts along that wire.  The two views agree:

  * a branch that reaches the rail and conducts brings power (`powered_of_traceFrom`);
  * where no element on the way has a second input, power comes through the branch only
    (`branch_conducts_of_powered`);
  * a trace that does not reach the rail passes elements that only feed each other, and
    none of them has power (`not_powered_of_traceFrom`).
-/

import LadderLogic.Proofs.Tracing

namespace LadderLogic

/-! ## Power -/

/-- The variables of a program at one moment. -/
abbrev Valuation := String → Bool

/-- A contact or coil lets power through. -/
def Contact.conducts (v : Valuation) (c : Contact) : Bool := (v c.operand).xor c.negated

/-- Contacts in series let power through. -/
def Branch.Conducts (v : Valuation) (branch : Branch) : Prop := ∀ c ∈ branch, c.conducts v = true

/-- Branches in parallel let power through. -/
def Rung.Conducts (v : Valuation) (rung : Rung) : Prop := ∃ b ∈ rung.branches, Branch.Conducts v b

namespace ElementMap

variable {m : ElementMap} {v : Valuation} {visited : List String} {id next i : String}
  {e : Element}

/-- The element with the identifier has power at its output. -/
inductive Powered (m : ElementMap) (v : Valuation) : String → Prop
  | rail {id : String} {e : Element} (found : m.find? id = some e) (isRail : e.kind = .leftRail) :
      Powered m v id
  | drawn {id i : String} {e : Element} (found : m.find? id = some e)
      (isDrawn : e.kind = .contact ∨ e.kind = .coil)
      (conducts : (v e.operand).xor e.negated = true)
      (input : i ∈ e.inputs) (fed : Powered m v i) : Powered m v id
  | other {id i : String} {e : Element} (found : m.find? id = some e) (isOther : e.kind = .other)
      (input : i ∈ e.inputs) (fed : Powered m v i) : Powered m v id

/-- No element that a trace from the identifier meets before a rail has a second input. -/
def SingleFed (m : ElementMap) (id : String) : Prop :=
  ∀ x e, m.Upstream id x → m.find? x = some e → e.kind ≠ .leftRail → e.inputs.length ≤ 1

/-- Beyond the rails, power is that of some input, as far as the element conducts. -/
theorem powered_iff_of_found (found : m.find? id = some e) (notRail : e.kind ≠ .leftRail) :
    m.Powered v id ↔ Branch.Conducts v e.contacts ∧ ∃ i ∈ e.inputs, m.Powered v i := by
  constructor
  · intro h
    -- the rule that gave the power speaks of the same element, since lookup is a function
    cases h with
    | rail found' isRail =>
        cases found.symm.trans found'
        exact absurd isRail notRail
    | drawn found' isDrawn conducts input fed =>
        cases found.symm.trans found'
        refine ⟨?_, _, input, fed⟩
        intro c hc
        rw [(Element.mem_contacts.1 hc).2]
        exact conducts
    | other found' isOther input fed =>
        cases found.symm.trans found'
        refine ⟨?_, _, input, fed⟩
        intro c hc
        -- an element that is passed over has no contact to conduct
        have hdrawn := (Element.mem_contacts.1 hc).1
        rw [isOther] at hdrawn
        cases hdrawn
  · rintro ⟨hconducts, i, input, fed⟩
    cases hkind : e.kind with
    | leftRail => exact absurd hkind notRail
    | other => exact .other found hkind input fed
    | contact =>
        refine .drawn found (Or.inl hkind) (hconducts e.contact ?_) input fed
        exact Element.mem_contacts.2 ⟨by rw [hkind]; rfl, rfl⟩
    | coil =>
        refine .drawn found (Or.inr hkind) (hconducts e.contact ?_) input fed
        exact Element.mem_contacts.2 ⟨by rw [hkind]; rfl, rfl⟩

/-! ## A branch that reaches the rail -/

theorem branch_conducts_append {a b : Branch} :
    Branch.Conducts v (a ++ b) ↔ Branch.Conducts v a ∧ Branch.Conducts v b :=
  List.forall_mem_append

/-- A branch that reaches the rail and conducts brings power, whatever else feeds the
elements on it. -/
theorem powered_of_traceFrom (hrail : (m.traceFrom visited id).ending = .rail)
    (hconducts : Branch.Conducts v (m.traceFrom visited id).branch) : m.Powered v id := by
  induction visited, id using traceInduction m with
  | seen visited id seen =>
      rw [traceFrom_of_visited seen] at hrail
      cases hrail
  | missing visited id new missing =>
      rw [traceFrom_of_missing new missing] at hrail
      cases hrail
  -- here power starts, and every round before adds one more element to its way
  | rail visited id e new found isRail => exact .rail found isRail
  | unfed visited id e new found notRail unfed =>
      rw [traceFrom_of_unfed new found notRail unfed] at hrail
      cases hrail
  | fed visited id e next new found notRail fed ih =>
      rw [traceFrom_of_fed new found notRail fed] at hrail hconducts
      obtain ⟨hbefore, hself⟩ := branch_conducts_append.1 hconducts
      have hnext : next ∈ e.inputs := List.mem_of_head? fed
      exact (powered_iff_of_found found notRail).2 ⟨hself, next, hnext, ih hrail hbefore⟩

/-! ## Where nothing else feeds a branch -/

theorem SingleFed.behind (h : m.SingleFed id) (found : m.find? id = some e)
    (notRail : e.kind ≠ .leftRail) (fed : e.primary? = some next) : m.SingleFed next := by
  intro x e' hx
  exact h x e' (.behind found notRail fed hx)

/-- The first input of an element that has no second one is its only one. -/
theorem SingleFed.eq_primary (h : m.SingleFed id) (found : m.find? id = some e)
    (notRail : e.kind ≠ .leftRail) (fed : e.primary? = some next) (hi : i ∈ e.inputs) :
    i = next := by
  have hlen := h id e (.here id) found notRail
  obtain ⟨rest, hinputs⟩ := List.head?_eq_some_iff.1 fed
  rw [hinputs, List.length_cons] at hlen
  have hrest : rest = [] := List.length_eq_zero_iff.1 (by omega)
  rw [hinputs, hrest] at hi
  exact List.mem_singleton.1 hi

/-- Power that comes along a single wire comes through everything that is on it. -/
theorem branch_conducts_of_powered (hrail : (m.traceFrom visited id).ending = .rail)
    (hsingle : m.SingleFed id) (hpower : m.Powered v id) :
    Branch.Conducts v (m.traceFrom visited id).branch := by
  induction visited, id using traceInduction m with
  | seen visited id seen =>
      rw [traceFrom_of_visited seen] at hrail
      cases hrail
  | missing visited id new missing =>
      rw [traceFrom_of_missing new missing] at hrail
      cases hrail
  | rail visited id e new found isRail =>
      rw [traceFrom_of_rail new found isRail]
      exact List.forall_mem_nil _
  | unfed visited id e new found notRail unfed =>
      rw [traceFrom_of_unfed new found notRail unfed] at hrail
      cases hrail
  | fed visited id e next new found notRail fed ih =>
      obtain ⟨hself, i, hi, hpi⟩ := (powered_iff_of_found found notRail).1 hpower
      -- the input with power can only be the one that the trace follows
      rw [hsingle.eq_primary found notRail fed hi] at hpi
      rw [traceFrom_of_fed new found notRail fed] at hrail ⊢
      have hbefore := ih hrail (hsingle.behind found notRail fed) hpi
      exact branch_conducts_append.2 ⟨hbefore, hself⟩

/-! ## A trace that does not reach the rail -/

/-- The identifiers have no rail among them, and what feeds them is among them. -/
def Sealed (m : ElementMap) (ids : List String) : Prop :=
  ∀ id ∈ ids, ∀ e, m.find? id = some e → e.kind ≠ .leftRail ∧ ∀ i ∈ e.inputs, i ∈ ids

/-- Elements that only feed each other have no power. -/
theorem not_powered_of_sealed {ids : List String} (hsealed : m.Sealed ids) (hid : id ∈ ids) :
    ¬ m.Powered v id := by
  intro hpower
  -- by the rules of power: its source would be a rail, which is not among them
  induction hpower with
  | rail found isRail => exact (hsealed _ hid _ found).1 isRail
  | drawn found _ _ input _ ih => exact ih ((hsealed _ hid _ found).2 _ input)
  | other found _ input _ ih => exact ih ((hsealed _ hid _ found).2 _ input)

/-- What feeds a visited element was visited, or comes next. -/
def LeadsTo (m : ElementMap) (visited : List String) (id : String) : Prop :=
  ∀ y ∈ visited, ∀ e, m.find? y = some e → e.kind ≠ .leftRail ∧ ∀ i ∈ e.inputs, i ∈ id :: visited

/-- Visiting one more element of a single wire keeps the visited elements fed by each other and
by the next one. -/
theorem LeadsTo.behind (h : m.LeadsTo visited id) (hsingle : m.SingleFed id)
    (found : m.find? id = some e) (notRail : e.kind ≠ .leftRail)
    (fed : e.primary? = some next) : m.LeadsTo (id :: visited) next := by
  intro y hy e' found'
  rcases List.mem_cons.1 hy with rfl | hy
  · cases found.symm.trans found'
    refine ⟨notRail, ?_⟩
    intro i hi
    rw [hsingle.eq_primary found notRail fed hi]
    exact List.mem_cons_self
  · obtain ⟨notRail', hinputs⟩ := h y hy e' found'
    exact ⟨notRail', fun i hi => List.mem_cons_of_mem _ (hinputs i hi)⟩

/-- A visited list that leads to a last identifier is sealed together with it, once nothing
outside feeds that one. -/
theorem LeadsTo.sealed (h : m.LeadsTo visited id)
    (hlast : ∀ e, m.find? id = some e → e.kind ≠ .leftRail ∧ ∀ i ∈ e.inputs, i ∈ id :: visited) :
    m.Sealed (id :: visited) := by
  intro y hy
  rcases List.mem_cons.1 hy with rfl | hy
  · exact hlast
  · exact h y hy

/-- A trace along a single wire that does not reach the rail has met no element with power. -/
theorem not_powered_of_traceFrom (hend : (m.traceFrom visited id).ending ≠ .rail)
    (hsingle : m.SingleFed id) (hvisited : m.LeadsTo visited id) {y : String}
    (hy : y ∈ id :: visited) : ¬ m.Powered v y := by
  -- each way to stop seals what was visited; going on visits one more element
  induction visited, id using traceInduction m with
  -- the circle is closed: the identifier is one of those that are fed by each other
  | seen visited id seen => exact not_powered_of_sealed (hvisited.sealed (hvisited id seen)) hy
  | missing visited id new missing =>
      refine not_powered_of_sealed (hvisited.sealed ?_) hy
      intro e found
      rw [missing] at found
      cases found
  | rail visited id e new found isRail =>
      rw [traceFrom_of_rail new found isRail] at hend
      exact absurd rfl hend
  | unfed visited id e new found notRail unfed =>
      refine not_powered_of_sealed (hvisited.sealed ?_) hy
      intro e' found'
      cases found.symm.trans found'
      have hnone : e.inputs = [] := List.head?_eq_none_iff.1 unfed
      refine ⟨notRail, ?_⟩
      rw [hnone]
      exact List.forall_mem_nil _
  | fed visited id e next new found notRail fed ih =>
      rw [traceFrom_of_fed new found notRail fed] at hend
      exact ih hend (hsingle.behind found notRail fed)
        (hvisited.behind hsingle found notRail fed) (List.mem_cons_of_mem _ hy)

/-! ## Traces and rungs -/

theorem leadsTo_nil : m.LeadsTo [] id := by
  intro y hy
  cases hy

/-- Along a single wire, power and the trace determine each other. -/
theorem powered_iff_trace (hsingle : m.SingleFed id) :
    m.Powered v id ↔ (m.trace id).ending = .rail ∧ Branch.Conducts v (m.trace id).branch := by
  constructor
  · intro hpower
    by_cases hrail : (m.trace id).ending = .rail
    · exact ⟨hrail, branch_conducts_of_powered hrail hsingle hpower⟩
    · exact absurd hpower (not_powered_of_traceFrom hrail hsingle leadsTo_nil List.mem_cons_self)
  · rintro ⟨hrail, hconducts⟩
    exact powered_of_traceFrom hrail hconducts

/-- The branches of a rung are the traces of the coil's inputs that met a contact. -/
theorem mem_branches_rungOf {coil : Element} {b : Branch} :
    b ∈ (m.rungOf coil).branches ↔ ∃ i ∈ coil.inputs, (m.trace i).branch = b ∧ b ≠ [] := by
  simp only [rungOf, List.mem_filter, List.mem_map, Bool.not_eq_true', List.isEmpty_eq_false_iff]
  constructor
  · rintro ⟨⟨i, hi, hb⟩, hne⟩
    exact ⟨i, hi, hb, hne⟩
  · rintro ⟨i, hi, hb, hne⟩
    exact ⟨⟨i, hi, hb⟩, hne⟩

/-- Where every input of a coil is traced to the rail, the rung and the inputs wired to the rail
without a contact say together which inputs conduct. -/
theorem exists_conducting_input_iff {coil : Element} :
    (∃ i ∈ coil.inputs, Branch.Conducts v (m.trace i).branch) ↔
      (m.rungOf coil).Conducts v ∨ ∃ i ∈ coil.inputs, (m.trace i).branch = [] := by
  constructor
  · rintro ⟨i, hi, hconducts⟩
    by_cases hempty : (m.trace i).branch = []
    · exact Or.inr ⟨i, hi, hempty⟩
    · exact Or.inl ⟨_, mem_branches_rungOf.2 ⟨i, hi, rfl, hempty⟩, hconducts⟩
  · rintro (⟨b, hb, hconducts⟩ | ⟨i, hi, hempty⟩)
    · obtain ⟨i, hi, rfl, -⟩ := mem_branches_rungOf.1 hb
      exact ⟨i, hi, hconducts⟩
    · refine ⟨i, hi, ?_⟩
      rw [hempty]
      exact List.forall_mem_nil _

/-- **Meaning of a traced branch.**  A branch traced to the rail brings power when it
conducts; where nothing on the way has a second input it brings power only then, and a
trace that ends elsewhere never brings any.  So the rung of a coil, read as parallel
branches of contacts in series, conducts only if some input of the coil has power, and
where single wires lead from its inputs to the rail it says exactly when one has. -/
theorem trace_meaning (m : ElementMap) (v : Valuation) :
    (∀ i, (m.trace i).ending = .rail → Branch.Conducts v (m.trace i).branch → m.Powered v i) ∧
    (∀ i, (m.trace i).ending = .rail → m.SingleFed i →
      (m.Powered v i ↔ Branch.Conducts v (m.trace i).branch)) ∧
    (∀ i, (m.trace i).ending ≠ .rail → m.SingleFed i → ¬ m.Powered v i) ∧
    (∀ coil ∈ m.elements, coil.kind = .coil →
      m.rungOf coil ∈ m.rungs ∧
      ((∀ i ∈ coil.inputs, (m.trace i).ending = .rail) → (m.rungOf coil).Conducts v →
        ∃ i ∈ coil.inputs, m.Powered v i) ∧
      ((∀ i ∈ coil.inputs, m.SingleFed i) →
        ((∃ i ∈ coil.inputs, m.Powered v i) ↔
          ∃ i ∈ coil.inputs, (m.trace i).ending = .rail ∧
            Branch.Conducts v (m.trace i).branch)) ∧
      ((∀ i ∈ coil.inputs, (m.trace i).ending = .rail ∧ m.SingleFed i) →
        ((∃ i ∈ coil.inputs, m.Powered v i) ↔
          (m.rungOf coil).Conducts v ∨ ∃ i ∈ coil.inputs, (m.trace i).branch = []))) := by
  refine ⟨?_, ?_, ?_, ?_⟩
  · intro i hrail hconducts
    exact powered_of_traceFrom hrail hconducts
  · intro i hrail hsingle
    rw [powered_iff_trace hsingle]
    exact and_iff_right hrail
  · intro i hend hsingle hpower
    exact hend ((powered_iff_trace hsingle).1 hpower).1
  · intro coil hmem hkind
    refine ⟨?_, ?_, ?_, ?_⟩
    · exact List.mem_map_of_mem (List.mem_filter.2 ⟨hmem, by simp [hkind]⟩)
    · intro hrail hrung
      obtain ⟨i, hi, hconducts⟩ := exists_conducting_input_iff.2 (Or.inl hrung)
      exact ⟨i, hi, powered_of_traceFrom (hrail i hi) hconducts⟩
    · intro hsingle
      exact exists_congr fun i => and_congr_right fun hi => powered_iff_trace (hsingle i hi)
    · intro hwires
      rw [← exists_conducting_input_iff]
      refine exists_congr fun i => and_congr_right fun hi => ?_
      rw [powered_iff_trace (hwires i hi).2]
      exact and_iff_right (hwires i hi).1

/-- A motor behind a start contact, a timer block and a negated stop contact, and a lamp
behind two contacts that feed each other. -/
def motorAndLamp : ElementMap where
  elements := [
    ⟨"0", .leftRail, "leftPowerRail", "", false, []⟩,
    ⟨"1", .contact, "contact", "Start", false, ["0"]⟩,
    ⟨"2", .other, "block", "Delay", false, ["1"]⟩,
    ⟨"3", .contact, "contact", "Stop", true, ["2"]⟩,
    ⟨"4", .coil, "coil", "Motor", false, ["3"]⟩,
    ⟨"5", .contact, "contact", "Ahead", false, ["6"]⟩,
    ⟨"6", .contact, "contact", "Back", false, ["5"]⟩,
    ⟨"7", .coil, "coil", "Lamp", false, ["5"]⟩]
  distinct := by decide

theorem motorAndLamp_singleFed (id : String) : motorAndLamp.SingleFed id := by
  intro x e _ found _
  have hall : ∀ e ∈ motorAndLamp.elements, e.inputs.length ≤ 1 := by decide
  exact hall e (mem_of_find? found)

/-- Once started, the motor has power behind it; the lamp has none. -/
theorem motorAndLamp_started :
    (motorAndLamp.trace "3").ending = .rail ∧ motorAndLamp.SingleFed "3" ∧
    motorAndLamp.Powered (· == "Start") "3" ∧
    (motorAndLamp.trace "5").ending = .cycle ∧ motorAndLamp.SingleFed "5" ∧
    ¬ motorAndLamp.Powered (· == "Start") "5" := by
  have hmotor : motorAndLamp.trace "3" =
      ⟨[⟨"Start", false, .contact⟩, ⟨"Stop", true, .contact⟩], .rail⟩ := by cbv
  have hlamp : (motorAndLamp.trace "5").ending = .cycle := by cbv
  have hrail : (motorAndLamp.trace "3").ending = .rail := by rw [hmotor]
  have hsingle := motorAndLamp_singleFed
  obtain ⟨-, hexact, hdead, -⟩ := trace_meaning motorAndLamp (· == "Start")
  refine ⟨hrail, hsingle "3", ?_, hlamp, hsingle "5", ?_⟩
  · rw [hexact "3" hrail (hsingle "3"), hmotor]
    simp [Branch.Conducts, Contact.conducts]
  · exact hdead "5" (by rw [hlamp]; decide) (hsingle "5")

end ElementMap
end LadderLogic
