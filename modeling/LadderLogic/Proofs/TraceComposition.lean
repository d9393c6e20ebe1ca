/-
Traces compose along shared wiring.

A trace from an element goes on to the first input of the element, with one identifier more
on its list of visits than a trace that begins there.  Off a cycle the difference is never
noticed: no trace comes to an identifier that it cannot see (`traceFrom_append_of_unseen`).
On a cycle both traces go round it once, and end where they began; their branches are
rotations of each other (`Walk.reroot` turns the walk of one into that of the other).

`Leads` is a stretch of wiring with the elements on it.  All traces through an identifier
off every cycle share what is between it and the rail (`trace_of_leads`).
-/

import LadderLogic.Proofs.PrimaryChain

namespace LadderLogic
namespace ElementMap

variable {m : ElementMap} {visited : List String} {id next x y z : String} {e : Element}
  {es before after : List Element} {ending : TraceEnd}

/-! ## Visits that make no difference -/

/-- A trace does not notice visits to identifiers that it cannot see. -/
theorem traceFrom_append_of_unseen {unseen : List String} (visited : List String) (id : String)
    (h : ∀ x ∈ unseen, ¬ m.Upstream id x) :
    m.traceFrom (visited ++ unseen) id = m.traceFrom visited id := by
  have hself : ∀ {visited id}, (∀ x ∈ unseen, ¬ m.Upstream id x) → id ∉ visited →
      id ∉ visited ++ unseen := by
    intro visited id h new hmem
    rcases List.mem_append.1 hmem with hvisited | hunseen
    · exact new hvisited
    · exact h id hunseen (.here id)
  -- round by round; the visits that are not seen stay at the end of the list
  induction visited, id using traceInduction m with
  | seen visited id seen =>
      rw [traceFrom_of_visited seen, traceFrom_of_visited (List.mem_append_left _ seen)]
  | missing visited id new missing =>
      rw [traceFrom_of_missing new missing, traceFrom_of_missing (hself h new) missing]
  | rail visited id e new found isRail =>
      rw [traceFrom_of_rail new found isRail, traceFrom_of_rail (hself h new) found isRail]
  | unfed visited id e new found notRail unfed =>
      rw [traceFrom_of_unfed new found notRail unfed,
        traceFrom_of_unfed (hself h new) found notRail unfed]
  | fed visited id e next new found notRail fed ih =>
      -- what is seen from the first input is seen from here
      have hnext := ih fun x hx hseen => h x hx (.behind found notRail fed hseen)
      rw [List.cons_append] at hnext
      rw [traceFrom_of_fed new found notRail fed,
        traceFrom_of_fed (hself h new) found notRail fed, hnext]

/-- Off a cycle, an element comes behind the branch of its first input. -/
theorem trace_of_unseen (found : m.find? x = some e) (notRail : e.kind ≠ .leftRail)
    (fed : e.primary? = some y) (h : ¬ m.Upstream y x) :
    m.trace x = ⟨(m.trace y).branch ++ e.contacts, (m.trace y).ending⟩ := by
  have hunseen : ∀ s ∈ [x], ¬ m.Upstream y s := by
    intro s hs
    rw [List.mem_singleton.1 hs]
    exact h
  have hsame : m.traceFrom [x] y = m.trace y := traceFrom_append_of_unseen [] y hunseen
  rw [trace, traceFrom_of_fed List.not_mem_nil found notRail fed, hsame]

/-! ## Walks round a cycle -/

/-- A walk tells the whole trace. -/
theorem Walk.traceFrom_eq (h : m.Walk visited id es x ending) :
    m.traceFrom visited id =
      ⟨((es ++ m.lastElement x ending).flatMap Element.contacts).reverse, ending⟩ := by
  induction h with
  | @stop visited id ending stops =>
      cases ending with
      | cycle => exact traceFrom_of_visited stops
      | dangling => exact traceFrom_of_missing stops.1 stops.2
      | rail =>
          obtain ⟨new, e, found, isRail⟩ := stops
          exact traceFrom_of_rail new found isRail
      | unfed =>
          obtain ⟨new, e, found, notRail, unfed⟩ := stops
          rw [traceFrom_of_unfed new found notRail unfed]
          simp [lastElement, found, Element.reverse_contacts]
  | pass new found notRail fed _ ih =>
      rw [traceFrom_of_fed new found notRail fed, ih, List.cons_append, List.flatMap_cons,
        List.reverse_append, Element.reverse_contacts]

/-- A walk that begins at a visited identifier is over. -/
theorem Walk.of_seen (h : m.Walk visited id es x ending) (seen : id ∈ visited) :
    es = [] ∧ x = id ∧ ending = .cycle := by
  cases h with
  | stop stops =>
      have hending := stops.ending_eq
      rw [traceFrom_of_visited seen] at hending
      exact ⟨rfl, rfl, hending.symm⟩
  | pass new => exact absurd seen new

/-- A walk begins at the first element that it passes. -/
theorem Walk.head_id (h : m.Walk visited id (e :: es) x ending) : e.id = id := by
  cases h with
  | pass _ found => exact id_of_find? found

/-- The part of a walk that is left behind one of its elements. -/
theorem Walk.behind (h : m.Walk visited id (before ++ e :: after) x ending)
    (fed : e.primary? = some next) :
    m.Walk (((before ++ [e]).map Element.id).reverse ++ visited) next after x ending := by
  induction before generalizing visited id with
  | nil =>
      cases h with
      | pass new found notRail fed' rest =>
          rw [fed] at fed'
          cases fed'
          rw [List.nil_append, List.map_singleton, List.reverse_singleton, id_of_find? found]
          exact rest
  | cons first before ih =>
      cases h with
      | pass new found notRail fed' rest =>
          have hrest := ih rest
          rw [List.cons_append, List.map_cons, List.reverse_cons, id_of_find? found,
            List.append_assoc]
          exact hrest

/-- The part of a walk before one of its elements, for a trace that has visited the element
already: it ends there. -/
theorem Walk.upTo (h : m.Walk visited id (before ++ e :: after) x ending) :
    m.Walk (visited ++ [e.id]) id before e.id .cycle := by
  induction before generalizing visited id with
  | nil =>
      cases h with
      | pass new found notRail fed rest =>
          rw [id_of_find? found]
          exact .stop (List.mem_append_right _ (List.mem_singleton.2 rfl))
  | cons first before ih =>
      have hnodup := h.nodup.1
      cases h with
      | pass new found notRail fed rest =>
          -- the walk has not come to `e` yet, or it would pass it twice
          have hne : id ≠ e.id := by
            rw [List.cons_append, List.map_cons, List.nodup_cons, id_of_find? found] at hnodup
            rintro rfl
            exact hnodup.1 (List.mem_map_of_mem (List.mem_append_right _ List.mem_cons_self))
          refine .pass ?_ found notRail fed (ih rest)
          simp [new, hne]

/-- A walk that can see a fed element passes it. -/
theorem Walk.mem_of_upstream (h : m.Walk [] id es z ending) (hx : m.Upstream id x)
    (found : m.find? x = some e) (notRail : e.kind ≠ .leftRail) (fed : e.primary? = some next) :
    e ∈ es := by
  have hid : x ∈ es.map Element.id := by
    obtain ⟨k, hk, hchain⟩ := h.upstream_iff.1 hx
    rcases Nat.lt_or_eq_of_le hk with hlt | rfl
    · exact h.mem_ids_iff.2 ⟨k, hlt, hchain⟩
    · -- the walk stops at the element, and can only do so because it passed it before
      rw [h.chain_length] at hchain
      cases hchain
      have hstops := h.stops
      rw [List.append_nil] at hstops
      cases ending with
      | cycle => exact List.mem_reverse.1 hstops
      | dangling => cases found.symm.trans hstops.2
      | rail =>
          obtain ⟨-, e', found', isRail⟩ := hstops
          cases found.symm.trans found'
          exact absurd isRail notRail
      | unfed =>
          obtain ⟨-, e', found', -, unfed⟩ := hstops
          cases found.symm.trans found'
          cases fed.symm.trans unfed
  obtain ⟨e', he', rfl⟩ := List.mem_map.1 hid
  have found' := (h.passes e' he').1
  cases found.symm.trans found'
  exact he'

/-- The walk round a cycle, begun at the first input of an element and begun at the element:
the element is the last one passed by the one, and the first one passed by the other. -/
theorem Walk.reroot (found : m.find? x = some e) (notRail : e.kind ≠ .leftRail)
    (fed : e.primary? = some y) (hx : m.Upstream y x) :
    ∃ others, m.Walk [] y (others ++ [e]) y .cycle ∧ m.Walk [] x (e :: others) x .cycle := by
  obtain ⟨es, z, hwalk, -⟩ := m.exists_walk [] y
  obtain ⟨before, after, rfl⟩ := List.append_of_mem (hwalk.mem_of_upstream hx found notRail fed)
  -- behind the element the walk comes to `y`, where it began
  have hseen : y ∈ ((before ++ [e]).map Element.id).reverse ++ [] := by
    cases before with
    | nil => simp [hwalk.head_id]
    | cons first before => simp [hwalk.head_id]
  obtain ⟨rfl, rfl, hcycle⟩ := (hwalk.behind fed).of_seen hseen
  rw [hcycle] at hwalk
  -- begun at the element, it comes to the element again instead
  have hupTo := hwalk.upTo
  rw [id_of_find? found] at hupTo
  exact ⟨before, hwalk, .pass List.not_mem_nil found notRail fed hupTo⟩

/-- On a cycle, the traces from an element and from its first input go round once. -/
theorem trace_of_seen (found : m.find? x = some e) (notRail : e.kind ≠ .leftRail)
    (fed : e.primary? = some y) (h : m.Upstream y x) :
    ∃ others, m.trace x = ⟨others ++ e.contacts, .cycle⟩ ∧
      m.trace y = ⟨e.contacts ++ others, .cycle⟩ := by
  obtain ⟨others, hwalk, hrerooted⟩ := Walk.reroot found notRail fed h
  refine ⟨(others.flatMap Element.contacts).reverse, ?_, ?_⟩
  · rw [trace, hrerooted.traceFrom_eq]
    simp [lastElement, Element.reverse_contacts]
  · rw [trace, hwalk.traceFrom_eq]
    simp [lastElement, Element.reverse_contacts]

/-! ## Stretches of wiring -/

/-- Following first inputs from one identifier passes the elements and leads to the other.
No rail is passed. -/
inductive Leads (m : ElementMap) : String → List Element → String → Prop
  | here (id : String) : Leads m id [] id
  | behind {id next x : String} {e : Element} {es : List Element} (found : m.find? id = some e)
      (notRail : e.kind ≠ .leftRail) (fed : e.primary? = some next)
      (rest : Leads m next es x) : Leads m id (e :: es) x

/-- Following first inputs leads back to the identifier.  No rail is passed. -/
def OnCycle (m : ElementMap) (x : String) : Prop := ∃ e es, m.Leads x (e :: es) x

theorem upstream_iff_leads : m.Upstream id x ↔ ∃ es, m.Leads id es x := by
  constructor
  · intro h
    induction h with
    | here id => exact ⟨[], .here id⟩
    | behind found notRail fed _ ih =>
        obtain ⟨es, hes⟩ := ih
        exact ⟨_, .behind found notRail fed hes⟩
  · rintro ⟨es, h⟩
    induction h with
    | here id => exact .here id
    | behind found notRail fed _ ih => exact .behind found notRail fed ih

theorem Leads.trans (h : m.Leads id before x) (h' : m.Leads x after y) :
    m.Leads id (before ++ after) y := by
  induction h with
  | here => exact h'
  | behind found notRail fed _ ih => exact .behind found notRail fed (ih h')

/-- Where a cycle leads is on the cycle. -/
theorem OnCycle.of_leads (hcycle : m.OnCycle id) (h : m.Leads id es x) : m.OnCycle x := by
  induction h with
  | here => exact hcycle
  | behind found notRail fed _ ih =>
      obtain ⟨first, round, hround⟩ := hcycle
      -- the way round from the next identifier: what is left of it, and then this element
      cases hround with
      | behind found' _ fed' hrest =>
          cases found.symm.trans found'
          cases fed.symm.trans fed'
          have hback := hrest.trans (.behind found notRail fed (.here _))
          apply ih
          cases round with
          | nil => exact ⟨_, _, hback⟩
          | cons second round => exact ⟨_, _, hback⟩

/-- All traces that come to an identifier off every cycle go on as the trace from there. -/
theorem trace_of_leads (hoff : ¬ m.OnCycle z) (h : m.Leads id es z) :
    m.trace id =
      ⟨(m.trace z).branch ++ (es.flatMap Element.contacts).reverse, (m.trace z).ending⟩ := by
  induction h with
  | here => rw [List.flatMap_nil, List.reverse_nil, List.append_nil]
  | @behind id next z e es found notRail fed rest ih =>
      -- a cycle through `id` would be one through `z`
      have hunseen : ¬ m.Upstream next id := by
        intro hback
        obtain ⟨round, hround⟩ := upstream_iff_leads.1 hback
        have hcycle : m.OnCycle id := ⟨e, round, .behind found notRail fed hround⟩
        exact hoff (hcycle.of_leads (.behind found notRail fed rest))
      rw [trace_of_unseen found notRail fed hunseen, ih hoff, List.flatMap_cons,
        List.reverse_append, Element.reverse_contacts, List.append_assoc]

/-- What an element adds to a branch stands at the end of the branch of its own trace. -/
theorem contacts_suffix_trace (found : m.find? x = some e) :
    e.contacts <:+ (m.trace x).branch := by
  rw [trace, traceFrom_of_found List.not_mem_nil found]
  by_cases hrail : e.kind = .leftRail
  · have hnone : e.contacts = [] := Element.contacts_of_not_drawn (by rw [hrail]; rfl)
    simp [hrail, hnone]
  · rw [if_neg hrail]
    cases e.primary? with
    | none => exact List.suffix_refl _
    | some next => exact List.suffix_append _ _

/-- **Traces compose along shared wiring.**  Off a cycle, the trace from an element is the
trace from its first input with the element behind it.  On a cycle, both traces end as
cycles, and the element moves from the end of the branch to the front.  So the traces from
any two identifiers that lead to one off every cycle have what comes from the rail up to
and including it in common, and the same end. -/
theorem trace_composes (m : ElementMap) :
    (∀ x e y, m.find? x = some e → e.kind ≠ .leftRail → e.primary? = some y →
      (¬ m.Upstream y x →
        m.trace x = ⟨(m.trace y).branch ++ e.contacts, (m.trace y).ending⟩) ∧
      (m.Upstream y x → (m.trace x).ending = .cycle ∧ (m.trace y).ending = .cycle ∧
        ∃ others, (m.trace x).branch = others ++ e.contacts ∧
          (m.trace y).branch = e.contacts ++ others)) ∧
    ∀ z e, m.find? z = some e → ¬ m.OnCycle z →
      e.contacts <:+ (m.trace z).branch ∧
      ∀ i j es es', m.Leads i es z → m.Leads j es' z →
        m.trace i =
          ⟨(m.trace z).branch ++ (es.flatMap Element.contacts).reverse, (m.trace z).ending⟩ ∧
        m.trace j =
          ⟨(m.trace z).branch ++ (es'.flatMap Element.contacts).reverse, (m.trace z).ending⟩ := by
  constructor
  · intro x e y found notRail fed
    refine ⟨trace_of_unseen found notRail fed, ?_⟩
    intro hcycle
    obtain ⟨others, hx, hy⟩ := trace_of_seen found notRail fed hcycle
    rw [hx, hy]
    exact ⟨rfl, rfl, others, rfl, rfl⟩
  · intro z e found hoff
    refine ⟨contacts_suffix_trace found, ?_⟩
    intro i j es es' hi hj
    exact ⟨trace_of_leads hoff hi, trace_of_leads hoff hj⟩

/-- Two contacts behind a third one feed a motor.  Two others run in a circle through a
block, and a lamp hangs on one of them. -/
def sharedStart : ElementMap where
  elements := [
    ⟨"0", .leftRail, "leftPowerRail", "", false, []⟩,
    ⟨"1", .contact, "contact", "Ready", false, ["0"]⟩,
    ⟨"2", .contact, "contact", "Start", false, ["1"]⟩,
    ⟨"3", .contact, "contact", "Hold", true, ["1"]⟩,
    ⟨"4", .coil, "coil", "Motor", false, ["2", "3"]⟩,
    ⟨"5", .contact, "contact", "Ahead", false, ["6"]⟩,
    ⟨"6", .other, "block", "Delay", false, ["7"]⟩,
    ⟨"7", .contact, "contact", "Back", true, ["5"]⟩,
    ⟨"8", .coil, "coil", "Lamp", false, ["5"]⟩]
  distinct := by decide

/-- The branches of the motor begin alike; the circle is gone round from either contact; the
lamp comes behind it. -/
theorem trace_composes_sharedStart :
    (¬ sharedStart.OnCycle "1" ∧
      sharedStart.trace "2" =
        ⟨[⟨"Ready", false, .contact⟩] ++ [⟨"Start", false, .contact⟩], .rail⟩ ∧
      sharedStart.trace "3" =
        ⟨[⟨"Ready", false, .contact⟩] ++ [⟨"Hold", true, .contact⟩], .rail⟩) ∧
    (sharedStart.Upstream "5" "7" ∧
      ∃ others, (sharedStart.trace "7").branch = others ++ [⟨"Back", true, .contact⟩] ∧
        (sharedStart.trace "5").branch = [⟨"Back", true, .contact⟩] ++ others) ∧
    ¬ sharedStart.Upstream "5" "8" ∧
    sharedStart.trace "8" =
      ⟨(sharedStart.trace "5").branch ++ [⟨"Lamp", false, .coil⟩], .cycle⟩ := by
  obtain ⟨hsteps, hshared⟩ := trace_composes sharedStart
  have hoff : ¬ sharedStart.OnCycle "1" := by
    rintro ⟨e, es, hround⟩
    cases hround with
    | behind found _ fed hrest =>
        -- from the rail, nothing but the rail is seen
        cases found
        cases fed
        have hmem : "1" ∈ ["0"] :=
          (upstream_iff_leads.2 ⟨es, hrest⟩).mem_of_closed (by decide) (by decide)
        exact absurd hmem (by decide)
  have hround : sharedStart.Upstream "5" "7" :=
    .behind rfl (by decide) rfl (.behind rfl (by decide) rfl (.here "7"))
  have hlamp : ¬ sharedStart.Upstream "5" "8" := by
    intro hseen
    have hmem : "8" ∈ ["5", "6", "7"] := hseen.mem_of_closed (by decide) (by decide)
    exact absurd hmem (by decide)
  have hready : sharedStart.trace "1" = ⟨[⟨"Ready", false, .contact⟩], .rail⟩ := by cbv
  obtain ⟨-, htraces⟩ := hshared "1" _ rfl hoff
  obtain ⟨hstart, hhold⟩ := htraces "2" "3" _ _ (.behind rfl (by decide) rfl (.here "1"))
    (.behind rfl (by decide) rfl (.here "1"))
  rw [hready] at hstart hhold
  obtain ⟨-, hcycle, hothers⟩ := (hsteps "7" _ "5" rfl (by decide) rfl).2 hround
  refine ⟨⟨hoff, hstart, hhold⟩, ⟨hround, hothers⟩, hlamp, ?_⟩
  rw [(hsteps "8" _ "5" rfl (by decide) rfl).1 hlamp, hcycle]
  rfl

/-- A contact behind a rail that the contact feeds. -/
def fedRail : ElementMap where
  elements := [
    ⟨"0", .leftRail, "leftPowerRail", "", false, ["1"]⟩,
    ⟨"1", .contact, "contact", "Start", false, ["0"]⟩,
    ⟨"2", .coil, "coil", "Motor", false, ["1", "0"]⟩]
  distinct := by decide

/-- First inputs that come back through a rail make no cycle: a trace ends at the rail, and
the branches are no rotations of each other. -/
theorem trace_ends_at_fed_rail :
    ∃ e, fedRail.find? "1" = some e ∧ e.kind ≠ .leftRail ∧ e.primary? = some "0" ∧
      (∃ k, fedRail.chain "0" k = some "1") ∧
      fedRail.trace "1" = ⟨e.contacts, .rail⟩ ∧ fedRail.trace "0" = ⟨[], .rail⟩ ∧
      ¬ ((fedRail.trace "1").ending = .cycle ∧ (fedRail.trace "0").ending = .cycle ∧
        ∃ others, (fedRail.trace "1").branch = others ++ e.contacts ∧
          (fedRail.trace "0").branch = e.contacts ++ others) := by
  have hcontact : fedRail.trace "1" = ⟨[⟨"Start", false, .contact⟩], .rail⟩ := by cbv
  have hrail : fedRail.trace "0" = ⟨[], .rail⟩ := by cbv
  refine ⟨_, rfl, by decide, rfl, ⟨1, rfl⟩, hcontact, hrail, ?_⟩
  rintro ⟨-, hcycle, -⟩
  rw [hrail] at hcycle
  cases hcycle

end ElementMap
end LadderLogic
