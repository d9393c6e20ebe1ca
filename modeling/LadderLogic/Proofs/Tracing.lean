/-
Traces, one round at a time.

A trace looks at one identifier in each round.  The round has five outcomes: the
identifier was visited before, no element has it, its element is a rail, its element is
fed by nothing, or the trace goes on to the first input of its element.  There is one
lemma for what each outcome adds to the trace, and `traceInduction` is the induction over
rounds.  Later modules use these and do not open `traceFrom` again.

`Upstream` is what a trace can see: the identifiers met when first inputs are followed,
up to and including a rail.
-/

import LadderLogic.Rung
import Mathlib.Data.List.Nodup

namespace LadderLogic
namespace ElementMap

variable {m : ElementMap} {visited : List String} {id next : String} {e : Element}

/-! ## Finding elements -/

theorem mem_of_find? (found : m.find? id = some e) : e ∈ m.elements :=
  List.mem_of_find?_eq_some found

theorem id_of_find? (found : m.find? id = some e) : e.id = id := by
  simpa using List.find?_some found

/-- Identifiers are distinct, so every element is found under its own. -/
theorem find?_of_mem (h : e ∈ m.elements) : m.find? e.id = some e := by
  -- something is found, since `e` itself would do
  have hsome : (m.find? e.id).isSome = true := by
    rw [find?, List.find?_isSome]
    exact ⟨e, h, beq_self_eq_true e.id⟩
  obtain ⟨x, hx⟩ := Option.isSome_iff_exists.1 hsome
  have heq : x = e := List.inj_on_of_nodup_map m.distinct (mem_of_find? hx) h (id_of_find? hx)
  rw [hx, heq]

theorem find?_eq_some_iff : m.find? id = some e ↔ e ∈ m.elements ∧ e.id = id := by
  constructor
  · intro found
    exact ⟨mem_of_find? found, id_of_find? found⟩
  · rintro ⟨h, rfl⟩
    exact find?_of_mem h

/-! ## The outcomes of a round -/

theorem traceFrom_of_visited (seen : id ∈ visited) :
    m.traceFrom visited id = ⟨[], .cycle⟩ := by
  rw [traceFrom, dif_pos (by simpa using seen)]

theorem traceFrom_of_missing (new : id ∉ visited) (missing : m.find? id = none) :
    m.traceFrom visited id = ⟨[], .dangling⟩ := by
  rw [traceFrom, dif_neg (by simpa using new)]
  split
  · rfl
  · next found => rw [missing] at found; cases found

/-- A round at an element goes by its kind and its first input only. -/
theorem traceFrom_of_found (new : id ∉ visited) (found : m.find? id = some e) :
    m.traceFrom visited id =
      if e.kind = .leftRail then ⟨[], .rail⟩
      else match e.primary? with
        | none => ⟨e.contacts, .unfed⟩
        | some next =>
          ⟨(m.traceFrom (id :: visited) next).branch ++ e.contacts,
            (m.traceFrom (id :: visited) next).ending⟩ := by
  rw [traceFrom, dif_neg (by simpa using new)]
  -- the match remembers what it matched on, so that `found` cannot be rewritten into it
  split
  · next missing => rw [found] at missing; cases missing
  · next e' found' =>
      rw [found] at found'
      cases found'
      rfl

theorem traceFrom_of_rail (new : id ∉ visited) (found : m.find? id = some e)
    (rail : e.kind = .leftRail) : m.traceFrom visited id = ⟨[], .rail⟩ := by
  rw [traceFrom_of_found new found, if_pos rail]

theorem traceFrom_of_unfed (new : id ∉ visited) (found : m.find? id = some e)
    (notRail : e.kind ≠ .leftRail) (unfed : e.primary? = none) :
    m.traceFrom visited id = ⟨e.contacts, .unfed⟩ := by
  rw [traceFrom_of_found new found, if_neg notRail, unfed]

theorem traceFrom_of_fed (new : id ∉ visited) (found : m.find? id = some e)
    (notRail : e.kind ≠ .leftRail) (fed : e.primary? = some next) :
    m.traceFrom visited id =
      ⟨(m.traceFrom (id :: visited) next).branch ++ e.contacts,
        (m.traceFrom (id :: visited) next).ending⟩ := by
  rw [traceFrom_of_found new found, if_neg notRail, fed]

/-- Induction over the rounds of a trace. -/
theorem traceInduction (m : ElementMap) {motive : List String → String → Prop}
    (seen : ∀ visited id, id ∈ visited → motive visited id)
    (missing : ∀ visited id, id ∉ visited → m.find? id = none → motive visited id)
    (rail : ∀ visited id e, id ∉ visited → m.find? id = some e → e.kind = .leftRail →
      motive visited id)
    (unfed : ∀ visited id e, id ∉ visited → m.find? id = some e → e.kind ≠ .leftRail →
      e.primary? = none → motive visited id)
    (fed : ∀ visited id e next, id ∉ visited → m.find? id = some e → e.kind ≠ .leftRail →
      e.primary? = some next → motive (id :: visited) next → motive visited id)
    (visited : List String) (id : String) : motive visited id := by
  -- the recursion of `traceFrom`, with its Boolean test for a visit turned into membership
  induction visited, id using traceFrom.induct m with
  | case1 visited id h => exact seen visited id (by simpa using h)
  | case2 visited id h hf => exact missing visited id (by simpa using h) hf
  | case3 visited id h e hf hr => exact rail visited id e (by simpa using h) hf hr
  | case4 visited id h e hf hr hp => exact unfed visited id e (by simpa using h) hf hr hp
  | case5 visited id h e hf hr next hp _ ih =>
      exact fed visited id e next (by simpa using h) hf hr hp ih

/-! ## What a trace can see -/

/-- Following first inputs from one identifier leads to the other.  A rail is not followed
any further. -/
inductive Upstream (m : ElementMap) : String → String → Prop
  | here (id : String) : Upstream m id id
  | behind {id next x : String} {e : Element} (found : m.find? id = some e)
      (notRail : e.kind ≠ .leftRail) (fed : e.primary? = some next)
      (rest : Upstream m next x) : Upstream m id x

/-- Chains stay within identifiers that hold the first inputs of their elements. -/
theorem Upstream.mem_of_closed {x : String} {ids : List String} (h : m.Upstream id x)
    (hid : id ∈ ids)
    (hclosed : ∀ e ∈ m.elements, e.id ∈ ids → e.kind ≠ .leftRail →
      ∀ next ∈ e.primary?, next ∈ ids) : x ∈ ids := by
  -- along the chain, with the start of what is left of it kept inside
  induction h with
  | here => exact hid
  | behind found notRail fed _ ih =>
      refine ih (hclosed _ (mem_of_find? found) ?_ notRail _ fed)
      rw [id_of_find? found]
      exact hid

end ElementMap

/-! ## What an element adds to a branch -/

theorem ElementKind.isDrawn_iff (kind : ElementKind) :
    kind.isDrawn = true ↔ kind = .contact ∨ kind = .coil := by
  cases kind <;> decide

/-- The place of an element on a branch, if it is drawn. -/
def Element.contact (e : Element) : Contact := ⟨e.operand, e.negated, e.kind⟩

theorem Element.contacts_of_drawn {e : Element} (h : e.kind.isDrawn = true) :
    e.contacts = [e.contact] := by
  rw [contacts, if_pos h, contact]

theorem Element.contacts_of_not_drawn {e : Element} (h : e.kind.isDrawn = false) :
    e.contacts = [] := by
  rw [contacts, if_neg (by simp [h])]

theorem Element.mem_contacts {e : Element} {c : Contact} :
    c ∈ e.contacts ↔ e.kind.isDrawn = true ∧ c = e.contact := by
  cases h : e.kind.isDrawn with
  | true => simp [contacts_of_drawn h]
  | false => simp [contacts_of_not_drawn h]

end LadderLogic
