/-
Rungs depend only on what chains of first inputs can see.

Two programs whose coils agree, and whose chains from the inputs of coils agree element by
element under a renaming, have the same rungs (`rungs_eq_of_seenAlike`).  The two traces
are kept in step round by round: what one has visited is the image of what the other has
visited, and the renaming is injective, so that one comes back to an element exactly when
the other does.

Renaming, reordering, tags, later inputs of elements that are not coils, and elements out of
reach of every chain are then special cases.
-/

import LadderLogic.Proofs.Tracing
import Mathlib.Data.List.Forall2
import Mathlib.Data.List.Perm.Subperm

namespace LadderLogic

/-! ## Two views -/

/-- To a trace, the second element looks like the first one under new identifiers. -/
structure Element.LooksLike (r : String → String) (e e' : Element) : Prop where
  kind : e'.kind = e.kind
  label : e.kind = .contact ∨ e.kind = .coil →
    e'.operand = e.operand ∧ e'.negated = e.negated
  primary : e.kind ≠ .leftRail → e'.primary? = e.primary?.map r

theorem Element.LooksLike.contacts_eq {r : String → String} {e e' : Element}
    (h : e.LooksLike r e') : e'.contacts = e.contacts := by
  cases hdrawn : e.kind.isDrawn with
  | true =>
      obtain ⟨hoperand, hnegated⟩ := h.label ((ElementKind.isDrawn_iff e.kind).1 hdrawn)
      rw [contacts_of_drawn hdrawn, contacts_of_drawn (by rw [h.kind, hdrawn]), contact, contact,
        hoperand, hnegated, h.kind]
  | false => rw [contacts_of_not_drawn hdrawn, contacts_of_not_drawn (by rw [h.kind, hdrawn])]

namespace ElementMap

variable {m m' : ElementMap} {r : String → String} {id x : String}

/-- The coils of a program, in order. -/
def coils (m : ElementMap) : List Element := m.elements.filter (·.kind = .coil)

theorem rungs_eq_map_coils (m : ElementMap) : m.rungs = m.coils.map m.rungOf := rfl

/-- Under both its names an identifier has an element that looks the same, or has none. -/
def Alike (r : String → String) (m m' : ElementMap) (x : String) : Prop :=
  Option.Rel (Element.LooksLike r) (m.find? x) (m'.find? (r x))

/-- The coils of both programs agree one by one, and so does everything that chains from
their inputs lead to.  Nothing is asked of what lies behind a rail. -/
structure SeenAlike (r : String → String) (m m' : ElementMap) : Prop where
  coils : List.Forall₂ (fun coil coil' => coil'.operand = coil.operand ∧
    coil'.negated = coil.negated ∧ coil'.inputs = coil.inputs.map r) m.coils m'.coils
  chains : ∀ coil ∈ m.coils, ∀ i ∈ coil.inputs, ∀ x, m.Upstream i x → Alike r m m' x

theorem Alike.find?_eq_none (h : Alike r m m' x) (missing : m.find? x = none) :
    m'.find? (r x) = none := by
  rw [Alike, missing] at h
  cases hx : m'.find? (r x) with
  | none => rfl
  | some e' => rw [hx] at h; cases h

theorem Alike.exists_find? {e : Element} (h : Alike r m m' x) (found : m.find? x = some e) :
    ∃ e', m'.find? (r x) = some e' ∧ e.LooksLike r e' := by
  rw [Alike, found] at h
  cases hx : m'.find? (r x) with
  | none => rw [hx] at h; cases h
  | some e' =>
      rw [hx, Option.rel_some_some] at h
      exact ⟨e', rfl, h⟩

/-! ## Two traces in step -/

/-- Traces that see the same give the same result. -/
theorem traceFrom_eq_of_alike (hr : Function.Injective r) (visited : List String)
    (h : ∀ x, m.Upstream id x → Alike r m m' x) :
    m'.traceFrom (visited.map r) (r id) = m.traceFrom visited id := by
  -- by the rounds of the first trace; the second one has visited the images
  induction visited, id using traceInduction m with
  | seen visited id seen =>
      rw [traceFrom_of_visited seen, traceFrom_of_visited (List.mem_map_of_mem seen)]
  | missing visited id new missing =>
      -- this is where two identifiers must not get the same name
      have new' : r id ∉ visited.map r := mt (List.mem_map_of_injective hr).1 new
      have missing' := (h id (.here id)).find?_eq_none missing
      rw [traceFrom_of_missing new missing, traceFrom_of_missing new' missing']
  | rail visited id e new found isRail =>
      have new' : r id ∉ visited.map r := mt (List.mem_map_of_injective hr).1 new
      obtain ⟨e', found', hlike⟩ := (h id (.here id)).exists_find? found
      have isRail' : e'.kind = .leftRail := hlike.kind.trans isRail
      rw [traceFrom_of_rail new found isRail, traceFrom_of_rail new' found' isRail']
  | unfed visited id e new found notRail unfed =>
      have new' : r id ∉ visited.map r := mt (List.mem_map_of_injective hr).1 new
      obtain ⟨e', found', hlike⟩ := (h id (.here id)).exists_find? found
      have notRail' : e'.kind ≠ .leftRail := by rw [hlike.kind]; exact notRail
      have unfed' : e'.primary? = none := by rw [hlike.primary notRail, unfed, Option.map_none]
      rw [traceFrom_of_unfed new found notRail unfed,
        traceFrom_of_unfed new' found' notRail' unfed', hlike.contacts_eq]
  | fed visited id e next new found notRail fed ih =>
      have new' : r id ∉ visited.map r := mt (List.mem_map_of_injective hr).1 new
      obtain ⟨e', found', hlike⟩ := (h id (.here id)).exists_find? found
      have notRail' : e'.kind ≠ .leftRail := by rw [hlike.kind]; exact notRail
      have fed' : e'.primary? = some (r next) := by
        rw [hlike.primary notRail, fed, Option.map_some]
      -- what is seen from the next identifier was seen from this one
      have hbefore := ih fun x hx => h x (.behind found notRail fed hx)
      rw [List.map_cons] at hbefore
      rw [traceFrom_of_fed new found notRail fed, traceFrom_of_fed new' found' notRail' fed',
        hlike.contacts_eq, hbefore]

theorem trace_eq_of_alike (hr : Function.Injective r)
    (h : ∀ x, m.Upstream id x → Alike r m m' x) : m'.trace (r id) = m.trace id :=
  traceFrom_eq_of_alike hr [] h

/-- Coils that agree, with inputs that see the same, have the same rung. -/
theorem rungOf_eq_of_alike {coil coil' : Element} (hr : Function.Injective r)
    (hchains : ∀ i ∈ coil.inputs, ∀ x, m.Upstream i x → Alike r m m' x)
    (hoperand : coil'.operand = coil.operand) (hnegated : coil'.negated = coil.negated)
    (hinputs : coil'.inputs = coil.inputs.map r) : m.rungOf coil = m'.rungOf coil' := by
  have htraces : coil'.inputs.map (fun i => (m'.trace i).branch) =
      coil.inputs.map fun i => (m.trace i).branch := by
    rw [hinputs, List.map_map]
    apply List.map_congr_left
    intro i hi
    rw [Function.comp_apply, trace_eq_of_alike hr (hchains i hi)]
  rw [rungOf, rungOf, hoperand, hnegated, htraces]

/-- Programs that look alike to all traces have the same rungs. -/
theorem rungs_eq_of_seenAlike (hr : Function.Injective r) (h : SeenAlike r m m') :
    m.rungs = m'.rungs := by
  -- coil by coil, each with what its inputs see
  have hpairs := (List.forall₂_and_left _ _).2 ⟨h.chains, h.coils⟩
  rw [rungs_eq_map_coils, rungs_eq_map_coils, ← List.forall₂_eq_eq_eq,
    List.forall₂_map_left_iff, List.forall₂_map_right_iff]
  refine hpairs.imp ?_
  rintro coil coil' ⟨hchains, hoperand, hnegated, hinputs⟩
  exact rungOf_eq_of_alike hr hchains hoperand hnegated hinputs

/-! ## New identifiers -/

end ElementMap

/-- An element under new identifiers. -/
def Element.rename (r : String → String) (e : Element) : Element :=
  { e with id := r e.id, inputs := e.inputs.map r }

theorem Element.looksLike_rename (r : String → String) (e : Element) :
    e.LooksLike r (e.rename r) where
  kind := rfl
  label _ := ⟨rfl, rfl⟩
  primary _ := List.head?_map

/-- Two elements that differ in tags at most, and in later inputs if they are no coils. -/
structure Element.SameFront (e e' : Element) : Prop where
  id : e'.id = e.id
  kind : e'.kind = e.kind
  operand : e'.operand = e.operand
  negated : e'.negated = e.negated
  primary : e'.primary? = e.primary?
  inputs : e.kind = .coil → e'.inputs = e.inputs

theorem Element.SameFront.looksLike {e e' : Element} (h : e.SameFront e') :
    e.LooksLike (fun x => x) e' where
  kind := h.kind
  label _ := ⟨h.operand, h.negated⟩
  primary _ := by rw [h.primary]; simp

theorem Element.SameFront.refl (e : Element) : e.SameFront e :=
  ⟨rfl, rfl, rfl, rfl, rfl, fun _ => rfl⟩

namespace ElementMap

variable {m m' : ElementMap} {r : String → String} {x : String}

/-- A program under new identifiers. -/
def rename (m : ElementMap) (r : String → String) (hr : Function.Injective r) : ElementMap where
  elements := m.elements.map (Element.rename r)
  distinct := by
    have hids : (m.elements.map (Element.rename r)).map Element.id = m.ids.map r := by
      rw [ids, List.map_map, List.map_map]
      rfl
    rw [hids]
    exact m.distinct.map hr

theorem find?_rename (hr : Function.Injective r) :
    (m.rename r hr).find? (r x) = (m.find? x).map (Element.rename r) := by
  rw [find?, find?, rename, List.find?_map]
  congr 2
  funext e
  simp [Element.rename, hr.eq_iff]

theorem seenAlike_rename (hr : Function.Injective r) : SeenAlike r m (m.rename r hr) where
  coils := by
    have hcoils : (m.rename r hr).coils = m.coils.map (Element.rename r) := by
      rw [coils, coils, rename, List.filter_map]
      rfl
    rw [hcoils, List.forall₂_map_right_iff, List.forall₂_same]
    intro coil _
    exact ⟨rfl, rfl, rfl⟩
  chains coil _ i _ x _ := by
    rw [Alike, find?_rename hr]
    cases m.find? x with
    | none => exact .none
    | some e => exact .some (e.looksLike_rename r)

/-! ## The same identifiers -/

theorem alike_of_sameFront (h : Option.Rel Element.SameFront (m.find? x) (m'.find? x)) :
    Alike (fun x => x) m m' x := by
  rw [Alike]
  generalize m.find? x = found, m'.find? x = found' at h ⊢
  cases h with
  | none => exact .none
  | some hfront => exact .some hfront.looksLike

theorem alike_of_find?_eq (h : m'.find? x = m.find? x) : Alike (fun x => x) m m' x := by
  apply alike_of_sameFront
  rw [h]
  cases m.find? x with
  | none => exact .none
  | some e => exact .some (.refl e)

/-- Coils that differ in their tags at most are coils that agree. -/
theorem seenAlike_of_sameFront (hcoils : List.Forall₂ Element.SameFront m.coils m'.coils)
    (hchains : ∀ coil ∈ m.coils, ∀ i ∈ coil.inputs, ∀ x, m.Upstream i x →
      Alike (fun x => x) m m' x) : SeenAlike (fun x => x) m m' := by
  refine ⟨?_, hchains⟩
  have hkinds : ∀ coil ∈ m.coils, coil.kind = .coil := by
    intro coil hcoil
    simpa using (List.mem_filter.1 hcoil).2
  refine ((List.forall₂_and_left _ _).2 ⟨hkinds, hcoils⟩).imp ?_
  rintro coil coil' ⟨hkind, hfront⟩
  exact ⟨hfront.operand, hfront.negated, by rw [hfront.inputs hkind]; simp⟩

/-- Tags, and the later inputs of elements that are no coils, have no say in the rungs. -/
theorem rungs_eq_of_sameFront (h : List.Forall₂ Element.SameFront m.elements m'.elements) :
    m'.rungs = m.rungs := by
  have hfind : ∀ {l l' : List Element} (x : String), List.Forall₂ Element.SameFront l l' →
      Option.Rel Element.SameFront (l.find? (·.id == x)) (l'.find? (·.id == x)) := by
    intro l l' x hl
    induction hl with
    | nil => exact .none
    | cons hfront _ ih =>
        rw [List.find?_cons, List.find?_cons, hfront.id]
        split
        · exact .some hfront
        · exact ih
  have hcoils : List.Forall₂ Element.SameFront m.coils m'.coils := by
    refine List.rel_filter ?_ h
    intro e e' hfront
    simp [hfront.kind]
  refine (rungs_eq_of_seenAlike Function.injective_id (seenAlike_of_sameFront hcoils ?_)).symm
  intro coil _ i _ x _
  exact alike_of_sameFront (hfind x h)

theorem find?_eq_of_perm (h : m'.elements.Perm m.elements) : m'.find? x = m.find? x := by
  apply Option.ext
  intro e
  rw [find?_eq_some_iff, find?_eq_some_iff, h.mem_iff]

/-- The order of the elements has no say in what the rung of a coil is. -/
theorem rungOf_eq_of_perm (h : m'.elements.Perm m.elements) (coil : Element) :
    m'.rungOf coil = m.rungOf coil :=
  (rungOf_eq_of_alike Function.injective_id (fun _ _ _ _ => alike_of_find?_eq (find?_eq_of_perm h))
    rfl rfl (by simp)).symm

theorem rungs_eq_of_perm (h : m'.elements.Perm m.elements) : m'.rungs = m'.coils.map m.rungOf := by
  rw [rungs_eq_map_coils]
  exact List.map_congr_left fun coil _ => rungOf_eq_of_perm h coil

/-! ## Elements out of reach -/

/-- No chain from an input of a coil leads to the identifier. -/
def OutOfReach (m : ElementMap) (x : String) : Prop :=
  ∀ coil ∈ m.coils, ∀ i ∈ coil.inputs, ¬ m.Upstream i x

/-- The second program has the elements of the first one in their order, and others between
them which are not coils. -/
structure Extends (m m' : ElementMap) : Prop where
  sublist : m.elements.Sublist m'.elements
  notCoil : ∀ e ∈ m'.elements, e ∉ m.elements → e.kind ≠ .coil

theorem Extends.coils_eq (h : Extends m m') : m'.coils = m.coils := by
  -- no coil is added, so that the coils of the smaller program are a full sublist
  have hsub : m.coils.Sublist m'.coils := h.sublist.filter _
  refine (hsub.eq_of_length_le ?_).symm
  have hnodup : m'.coils.Nodup := (List.Nodup.of_map _ m'.distinct).filter _
  refine (hnodup.subperm ?_).length_le
  intro coil hcoil
  obtain ⟨hmem, hkind⟩ := List.mem_filter.1 hcoil
  refine List.mem_filter.2 ⟨?_, hkind⟩
  by_contra hnot
  exact h.notCoil coil hmem hnot (by simpa using hkind)

theorem Extends.find?_eq_some {e : Element} (h : Extends m m') (found : m.find? x = some e) :
    m'.find? x = some e := by
  rw [find?_eq_some_iff] at found ⊢
  exact ⟨h.sublist.mem found.1, found.2⟩

/-- Both programs find the same element, unless it is one of those between. -/
theorem Extends.find?_eq (h : Extends m m')
    (hx : ∀ e ∈ m'.elements, e ∉ m.elements → e.id ≠ x) : m'.find? x = m.find? x := by
  cases found : m'.find? x with
  | none =>
      cases found' : m.find? x with
      | none => rfl
      | some e => exact absurd ((h.find?_eq_some found').symm.trans found) (by simp)
  | some e =>
      have hmem : e ∈ m.elements := by
        by_contra hnot
        exact hx e (mem_of_find? found) hnot (id_of_find? found)
      rw [← id_of_find? found, find?_of_mem hmem]

/-- Elements that no chain can reach, in the larger program or in the smaller one, may be
there or not. -/
theorem Extends.rungs_eq (h : Extends m m')
    (hreach : (∀ e ∈ m'.elements, e ∉ m.elements → m'.OutOfReach e.id) ∨
      ∀ e ∈ m'.elements, e ∉ m.elements → m.OutOfReach e.id) : m'.rungs = m.rungs := by
  have hrefl : ∀ coils : List Element, List.Forall₂ Element.SameFront coils coils :=
    fun coils => List.forall₂_same.2 fun coil _ => .refl coil
  -- the first trace of a pair is the one whose chains are known to miss what is between
  rcases hreach with hlarge | hsmall
  · refine rungs_eq_of_seenAlike Function.injective_id
      (seenAlike_of_sameFront (by rw [h.coils_eq]; exact hrefl m.coils) ?_)
    intro coil hcoil i hi x hx
    apply alike_of_find?_eq
    refine (h.find?_eq ?_).symm
    rintro e hmem hnot rfl
    exact hlarge e hmem hnot coil hcoil i hi hx
  · refine (rungs_eq_of_seenAlike Function.injective_id
      (seenAlike_of_sameFront (by rw [h.coils_eq]; exact hrefl m.coils) ?_)).symm
    intro coil hcoil i hi x hx
    apply alike_of_find?_eq
    refine h.find?_eq ?_
    rintro e hmem hnot rfl
    exact hsmall e hmem hnot coil hcoil i hi hx

/-! ## What rungs depend on -/

/-- **Rungs depend only on what chains can see.**  They are the same for programs that look
alike along chains from the inputs of coils.  So new identifiers, another order of elements
that are no coils, such elements out of reach of every chain, tags, and later inputs of
elements that are no coils change nothing; and another order of all elements puts the rungs
in the order of their coils. -/
theorem rungs_depend_only_on_chains (m m' : ElementMap) :
    (∀ r, Function.Injective r → SeenAlike r m m' → m.rungs = m'.rungs) ∧
    (∀ r (hr : Function.Injective r), (m.rename r hr).rungs = m.rungs) ∧
    (m'.elements.Perm m.elements → m'.coils = m.coils → m'.rungs = m.rungs) ∧
    (Extends m m' →
      ((∀ e ∈ m'.elements, e ∉ m.elements → m'.OutOfReach e.id) ∨
        ∀ e ∈ m'.elements, e ∉ m.elements → m.OutOfReach e.id) → m'.rungs = m.rungs) ∧
    (List.Forall₂ Element.SameFront m.elements m'.elements → m'.rungs = m.rungs) ∧
    (m'.elements.Perm m.elements →
      m.rungs = m.coils.map m.rungOf ∧ m'.rungs = m'.coils.map m.rungOf) := by
  refine ⟨?_, ?_, ?_, ?_, ?_, ?_⟩
  · intro r hr h
    exact rungs_eq_of_seenAlike hr h
  · intro r hr
    exact (rungs_eq_of_seenAlike hr (seenAlike_rename hr)).symm
  · intro hperm hcoils
    rw [rungs_eq_of_perm hperm, hcoils, rungs_eq_map_coils]
  · intro hextends hreach
    exact hextends.rungs_eq hreach
  · intro hfront
    exact rungs_eq_of_sameFront hfront
  · intro hperm
    exact ⟨rungs_eq_map_coils m, rungs_eq_of_perm hperm⟩

/-- A lamp behind two contacts in parallel, one of which feeds itself. -/
def lamp : ElementMap where
  elements := [
    ⟨"0", .leftRail, "leftPowerRail", "", false, []⟩,
    ⟨"1", .contact, "contact", "On", false, ["0", "2"]⟩,
    ⟨"2", .contact, "contact", "Hold", true, ["2"]⟩,
    ⟨"3", .coil, "coil", "Lamp", false, ["1", "2"]⟩]
  distinct := by decide

/-- The same lamp: other identifiers, another order, a fed rail, a block that no chain
reaches, and other later inputs. -/
def lampRewired : ElementMap where
  elements := [
    ⟨"x", .other, "block", "Timer", false, ["n1"]⟩,
    ⟨"n9", .coil, "COIL", "Lamp", false, ["n1", "n2"]⟩,
    ⟨"n2", .contact, "Contact", "Hold", true, ["n2", "x"]⟩,
    ⟨"n1", .contact, "contact", "On", false, ["n0"]⟩,
    ⟨"n0", .leftRail, "leftPowerRail", "Supply", true, ["x"]⟩]
  distinct := by decide

theorem seenAlike_lamp : SeenAlike ("n" ++ ·) lamp lampRewired where
  coils := .cons (by decide) .nil
  chains coil hcoil i hi x hx := by
    have hinputs : ∀ coil ∈ lamp.coils, ∀ i ∈ coil.inputs, i ∈ ["0", "1", "2"] := by decide
    have hmem : x ∈ ["0", "1", "2"] :=
      hx.mem_of_closed (hinputs coil hcoil i hi) (by decide)
    simp only [List.mem_cons, List.not_mem_nil, or_false] at hmem
    rcases hmem with rfl | rfl | rfl
    · exact .some ⟨by decide, by decide, by decide⟩
    · exact .some ⟨by decide, by decide, by decide⟩
    · exact .some ⟨by decide, by decide, by decide⟩

theorem rungs_lampRewired :
    Function.Injective (fun x : String => "n" ++ x) ∧ SeenAlike ("n" ++ ·) lamp lampRewired ∧
      lamp.rungs = lampRewired.rungs := by
  have hinj : Function.Injective (fun x : String => "n" ++ x) := by
    intro x y hxy
    exact String.append_right_inj "n" |>.1 hxy
  exact ⟨hinj, seenAlike_lamp,
    (rungs_depend_only_on_chains lamp lampRewired).1 _ hinj seenAlike_lamp⟩

end ElementMap
end LadderLogic
